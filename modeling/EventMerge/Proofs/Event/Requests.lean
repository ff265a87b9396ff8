import EventMerge.Proofs.Collection.Marks
import EventMerge.Proofs.Event.Reading

/-!
# Requests to an event

Whatever is asked of an event, in whatever order, what it writes is known from what it was told: the
collections put in that took hold, and the latest raw data.

* `Request`, `Reply`                what can be asked of an event, and what it answers;
* `Event.perform`, `Event.replies`, `Event.after`  one request, and one after the other;
* `Ledger`                          what an event has been told since it was last started over;
* `Collection.Built`                the collections that can be put in;
* `Event.Records`                   an event holds what it was told, and marks it as such;
* `Event.collectionsForWrite_after`  after any requests exactly the payloads that the ledger gives are
                                    written.
-/

namespace EventMerge

/-! ## the collections that can be put in -/

namespace Collection

/-- a collection that was made by the operations on collections -/
inductive Built : Collection → Prop
  | new : Built {}
  | ofBuffers (buffers : Buffers) : Built (ofBuffers buffers)
  | setData {c : Collection} (data : Bytes) : Built c → Built (c.setData data)
  | setRelations {c : Collection} (relations : List Bytes) :
      Built c → Built (c.setRelations relations)
  | setVectorMembers {c : Collection} (members : List VectorMember) :
      Built c → Built (c.setVectorMembers members)
  | setSchemaVersion {c : Collection} (version : UInt32) :
      Built c → Built (c.setSchemaVersion version)
  | prepareAfterRead {c : Collection} : Built c → Built c.prepareAfterRead
  | setReferences {c : Collection} : Built c → Built c.setReferences
  | prepareForWrite {c : Collection} : Built c → Built c.prepareForWrite

theorem Built.sound {c : Collection} (h : c.Built) : c.Sound := by
  induction h with
  | new => exact sound_touched {}
  | ofBuffers buffers => exact sound_ofBuffers buffers
  | setData data _ _ => exact sound_touched _
  | setRelations relations _ _ => exact sound_touched _
  | setVectorMembers members _ _ => exact sound_touched _
  | setSchemaVersion version _ _ => exact sound_touched _
  | prepareAfterRead _ ih => exact ih.prepareAfterRead
  | setReferences _ ih => exact ih.setReferences
  | prepareForWrite _ ih => exact ih.prepareForWrite

theorem Built.buffers_prepareForWrite {c : Collection} (h : c.Built) :
    c.prepareForWrite.buffers = c.buffers.filled := h.sound.buffers_prepareForWrite

end Collection

/-! ## requests -/

/-- what can be asked of an event -/
inductive Request where
  | put (name : String) (collection : Collection)
  | get (name : String)
  | setRaw (raw : RawData)
  | write (names : List String)
  | reuse

/-- what an event answers -/
inductive Reply where
  | stored (result : Except StoreError Collection)
  | found (result : Except StoreError (Option Collection))
  | written (payloads : List (String × Buffers))
  | done

namespace Request

/-- the request only reads -/
def isRead : Request → Bool
  | get _ => true
  | write _ => true
  | _ => false

def isPut : Request → Bool
  | put _ _ => true
  | _ => false

/-- the latest raw data after a request -/
def rawAfter (raw : Option RawData) : Request → Option RawData
  | setRaw r => some r
  | reuse => none
  | _ => raw

end Request

namespace Event

/-- the answer to a request and the event afterwards -/
def perform (e : Event) : Request → Reply × Event
  | .put name c =>
    match e.put name c with
    | .ok (stored, next) => (.stored (.ok stored), next)
    | .error error => (.stored (.error error), e)
  | .get name => (.found (e.get name).value, (e.get name).event)
  | .setRaw raw => (.done, e.setRaw raw)
  | .write names =>
    (.written (e.collectionsForWrite names).value, (e.collectionsForWrite names).event)
  | .reuse => (.done, e.reuse)

/-- the answers to requests, one after the other -/
def replies : List Request → Event → List Reply
  | [], _ => []
  | request :: rest, e => (e.perform request).1 :: replies rest (e.perform request).2

/-- the event after requests -/
def after : List Request → Event → Event
  | [], e => e
  | request :: rest, e => after rest (e.perform request).2

theorem replies_cons (request : Request) (rest : List Request) (e : Event) :
    replies (request :: rest) e = (e.perform request).1 :: replies rest (e.perform request).2 := rfl

theorem after_cons (request : Request) (rest : List Request) (e : Event) :
    after (request :: rest) e = after rest (e.perform request).2 := rfl

theorem after_append (first second : List Request) (e : Event) :
    after (first ++ second) e = after second (after first e) := by
  induction first generalizing e with
  | nil => rfl
  | cons request rest ih => exact ih (e.perform request).2

theorem perform_put_event (e : Event) (name : String) (c : Collection) :
    (e.perform (.put name c)).2 = e.afterPut name c := by
  rw [perform, afterPut]
  cases e.put name c <;> rfl

theorem kind_perform (e : Event) (request : Request) : (e.perform request).2.kind = e.kind := by
  cases request with
  | put name c => rw [perform_put_event, kind_afterPut]
  | get name => exact e.kind_get name
  | setRaw r => rfl
  | write names => exact e.kind_collectionsForWrite names
  | reuse => rfl

theorem putPolicy_perform (e : Event) (request : Request) :
    (e.perform request).2.putPolicy = e.putPolicy := by
  cases request with
  | put name c => rw [perform_put_event, putPolicy_afterPut]
  | get name => exact e.putPolicy_get name
  | setRaw r => rfl
  | write names => exact e.putPolicy_collectionsForWrite names
  | reuse => rfl

theorem putPolicy_after (requests : List Request) (e : Event) :
    (after requests e).putPolicy = e.putPolicy := by
  induction requests generalizing e with
  | nil => rfl
  | cons request rest ih => rw [after_cons, ih, putPolicy_perform]

theorem Follows.perform {e : Event} {raw : Option RawData} (h : e.Follows raw) (request : Request) :
    (e.perform request).2.Follows (request.rawAfter raw) := by
  cases request with
  | put name c =>
    rw [perform_put_event]
    exact h.afterPut name c
  | get name => exact h.get name
  | setRaw r => exact e.follows_setRaw r
  | write names => exact h.collectionsForWrite names
  | reuse => exact follows_fresh e.kind e.putPolicy

end Event

/-! ## what an event was told -/

/-- what an event has been told since it was last started over: the collections put in that took
hold, and the latest raw data -/
structure Ledger where
  puts : NameMap Collection := .empty
  raw : Option RawData := none

namespace Ledger

/-- the ledger after a request to an event -/
def note (ledger : Ledger) (e : Event) : Request → Ledger
  | .put name c =>
    if e.admits name then { ledger with puts := ledger.puts.insert name c } else ledger
  | .setRaw raw => { ledger with raw := some raw }
  | .reuse => {}
  | _ => ledger

/-- the payload to be written for a name: what was put in, with defaults in its unset fields, or else
what the latest raw data give, if all its fields are set -/
def payload? (ledger : Ledger) (name : String) : Option Buffers :=
  match ledger.puts.get? name with
  | some c => some c.buffers.filled
  | none => ledger.raw.bind fun raw => raw.readable? name

def payloads (ledger : Ledger) (names : List String) : List (String × Buffers) :=
  names.filterMap fun name => (ledger.payload? name).map fun buffers => (name, buffers)

theorem raw_note (ledger : Ledger) (e : Event) (request : Request) :
    (ledger.note e request).raw = request.rawAfter ledger.raw := by
  cases request with
  | put name c => rw [note]; split <;> rfl
  | get name => rfl
  | setRaw r => rfl
  | write names => rfl
  | reuse => rfl

theorem note_of_isRead (ledger : Ledger) (e : Event) {request : Request}
    (h : request.isRead = true) : ledger.note e request = ledger := by
  cases request with
  | get name => rfl
  | write names => rfl
  | put name c => cases h
  | setRaw r => cases h
  | reuse => cases h

theorem isValid_of_payload? {ledger : Ledger} {name : String} {buffers : Buffers}
    (h : ledger.payload? name = some buffers) : buffers.isValid = true := by
  rw [payload?] at h
  split at h
  · rename_i c _
    rw [← Option.some.inj h]
    exact c.buffers.isValid_filled
  · obtain ⟨r, -, hread⟩ := Option.bind_eq_some_iff.mp h
    rw [RawData.readable?_eq] at hread
    obtain ⟨c, hc, hbuffers⟩ := Option.bind_eq_some_iff.mp hread
    obtain ⟨result, -, rfl⟩ := Option.map_eq_some_iff.mp hc
    split at hbuffers
    · rename_i hvalid
      rw [← Option.some.inj hbuffers, Cache.isValid_ofDecoding, hvalid]
    · cases hbuffers

end Ledger

namespace Event

/-- the ledger after requests -/
def noted : List Request → Event → Ledger → Ledger
  | [], _, ledger => ledger
  | request :: rest, e, ledger => noted rest (e.perform request).2 (ledger.note e request)

theorem noted_append (first second : List Request) (e : Event) (ledger : Ledger) :
    noted (first ++ second) e ledger = noted second (after first e) (noted first e ledger) := by
  induction first generalizing e ledger with
  | nil => rfl
  | cons request rest ih => exact ih (e.perform request).2 (ledger.note e request)

theorem noted_of_isRead {reads : List Request} (h : ∀ request ∈ reads, request.isRead = true)
    (e : Event) (ledger : Ledger) : noted reads e ledger = ledger := by
  induction reads generalizing e ledger with
  | nil => rfl
  | cons request rest ih =>
    rw [noted, ledger.note_of_isRead e (h request List.mem_cons_self)]
    exact ih (fun r hr => h r (List.mem_cons_of_mem _ hr)) _ _

/-- the ledger does not depend on the event where puts always take hold or there are none -/
theorem noted_congr {requests : List Request} {e e' : Event} (ledger : Ledger)
    (hpolicy : e'.putPolicy = e.putPolicy)
    (h : e.putPolicy = .replace ∨ ∀ request ∈ requests, request.isPut = false) :
    noted requests e' ledger = noted requests e ledger := by
  induction requests generalizing e e' ledger with
  | nil => rfl
  | cons request rest ih =>
    have hnote : ledger.note e' request = ledger.note e request := by
      cases request with
      | put name c =>
        rcases h with h | h
        · rw [Ledger.note, Ledger.note, admits, admits, hpolicy, h]
          rfl
        · have hput := h (.put name c) List.mem_cons_self
          cases hput
      | get name => rfl
      | setRaw r => rfl
      | write names => rfl
      | reuse => rfl
    rw [noted, noted, hnote]
    refine ih _ (by rw [putPolicy_perform, putPolicy_perform, hpolicy]) ?_
    rw [putPolicy_perform]
    exact h.imp_right fun h r hr => h r (List.mem_cons_of_mem _ hr)

/-- An event that holds what its ledger says.  A collection that was put in may have been prepared
for writing since. -/
structure Records (e : Event) (ledger : Ledger) : Prop where
  follows : e.Follows ledger.raw
  puts : ∀ name, (e.runtime? name).map Collection.prepareForWrite
    = (ledger.puts.get? name).map Collection.prepareForWrite
  built : ∀ name c, ledger.puts.get? name = some c → c.Built

theorem records_fresh (kind : EventKind) (policy : PutPolicy) : (fresh kind policy).Records {} :=
  ⟨follows_fresh kind policy, fun _ => rfl, fun _ _ => (nomatch ·)⟩

namespace Records

variable {e : Event} {ledger : Ledger}

theorem perform (h : e.Records ledger) (request : Request)
    (hbuilt : ∀ name c, request = .put name c → c.Built) :
    (e.perform request).2.Records (ledger.note e request) := by
  have hfollows := h.follows.perform request
  rw [← ledger.raw_note e] at hfollows
  cases request with
  | put name c =>
    refine ⟨hfollows, fun other => ?_, fun other d hd => ?_⟩
    · rw [perform_put_event, runtime?_afterPut, Ledger.note]
      cases hadmits : e.admits name with
      | false => simpa using h.puts other
      | true =>
        show _ = ((ledger.puts.insert name c).get? other).map _
        rw [NameMap.get?_insert]
        by_cases hname : other = name
        · rw [if_pos ⟨rfl, hname⟩, if_pos hname]
        · rw [if_neg fun h => hname h.2, if_neg hname]
          exact h.puts other
    · rw [Ledger.note] at hd
      split at hd
      · have hget : (ledger.puts.insert name c).get? other = some d := hd
        rw [NameMap.get?_insert] at hget
        split at hget
        · cases hget
          exact hbuilt name c rfl
        · exact h.built other d hget
      · exact h.built other d hd
  | get name =>
    refine ⟨hfollows, fun other => ?_, h.built⟩
    exact (congrArg _ (e.runtime?_get name other)).trans (h.puts other)
  | setRaw r =>
    refine ⟨hfollows, fun other => ?_, h.built⟩
    exact (congrArg _ (e.runtime?_setRaw r other)).trans (h.puts other)
  | write names =>
    refine ⟨hfollows, fun other => ?_, h.built⟩
    show ((e.collectionsForWrite names).event.runtime? other).map _ = _
    rw [runtime?_collectionsForWrite]
    split
    · have hagain : Collection.prepareForWrite ∘ Collection.prepareForWrite
          = Collection.prepareForWrite := funext Collection.prepareForWrite_prepareForWrite
      rw [Option.map_map, hagain]
      exact h.puts other
    · exact h.puts other
  | reuse => exact ⟨hfollows, fun _ => rfl, fun _ _ => (nomatch ·)⟩

theorem after (h : e.Records ledger) (requests : List Request)
    (hbuilt : ∀ name c, .put name c ∈ requests → c.Built) :
    (Event.after requests e).Records (noted requests e ledger) := by
  induction requests generalizing e ledger with
  | nil => exact h
  | cons request rest ih =>
    refine ih (h.perform request fun name c heq => ?_) fun name c hmem => ?_
    · exact hbuilt name c (heq ▸ List.mem_cons_self)
    · exact hbuilt name c (List.mem_cons_of_mem _ hmem)

/-- requests that only read leave an event with the same ledger -/
theorem afterReads (h : e.Records ledger) {reads : List Request}
    (hreads : ∀ request ∈ reads, request.isRead = true) : (Event.after reads e).Records ledger := by
  have hafter := h.after reads fun name c hmem => nomatch hreads _ hmem
  rw [noted_of_isRead hreads] at hafter
  exact hafter

theorem offer?_eq (h : e.Records ledger) (name : String) :
    e.offer? ledger.raw name = ledger.payload? name := by
  have hputs := h.puts name
  rw [offer?, Ledger.payload?]
  cases hget : ledger.puts.get? name with
  | none =>
    rw [hget, Option.map_none, Option.map_eq_none_iff] at hputs
    rw [hputs]
  | some c =>
    rw [hget, Option.map_some] at hputs
    obtain ⟨d, hruntime, hprepared⟩ := Option.map_eq_some_iff.mp hputs
    rw [hruntime]
    show some d.prepareForWrite.buffers = some c.buffers.filled
    rw [hprepared, (h.built name c hget).buffers_prepareForWrite]

theorem collectionsForWrite_value (h : e.Records ledger) (names : List String) :
    (e.collectionsForWrite names).value
      = ledger.payloads (if names.isEmpty then e.allNames ledger.raw else names) := by
  rw [h.follows.collectionsForWrite_value, Ledger.payloads]
  simp only [h.offer?_eq]

theorem collectionsForWrite_congr {e' : Event} (h : e.Records ledger) (h' : e'.Records ledger)
    (names : List String) :
    (e'.collectionsForWrite names).value = (e.collectionsForWrite names).value := by
  refine h.follows.collectionsForWrite_congr h'.follows (fun name => ?_) names
  rw [h.offer?_eq, h'.offer?_eq]

end Records

/-- **What an event writes is exact.**  After any requests, the payloads that are written are those
that the ledger gives, for the names in their order or for all names, and all their fields are set.
Requests that only read do not change them: under every policy if they are made directly before, and
made before the rest of the requests unless a later put can be refused. -/
theorem collectionsForWrite_after (kind : EventKind) (policy : PutPolicy) (requests : List Request)
    (hbuilt : ∀ name c, .put name c ∈ requests → c.Built) (names : List String) :
    ((after requests (fresh kind policy)).collectionsForWrite names).value
        = (noted requests (fresh kind policy) {}).payloads
            (if names.isEmpty then
              (after requests (fresh kind policy)).allNames
                (noted requests (fresh kind policy) {}).raw
            else names)
      ∧ (∀ payload ∈ ((after requests (fresh kind policy)).collectionsForWrite names).value,
          payload.2.isValid = true)
      ∧ (∀ reads : List Request, (∀ request ∈ reads, request.isRead = true) →
          ((after (requests ++ reads) (fresh kind policy)).collectionsForWrite names).value
            = ((after requests (fresh kind policy)).collectionsForWrite names).value)
      ∧ ∀ earlier reads later, requests = earlier ++ later →
          (∀ request ∈ reads, request.isRead = true) →
          (policy = .replace ∨ ∀ request ∈ later, request.isPut = false) →
          ((after (earlier ++ reads ++ later) (fresh kind policy)).collectionsForWrite names).value
            = ((after requests (fresh kind policy)).collectionsForWrite names).value := by
  have hrecords := (records_fresh kind policy).after requests hbuilt
  have hvalue := hrecords.collectionsForWrite_value names
  refine ⟨hvalue, fun payload hmem => ?_, fun reads hreads => ?_,
    fun earlier reads later heq hreads hlater => ?_⟩
  · rw [hvalue] at hmem
    obtain ⟨name, -, hname⟩ := List.mem_filterMap.mp hmem
    obtain ⟨buffers, hbuffers, rfl⟩ := Option.map_eq_some_iff.mp hname
    exact Ledger.isValid_of_payload? hbuffers
  · rw [after_append]
    exact hrecords.collectionsForWrite_congr (hrecords.afterReads hreads) names
  · subst heq
    have hearlier := (records_fresh kind policy).after earlier fun name c hmem =>
      hbuilt name c (List.mem_append_left _ hmem)
    have hwith := (hearlier.afterReads hreads).after later fun name c hmem =>
      hbuilt name c (List.mem_append_right _ hmem)
    -- what is read in between decides on no put behind it
    have hledger : noted later (after reads (after earlier (fresh kind policy)))
          (noted earlier (fresh kind policy) {})
        = noted (earlier ++ later) (fresh kind policy) {} := by
      rw [noted_append]
      refine noted_congr _ (putPolicy_after reads _) ?_
      rw [putPolicy_after]
      exact hlater
    rw [hledger, ← after_append, ← after_append, ← List.append_assoc] at hwith
    exact hrecords.collectionsForWrite_congr hwith names

/-- raw data of one source with two collections, of which the second cannot be decoded -/
def partlyReadable : RawData :=
  { table := ⟨[(⟨0⟩, NameMap.ofList [("hits", ⟨0⟩), ("tracks", ⟨1⟩)])]⟩
    suppliers := [{
      source := ⟨0⟩
      feed := "detector"
      handle := .row [some ⟨[1, 2], none, none, some 1⟩, none]
      decoder := .row }] }

/-- what was put in is written with its defaults, what cannot be decoded is not written, and reading
and writing before, also in front of the put, changes nothing -/
theorem collectionsForWrite_after_partlyReadable :
    ((after [.setRaw partlyReadable, .put "notes" {}]
        (fresh .lazy .keepOriginal)).collectionsForWrite []).value
        = [("hits", Buffers.complete [1, 2] [] [] 1), ("notes", Buffers.complete [] [] [] 1)]
      ∧ ((after [.setRaw partlyReadable, .put "notes" {}, .get "tracks", .write ["notes"]]
          (fresh .lazy .keepOriginal)).collectionsForWrite []).value
        = [("hits", Buffers.complete [1, 2] [] [] 1), ("notes", Buffers.complete [] [] [] 1)]
      ∧ ((after [.setRaw partlyReadable, .get "tracks", .put "notes" {}]
          (fresh .lazy .replace)).collectionsForWrite []).value
        = [("hits", Buffers.complete [1, 2] [] [] 1), ("notes", Buffers.complete [] [] [] 1)] := by
  have hbuilt : ∀ name c,
      .put name c ∈ [Request.setRaw partlyReadable, .put "notes" {}] → c.Built := by
    intro name c hmem
    simp only [List.mem_cons, reduceCtorEq, Request.put.injEq, List.not_mem_nil, or_false,
      false_or] at hmem
    rw [hmem.2]
    exact .new
  have hpayloads : ∀ policy,
      ((after [.setRaw partlyReadable, .put "notes" {}]
        (fresh .lazy policy)).collectionsForWrite []).value
        = [("hits", Buffers.complete [1, 2] [] [] 1), ("notes", Buffers.complete [] [] [] 1)] := by
    intro policy
    refine (collectionsForWrite_after .lazy policy _ hbuilt []).1.trans ?_
    cases policy <;> decide
  obtain ⟨-, -, hdirectly, -⟩ := collectionsForWrite_after .lazy .keepOriginal
    [.setRaw partlyReadable, .put "notes" {}] hbuilt []
  obtain ⟨-, -, -, hbefore⟩ := collectionsForWrite_after .lazy .replace
    [.setRaw partlyReadable, .put "notes" {}] hbuilt []
  refine ⟨hpayloads _, ?_, ?_⟩
  · exact (hdirectly [.get "tracks", .write ["notes"]] (by simp [Request.isRead])).trans
      (hpayloads _)
  · exact (hbefore [.setRaw partlyReadable] [.get "tracks"] [.put "notes" {}] rfl
      (by simp [Request.isRead]) (.inl rfl)).trans (hpayloads _)

end Event

end EventMerge
