import EventMerge.Proofs.Event.Requests

/-!
# A name that cannot be decoded

What a name is decoded to, or that its decoding fails, is seen under that name only.  Two events whose
raw data differ in the decoding of one name answer whatever is asked of both the same, as far as it
does not show the collection of that name.

* `RawData.DifferOnlyAt`           raw data of the same sources that decode all names but one alike;
* `Event.pending?`                 the decoding that is still to be had of a name;
* `Event.AgreeApartFrom`           two events that hold the same apart from one collection;
* `Event.AgreeApartFrom.writeAll`  what is written, and the events afterwards;
* `Reply.apartFrom`                an answer without the collection of a name;
* `Event.AgreeApartFrom.perform`   one request;
* `Event.replies_apartFrom`        all requests.
-/

namespace EventMerge

/-! ## raw data that differ at one name -/

namespace RawData

/-- Raw data under one identity table and of the same sources, which decode every name alike, apart
from one at most. -/
structure DifferOnlyAt (raw raw' : RawData) (name : String) : Prop where
  table : raw.table = raw'.table
  sources : raw.suppliers.map Supplier.source = raw'.suppliers.map Supplier.source
  decodes : ∀ other, other ≠ name → raw.resolve? other = raw'.resolve? other

theorem differOnlyAt_self (raw : RawData) (name : String) : raw.DifferOnlyAt raw name :=
  ⟨rfl, rfl, fun _ _ => rfl⟩

theorem isSome_supplier? (raw : RawData) (source : SourceId) :
    (raw.supplier? source).isSome = decide (source ∈ raw.suppliers.map Supplier.source) := by
  rw [Bool.eq_iff_iff, supplier?, List.find?_isSome, decide_eq_true_iff, List.mem_map]
  simp only [decide_eq_true_eq]

/-- whether a name is decoded at all is up to the table and the sources that were read -/
theorem isSome_resolve? (raw : RawData) (name : String) :
    (raw.resolve? name).isSome
      = raw.table.sources.any fun entry =>
          entry.2.contains name && decide (entry.1 ∈ raw.suppliers.map Supplier.source) := by
  rw [resolve?, Option.isSome_map, provision?, List.isSome_findSome?]
  congr 1
  funext entry
  rw [← isSome_supplier?, provisionIn?, NameMap.contains]
  cases entry.2.get? name <;> cases raw.supplier? entry.1 <;> rfl

theorem DifferOnlyAt.isSome_resolve? {raw raw' : RawData} {name : String}
    (h : raw.DifferOnlyAt raw' name) (other : String) :
    (raw.resolve? other).isSome = (raw'.resolve? other).isSome := by
  rw [RawData.isSome_resolve?, RawData.isSome_resolve?, h.table, h.sources]

end RawData

/-- raw data that differ at one name, both still held, or else the same absence of raw data -/
inductive Supply.DifferOnlyAt (name : String) : Supply → Supply → Prop
  | none : DifferOnlyAt name .none .none
  | spent : DifferOnlyAt name .spent .spent
  | held {raw raw' : RawData} (h : raw.DifferOnlyAt raw' name) :
      DifferOnlyAt name (.held raw) (.held raw')

namespace Event

/-! ## what is still to be decoded -/

/-- the decoding that the raw data of an event have for a name -/
def pending? (e : Event) (name : String) : Option (Except DecodeError Buffers) :=
  e.raw?.bind fun raw => raw.resolve? name

theorem pending?_eq (e : Event) (name : String) :
    e.pending? name = (e.raw?.bind fun raw => raw.provision? name).map Provision.decode := by
  rw [pending?]
  cases e.raw? <;> rfl

/-- what is written for a name, held or not -/
theorem writeOne_value_eq (e : Event) (name : String) :
    (e.writeOne name).value
      = if e.contains name then (e.cache.buffersForWrite name).1
        else (e.pending? name).bind fun result =>
          match result with
          | .ok buffers => if buffers.isValid then some buffers else none
          | .error _ => none := by
  rw [writeOne, pending?_eq]
  split
  · rfl
  · cases e.raw?.bind fun raw => raw.provision? name <;> rfl

/-! ## events that agree apart from one name -/

/-- Two events of one kind and policy that hold the same, put in or decoded.  Under one name their
collections may differ, but either event holds one if the other does, and with the same origin; and
their raw data may decode that name differently. -/
structure AgreeApartFrom (name : String) (e e' : Event) : Prop where
  kind : e.kind = e'.kind
  policy : e.putPolicy = e'.putPolicy
  supply : Supply.DifferOnlyAt name e.supply e'.supply
  entries : ∀ other, other ≠ name → e.cache.get? other = e'.cache.get? other
  origins : ∀ other,
    (e.cache.get? other).map CacheEntry.origin = (e'.cache.get? other).map CacheEntry.origin

namespace AgreeApartFrom

variable {name : String} {e e' : Event}

theorem contains_eq (h : AgreeApartFrom name e e') (other : String) :
    e.contains other = e'.contains other := by
  have horigins := congrArg Option.isSome (h.origins other)
  rwa [Option.isSome_map, Option.isSome_map] at horigins

theorem admits_eq (h : AgreeApartFrom name e e') (other : String) :
    e.admits other = e'.admits other := by
  rw [admits, admits, h.policy, h.contains_eq]

/-- either event has raw data if the other does, and then the data differ at the name only -/
theorem raw?_cases (h : AgreeApartFrom name e e') :
    e.raw? = none ∧ e'.raw? = none
      ∨ ∃ raw raw', e.raw? = some raw ∧ e'.raw? = some raw' ∧ raw.DifferOnlyAt raw' name := by
  have hsupply := h.supply
  rw [raw?, raw?]
  generalize e.supply = supply, e'.supply = supply' at hsupply
  cases hsupply with
  | none => exact .inl ⟨rfl, rfl⟩
  | spent => exact .inl ⟨rfl, rfl⟩
  | held hraw => exact .inr ⟨_, _, rfl, rfl, hraw⟩

theorem pending?_eq_of_ne (h : AgreeApartFrom name e e') {other : String} (hother : other ≠ name) :
    e.pending? other = e'.pending? other := by
  rw [pending?, pending?]
  rcases h.raw?_cases with ⟨hleft, hright⟩ | ⟨raw, raw', hleft, hright, hraw⟩
  · simp only [hleft, hright]
  · simp only [hleft, hright]
    exact hraw.decodes other hother

theorem isSome_pending? (h : AgreeApartFrom name e e') (other : String) :
    (e.pending? other).isSome = (e'.pending? other).isSome := by
  rw [pending?, pending?]
  rcases h.raw?_cases with ⟨hleft, hright⟩ | ⟨raw, raw', hleft, hright, hraw⟩
  · simp only [hleft, hright]
  · simp only [hleft, hright]
    exact hraw.isSome_resolve? other

/-- events that agree still do so when both caches change alike -/
theorem withCache (h : AgreeApartFrom name e e') {cache cache' : Cache}
    (hentries : ∀ other, other ≠ name → cache.get? other = cache'.get? other)
    (horigins : ∀ other,
      (cache.get? other).map CacheEntry.origin = (cache'.get? other).map CacheEntry.origin) :
    AgreeApartFrom name { e with cache := cache } { e' with cache := cache' } :=
  ⟨h.kind, h.policy, h.supply, hentries, horigins⟩

/-! ## decoding -/

/-- that something was decoded does not tell to what -/
theorem map_decoded_eq {found found' : Option (Except DecodeError Buffers)}
    (h : found.isSome = found'.isSome) :
    (found.map fun _ => Origin.decoded) = found'.map fun _ => Origin.decoded := by
  cases found with
  | none =>
    cases found' with
    | none => rfl
    | some _ => cases h
  | some _ =>
    cases found' with
    | none => cases h
    | some _ => rfl

theorem materialize (h : AgreeApartFrom name e e') {raw raw' : RawData}
    (hraw : raw.DifferOnlyAt raw' name) :
    AgreeApartFrom name (e.materialize raw).1 (e'.materialize raw').1 := by
  refine ⟨h.kind, h.policy, .spent, fun other hother => ?_, fun other => ?_⟩
  · rw [get?_materialize, get?_materialize, h.entries other hother, RawData.decoded?,
      RawData.decoded?, hraw.decodes other hother]
  · rw [get?_materialize, get?_materialize, Option.map_or, Option.map_or, h.origins]
    simp only [RawData.decoded?, Option.map_map]
    exact congrArg _ (map_decoded_eq (hraw.isSome_resolve? other))

theorem readied (h : AgreeApartFrom name e e') : AgreeApartFrom name e.readied e'.readied := by
  have hsupply := h.supply
  rw [Event.readied, Event.readied, ← h.kind]
  cases e.kind with
  | lazy => exact h
  | eager =>
    generalize e.supply = supply, e'.supply = supply' at hsupply
    cases hsupply with
    | none => exact h
    | spent => exact h
    | held hraw => exact h.materialize hraw

theorem getLazy (h : AgreeApartFrom name e e') (other : String) :
    AgreeApartFrom name (e.getLazy other).event (e'.getLazy other).event := by
  have hget := e.get?_getLazy other
  have hget' := e'.get?_getLazy other
  have hpending : ∀ (e : Event), ((e.raw?.bind fun raw => raw.provision? other).map fun p =>
      (⟨Cache.ofDecoding p.decode, .decoded⟩ : CacheEntry))
        = (e.pending? other).map fun result => ⟨Cache.ofDecoding result, .decoded⟩ := by
    intro e
    rw [pending?_eq, Option.map_map]
    rfl
  simp only [hpending] at hget hget'
  obtain ⟨cache, hcache⟩ := e.getLazy_event other
  obtain ⟨cache', hcache'⟩ := e'.getLazy_event other
  rw [hcache] at hget ⊢
  rw [hcache'] at hget' ⊢
  refine h.withCache (fun third hthird => ?_) fun third => ?_
  · rw [hget, hget', h.entries third hthird]
    by_cases hname : third = other
    · rw [if_pos hname, if_pos hname, h.pending?_eq_of_ne (hname ▸ hthird)]
    · rw [if_neg hname, if_neg hname]
  · rw [hget, hget', Option.map_or, Option.map_or, h.origins]
    by_cases hname : third = other
    · rw [if_pos hname, if_pos hname, Option.map_map, Option.map_map]
      exact congrArg _ (map_decoded_eq (h.isSome_pending? other))
    · rw [if_neg hname, if_neg hname]

theorem collection?_eq (h : AgreeApartFrom name e e') {other : String} (hother : other ≠ name) :
    e.cache.collection? other = e'.cache.collection? other := by
  rw [Cache.collection?, Cache.collection?, h.entries other hother]

theorem getEager_value_eq (h : AgreeApartFrom name e e') {other : String} (hother : other ≠ name) :
    (e.getEager other).value = (e'.getEager other).value := by
  have hsupply := h.supply
  rw [Event.getEager, Event.getEager]
  generalize e.supply = supply, e'.supply = supply' at hsupply
  cases hsupply with
  | none => rfl
  | spent => exact congrArg Except.ok (h.collection?_eq hother)
  | held hraw => exact congrArg Except.ok ((h.materialize hraw).collection?_eq hother)

theorem get (h : AgreeApartFrom name e e') (other : String) :
    (other ≠ name → (e.get other).value = (e'.get other).value)
      ∧ AgreeApartFrom name (e.get other).event (e'.get other).event := by
  rw [Event.get, Event.get, ← h.kind]
  cases hkind : e.kind with
  | eager =>
    refine ⟨fun hother => h.getEager_value_eq hother, ?_⟩
    show AgreeApartFrom name (e.getEager other).event (e'.getEager other).event
    rw [getEager_event e other hkind, getEager_event e' other (h.kind ▸ hkind)]
    exact h.readied
  | lazy =>
    refine ⟨fun hother => congrArg Except.ok ?_, h.getLazy other⟩
    rw [getLazy_value, getLazy_value, (h.getLazy other).collection?_eq hother]

/-! ## writing -/

theorem writeOne_value_eq (h : AgreeApartFrom name e e') {other : String} (hother : other ≠ name) :
    (e.writeOne other).value = (e'.writeOne other).value := by
  rw [Event.writeOne_value_eq, Event.writeOne_value_eq, h.contains_eq, h.pending?_eq_of_ne hother]
  have hbuffers : (e.cache.buffersForWrite other).1 = (e'.cache.buffersForWrite other).1 := by
    rw [Cache.buffersForWrite, Cache.buffersForWrite, h.entries other hother]
    split
    · rfl
    · split <;> rfl
  rw [hbuffers]

theorem writeOne_event (h : AgreeApartFrom name e e') (other : String) :
    AgreeApartFrom name (e.writeOne other).event (e'.writeOne other).event := by
  have hget := e.get?_writeOne other
  have hget' := e'.get?_writeOne other
  rw [Event.writeOne_event] at hget hget' ⊢
  rw [Event.writeOne_event]
  have horigin : CacheEntry.origin ∘ Cache.afterWrite = CacheEntry.origin :=
    funext Cache.origin_afterWrite
  refine h.withCache (fun third hthird => ?_) fun third => ?_
  · rw [hget, hget']
    split
    · rename_i hname
      rw [h.entries other (hname ▸ hthird)]
    · exact h.entries third hthird
  · rw [hget, hget']
    split
    · rw [Option.map_map, Option.map_map, horigin]
      exact h.origins other
    · exact h.origins third

theorem writeAll (h : AgreeApartFrom name e e') (names : List String) :
    ((writeAll names e).value.filter fun payload => payload.1 ≠ name)
        = ((writeAll names e').value.filter fun payload => payload.1 ≠ name)
      ∧ AgreeApartFrom name (writeAll names e).event (writeAll names e').event := by
  induction names generalizing e e' with
  | nil => exact ⟨rfl, h⟩
  | cons other rest ih =>
    obtain ⟨hvalue, hevent⟩ := ih (h.writeOne_event other)
    refine ⟨?_, hevent⟩
    rw [value_writeAll_cons, value_writeAll_cons, List.filter_append, List.filter_append, hvalue]
    congr 1
    by_cases hother : other = name
    · have hnone : ∀ value : Option Buffers,
          ((value.map fun buffers => (other, buffers)).toList.filter
            fun payload => payload.1 ≠ name) = [] := by
        intro value
        cases value <;> simp [hother]
      rw [hnone, hnone]
    · rw [h.writeOne_value_eq hother]

theorem writableNames_eq (h : AgreeApartFrom name e e') : e.writableNames = e'.writableNames := by
  have hcached : e.cachedNames = e'.cachedNames := by
    refine NameMap.eq_of_sorted (NameMap.sorted_keys _) (NameMap.sorted_keys _) fun other => ?_
    have hcontains : e.cache.contains other = true ↔ e'.cache.contains other = true :=
      Bool.eq_iff_iff.mp (h.contains_eq other)
    exact NameMap.contains_iff_mem_keys.symm.trans
      (hcontains.trans NameMap.contains_iff_mem_keys)
  rw [writableNames, writableNames, hcached]
  rcases h.raw?_cases with ⟨hleft, hright⟩ | ⟨raw, raw', hleft, hright, hraw⟩
  · simp only [hleft, hright]
  · have hknown : raw.knownNames = raw'.knownNames := by
      rw [RawData.knownNames, RawData.knownNames, hraw.table]
    simp only [hleft, hright, hknown]

theorem collectionsForWrite (h : AgreeApartFrom name e e') (names : List String) :
    ((e.collectionsForWrite names).value.filter fun payload => payload.1 ≠ name)
        = ((e'.collectionsForWrite names).value.filter fun payload => payload.1 ≠ name)
      ∧ AgreeApartFrom name (e.collectionsForWrite names).event
          (e'.collectionsForWrite names).event := by
  rw [collectionsForWrite_value_eq, collectionsForWrite_value_eq, collectionsForWrite_event_eq,
    collectionsForWrite_event_eq, h.readied.writableNames_eq]
  exact h.readied.writeAll _

/-! ## putting collections in -/

theorem insert (h : AgreeApartFrom name e e') (other : String) (entry : CacheEntry) :
    AgreeApartFrom name { e with cache := e.cache.insert other entry }
      { e' with cache := e'.cache.insert other entry } := by
  refine h.withCache (fun third hthird => ?_) fun third => ?_
  · rw [NameMap.get?_insert, NameMap.get?_insert, h.entries third hthird]
  · rw [NameMap.get?_insert, NameMap.get?_insert]
    split
    · rfl
    · exact h.origins third

end AgreeApartFrom

end Event

/-! ## requests -/

/-- the answer to a request without the collection of a name: whether a put under it went through,
and the payloads that are written under other names -/
def Reply.apartFrom (name : String) : Request → Reply → Reply
  | .get other, reply => if other = name then .done else reply
  | .put other _, .stored result =>
    if other = name then .stored (result.map fun _ => {}) else .stored result
  | _, .written payloads => .written (payloads.filter fun payload => payload.1 ≠ name)
  | _, reply => reply

namespace Event

namespace AgreeApartFrom

variable {name : String} {e e' : Event}

theorem put (h : AgreeApartFrom name e e') (other : String) (c : Collection) :
    (e.perform (.put other c)).1.apartFrom name (.put other c)
        = (e'.perform (.put other c)).1.apartFrom name (.put other c)
      ∧ AgreeApartFrom name (e.perform (.put other c)).2 (e'.perform (.put other c)).2 := by
  have hadmits := h.admits_eq other
  rw [Event.perform, Event.perform]
  cases hleft : e.admits other with
  | true =>
    rw [put_of_admits hleft, put_of_admits (hadmits.symm.trans hleft)]
    exact ⟨rfl, h.insert other _⟩
  | false =>
    rcases put_of_not_admits hleft c with ⟨old, hold, hkeep, hput⟩ | ⟨hreject, hput⟩
    · rcases put_of_not_admits (hadmits.symm.trans hleft) c with
        ⟨old', hold', -, hput'⟩ | ⟨hreject', -⟩
      · rw [hput, hput']
        refine ⟨?_, h⟩
        by_cases hother : other = name
        · rw [Reply.apartFrom, Reply.apartFrom, if_pos hother, if_pos hother]
          rfl
        · rw [h.collection?_eq hother, hold'] at hold
          rw [Option.some.inj hold]
      · rw [← h.policy, hkeep] at hreject'
        cases hreject'
    · rcases put_of_not_admits (hadmits.symm.trans hleft) c with ⟨_, _, hkeep', _⟩ | ⟨-, hput'⟩
      · rw [← h.policy, hreject] at hkeep'
        cases hkeep'
      · rw [hput, hput']
        exact ⟨rfl, h⟩

theorem setRaw (h : AgreeApartFrom name e e') {raw raw' : RawData}
    (hraw : raw.DifferOnlyAt raw' name) : AgreeApartFrom name (e.setRaw raw) (e'.setRaw raw') := by
  refine ⟨h.kind, h.policy, .held hraw, fun other hother => ?_, fun other => ?_⟩
  · show e.cache.dropDecoded.get? other = e'.cache.dropDecoded.get? other
    rw [Cache.get?_dropDecoded, Cache.get?_dropDecoded, h.entries other hother]
  · show (e.cache.dropDecoded.get? other).map _ = (e'.cache.dropDecoded.get? other).map _
    have hkept : ∀ entry : Option CacheEntry,
        (entry.filter fun entry => entry.origin = .runtime).map CacheEntry.origin
          = (entry.map CacheEntry.origin).filter fun origin => origin = .runtime := by
      intro entry
      rw [Option.filter_map]
      rfl
    rw [Cache.get?_dropDecoded, Cache.get?_dropDecoded, hkept, hkept, h.origins]

theorem reuse (h : AgreeApartFrom name e e') : AgreeApartFrom name e.reuse e'.reuse :=
  ⟨h.kind, h.policy, .none, fun _ _ => rfl, fun _ => rfl⟩

/-- **A request is answered alike, apart from the collection of the name**, and leaves events that
agree apart from it. -/
theorem perform (h : AgreeApartFrom name e e') (request : Request) :
    (e.perform request).1.apartFrom name request = (e'.perform request).1.apartFrom name request
      ∧ AgreeApartFrom name (e.perform request).2 (e'.perform request).2 := by
  cases request with
  | put other c => exact h.put other c
  | get other =>
    obtain ⟨hvalue, hevent⟩ := h.get other
    refine ⟨?_, hevent⟩
    rw [Reply.apartFrom, Reply.apartFrom]
    by_cases hother : other = name
    · rw [if_pos hother, if_pos hother]
    · rw [if_neg hother, if_neg hother]
      exact congrArg Reply.found (hvalue hother)
  | setRaw raw => exact ⟨rfl, h.setRaw (raw.differOnlyAt_self name)⟩
  | write names =>
    obtain ⟨hvalue, hevent⟩ := h.collectionsForWrite names
    exact ⟨congrArg Reply.written hvalue, hevent⟩
  | reuse => exact ⟨rfl, h.reuse⟩

theorem replies (h : AgreeApartFrom name e e') (requests : List Request) :
    List.zipWith (Reply.apartFrom name) requests (Event.replies requests e)
      = List.zipWith (Reply.apartFrom name) requests (Event.replies requests e') := by
  induction requests generalizing e e' with
  | nil => rfl
  | cons request rest ih =>
    obtain ⟨hreply, hnext⟩ := h.perform request
    rw [replies_cons, replies_cons, List.zipWith_cons_cons, List.zipWith_cons_cons, hreply,
      ih hnext]

end AgreeApartFrom

theorem agreeApartFrom_fresh (kind : EventKind) (policy : PutPolicy) (name : String) :
    AgreeApartFrom name (fresh kind policy) (fresh kind policy) :=
  ⟨rfl, rfl, .none, fun _ _ => rfl, fun _ => rfl⟩

/-- **What one name is decoded to is seen under this name only.**  Two new events of one kind and
policy that are given raw data of the same sources, which decode all names but one alike, answer all
requests alike: other names give the same collections, a put goes through for one event if it does for
the other, whatever its name, and of other names the same is written. -/
theorem replies_apartFrom (kind : EventKind) (policy : PutPolicy) {raw raw' : RawData}
    {name : String} (h : raw.DifferOnlyAt raw' name) (requests : List Request) :
    List.zipWith (Reply.apartFrom name) requests
        (replies requests ((fresh kind policy).setRaw raw))
      = List.zipWith (Reply.apartFrom name) requests
          (replies requests ((fresh kind policy).setRaw raw')) :=
  ((agreeApartFrom_fresh kind policy name).setRaw h).replies requests

/-- the raw data of `partlyReadable` with a second collection that can be decoded -/
def whollyReadable : RawData :=
  { partlyReadable with
    suppliers := [{
      source := ⟨0⟩
      feed := "detector"
      handle := .row [some ⟨[1, 2], none, none, some 1⟩, some ⟨[3], none, none, some 2⟩]
      decoder := .row }] }

theorem differOnlyAt_whollyReadable : partlyReadable.DifferOnlyAt whollyReadable "tracks" := by
  refine ⟨rfl, rfl, fun other hother => ?_⟩
  by_cases hhits : other = "hits"
  · subst hhits
    rfl
  · have hindex : (NameMap.ofList [("hits", (⟨0⟩ : LocalIndex)), ("tracks", ⟨1⟩)]).get? other
        = none := by
      rw [NameMap.get?_ofList (by decide), NameMap.lookup_cons, NameMap.lookup_cons, if_neg hhits,
        if_neg hother, NameMap.lookup_nil]
    have hnone : ∀ raw : RawData, raw.table = partlyReadable.table → raw.resolve? other = none := by
      intro raw htable
      rw [RawData.resolve?, RawData.provision?, htable]
      show ([_].findSome? _).map _ = none
      rw [List.findSome?_singleton, RawData.provisionIn?, hindex]
      rfl
    rw [hnone partlyReadable rfl, hnone whollyReadable rfl]

/-- whether the tracks can be decoded is seen in no other name, and in no put: even the one that is
refused for what is there already is refused for both events -/
theorem replies_apartFrom_tracks :
    List.zipWith (Reply.apartFrom "tracks")
        [.get "tracks", .get "hits", .put "tracks" {}, .write []]
        (replies [.get "tracks", .get "hits", .put "tracks" {}, .write []]
          ((fresh .lazy .reject).setRaw partlyReadable))
      = [.done, .found (.ok (some (.ofBuffers (Buffers.complete [1, 2] [] [] 1)))),
          .stored (.error (.collectionExists "tracks")),
          .written [("hits", Buffers.complete [1, 2] [] [] 1)]] :=
  (replies_apartFrom .lazy .reject differOnlyAt_whollyReadable
    [.get "tracks", .get "hits", .put "tracks" {}, .write []]).trans (by rfl)

end Event

end EventMerge
