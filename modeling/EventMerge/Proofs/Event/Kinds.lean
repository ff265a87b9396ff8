import EventMerge.Proofs.Event.Requests

/-!
# Eager and lazy events

An eager and a lazy event of one policy that are asked the same answer the same, the marks of writing
apart, if nothing is read before there are raw data and no put depends on what has been decoded so
far.

* `Reply.unmarked`          an answer without the marks of writing;
* `Event.readsAreSupplied`  nothing is read before there are raw data;
* `Event.isPremature`       a put under a name that a lazy event could still decode;
* `Event.Alike`             the two events hold the same as far as it can be seen;
* `Event.Alike.perform`     one request: the same answer, and events that are still alike;
* `Event.replies_eager_eq_lazy`  all requests.
-/

namespace EventMerge

/-- the answer without the marks of writing -/
def Reply.unmarked : Reply → Reply
  | stored result => .stored (result.map Collection.unprepared)
  | found result => .found (result.map (Option.map Collection.unprepared))
  | written payloads => .written payloads
  | done => .done

namespace Event

/-! ## which requests are asked -/

/-- nothing is read before there are raw data, which `given` says of the start -/
def readsAreSupplied (given : Bool) : List Request → Bool
  | [] => true
  | .get _ :: rest => given && readsAreSupplied given rest
  | .setRaw _ :: rest => readsAreSupplied true rest
  | .reuse :: rest => readsAreSupplied false rest
  | .put _ _ :: rest => readsAreSupplied given rest
  | .write _ :: rest => readsAreSupplied given rest

/-- a put under a name that the raw data provide and the event does not hold yet -/
def isPremature (e : Event) : Request → Bool
  | .put name _ => (e.raw?.bind fun raw => raw.provision? name).isSome && !e.contains name
  | _ => false

/-- no put among the requests is premature -/
def putsAreTimely : List Request → Event → Bool
  | [], _ => true
  | request :: rest, e => !e.isPremature request && putsAreTimely rest (e.perform request).2

theorem readsAreSupplied_cons {raw : Option RawData} {request : Request} {rest : List Request}
    (h : readsAreSupplied raw.isSome (request :: rest) = true) :
    (∀ name, request = .get name → raw.isSome = true)
      ∧ readsAreSupplied (request.rawAfter raw).isSome rest = true := by
  cases request with
  | put name c => exact ⟨fun _ => (nomatch ·), h⟩
  | get name =>
    obtain ⟨hgiven, hrest⟩ := Bool.and_eq_true_iff.mp h
    exact ⟨fun _ _ => hgiven, hrest⟩
  | setRaw r => exact ⟨fun _ => (nomatch ·), h⟩
  | write names => exact ⟨fun _ => (nomatch ·), h⟩
  | reuse => exact ⟨fun _ => (nomatch ·), h⟩

/-! ## events that hold the same -/

/-- An eager and a lazy event that follow the same raw data and hold the same collections put in.
The eager one may hold more of what was decoded. -/
structure Alike (e l : Event) (raw : Option RawData) : Prop where
  eager : e.kind = .eager
  lazy : l.kind = .lazy
  policy : e.putPolicy = l.putPolicy
  followsEager : e.Follows raw
  followsLazy : l.Follows raw
  runtime : ∀ name, e.runtime? name = l.runtime? name
  held : ∀ name, l.contains name = true → e.contains name = true

theorem alike_fresh (policy : PutPolicy) : Alike (fresh .eager policy) (fresh .lazy policy) none :=
  ⟨rfl, rfl, rfl, follows_fresh .eager policy, follows_fresh .lazy policy,
    fun _ => rfl, fun _ h => h⟩

namespace Alike

variable {e l : Event} {raw : Option RawData}

theorem shown?_eq (h : Alike e l raw) (name : String) : e.shown? raw name = l.shown? raw name := by
  rw [shown?, shown?, h.runtime]

theorem contains_eq (h : Alike e l raw) {name : String} (c : Collection)
    (htimely : l.isPremature (.put name c) = false) : e.contains name = l.contains name := by
  cases hlazy : l.contains name with
  | true => exact h.held name hlazy
  | false =>
    have hget := NameMap.contains_eq_false_iff.mp hlazy
    have hprovision : (l.raw?.bind fun raw => raw.provision? name) = none := by
      rw [isPremature, hlazy] at htimely
      simpa using htimely
    have hdecoded : decodedFrom? raw name = none := by
      rw [h.followsLazy.decodedFrom?_of_get? hget, hprovision, Option.map_none]
    cases heager : e.contains name with
    | false => rfl
    | true =>
      have hshown := h.followsEager.shown?_of_contains heager
      rw [h.shown?_eq, shown?, runtime?_eq_none_of_get? hget, hdecoded] at hshown
      cases hshown

theorem admits_eq (h : Alike e l raw) {name : String} (c : Collection)
    (hput : l.putPolicy = .replace ∨ l.isPremature (.put name c) = false) :
    e.admits name = l.admits name := by
  rw [admits, admits, h.policy]
  rcases hput with hreplace | htimely
  · rw [hreplace]
    rfl
  · rw [h.contains_eq c htimely]

/-! ## one request -/

theorem get (h : Alike e l raw) (hraw : raw.isSome = true) (name : String) :
    (Reply.found (e.get name).value).unmarked = (Reply.found (l.get name).value).unmarked := by
  obtain ⟨found, heager, hshown⟩ := h.followsEager.get_value hraw name
  obtain ⟨found', hlazy, hshown'⟩ := h.followsLazy.get_value hraw name
  rw [heager, hlazy]
  show Reply.found (.ok (found.map _)) = Reply.found (.ok (found'.map _))
  rw [hshown, hshown', h.shown?_eq]

theorem put (h : Alike e l raw) (name : String) (c : Collection)
    (hput : l.putPolicy = .replace ∨ l.isPremature (.put name c) = false) :
    (e.perform (.put name c)).1.unmarked = (l.perform (.put name c)).1.unmarked := by
  have hadmits := h.admits_eq c hput
  rw [Event.perform, Event.perform]
  cases hl : l.admits name with
  | true =>
    rw [put_of_admits hl, put_of_admits (hadmits.trans hl)]
  | false =>
    have hcontains : l.contains name = true ∧ e.contains name = true := by
      have he := hadmits.trans hl
      rw [admits, Bool.or_eq_false_iff, Bool.not_eq_false'] at hl he
      exact ⟨hl.2, he.2⟩
    have heager := h.followsEager.collection?_of_contains hcontains.2
    have hlazy := h.followsLazy.collection?_of_contains hcontains.1
    rcases put_of_not_admits hl c with ⟨old, hold, hkeep, hstored⟩ | ⟨hreject, hfailed⟩
    · rcases put_of_not_admits (hadmits.trans hl) c with
        ⟨old', hold', -, hstored'⟩ | ⟨hreject', -⟩
      · rw [hstored, hstored']
        show Reply.stored (.ok old'.unprepared) = Reply.stored (.ok old.unprepared)
        rw [hold, ← h.shown?_eq, ← heager, hold'] at hlazy
        rw [Option.some.inj hlazy]
      · rw [h.policy, hkeep] at hreject'
        cases hreject'
    · rcases put_of_not_admits (hadmits.trans hl) c with ⟨_, _, hkeep', _⟩ | ⟨-, hfailed'⟩
      · rw [h.policy, hreject] at hkeep'
        cases hkeep'
      · rw [hfailed, hfailed']

theorem write (h : Alike e l raw) (names : List String) :
    (e.collectionsForWrite names).value = (l.collectionsForWrite names).value :=
  h.followsLazy.collectionsForWrite_congr h.followsEager
    (fun name => offer?_congr raw (h.runtime name)) names

theorem reply (h : Alike e l raw) (request : Request)
    (hread : ∀ name, request = .get name → raw.isSome = true)
    (hput : l.putPolicy = .replace ∨ l.isPremature request = false) :
    (e.perform request).1.unmarked = (l.perform request).1.unmarked := by
  cases request with
  | put name c => exact h.put name c hput
  | get name => exact h.get (hread name rfl) name
  | setRaw r => rfl
  | write names => exact congrArg Reply.written (h.write names)
  | reuse => rfl

theorem held_perform (h : Alike e l raw) (request : Request)
    (hread : ∀ name, request = .get name → raw.isSome = true)
    (hput : l.putPolicy = .replace ∨ l.isPremature request = false) (name : String)
    (hcontains : (l.perform request).2.contains name = true) :
    (e.perform request).2.contains name = true := by
  cases request with
  | put other c =>
    rw [perform_put_event, contains_afterPut] at hcontains ⊢
    rw [h.admits_eq c hput, Bool.or_eq_true]
    exact (Bool.or_eq_true _ _ ▸ hcontains).imp_left (h.held name)
  | get other =>
    have hgiven : e.hasRawData = true := h.followsEager.given.trans (hread other rfl)
    have hshown := (h.followsLazy.get other).shown?_of_contains hcontains
    show (e.get other).event.contains name = true
    have heager : (e.get other).event = e.readied := by
      rw [Event.get, h.eager]
      exact getEager_event e other h.eager
    rw [heager]
    refine h.followsEager.readied.contains_of_shown? (isMaterialized_readied h.eager hgiven) ?_
    rwa [shown?_congr raw (e.runtime?_readied name), h.shown?_eq,
      ← shown?_congr raw (l.runtime?_get other name)]
  | setRaw r =>
    have hruntime : (l.runtime? name).isSome = true := (l.contains_setRaw r name).symm.trans hcontains
    exact (e.contains_setRaw r name).trans ((congrArg _ (h.runtime name)).trans hruntime)
  | write names =>
    have hlazy : l.readied = l := by
      rw [readied, h.lazy]
    have hbefore : l.contains name = true := by
      rw [← hlazy]
      exact (l.contains_collectionsForWrite names name).symm.trans hcontains
    exact (e.contains_collectionsForWrite names name).trans
      (contains_readied_of_contains (h.held name hbefore))
  | reuse => cases hcontains

theorem runtime_perform (h : Alike e l raw) (request : Request)
    (hput : l.putPolicy = .replace ∨ l.isPremature request = false) (name : String) :
    (e.perform request).2.runtime? name = (l.perform request).2.runtime? name := by
  cases request with
  | put other c =>
    rw [perform_put_event, perform_put_event, runtime?_afterPut, runtime?_afterPut,
      h.admits_eq c hput, h.runtime]
  | get other =>
    show (e.get other).event.runtime? name = (l.get other).event.runtime? name
    rw [runtime?_get, runtime?_get, h.runtime]
  | setRaw r =>
    show (e.setRaw r).runtime? name = (l.setRaw r).runtime? name
    rw [runtime?_setRaw, runtime?_setRaw, h.runtime]
  | write names =>
    show (e.collectionsForWrite names).event.runtime? name
      = (l.collectionsForWrite names).event.runtime? name
    rw [runtime?_collectionsForWrite, runtime?_collectionsForWrite, h.runtime]
  | reuse => rfl

theorem perform (h : Alike e l raw) (request : Request)
    (hread : ∀ name, request = .get name → raw.isSome = true)
    (hput : l.putPolicy = .replace ∨ l.isPremature request = false) :
    Alike (e.perform request).2 (l.perform request).2 (request.rawAfter raw) where
  eager := (e.kind_perform request).trans h.eager
  lazy := (l.kind_perform request).trans h.lazy
  policy := by rw [putPolicy_perform, putPolicy_perform, h.policy]
  followsEager := h.followsEager.perform request
  followsLazy := h.followsLazy.perform request
  runtime := h.runtime_perform request hput
  held := h.held_perform request hread hput

theorem replies (h : Alike e l raw) (requests : List Request)
    (hread : readsAreSupplied raw.isSome requests = true)
    (hput : l.putPolicy = .replace ∨ putsAreTimely requests l = true) :
    (Event.replies requests e).map Reply.unmarked
      = (Event.replies requests l).map Reply.unmarked := by
  induction requests generalizing e l raw with
  | nil => rfl
  | cons request rest ih =>
    obtain ⟨hfirst, hrest⟩ := readsAreSupplied_cons hread
    have hone : l.putPolicy = .replace ∨ l.isPremature request = false := by
      refine hput.imp_right fun htimely => ?_
      rw [putsAreTimely, Bool.and_eq_true, Bool.not_eq_true'] at htimely
      exact htimely.1
    have hothers : (l.perform request).2.putPolicy = .replace
        ∨ putsAreTimely rest (l.perform request).2 = true := by
      rw [putPolicy_perform]
      refine hput.imp_right fun htimely => ?_
      rw [putsAreTimely, Bool.and_eq_true] at htimely
      exact htimely.2
    rw [replies_cons, replies_cons, List.map_cons, List.map_cons, h.reply request hfirst hone,
      ih (h.perform request hfirst hone) hrest hothers]

end Alike

/-- **Eager and lazy events cannot be told apart.**  From new events of one policy, all requests are
answered the same, the marks of writing apart, if nothing is read before there are raw data, and if
puts replace what is there or none of them is premature for the lazy event. -/
theorem replies_eager_eq_lazy (policy : PutPolicy) (requests : List Request)
    (hread : readsAreSupplied false requests = true)
    (hput : policy = .replace ∨ putsAreTimely requests (fresh .lazy policy) = true) :
    (replies requests (fresh .eager policy)).map Reply.unmarked
      = (replies requests (fresh .lazy policy)).map Reply.unmarked :=
  (alike_fresh policy).replies requests hread hput

/-- puts before and after decoding, a failed decoding and a refused put: what the lazy event answers is
what the eager one answers -/
theorem replies_eager_eq_lazy_partlyReadable :
    (replies [.put "notes" {}, .setRaw partlyReadable, .get "hits", .put "hits" {}, .write [],
        .get "tracks"] (fresh .lazy .keepOriginal)).map Reply.unmarked
      = [.stored (.ok {}), .done,
          .found (.ok (some (.ofBuffers (Buffers.complete [1, 2] [] [] 1)))),
          .stored (.ok (.ofBuffers (Buffers.complete [1, 2] [] [] 1))),
          .written [("hits", Buffers.complete [1, 2] [] [] 1), ("notes", Buffers.complete [] [] [] 1)],
          .found (.ok (some (.ofBuffers .unset)))] := by
  have hsame := replies_eager_eq_lazy .keepOriginal
    [.put "notes" {}, .setRaw partlyReadable, .get "hits", .put "hits" {}, .write [], .get "tracks"]
    (by decide) (.inr (by decide))
  exact hsame.symm.trans (by rfl)

end Event

end EventMerge
