import EventMerge.Proofs.Event.Requests

/-!
# No stale collections

Whatever is asked of an event, a collection that it gives for a name is the one of the last put under
that name that took hold, or what its latest raw data give; nothing else is left from before.

* `Request.LatestRaw`           the raw data that an event was given last;
* `Event.displaces`, `Event.leaves`  requests that decide on the collection put in under a name, and
                                requests that do not;
* `Event.LastPut`               the collection of the last put that took hold;
* `Event.runtime?_after_fresh`  it is what an event holds as put in;
* `Event.get_after_fresh`       what an event gives is not stale.
-/

namespace EventMerge

/-! ## requests -/

namespace Request

/-- the request writes the payload of a name -/
def writes (name : String) : Request → Bool
  | write names => names.isEmpty || names.contains name
  | _ => false

/-- a collection after requests that may have written its name -/
def filledBy (name : String) (requests : List Request) (c : Collection) : Collection :=
  if requests.any (writes name) then c.prepareForWrite else c

/-- the raw data are the latest that an event was given, and it was not started over since -/
def LatestRaw (requests : List Request) (raw : RawData) : Prop :=
  ∃ before behind, requests = before ++ .setRaw raw :: behind
    ∧ ∀ request ∈ behind, request.isRead = true ∨ request.isPut = true

theorem filledBy_cons (name : String) (request : Request) (rest : List Request) (c : Collection) :
    filledBy name (request :: rest) c
      = filledBy name rest (if request.writes name then c.prepareForWrite else c) := by
  rw [filledBy, filledBy, List.any_cons]
  by_cases hwrites : request.writes name = true
  · rw [if_pos hwrites, hwrites, Bool.true_or, if_pos rfl,
      Collection.prepareForWrite_prepareForWrite, ite_self]
  · rw [if_neg hwrites, Bool.eq_false_iff.mpr hwrites, Bool.false_or]

theorem latestRaw_cons {request : Request} {rest : List Request} {raw : RawData} :
    LatestRaw (request :: rest) raw
      ↔ (request = .setRaw raw ∧ ∀ request ∈ rest, request.isRead = true ∨ request.isPut = true)
        ∨ LatestRaw rest raw := by
  constructor
  · rintro ⟨before, behind, heq, hkept⟩
    rcases before with _ | ⟨first, before⟩
    · obtain ⟨rfl, rfl⟩ := List.cons_eq_cons.mp heq
      exact .inl ⟨rfl, hkept⟩
    · obtain ⟨-, rfl⟩ := List.cons_eq_cons.mp heq
      exact .inr ⟨before, behind, rfl, hkept⟩
  · rintro (⟨rfl, hkept⟩ | ⟨before, behind, rfl, hkept⟩)
    · exact ⟨[], rest, rfl, hkept⟩
    · exact ⟨request :: before, behind, rfl, hkept⟩

theorem foldl_rawAfter_iff (requests : List Request) (start : Option RawData) (raw : RawData) :
    requests.foldl rawAfter start = some raw
      ↔ LatestRaw requests raw
        ∨ (start = some raw ∧ ∀ request ∈ requests, request.isRead = true ∨ request.isPut = true) := by
  induction requests generalizing start with
  | nil => simp [LatestRaw]
  | cons request rest ih =>
    rw [List.foldl_cons, ih, latestRaw_cons, List.forall_mem_cons]
    cases request <;> simp [rawAfter, isRead, isPut, or_comm]

end Request

namespace Event

open Request (filledBy LatestRaw)

/-! ## what stays of a put -/

/-- the request decides on the collection put in under a name: a put that takes hold replaces it, and
starting over forgets it -/
def displaces (e : Event) (name : String) : Request → Bool
  | .put other _ => e.admits other && other = name
  | .reuse => true
  | _ => false

/-- no request decides on the collection put in under a name -/
def leaves (name : String) : List Request → Event → Bool
  | [], _ => true
  | request :: rest, e => !e.displaces name request && leaves name rest (e.perform request).2

/-- The collection of the last put under a name that took hold, since the event was last started over.
It has been prepared for writing if that name was written since. -/
def LastPut (requests : List Request) (e : Event) (name : String) (c : Collection) : Prop :=
  ∃ before put behind, requests = before ++ .put name put :: behind
    ∧ (after before e).admits name = true
    ∧ leaves name behind ((after before e).afterPut name put) = true
    ∧ c = filledBy name behind put

theorem runtime?_perform {e : Event} {name : String} {request : Request}
    (h : e.displaces name request = false) :
    (e.perform request).2.runtime? name
      = (e.runtime? name).map fun c => if request.writes name then c.prepareForWrite else c := by
  cases request with
  | put other c =>
    rw [perform_put_event, runtime?_afterPut]
    refine (if_neg fun hdisplaced => ?_).trans Option.map_id'.symm
    rw [displaces, hdisplaced.1, decide_eq_true hdisplaced.2.symm] at h
    cases h
  | get other => exact (e.runtime?_get other name).trans Option.map_id'.symm
  | setRaw r => exact (e.runtime?_setRaw r name).trans Option.map_id'.symm
  | write names =>
    refine (e.runtime?_collectionsForWrite names name).trans ?_
    by_cases hnames : names.isEmpty = true ∨ name ∈ names
    · have hwrites : (Request.write names).writes name = true := by
        rwa [Request.writes, Bool.or_eq_true, List.contains_iff_mem]
      simp only [hwrites, if_pos hnames, if_true]
    · have hwrites : ¬ (Request.write names).writes name = true := by
        rwa [Request.writes, Bool.or_eq_true, List.contains_iff_mem]
      simp only [hwrites, if_neg hnames, if_false, Bool.false_eq_true, Option.map_id']
  | reuse => cases h

/-- **What was put in stays, as long as no request decides on it**; it is only filled by writing. -/
theorem runtime?_after {requests : List Request} {e : Event} {name : String}
    (h : leaves name requests e = true) :
    (after requests e).runtime? name = (e.runtime? name).map (filledBy name requests) := by
  induction requests generalizing e with
  | nil => exact Option.map_id'.symm
  | cons request rest ih =>
    rw [leaves, Bool.and_eq_true, Bool.not_eq_true'] at h
    rw [after_cons, ih h.2, runtime?_perform h.1, Option.map_map]
    congr 1
    funext c
    exact (Request.filledBy_cons name request rest c).symm

/-- the last request that decides on what was put in under a name, if there is any -/
theorem leaves_or_displaces (requests : List Request) (e : Event) (name : String) :
    leaves name requests e = true
      ∨ ∃ before request behind, requests = before ++ request :: behind
        ∧ (after before e).displaces name request = true
        ∧ leaves name behind ((after before e).perform request).2 = true := by
  induction requests generalizing e with
  | nil => exact .inl rfl
  | cons first rest ih =>
    rcases ih (e.perform first).2 with hleaves | ⟨before, request, behind, rfl, hlast⟩
    · cases hfirst : e.displaces name first with
      | false =>
        rw [leaves, hfirst, hleaves]
        exact .inl rfl
      | true => exact .inr ⟨[], first, rest, rfl, hfirst, hleaves⟩
    · exact .inr ⟨first :: before, request, behind, rfl, hlast⟩

theorem runtime?_of_lastPut {requests : List Request} {e : Event} {name : String} {c : Collection}
    (h : LastPut requests e name c) : (after requests e).runtime? name = some c := by
  obtain ⟨before, put, behind, rfl, hadmits, hleaves, rfl⟩ := h
  rw [after_append, after_cons, perform_put_event, runtime?_after hleaves, runtime?_afterPut,
    if_pos ⟨hadmits, rfl⟩]
  rfl

/-- **What an event holds as put in is the collection of the last put that took hold.** -/
theorem runtime?_after_fresh (kind : EventKind) (policy : PutPolicy) (requests : List Request)
    (name : String) (c : Collection) :
    (after requests (fresh kind policy)).runtime? name = some c
      ↔ LastPut requests (fresh kind policy) name c := by
  refine ⟨fun hheld => ?_, runtime?_of_lastPut⟩
  rcases leaves_or_displaces requests (fresh kind policy) name with
    hleaves | ⟨before, request, behind, rfl, hdisplaces, hleaves⟩
  · rw [runtime?_after hleaves] at hheld
    cases hheld
  · rw [after_append, after_cons, runtime?_after hleaves] at hheld
    cases request with
    | put other put =>
      rw [displaces, Bool.and_eq_true, decide_eq_true_iff] at hdisplaces
      obtain ⟨hadmits, rfl⟩ := hdisplaces
      rw [perform_put_event] at hheld hleaves
      rw [runtime?_afterPut, if_pos ⟨hadmits, rfl⟩] at hheld
      exact ⟨before, put, behind, rfl, hadmits, hleaves, (Option.some.inj hheld).symm⟩
    | reuse => cases hheld
    | get other => cases hdisplaces
    | setRaw r => cases hdisplaces
    | write names => cases hdisplaces

/-! ## what is given -/

variable {e : Event} {raw : Option RawData} {name : String} {c : Collection}

theorem Follows.after_requests (h : e.Follows raw) (requests : List Request) :
    (Event.after requests e).Follows (requests.foldl Request.rawAfter raw) := by
  induction requests generalizing e raw with
  | nil => exact h
  | cons request rest ih => exact ih (h.perform request)

/-- an eager event that was given no raw data gives nothing -/
theorem supplied_of_get (h : (e.get name).value = .ok (some c)) :
    e.kind = .lazy ∨ e.hasRawData = true := by
  rw [get] at h
  split at h
  · rename_i hkind
    rw [getEager] at h
    rw [hasRawData]
    split at h
    · cases h
    · rename_i hsupply
      rw [hsupply]
      exact .inr rfl
    · rename_i hsupply
      rw [hsupply]
      exact .inr rfl
  · rename_i hkind
    exact .inl hkind

/-- what was put in is given as it is -/
theorem get_of_runtime? (hruntime : e.runtime? name = some c)
    (hsupplied : e.kind = .lazy ∨ e.hasRawData = true) : (e.get name).value = .ok (some c) := by
  rw [get]
  split
  · rename_i hkind
    have hraw : e.hasRawData = true := by
      rcases hsupplied with hlazy | hraw
      · rw [hlazy] at hkind
        cases hkind
      · exact hraw
    rw [← runtime?_readied, runtime?_eq_some_iff] at hruntime
    rw [getEager_value hkind hraw, collection?_of_get? hruntime]
  · rw [← e.runtime?_getLazy name, runtime?_eq_some_iff] at hruntime
    dsimp only
    rw [getLazy_value, collection?_of_get? hruntime]

/-- what is given was put in, or decoded from the latest raw data -/
theorem Follows.of_get (h : e.Follows raw) (hget : (e.get name).value = .ok (some c)) :
    e.runtime? name = some c
      ∨ e.runtime? name = none ∧ decodedFrom? raw name = some c.unprepared := by
  have hsupplied := supplied_of_get hget
  cases hruntime : e.runtime? name with
  | some d =>
    rw [get_of_runtime? hruntime hsupplied] at hget
    exact .inl (Except.ok.inj hget)
  | none =>
    refine .inr ⟨rfl, ?_⟩
    have hfound : some c.unprepared = (e.shown? raw name).map Collection.unprepared := by
      rcases hsupplied with hkind | hgiven
      · have hlazy := h.getLazy_value name
        rw [Event.get, hkind] at hget
        rwa [Except.ok.inj hget] at hlazy
      · obtain ⟨found, hvalue, hfound⟩ := h.get_value (h.given ▸ hgiven) name
        rw [hget] at hvalue
        rwa [← Except.ok.inj hvalue] at hfound
    rw [shown?, hruntime, Option.none_or] at hfound
    obtain ⟨d, hdecoded, hsame⟩ := Option.map_eq_some_iff.mp hfound.symm
    rw [hdecoded, ← hsame, unprepared_ofDecodedFrom? hdecoded]

theorem kind_after (requests : List Request) (e : Event) : (after requests e).kind = e.kind := by
  induction requests generalizing e with
  | nil => rfl
  | cons request rest ih => rw [after_cons, ih, kind_perform]

/-- a put that does not take hold leaves no trace -/
theorem after_of_not_admits {before behind : List Request} {e : Event}
    (h : (after before e).admits name = false) (c : Collection) :
    after (before ++ .put name c :: behind) e = after (before ++ behind) e := by
  rw [after_append, after_append, after_cons, perform_put_event, afterPut_of_not_admits h]

theorem after_reuse (before behind : List Request) (kind : EventKind) (policy : PutPolicy) :
    after (before ++ .reuse :: behind) (fresh kind policy) = after behind (fresh kind policy) := by
  rw [after_append, after_cons]
  show after behind (after before (fresh kind policy)).reuse = _
  rw [reuse_eq_fresh, kind_after, putPolicy_after]
  rfl

/-- **No collection that an event gives is stale.**  It is the collection of the last put under its name
that took hold, or else what the latest raw data give, a collection with no field set if these cannot
be decoded.  What was put in is given after new raw data as before, a put that does not take hold
leaves no trace, and neither does anything before the event is started over. -/
theorem get_after_fresh (kind : EventKind) (policy : PutPolicy) (requests : List Request)
    (name : String) :
    (∀ c, ((after requests (fresh kind policy)).get name).value = .ok (some c) →
        LastPut requests (fresh kind policy) name c
        ∨ (∀ put, ¬ LastPut requests (fresh kind policy) name put)
          ∧ ∃ raw result, LatestRaw requests raw ∧ raw.resolve? name = some result
            ∧ c.unprepared = Cache.ofDecoding result)
      ∧ (∀ raw c, LastPut requests (fresh kind policy) name c →
          ((after (requests ++ [.setRaw raw]) (fresh kind policy)).get name).value = .ok (some c))
      ∧ (∀ before c behind, requests = before ++ .put name c :: behind →
          (after before (fresh kind policy)).admits name = false →
          after requests (fresh kind policy) = after (before ++ behind) (fresh kind policy))
      ∧ ∀ before behind, requests = before ++ .reuse :: behind →
          after requests (fresh kind policy) = after behind (fresh kind policy) := by
  refine ⟨fun c hget => ?_, fun raw c hput => ?_, fun before c behind heq hadmits => ?_,
    fun before behind heq => ?_⟩
  · have hfollows := (follows_fresh kind policy).after_requests requests
    rcases hfollows.of_get hget with hruntime | ⟨hnone, hdecoded⟩
    · exact .inl ((runtime?_after_fresh kind policy requests name c).mp hruntime)
    · refine .inr ⟨fun put hput => ?_, ?_⟩
      · rw [runtime?_of_lastPut hput] at hnone
        cases hnone
      · obtain ⟨raw, hraw, hresolved⟩ := Option.bind_eq_some_iff.mp hdecoded
        obtain ⟨result, hresult, hcollection⟩ := Option.map_eq_some_iff.mp hresolved
        have hlatest := (Request.foldl_rawAfter_iff requests none raw).mp hraw
        exact ⟨raw, result, hlatest.resolve_right (nomatch ·.1), hresult, hcollection.symm⟩
  · rw [after_append]
    refine get_of_runtime? ?_ (.inr rfl)
    exact (runtime?_setRaw _ raw name).trans (runtime?_of_lastPut hput)
  · rw [heq, after_of_not_admits hadmits]
  · rw [heq, after_reuse]

/-- a name is read, a put under it is kept out, and another put is filled when it is written -/
def keptRequests : List Request :=
  [.setRaw partlyReadable, .get "hits", .put "hits" {}, .put "notes" {}, .write ["notes"]]

/-- the collection that was read is from the latest raw data, the put under its name has left no
trace, and the other put is given after new raw data -/
theorem get_after_fresh_kept :
    (∃ raw result, LatestRaw keptRequests raw ∧ raw.resolve? "hits" = some result
        ∧ Collection.ofBuffers (Buffers.complete [1, 2] [] [] 1) = Cache.ofDecoding result)
      ∧ ((after (keptRequests ++ [.setRaw partlyReadable]) (fresh .lazy .keepOriginal)).get
          "notes").value = .ok (some (Collection.prepareForWrite {}))
      ∧ after keptRequests (fresh .lazy .keepOriginal)
        = after [.setRaw partlyReadable, .get "hits", .put "notes" {}, .write ["notes"]]
            (fresh .lazy .keepOriginal) := by
  obtain ⟨hhits, -, hrefused, -⟩ := get_after_fresh .lazy .keepOriginal keptRequests "hits"
  obtain ⟨-, hnotes, -, -⟩ := get_after_fresh .lazy .keepOriginal keptRequests "notes"
  refine ⟨?_, hnotes partlyReadable _ ?_, ?_⟩
  · rcases hhits _ rfl with hput | ⟨-, hdecoded⟩
    · cases runtime?_of_lastPut hput
    · exact hdecoded
  · exact ⟨[.setRaw partlyReadable, .get "hits", .put "hits" {}], {}, [.write ["notes"]], rfl, rfl, rfl,
      rfl⟩
  · exact hrefused [.setRaw partlyReadable, .get "hits"] {} [.put "notes" {}, .write ["notes"]] rfl rfl

end Event

end EventMerge
