import EventMerge.Proofs.Event.Processing

/-!
# Events that were asked for every name

An event that was asked for every name of its raw data holds whatever it shows, so that a put
depends no longer on what has been decoded.  Processing asks for every name first; hence two events
of one policy that are given the same raw data are processed alike, whatever their kinds.

* `Event.survey_value`    what is counted is what the event shows;
* `Event.Settled`         an event that holds whatever it shows;
* `Event.settled_survey`  an event that was asked for every name is such an event;
* `Event.Beside`          two events that were given the same raw data and collections;
* `Event.Beside.process`  they are processed alike.
-/

namespace EventMerge

namespace Event

variable {e e' : Event} {raw : Option RawData}

/-! ## asking for one name -/

theorem isSome_collection? (e : Event) (name : String) :
    (e.cache.collection? name).isSome = e.contains name := by
  rw [Cache.collection?, Option.isSome_map]
  rfl

theorem Follows.contains_get (h : e.Follows raw) (hraw : raw.isSome = true) (name : String) :
    (e.get name).event.contains name = (e.shown? raw name).isSome := by
  have hvalue : (e.get name).value = .ok ((e.get name).event.cache.collection? name) := by
    rw [Event.get]
    split
    · rename_i hkind
      rw [getEager_value hkind (h.given.trans hraw), getEager_event e name hkind]
    · exact congrArg Except.ok (e.getLazy_value name)
  obtain ⟨found, hfound, hshown⟩ := h.get_value hraw name
  rw [hvalue] at hfound
  rw [← isSome_collection?, Except.ok.inj hfound, ← Option.isSome_map (f := Collection.unprepared),
    hshown, Option.isSome_map]

theorem contains_get_of_contains {other : String} (h : e.contains other = true) (name : String) :
    (e.get name).event.contains other = true := by
  rw [get]
  split
  · rename_i hkind
    rw [getEager_event e name hkind]
    exact contains_readied_of_contains h
  · obtain ⟨entry, hentry⟩ := NameMap.contains_eq_true_iff.mp h
    refine NameMap.contains_eq_true_iff.mpr ⟨entry, ?_⟩
    rw [get?_getLazy, hentry, Option.some_or]

theorem shown?_get (e : Event) (raw : Option RawData) (name other : String) :
    (e.get name).event.shown? raw other = e.shown? raw other :=
  shown?_congr raw (e.runtime?_get name other)

/-! ## asking for many -/

theorem Tally.count_congr (t : Tally) {c d : Option Collection}
    (h : c.map Collection.unprepared = d.map Collection.unprepared) : t.count c = t.count d := by
  rcases c with _ | c <;> rcases d with _ | d
  · rfl
  · cases h
  · cases h
  · have hvalid : c.valid = d.valid := (Collection.mk.inj (Option.some.inj h)).2.1
    rw [count, count, hvalid]

/-- the collections that an event shows for names, counted -/
def tallyOf (e : Event) (raw : Option RawData) (names : List String) (t : Tally) : Tally :=
  names.foldl (fun t name => t.count (e.shown? raw name)) t

/-- **What is counted is what the event shows**, whatever has been decoded. -/
theorem survey_value (h : e.Follows raw) (hraw : raw.isSome = true) (names : List String)
    (t : Tally) : (survey t names e).value = .ok (e.tallyOf raw names t) := by
  induction names generalizing e t with
  | nil => rfl
  | cons name rest ih =>
    obtain ⟨found, hvalue, hfound⟩ := h.get_value hraw name
    have hcount : t.count found = t.count (e.shown? raw name) := t.count_congr hfound
    rw [survey, hvalue]
    dsimp only
    rw [ih (h.get name), hcount]
    simp only [tallyOf, shown?_get, List.foldl_cons]

theorem runtime?_survey (names : List String) (t : Tally) (e : Event) (name : String) :
    (survey t names e).event.runtime? name = e.runtime? name :=
  survey_induction (P := fun e' => e'.runtime? name = e.runtime? name)
    (fun e' other h => (e'.runtime?_get other name).trans h) names t rfl

theorem follows_survey (h : e.Follows raw) (names : List String) (t : Tally) :
    (survey t names e).event.Follows raw :=
  survey_induction (P := fun e => e.Follows raw) (fun _ name h => h.get name) names t h

theorem putPolicy_survey (names : List String) (t : Tally) (e : Event) :
    (survey t names e).event.putPolicy = e.putPolicy :=
  survey_induction (P := fun e' => e'.putPolicy = e.putPolicy)
    (fun e' name h => (e'.putPolicy_get name).trans h) names t rfl

theorem contains_survey_of_contains {name : String} (h : e.contains name = true)
    (names : List String) (t : Tally) : (survey t names e).event.contains name = true :=
  survey_induction (P := fun e => e.contains name = true)
    (fun _ other h => contains_get_of_contains h other) names t h

theorem contains_survey (h : e.Follows raw) (hraw : raw.isSome = true) {names : List String}
    {name : String} (hname : name ∈ names) (hshown : (e.shown? raw name).isSome = true) (t : Tally) :
    (survey t names e).event.contains name = true := by
  induction names generalizing e t with
  | nil => cases hname
  | cons other rest ih =>
    obtain ⟨found, hvalue, -⟩ := h.get_value hraw other
    rw [survey, hvalue]
    dsimp only
    rcases List.mem_cons.mp hname with rfl | hname
    · exact contains_survey_of_contains ((h.contains_get hraw name).trans hshown) rest _
    · exact ih (h.get other) hname (by rwa [shown?_get]) _

/-! ## settled events -/

/-- the event holds whatever it shows -/
def Settled (e : Event) (raw : Option RawData) : Prop :=
  ∀ name, e.contains name = (e.shown? raw name).isSome

theorem settled_of_shown? (h : e.Follows raw)
    (hshown : ∀ name, (e.shown? raw name).isSome = true → e.contains name = true) :
    e.Settled raw := by
  intro name
  rw [Bool.eq_iff_iff]
  exact ⟨h.shown?_of_contains, hshown name⟩

/-- **An event that was asked for every name of its raw data is settled.** -/
theorem settled_survey {r : RawData} (h : e.Follows (some r)) {names : List String}
    (hnames : ∀ name ∈ r.knownNames, name ∈ names) (t : Tally) :
    (survey t names e).event.Settled (some r) := by
  refine settled_of_shown? (follows_survey h names t) fun name hshown => ?_
  rw [shown?_congr _ (runtime?_survey names t e name)] at hshown
  by_cases hname : name ∈ names
  · exact contains_survey h rfl hname hshown t
  · -- the raw data do not know the name, so it was put in
    have hdecoded : decodedFrom? (some r) name = none := by
      cases hd : decodedFrom? (some r) name with
      | none => rfl
      | some c => exact absurd (hnames name (RawData.mem_knownNames_of_decoded? hd)) hname
    rw [shown?, hdecoded, Option.or_none] at hshown
    obtain ⟨c, hc⟩ := Option.isSome_iff_exists.mp hshown
    exact contains_survey_of_contains (contains_of_runtime? hc) names t

theorem Settled.afterPut (h : e.Settled raw) (name : String) (c : Collection) :
    (e.afterPut name c).Settled raw := by
  intro other
  rw [contains_afterPut, shown?, runtime?_afterPut, h other, shown?]
  cases e.admits name with
  | false => simp
  | true =>
    by_cases hname : other = name
    · simp [hname]
    · simp [hname]

/-! ## two events -/

/-- two events of one policy that were given the same raw data and hold the same collections put in -/
structure Beside (e e' : Event) (raw : Option RawData) : Prop where
  policy : e.putPolicy = e'.putPolicy
  left : e.Follows raw
  right : e'.Follows raw
  runtime : ∀ name, e.runtime? name = e'.runtime? name

namespace Beside

theorem shown?_eq (h : Beside e e' raw) (name : String) : e.shown? raw name = e'.shown? raw name := by
  rw [shown?, shown?, h.runtime]

/-- what they write is the same -/
theorem collectionsForWrite (h : Beside e e' raw) (names : List String) :
    (e.collectionsForWrite names).value = (e'.collectionsForWrite names).value :=
  h.right.collectionsForWrite_congr h.left (fun name => offer?_congr raw (h.runtime name)) names

theorem survey (h : Beside e e' raw) (names : List String) (t : Tally) :
    Beside (survey t names e).event (survey t names e').event raw where
  policy := by rw [putPolicy_survey, putPolicy_survey, h.policy]
  left := follows_survey h.left names t
  right := follows_survey h.right names t
  runtime name := by rw [runtime?_survey, runtime?_survey, h.runtime]

theorem admits_eq (h : Beside e e' raw) (hs : e.Settled raw) (hs' : e'.Settled raw)
    (name : String) : e.admits name = e'.admits name := by
  rw [admits, admits, h.policy, hs name, hs' name, h.shown?_eq]

theorem afterPut (h : Beside e e' raw) (hs : e.Settled raw) (hs' : e'.Settled raw)
    (name : String) (c : Collection) : Beside (e.afterPut name c) (e'.afterPut name c) raw where
  policy := by rw [putPolicy_afterPut, putPolicy_afterPut, h.policy]
  left := h.left.afterPut name c
  right := h.right.afterPut name c
  runtime other := by rw [runtime?_afterPut, runtime?_afterPut, h.admits_eq hs hs', h.runtime]

/-- **Collections are put into settled events with the same result.** -/
theorem putAll (h : Beside e e' raw) (hs : e.Settled raw) (hs' : e'.Settled raw) (found : Nat)
    (names : List String) :
    (putAll found names e).1 = (putAll found names e').1
      ∧ Beside (putAll found names e).2 (putAll found names e').2 raw := by
  induction names generalizing e e' with
  | nil => exact ⟨rfl, h⟩
  | cons name rest ih =>
    have hnext := h.afterPut hs hs' name (runtimeCollection name found)
    have hrest := ih hnext (hs.afterPut name _) (hs'.afterPut name _)
    have hadmits := h.admits_eq hs hs' name
    rw [Event.afterPut, Event.afterPut] at hrest
    rw [Event.putAll, Event.putAll]
    cases ha : e.admits name with
    | true =>
      rw [put_of_admits ha, put_of_admits (hadmits.symm.trans ha)] at hrest ⊢
      exact hrest
    | false =>
      have ha' := hadmits.symm.trans ha
      rcases put_of_not_admits ha (runtimeCollection name found) with
        ⟨old, -, hkeep, hput⟩ | ⟨hreject, hput⟩
      · rcases put_of_not_admits ha' (runtimeCollection name found) with
          ⟨old', -, -, hput'⟩ | ⟨hreject', -⟩
        · rw [hput, hput'] at hrest ⊢
          exact hrest
        · rw [← h.policy, hkeep] at hreject'
          cases hreject'
      · rcases put_of_not_admits ha' (runtimeCollection name found) with
          ⟨old', -, hkeep', -⟩ | ⟨-, hput'⟩
        · rw [← h.policy, hreject] at hkeep'
          cases hkeep'
        · rw [hput, hput']
          exact ⟨rfl, h⟩

theorem recordTally (h : Beside e e' raw) (t : Tally) :
    Beside (e.recordTally t) (e'.recordTally t) raw :=
  ⟨h.policy, h.left.recordTally t, h.right.recordTally t, h.runtime⟩

/-- **Two events are processed alike if every name of their raw data is known.** -/
theorem process {r : RawData} (h : Beside e e' (some r)) {known : List String}
    (hknown : ∀ name ∈ r.knownNames, name ∈ known) (new : List String) :
    (e.process known new).value = (e'.process known new).value
      ∧ Beside (e.process known new).event (e'.process known new).event (some r) := by
  have hasked : ∀ name ∈ r.knownNames, name ∈ known ++ [missingCollection] :=
    fun name hname => List.mem_append_left _ (hknown name hname)
  have htally : e.tallyOf (some r) (known ++ [missingCollection]) {}
      = e'.tallyOf (some r) (known ++ [missingCollection]) {} := by
    simp only [tallyOf, h.shown?_eq]
  have hvalue := survey_value h.left rfl (known ++ [missingCollection]) {}
  have hvalue' := survey_value h.right rfl (known ++ [missingCollection]) {}
  rw [← htally] at hvalue'
  obtain ⟨hresult, hevents⟩ := (h.survey (known ++ [missingCollection]) {}).putAll
    (settled_survey h.left hasked {}) (settled_survey h.right hasked {})
    (e.tallyOf (some r) (known ++ [missingCollection]) {}).found new
  rw [Event.process, Event.process, hvalue, hvalue']
  dsimp only
  generalize Event.putAll _ new (Event.survey _ _ e).event = one at hresult hevents ⊢
  generalize Event.putAll _ new (Event.survey _ _ e').event = other at hresult hevents ⊢
  obtain ⟨result, event⟩ := one
  obtain ⟨result', event'⟩ := other
  obtain rfl : result = result' := hresult
  cases result with
  | error error => exact ⟨rfl, hevents⟩
  | ok _ => exact ⟨rfl, hevents.recordTally _⟩

end Beside

/-- the next events of two factories of one policy, made from old events of it or not -/
theorem beside_make {f f' : Factory} {slot slot' : Option Event}
    (hpolicy : f.putPolicy = f'.putPolicy) (h : ∀ old ∈ slot, old.putPolicy = f.putPolicy)
    (h' : ∀ old ∈ slot', old.putPolicy = f'.putPolicy) (r : RawData) :
    Beside ((make f slot).setRaw r) ((make f' slot').setRaw r) (some r) := by
  rw [make_eq_fresh f h, make_eq_fresh f' h']
  exact {
    policy := hpolicy
    left := follows_setRaw _ r
    right := follows_setRaw _ r
    runtime := fun name => by rw [runtime?_setRaw, runtime?_setRaw, runtime?_fresh, runtime?_fresh] }

end Event

end EventMerge
