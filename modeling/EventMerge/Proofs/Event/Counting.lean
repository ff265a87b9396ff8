import EventMerge.Proofs.Event.Processing

/-!
# The collections that are counted in an event

Asking an event for a collection changes no other answer, so that it makes no difference in which order
the names are asked for.  What is counted while an event is processed are the names, the one that nobody
is expected to provide among them, whose collection is valid when it is asked for first.

* `Event.get_get_value`    an answer is the same after another name was asked for;
* `Event.showsValid`       the event has a valid collection under a name;
* `Event.found_survey`     what is counted over a list of names;
* `Event.process_found`    what is counted while an event is processed.
-/

namespace EventMerge

namespace Event

variable {e : Event} {known new : List String} {found : Nat}

/-! ## asking again -/

theorem getLazy_value_eq (e : Event) (name : String) :
    (e.getLazy name).value
      = ((e.cache.get? name).or ((e.raw?.bind fun raw => raw.provision? name).map fun p =>
          ⟨Cache.ofDecoding p.decode, .decoded⟩)).map CacheEntry.collection := by
  rw [getLazy_value, Cache.collection?, get?_getLazy, if_pos rfl]

theorem getLazy_getLazy_value (e : Event) (other name : String) :
    ((e.getLazy other).event.getLazy name).value = (e.getLazy name).value := by
  have hget := e.get?_getLazy other name
  obtain ⟨cache, hcache⟩ := e.getLazy_event other
  rw [hcache] at hget ⊢
  rw [getLazy_value_eq, getLazy_value_eq, hget]
  show Option.map _ (((e.cache.get? name).or _).or _) = _
  by_cases hname : name = other
  · rw [if_pos hname, hname, Option.or_assoc]
    exact congrArg _ (congrArg _ (Option.or_self))
  · rw [if_neg hname, Option.or_none]
    rfl

theorem getEager_getEager_value (e : Event) (other name : String) :
    ((e.getEager other).event.getEager name).value = (e.getEager name).value := by
  cases hsupply : e.supply with
  | none => simp only [getEager, hsupply]
  | spent => simp only [getEager, hsupply]
  | held raw => simp only [getEager, hsupply, materialize]

/-- **An answer is the same after another name was asked for.** -/
theorem get_get_value (e : Event) (other name : String) :
    ((e.get other).event.get name).value = (e.get name).value := by
  have hkind := e.kind_get other
  rw [get, get.eq_def e name, hkind]
  cases hkind' : e.kind with
  | eager =>
    have hevent : (e.get other).event = (e.getEager other).event := by rw [get, hkind']
    rw [hevent]
    exact e.getEager_getEager_value other name
  | lazy =>
    have hevent : (e.get other).event = (e.getLazy other).event := by rw [get, hkind']
    rw [hevent]
    exact congrArg Except.ok (e.getLazy_getLazy_value other name)

/-! ## counting -/

/-- the event has a valid collection under the name -/
def showsValid (e : Event) (name : String) : Bool :=
  match (e.get name).value with
  | .ok (some collection) => collection.valid
  | _ => false

theorem showsValid_get (e : Event) (other name : String) :
    (e.get other).event.showsValid name = e.showsValid name := by
  rw [showsValid, showsValid, get_get_value]

theorem found_count (t : Tally) {name : String} {found : Option Collection}
    (h : (e.get name).value = .ok found) :
    (t.count found).found = t.found + (e.showsValid name).toNat := by
  rw [showsValid, h]
  cases found with
  | none => rfl
  | some collection => cases hvalid : collection.valid <;> simp [Tally.count, hvalid]

/-- **A survey counts the names under which the event has a valid collection.** -/
theorem found_survey {names : List String} {t t' : Tally} (h : (survey t names e).value = .ok t') :
    t'.found = t.found + names.countP e.showsValid := by
  induction names generalizing e t with
  | nil =>
    cases h
    rfl
  | cons name rest ih =>
    rw [survey] at h
    split at h
    · cases h
    · rename_i found hvalue
      rw [ih h, found_count t hvalue, List.countP_cons, Nat.add_assoc, Nat.add_comm (Bool.toNat _)]
      congr 2
      · exact List.countP_congr fun other _ => by rw [showsValid_get]
      · cases e.showsValid name <;> rfl

/-- the names that processing asks for are the known ones and one more -/
theorem process_found (h : (e.process known new).value = .ok found) :
    found = (known ++ [missingCollection]).countP e.showsValid := by
  rw [process] at h
  split at h
  · cases h
  · rename_i tally htally
    split at h
    · cases h
    · cases h
      exact (found_survey htally).trans (Nat.zero_add _)

end Event

end EventMerge
