import EventMerge.Proofs.Event.Reading
import EventMerge.Run.Process

/-!
# What processing does to an event

* `Event.process_induction`  what reading, putting the new collections in and keeping the counts
                             leave true, processing leaves true;
* `Event.Follows.process`    the event still follows its raw data;
* `Event.made_of_runtime?_process`  only new collections are put in, as they were made.
-/

namespace EventMerge

namespace Event

/-! ## one step after the other -/

theorem survey_induction {P : Event → Prop} (hget : ∀ e name, P e → P (e.get name).event)
    (names : List String) (t : Tally) {e : Event} (h : P e) : P (survey t names e).event := by
  induction names generalizing t e with
  | nil => exact h
  | cons name rest ih =>
    rw [survey]
    split
    · exact hget e name h
    · exact ih _ (hget e name h)

theorem putAll_induction {P : Event → Prop} {names : List String}
    (hput : ∀ e name found, name ∈ names → P e → P (e.afterPut name (runtimeCollection name found)))
    (found : Nat) {e : Event} (h : P e) : P (putAll found names e).2 := by
  induction names generalizing e with
  | nil => exact h
  | cons name rest ih =>
    have hnext := hput e name found List.mem_cons_self h
    rw [putAll]
    rw [afterPut] at hnext
    cases hresult : e.put name (runtimeCollection name found) with
    | error error => exact h
    | ok stored =>
      rw [hresult] at hnext
      exact ih (fun e other found hmem => hput e other found (List.mem_cons_of_mem _ hmem)) hnext

theorem process_induction {P : Event → Prop} {known new : List String}
    (hget : ∀ e name, P e → P (e.get name).event)
    (hput : ∀ e name found, name ∈ new → P e → P (e.afterPut name (runtimeCollection name found)))
    (hrecord : ∀ e t, P e → P (e.recordTally t)) {e : Event} (h : P e) :
    P (e.process known new).event := by
  have hsurvey := survey_induction hget (known ++ [missingCollection]) {} h
  rw [process]
  cases (survey {} (known ++ [missingCollection]) e).value with
  | error error => exact hsurvey
  | ok tally =>
    have hall := putAll_induction hput tally.found hsurvey
    dsimp only
    split
    · rename_i event hresult
      rw [hresult] at hall
      exact hall
    · rename_i event hresult
      rw [hresult] at hall
      exact hrecord event tally hall

/-! ## the event afterwards -/

theorem Follows.recordTally {e : Event} {raw : Option RawData} (h : e.Follows raw) (t : Tally) :
    (e.recordTally t).Follows raw := ⟨h.given, h.held, h.spent, h.decoded, h.complete⟩

theorem Follows.process {e : Event} {raw : Option RawData} (h : e.Follows raw)
    (known new : List String) : (e.process known new).event.Follows raw :=
  process_induction (P := fun e => e.Follows raw) (fun _ name h => h.get name)
    (fun _ name found _ h => h.afterPut name (runtimeCollection name found))
    (fun _ t h => h.recordTally t) h

theorem putPolicy_process (e : Event) (known new : List String) :
    (e.process known new).event.putPolicy = e.putPolicy :=
  process_induction (P := fun e' => e'.putPolicy = e.putPolicy)
    (fun e' name h => (e'.putPolicy_get name).trans h)
    (fun e' name _ _ h => (e'.putPolicy_afterPut name _).trans h) (fun _ _ h => h) rfl

/-- all that is put in while an event is processed was made for a new name, if nothing was put in
before -/
theorem made_of_runtime?_process {e : Event} {known new : List String}
    (h : ∀ name, e.runtime? name = none) {name : String} {c : Collection}
    (hruntime : (e.process known new).event.runtime? name = some c) :
    name ∈ new ∧ ∃ found, c = runtimeCollection name found := by
  refine process_induction
    (P := fun e => ∀ name c, e.runtime? name = some c →
      name ∈ new ∧ ∃ found, c = runtimeCollection name found)
    (fun e other h name c hc => ?_) (fun e other found hmem h name c hc => ?_) (fun _ _ h => h)
    (fun name c hc => ?_) name c hruntime
  · rw [runtime?_get] at hc
    exact h name c hc
  · rw [runtime?_afterPut] at hc
    split at hc
    · rename_i hname
      cases hc
      rw [hname.2]
      exact ⟨hmem, found, rfl⟩
    · exact h name c hc
  · rw [h name] at hc
    cases hc

end Event

end EventMerge
