import EventMerge.Proofs.Event.Requests
import EventMerge.Proofs.Store.Pulling

/-!
# Events that are made from old ones

A store is given an old event to make the next one from.  Of the old event nothing but its policy for
puts may be left, and that only if it is reused.  Whether the next event can be told from one that was
made of nothing depends on that policy alone, and events that a factory has made keep its policy,
whatever is asked of them.

* `Event.Factory.policyFrom`        the policy of an event that is made;
* `Event.Factory.Circulates`        events of a factory, which may have been used and made again;
* `Event.replies_puts`              two puts tell the three policies apart;
* `Event.forall_replies_eq_iff`     events that differ in their policies at most;
* `Store.next_from_slot`            the next event, made from an old one and of nothing.
-/

namespace EventMerge

namespace Event

/-! ## what a factory makes -/

namespace Factory

variable {f : Factory}

/-- the policy of an event that is made from an old one: that of the old one, if it is reused -/
def policyFrom (f : Factory) (old : Event) : PutPolicy :=
  if f.reuse ∧ old.kind = f.kind then old.putPolicy else f.putPolicy

theorem policyFrom_eq_iff {old : Event} :
    f.policyFrom old = f.putPolicy
      ↔ (f.reuse = true → old.kind = f.kind → old.putPolicy = f.putPolicy) := by
  rw [policyFrom]
  by_cases hreused : f.reuse = true ∧ old.kind = f.kind
  · rw [if_pos hreused]
    constructor
    · intro hsame _ _
      exact hsame
    · intro hsame
      exact hsame hreused.1 hreused.2
  · rw [if_neg hreused]
    refine iff_of_true rfl ?_
    intro hreuse hkind
    exact absurd ⟨hreuse, hkind⟩ hreused

theorem make_some (f : Factory) (old : Event) :
    make f (some old) = fresh f.kind (f.policyFrom old) := by
  rw [make, policyFrom]
  by_cases hreused : f.reuse = true ∧ old.kind = f.kind
  · rw [if_pos hreused, if_pos hreused, reuse_eq_fresh, hreused.2]
  · rw [if_neg hreused, if_neg hreused]
    rfl

/-- an event that a factory has made, of nothing or from another such event, whatever has been asked of
it and whatever parameters it has been given since then -/
inductive Circulates (f : Factory) : Event → Prop
  | new : Circulates f (make f none)
  | made {old : Event} : Circulates f old → Circulates f (make f (some old))
  | asked {e : Event} (request : Request) : Circulates f e → Circulates f (e.perform request).2
  | noted {e : Event} (parameters : Parameters) :
      Circulates f e → Circulates f { e with parameters }

theorem Circulates.putPolicy_eq {e : Event} (h : f.Circulates e) : e.putPolicy = f.putPolicy := by
  induction h with
  | new => rfl
  | @made old _ ih =>
    have hpolicy : f.policyFrom old = f.putPolicy := policyFrom_eq_iff.mpr fun _ _ => ih
    rw [make_some]
    exact hpolicy
  | asked request _ ih =>
    rw [putPolicy_perform]
    exact ih
  | noted parameters _ ih => exact ih

end Factory

/-! ## telling policies apart -/

/-- what a policy answers to a second put -/
def secondPut (policy : PutPolicy) (name : String) (c d : Collection) : Reply :=
  match policy with
  | .replace => .stored (.ok d)
  | .keepOriginal => .stored (.ok c)
  | .reject => .stored (.error (.collectionExists name))

theorem perform_put_held {e : Event} {name : String} {entry : CacheEntry}
    (h : e.cache.get? name = some entry) (d : Collection) :
    (e.perform (.put name d)).1 = secondPut e.putPolicy name entry.collection d := by
  obtain ⟨kind, policy, cache, parameters, supply⟩ := e
  have hheld : cache.get? name = some entry := h
  unfold perform put Cache.put secondPut
  cases policy with
  | replace => simp only [hheld]
  | keepOriginal => simp only [hheld]
  | reject => simp only [hheld]

theorem replies_puts {e : Event} {name : String} (h : e.contains name = false) (c d : Collection) :
    replies [.put name c, .put name d] e = [.stored (.ok c), secondPut e.putPolicy name c d] := by
  have hadmits : e.admits name = true := by
    rw [admits, h, Bool.not_false, Bool.or_true]
  have hfirst : e.perform (.put name c)
      = (.stored (.ok c), { e with cache := e.cache.insert name ⟨c, .runtime⟩ }) := by
    rw [perform, put_of_admits hadmits]
  have hheld : (e.cache.insert name ⟨c, .runtime⟩).get? name = some ⟨c, .runtime⟩ :=
    NameMap.get?_insert_self _ _ _
  rw [replies_cons, replies_cons, hfirst, perform_put_held hheld]
  rfl

theorem secondPut_inj {p q : PutPolicy} {name : String} {c d : Collection} (hne : c ≠ d)
    (h : secondPut p name c d = secondPut q name c d) : p = q := by
  have hokay : ∀ {a b : Collection}, Reply.stored (.ok a) = Reply.stored (.ok b) → a = b := by
    intro a b hsame
    exact Except.ok.inj (Reply.stored.inj hsame)
  cases p with
  | replace =>
    cases q with
    | replace => rfl
    | keepOriginal => exact absurd (hokay h).symm hne
    | reject => cases h
  | keepOriginal =>
    cases q with
    | replace => exact absurd (hokay h) hne
    | keepOriginal => rfl
    | reject => cases h
  | reject =>
    cases q with
    | replace => cases h
    | keepOriginal => cases h
    | reject => rfl

/-- two events that hold no collection and differ in their policies at most answer the same exactly if
their policies are one -/
theorem forall_replies_eq_iff {e e' : Event} {policy : PutPolicy}
    (hempty : ∀ name, e'.contains name = false) (h : e = { e' with putPolicy := policy }) :
    (∀ requests, replies requests e = replies requests e') ↔ policy = e'.putPolicy := by
  constructor
  · intro hall
    have hputs := hall [.put "hits" {}, .put "hits" (.ofBuffers (.complete [1] [] [] 1))]
    have hnone : e.contains "hits" = false := by
      rw [h]
      exact hempty "hits"
    rw [replies_puts hnone, replies_puts (hempty "hits")] at hputs
    have hsecond := (List.cons.inj (List.cons.inj hputs).2).1
    have hpolicy : e.putPolicy = policy := by
      rw [h]
    rw [← hpolicy]
    exact secondPut_inj (by decide) hsecond
  · intro hpolicy requests
    rw [h, hpolicy]

end Event

/-! ## the next event of a store -/

namespace Store

variable {f : Event.Factory}

theorem next_snd (s : Store) (factory : Event.Factory) (slot slot' : Option Event) :
    (s.next factory slot).2 = (s.next factory slot').2 := by
  rw [next, next]
  by_cases hreaders : s.readers.isEmpty = true
  · rw [if_pos hreaders, if_pos hreaders]
  · rw [if_neg hreaders, if_neg hreaders]
    by_cases hexhausted : s.exhausted = true
    · rw [if_pos hexhausted, if_pos hexhausted]
    · rw [if_neg hexhausted, if_neg hexhausted]
      dsimp only
      cases (gather s.readers).1 with
      | all suppliers => rfl
      | dry => rfl
      | failed error => rfl

/-- what is made from an old event is what is made of nothing, the policy apart -/
theorem setRaw_make_some (f : Event.Factory) (old : Event) (raw : RawData) :
    (Event.make f (some old)).setRaw raw
      = { (Event.make f none).setRaw raw with putPolicy := f.policyFrom old } := by
  rw [Event.Factory.make_some]
  rfl

theorem next_some_value (s : Store) (f : Event.Factory) (slot : Event) :
    (s.next f (some slot)).1 = (s.next f none).1.map (Option.map fun e =>
      { e with putPolicy := f.policyFrom slot }) := by
  rw [next_value, next_value]
  cases s.pull.1 with
  | error error => rfl
  | ok given =>
    cases given with
    | none => rfl
    | some raw => exact congrArg (fun e => Except.ok (some e)) (setRaw_make_some f slot raw)

/-- the event that is made of nothing holds the new raw data and nothing else -/
theorem next_none_event {s : Store} {e : Event} (h : (s.next f none).1 = .ok (some e)) :
    ∃ raw, s.pull.1 = .ok (some raw) ∧ e = ⟨f.kind, f.putPolicy, .empty, {}, .held raw⟩ := by
  rw [next_value] at h
  cases hpull : s.pull.1 with
  | error error =>
    rw [hpull] at h
    cases h
  | ok given =>
    rw [hpull] at h
    cases given with
    | none => cases h
    | some raw => exact ⟨raw, rfl, (Option.some.inj (Except.ok.inj h)).symm⟩

theorem next_of_circulates (s : Store) {slot : Event} (h : f.Circulates slot) :
    s.next f (some slot) = s.next f none := by
  have hpolicy : f.policyFrom slot = f.putPolicy :=
    Event.Factory.policyFrom_eq_iff.mpr fun _ _ => h.putPolicy_eq
  have hmake : Event.make f (some slot) = Event.make f none := by
    rw [Event.Factory.make_some, hpolicy]
    rfl
  refine Prod.ext ?_ (s.next_snd f (some slot) none)
  rw [next_value, next_value, hmake]

/-- **An old event leaves its policy and nothing else.**  Asked for the next event with an old one, of
whatever kind and whatever it holds, a store asks the same of its readers, is left the same and gives
the same as without one, a policy apart: an event of the kind of the factory, with no collections, no
parameters and the new raw data.  The policy is that of the factory, unless the factory reuses events
and the old one is of its kind, which then keeps its own.  So nothing that is asked of the event tells
where it was made from exactly if this policy is that of the factory, as it is for all events that the
factory has made itself. -/
theorem next_from_slot (s : Store) (f : Event.Factory) (slot : Event) :
    (s.next f (some slot)).2 = (s.next f none).2
      ∧ (s.next f (some slot)).1 = (s.next f none).1.map (Option.map fun e =>
          { e with putPolicy := if f.reuse ∧ slot.kind = f.kind then slot.putPolicy
              else f.putPolicy })
      ∧ (∀ e e', (s.next f (some slot)).1 = .ok (some e) → (s.next f none).1 = .ok (some e') →
          (∃ raw, s.pull.1 = .ok (some raw)
              ∧ e' = ⟨f.kind, f.putPolicy, .empty, {}, .held raw⟩)
            ∧ ((∀ requests, Event.replies requests e = Event.replies requests e') ↔ e = e')
            ∧ (e = e' ↔ (f.reuse = true → slot.kind = f.kind → slot.putPolicy = f.putPolicy)))
      ∧ (f.Circulates slot → s.next f (some slot) = s.next f none) := by
  have hvalue := s.next_some_value f slot
  refine ⟨s.next_snd f (some slot) none, hvalue, ?_, s.next_of_circulates⟩
  intro e e' he he'
  obtain ⟨raw, hpull, hfresh⟩ := next_none_event he'
  rw [he, he'] at hvalue
  have hevent : e = { e' with putPolicy := f.policyFrom slot } :=
    Option.some.inj (Except.ok.inj hvalue)
  have hempty : ∀ name, e'.contains name = false := by
    intro name
    rw [hfresh]
    rfl
  have hpolicy : e'.putPolicy = f.putPolicy := by
    rw [hfresh]
  have hsame : e = e' ↔ f.policyFrom slot = f.putPolicy := by
    rw [← hpolicy]
    constructor
    · intro heq
      rw [← heq, hevent]
    · intro heq
      rw [hevent, heq]
  refine ⟨⟨raw, hpull, hfresh⟩, ?_, hsame.trans Event.Factory.policyFrom_eq_iff⟩
  rw [Event.forall_replies_eq_iff hempty hevent, hsame, hpolicy]

/-- a store that has one event to give -/
def oneEvent : Store :=
  { readers := [⟨⟨0⟩, ⟨"rows", NameMap.ofList [("hits", ⟨0⟩)], .row,
      [.event (.row [some ⟨[1], none, none, some 1⟩])]⟩, .row⟩]
    table := ⟨[(⟨0⟩, NameMap.ofList [("hits", ⟨0⟩)])]⟩ }

/-- an old event of another policy, with a collection that was put in and raw data -/
def oldEvent : Event :=
  (({ kind := .lazy, putPolicy := .replace } : Event).afterPut "notes" {}).setRaw ⟨{}, []⟩

/-- reused under a factory that refuses second puts, the old event still replaces -/
theorem next_from_slot_old :
    ∃ e e', (oneEvent.next ⟨.lazy, .reject, true⟩ (some oldEvent)).1 = .ok (some e)
      ∧ (oneEvent.next ⟨.lazy, .reject, true⟩ none).1 = .ok (some e')
      ∧ (oneEvent.next ⟨.lazy, .reject, true⟩ (some oldEvent)).2
        = (oneEvent.next ⟨.lazy, .reject, true⟩ none).2
      ∧ e = { e' with putPolicy := .replace } ∧ e ≠ e' := by
  obtain ⟨hsnd, hvalue, hevents, -⟩ := next_from_slot oneEvent ⟨.lazy, .reject, true⟩ oldEvent
  refine ⟨_, _, rfl, rfl, hsnd, Option.some.inj (Except.ok.inj hvalue), ?_⟩
  intro hsame
  have hpolicy := ((hevents _ _ rfl rfl).2.2.mp hsame) rfl rfl
  cases hpolicy

/-- the event that is made from the old one takes a second put under a name, which the one that is made
of nothing refuses -/
theorem puts_after_reuse :
    ∃ e e', (oneEvent.next ⟨.lazy, .reject, true⟩ (some oldEvent)).1 = .ok (some e)
      ∧ (oneEvent.next ⟨.lazy, .reject, true⟩ none).1 = .ok (some e')
      ∧ Event.replies [.put "notes" {}, .put "notes" (.ofBuffers .unset)] e
        = [.stored (.ok {}), .stored (.ok (.ofBuffers .unset))]
      ∧ Event.replies [.put "notes" {}, .put "notes" (.ofBuffers .unset)] e'
        = [.stored (.ok {}), .stored (.error (.collectionExists "notes"))] :=
  ⟨_, _, rfl, rfl, Event.replies_puts rfl _ _, Event.replies_puts rfl _ _⟩

end Store

end EventMerge
