import EventMerge.Generate.Basic
import EventMerge.Proofs.Event.Writing
import EventMerge.Proofs.Event.Reading
import Mathlib.Data.List.Forall2

/-!
# The events of a generated file

An event is given the listed collections one after the other, but for those that are dropped.  It holds
a collection for each name that was kept, and one only, however often the name was kept.

* `GenerateRequest.keep`       the names that are kept of an event, and the words that are left;
* `GenerateRequest.keptNames`  the names that are kept of each event;
* `GenerateRequest.Keeps`      what an event is that was given the collections of some names;
* `GenerateRequest.addCollections_keeps`, `GenerateRequest.drafts_keep`  this is what comes of one
                               event, and of all of them.
-/

namespace EventMerge.GenerateRequest

/-! ## names -/

/-- the names of a list that are kept, in their order, and the words that are left -/
def keep (q : GenerateRequest) (number : Nat) : List String → Random → List String × Random
  | [], random => ([], random)
  | name :: rest, random =>
    let (dropped, random) := q.drops random
    if dropped then keep q number rest random
    else
      let (kept, random) := keep q number rest (synthetic name number q.payloadSize random).2
      (name :: kept, random)

/-- the names that are kept of each of the events from `number` on -/
def keptFrom (q : GenerateRequest) : (left number : Nat) → Random → List (List String)
  | 0, _, _ => []
  | left + 1, number, random =>
    let (kept, random) := q.keep number q.collections random
    kept :: keptFrom q left (number + 1) random

def keptNames (q : GenerateRequest) (random : Random) : List (List String) :=
  q.keptFrom q.events 0 random

variable {q : GenerateRequest} {number : Nat}

theorem keep_sublist (names : List String) (random : Random) :
    (q.keep number names random).1.Sublist names := by
  induction names generalizing random with
  | nil => exact .refl []
  | cons name rest ih =>
    rw [keep]
    dsimp only
    split
    · exact (ih _).cons name
    · exact (ih _).cons_cons name

theorem sublist_of_mem_keptFrom {left : Nat} {random : Random} {kept : List String}
    (h : kept ∈ q.keptFrom left number random) : kept.Sublist q.collections := by
  induction left generalizing number random with
  | zero => cases h
  | succ left ih =>
    rcases List.mem_cons.mp h with rfl | hrest
    · exact keep_sublist _ _
    · exact ih hrest

theorem length_keptFrom (left : Nat) (random : Random) :
    (q.keptFrom left number random).length = left := by
  induction left generalizing number random with
  | zero => rfl
  | succ left ih => exact congrArg Nat.succ (ih _)

/-- if nothing is ever dropped then every event keeps all names -/
theorem keep_of_never (hnever : q.dropRate.isPositive = false) (names : List String)
    (random : Random) : (q.keep number names random).1 = names := by
  induction names generalizing random with
  | nil => rfl
  | cons name rest ih =>
    have hdrops : q.drops random = (false, random) := by
      rw [drops, hnever]
      rfl
    rw [keep, hdrops]
    exact congrArg (name :: ·) (ih _)

theorem keptFrom_of_never (hnever : q.dropRate.isPositive = false) (left : Nat) (random : Random) :
    q.keptFrom left number random = List.replicate left q.collections := by
  induction left generalizing number random with
  | zero => rfl
  | succ left ih =>
    rw [List.replicate_succ, ← ih, keptFrom]
    exact congrArg (· :: _) (keep_of_never hnever _ _)

/-! ## events -/

/-- an event that was given the collections of some names, once for each time they are listed -/
structure Keeps (d : Draft) (kept : List String) : Prop where
  follows : d.event.Follows none
  policy : d.event.putPolicy = .replace
  given : d.given = kept.length
  held : ∀ name, (d.event.runtime? name).isSome = true ↔ name ∈ kept

theorem keeps_new (random : Random) : Keeps ⟨{ kind := .lazy }, 0, random⟩ [] where
  follows := Event.follows_fresh .lazy .replace
  policy := rfl
  given := rfl
  held _ := ⟨nofun, nofun⟩

theorem Keeps.withRandom {d : Draft} {kept : List String} (h : Keeps d kept) (random : Random) :
    Keeps { d with random } kept := ⟨h.follows, h.policy, h.given, h.held⟩

/-- one more collection, also of a name that the event has already -/
theorem Keeps.put {d : Draft} {kept : List String} (h : Keeps d kept) (name : String)
    (c : Collection) (random : Random) :
    Keeps ⟨d.event.afterPut name c, d.given + 1, random⟩ (kept ++ [name]) where
  follows := h.follows.afterPut name c
  policy := (d.event.putPolicy_afterPut name c).trans h.policy
  given := by rw [h.given, List.length_append, List.length_singleton]
  held other := by
    have hadmits : d.event.admits name = true := by
      rw [Event.admits, h.policy]
      rfl
    show ((d.event.afterPut name c).runtime? other).isSome = true ↔ _
    rw [Event.runtime?_afterPut, List.mem_append, List.mem_singleton, ← h.held]
    by_cases hname : other = name
    · rw [if_pos ⟨hadmits, hname⟩]
      exact iff_of_true rfl (.inr hname)
    · rw [if_neg fun h => hname h.2, or_iff_left hname]

/-- a collection is either dropped or given to the event, and words are drawn for it -/
theorem addCollection_ok {d d' : Draft} {name : String} (hpolicy : d.event.putPolicy = .replace)
    (h : q.addCollection number d name = .ok d') :
    ((q.drops d.random).1 = true ∧ d' = { d with random := (q.drops d.random).2 })
      ∨ ((q.drops d.random).1 = false ∧ ∃ c, d' = ⟨d.event.afterPut name c, d.given + 1,
          (synthetic name number q.payloadSize (q.drops d.random).2).2⟩) := by
  rw [addCollection] at h
  dsimp only at h
  split at h
  · rename_i hdropped
    cases h
    exact .inl ⟨hdropped, rfl⟩
  · rename_i hkept
    split at h
    · cases h
    · have hadmits : d.event.admits name = true := by
        rw [Event.admits, hpolicy]
        rfl
      rw [Event.put_of_admits hadmits] at h
      cases h
      refine .inr ⟨Bool.not_eq_true _ ▸ hkept,
        (synthetic name number q.payloadSize (q.drops d.random).2).1, ?_⟩
      rw [Event.afterPut_of_admits hadmits]

/-- **An event is given what is kept of the listed names.** -/
theorem addCollections_keeps {names kept : List String} {d d' : Draft} (h : Keeps d kept)
    (hadd : q.addCollections number names d = .ok d') :
    Keeps d' (kept ++ (q.keep number names d.random).1)
      ∧ d'.random = (q.keep number names d.random).2 := by
  -- the names in front have been given already, and the words for them drawn
  induction names generalizing d kept with
  | nil =>
    cases hadd
    rw [keep, List.append_nil]
    exact ⟨h, rfl⟩
  | cons name rest ih =>
    rw [addCollections] at hadd
    split at hadd
    · cases hadd
    · rename_i d₁ hfirst
      rw [keep]
      dsimp only
      rcases addCollection_ok h.policy hfirst with ⟨hdropped, rfl⟩ | ⟨hkept, c, rfl⟩
      · rw [if_pos hdropped]
        exact ih (h.withRandom _) hadd
      · rw [hkept]
        have hrest := ih (h.put name c _) hadd
        rwa [List.append_assoc] at hrest

theorem drafts_keep {left : Nat} {random : Random} {drafts : List Draft}
    (h : q.drafts left number random = .ok drafts) :
    List.Forall₂ Keeps drafts (q.keptFrom left number random) := by
  induction left generalizing number random drafts with
  | zero =>
    cases h
    exact .nil
  | succ left ih =>
    rw [GenerateRequest.drafts] at h
    split at h
    · cases h
    · rename_i draft hdraft
      obtain ⟨hkeeps, hrandom⟩ := addCollections_keeps (keeps_new random) hdraft
      split at h
      · cases h
      · rename_i rest hrest
        cases h
        rw [hrandom] at hrest
        exact .cons hkeeps (ih hrest)

end EventMerge.GenerateRequest
