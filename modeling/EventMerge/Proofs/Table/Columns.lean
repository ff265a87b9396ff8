import EventMerge.Table.Reader
import Mathlib.Data.List.Basic

/-!
# Lists of names without repetition

* `TableReader.addNames`        a list of names with more of them, each once;
* `TableReader.mem_addNames`, `TableReader.nodup_addNames`  what is on such a list, and how often;
* `TableReader.distinct_of_nodup`   a list without repetition stays as it is;
* `TableReader.idxOf_distinct`  a name has as many names in front of it as there were different ones.
-/

namespace EventMerge.TableReader

def addNames (base names : List String) : List String := names.foldl addName base

theorem addNames_nil (base : List String) : addNames base [] = base := rfl
theorem addNames_cons (base : List String) (name : String) (rest : List String) :
    addNames base (name :: rest) = addNames (addName base name) rest := rfl

theorem distinct_eq_addNames (names : List String) : distinct names = addNames [] names := rfl

theorem addName_of_mem {base : List String} {name : String} (h : name ∈ base) :
    addName base name = base := by
  rw [addName, if_pos (List.contains_iff_mem.mpr h)]

theorem addName_of_not_mem {base : List String} {name : String} (h : name ∉ base) :
    addName base name = base ++ [name] := by
  rw [addName, if_neg fun hmem => h (List.contains_iff_mem.mp hmem)]

theorem mem_addName {base : List String} {name other : String} :
    other ∈ addName base name ↔ other ∈ base ∨ other = name := by
  by_cases hmem : name ∈ base
  · rw [addName_of_mem hmem]
    refine ⟨.inl, fun h => h.elim id fun heq => ?_⟩
    rw [heq]
    exact hmem
  · rw [addName_of_not_mem hmem, List.mem_append, List.mem_singleton]

theorem mem_addNames {base names : List String} {name : String} :
    name ∈ addNames base names ↔ name ∈ base ∨ name ∈ names := by
  induction names generalizing base with
  | nil => simp [addNames_nil]
  | cons other rest ih => rw [addNames_cons, ih, mem_addName, List.mem_cons, or_assoc]

theorem addNames_append (base first second : List String) :
    addNames base (first ++ second) = addNames (addNames base first) second := List.foldl_append

theorem isPrefix_addNames (base names : List String) : base <+: addNames base names := by
  induction names generalizing base with
  | nil => exact List.prefix_rfl
  | cons name rest ih =>
    have hfirst : base <+: addName base name := by
      by_cases hmem : name ∈ base
      · exact ⟨[], by rw [addName_of_mem hmem, List.append_nil]⟩
      · rw [addName_of_not_mem hmem]
        exact List.prefix_append base [name]
    exact hfirst.trans (ih (addName base name))

theorem length_lt_addNames {base : List String} {name : String} (h : name ∉ base)
    (rest : List String) : base.length < (addNames base (name :: rest)).length := by
  have hfront := (isPrefix_addNames (addName base name) rest).length_le
  rw [addName_of_not_mem h, List.length_append, List.length_singleton] at hfront
  rw [addNames_cons, addName_of_not_mem h]
  omega

theorem nodup_addName {base : List String} (h : base.Nodup) (name : String) :
    (addName base name).Nodup := by
  by_cases hmem : name ∈ base
  · rwa [addName_of_mem hmem]
  · rw [addName_of_not_mem hmem]
    refine List.nodup_append.mpr ⟨h, List.pairwise_singleton _ name, fun a ha b hb => ?_⟩
    rw [List.mem_singleton] at hb
    exact fun heq => hmem (hb ▸ heq ▸ ha)

theorem nodup_addNames {base : List String} (h : base.Nodup) (names : List String) :
    (addNames base names).Nodup := by
  induction names generalizing base with
  | nil => exact h
  | cons name rest ih => exact ih (nodup_addName h name)

theorem addNames_of_nodup {base names : List String} (h : (base ++ names).Nodup) :
    addNames base names = base ++ names := by
  induction names generalizing base with
  | nil => rw [addNames_nil, List.append_nil]
  | cons name rest ih =>
    have hnew : name ∉ base := fun hmem =>
      (List.nodup_append.mp h).2.2 name hmem name List.mem_cons_self rfl
    rw [addNames_cons, addName_of_not_mem hnew, ih (by simpa using h), List.append_assoc]
    rfl

theorem distinct_of_nodup {names : List String} (h : names.Nodup) : distinct names = names := by
  rw [distinct_eq_addNames, addNames_of_nodup (by simpa using h), List.nil_append]

theorem sublist_addNames (base names : List String) : (addNames base names).Sublist (base ++ names) := by
  induction names generalizing base with
  | nil => exact (List.append_nil base).symm ▸ List.Sublist.refl base
  | cons name rest ih =>
    by_cases hmem : name ∈ base
    · have hrest := ih base
      rw [addNames_cons, addName_of_mem hmem]
      exact hrest.trans ((List.Sublist.refl base).append (List.sublist_cons_self name rest))
    · have hrest := ih (base ++ [name])
      rw [List.append_assoc] at hrest
      rw [addNames_cons, addName_of_not_mem hmem]
      exact hrest

theorem length_distinct_le (names : List String) : (distinct names).length ≤ names.length :=
  (sublist_addNames [] names).length_le

theorem length_distinct_eq_iff {names : List String} :
    (distinct names).length = names.length ↔ names.Nodup := by
  constructor
  · intro hlength
    have hsame : distinct names = names := (sublist_addNames [] names).eq_of_length hlength
    exact hsame ▸ nodup_addNames List.nodup_nil names
  · intro hnodup
    rw [distinct_of_nodup hnodup]

/-- the place of a name is the number of different names in front of where it occurs first -/
theorem idxOf_distinct {names : List String} {name : String} (h : name ∈ names) :
    (distinct names).idxOf name = (distinct (names.take (names.idxOf name))).length := by
  obtain ⟨first, rest, rfl, hnew⟩ := List.eq_append_cons_of_mem h
  have htake : (first ++ name :: rest).take ((first ++ name :: rest).idxOf name) = first := by
    rw [List.idxOf_append_of_notMem hnew, List.idxOf_cons_self, Nat.add_zero, List.take_left]
  have hnew' : name ∉ distinct first := fun hmem =>
    hnew ((mem_addNames.mp hmem).resolve_left List.not_mem_nil)
  obtain ⟨more, hmore⟩ := isPrefix_addNames (distinct first ++ [name]) rest
  have hwhole : distinct (first ++ name :: rest) = distinct first ++ [name] ++ more := by
    rw [distinct_eq_addNames, addNames_append, addNames_cons, ← distinct_eq_addNames,
      addName_of_not_mem hnew', hmore]
  rw [htake, hwhole, List.append_assoc, List.idxOf_append_of_notMem hnew', List.singleton_append,
    List.idxOf_cons_self, Nat.add_zero]

theorem idxOf?_of_mem {names : List String} {name : String} (h : name ∈ names) :
    names.idxOf? name = some (names.idxOf name) := by
  induction names with
  | nil => cases h
  | cons first rest ih =>
    rw [List.idxOf?_cons, List.idxOf_cons]
    cases hfirst : first == name with
    | true => rfl
    | false =>
      have hne : name ≠ first := fun heq => beq_eq_false_iff_ne.mp hfirst heq.symm
      rw [ih ((List.mem_cons.mp h).resolve_left hne)]
      rfl

end EventMerge.TableReader
