import EventMerge.NameMap

/-!
# Look-ups in lists and maps of names

* `NameMap.lookup_append`, `NameMap.lookup_flatMap`  of pairs with one name the first counts;
* `NameMap.mem_keys_ofList`  the names of a map that is made of a list;
* `NameMap.ofList_entries`   a map is made of its own entries;
* `NameMap.filterMap_eq_of_sorted`  two sorted lists that agree where a function is defined.
-/

namespace EventMerge.NameMap

variable {α β : Type}

/-! ## lists of pairs -/

theorem lookup_append (name : String) (xs ys : List (String × α)) :
    lookup name (xs ++ ys) = (lookup name xs).or (lookup name ys) := by
  induction xs with
  | nil => rfl
  | cons x xs ih =>
    rw [List.cons_append, lookup_cons, lookup_cons, ih]
    split <;> rfl

theorem lookup_flatMap (name : String) (f : β → List (String × α)) (l : List β) :
    lookup name (l.flatMap f) = l.findSome? fun b => lookup name (f b) := by
  induction l with
  | nil => rfl
  | cons b l ih =>
    rw [List.flatMap_cons, lookup_append, ih, List.findSome?_cons]
    cases lookup name (f b) <;> rfl

theorem lookup_filterMap (f : String → Option α) (names : List String) (name : String) :
    lookup name (names.filterMap fun n => (f n).map fun a => (n, a))
      = if name ∈ names then f name else none := by
  induction names with
  | nil => rfl
  | cons other rest ih =>
    rw [List.filterMap_cons]
    by_cases hname : name = other
    · subst hname
      rw [if_pos List.mem_cons_self]
      cases hf : f name with
      | none =>
        show lookup name (rest.filterMap _) = none
        rw [ih, hf, ite_self]
      | some a => exact if_pos rfl
    · simp only [List.mem_cons, hname, false_or]
      cases f other with
      | none => exact ih
      | some a => exact (if_neg hname).trans ih

/-! ## maps -/

theorem contains_insert (m : NameMap α) (name other : String) (value : α) :
    (m.insert name value).contains other = (decide (other = name) || m.contains other) := by
  rw [contains, get?_insert]
  by_cases h : other = name
  · simp [h]
  · simp [h, contains]

theorem contains_eq_false_iff {m : NameMap α} {name : String} :
    m.contains name = false ↔ m.get? name = none := by
  rw [contains]
  cases m.get? name <;> simp

theorem contains_foldl_insert (entries : List (String × α)) (m : NameMap α) (name : String) :
    (entries.foldl (fun m entry => m.insert entry.1 entry.2) m).contains name = true
      ↔ m.contains name = true ∨ name ∈ entries.map Prod.fst := by
  induction entries generalizing m with
  | nil => simp
  | cons entry entries ih =>
    rw [List.foldl_cons, ih, contains_insert, List.map_cons, List.mem_cons]
    simp only [Bool.or_eq_true, decide_eq_true_eq]
    constructor
    · rintro ((h | h) | h)
      · exact .inr (.inl h)
      · exact .inl h
      · exact .inr (.inr h)
    · rintro (h | h | h)
      · exact .inl (.inr h)
      · exact .inl (.inl h)
      · exact .inr h

theorem mem_keys_ofList (entries : List (String × α)) (name : String) :
    name ∈ (ofList entries).keys ↔ name ∈ entries.map Prod.fst := by
  rw [← contains_iff_mem_keys, ofList, contains_foldl_insert]
  have hempty : (empty : NameMap α).contains name = false := rfl
  simp [hempty]

theorem mem_keys_ofNames (names : List String) (name : String) :
    name ∈ (ofList (names.map fun n => (n, ()))).keys ↔ name ∈ names := by
  rw [mem_keys_ofList, List.map_map]
  simp

theorem lookup_eq_none_of_not_mem {name : String} {entries : List (String × α)}
    (h : name ∉ entries.map Prod.fst) : lookup name entries = none := by
  cases hlookup : lookup name entries with
  | none => rfl
  | some value => exact absurd ((lookup_isSome_iff_mem name entries).mp (by rw [hlookup]; rfl)) h

theorem get?_foldl_insert {entries : List (String × α)} (h : (entries.map Prod.fst).Nodup)
    (m : NameMap α) (name : String) :
    (entries.foldl (fun m entry => m.insert entry.1 entry.2) m).get? name
      = (lookup name entries).or (m.get? name) := by
  induction entries generalizing m with
  | nil => rfl
  | cons entry entries ih =>
    obtain ⟨key, value⟩ := entry
    obtain ⟨hhead, hrest⟩ := List.nodup_cons.mp h
    rw [List.foldl_cons, ih hrest, get?_insert, lookup_cons]
    by_cases hname : name = key
    · subst hname
      rw [if_pos rfl, if_pos rfl, lookup_eq_none_of_not_mem hhead]
      rfl
    · rw [if_neg hname, if_neg hname]

theorem get?_ofList {entries : List (String × α)} (h : (entries.map Prod.fst).Nodup)
    (name : String) : (ofList entries).get? name = lookup name entries := by
  rw [ofList, get?_foldl_insert h, get?_empty, Option.or_none]

theorem nodup_of_sorted {xs : List String} (h : xs.Pairwise (· < ·)) : xs.Nodup := by
  refine h.imp fun {a b} hab heq => ?_
  rw [heq] at hab
  exact String.lt_irrefl b hab

theorem ofList_entries (m : NameMap α) : ofList m.entries = m := by
  apply ext_get?
  intro name
  exact get?_ofList (nodup_of_sorted m.sorted_keys) name

theorem empty_union (m : NameMap α) : empty.union m = m := ofList_entries m

theorem get?_union (m n : NameMap α) (name : String) :
    (m.union n).get? name = (n.get? name).or (m.get? name) :=
  get?_foldl_insert (nodup_of_sorted n.sorted_keys) m name

/-! ## sorted lists of names -/

theorem eq_of_sorted {xs ys : List String} (hx : xs.Pairwise (· < ·)) (hy : ys.Pairwise (· < ·))
    (h : ∀ name, name ∈ xs ↔ name ∈ ys) : xs = ys := by
  have hantisymm : ∀ a b : String, a ∈ xs → b ∈ ys → a < b → b < a → a = b :=
    fun a b _ _ hab hba => absurd (String.lt_trans hab hba) (String.lt_irrefl a)
  refine List.Perm.eq_of_pairwise hantisymm hx hy ?_
  exact (List.perm_ext_iff_of_nodup (nodup_of_sorted hx) (nodup_of_sorted hy)).mpr h

/-- where a function is defined is all that matters of a sorted list to go through -/
theorem filterMap_eq_of_sorted {xs ys : List String} (f : String → Option β)
    (hx : xs.Pairwise (· < ·)) (hy : ys.Pairwise (· < ·))
    (h : ∀ name, (f name).isSome = true → (name ∈ xs ↔ name ∈ ys)) :
    xs.filterMap f = ys.filterMap f := by
  have hfilter : ∀ l : List String, l.filterMap f = (l.filter fun n => (f n).isSome).filterMap f := by
    intro l
    rw [List.filterMap_filter]
    congr 1
    funext n
    cases hn : f n <;> simp
  rw [hfilter xs, hfilter ys]
  congr 1
  refine eq_of_sorted (hx.filter _) (hy.filter _) fun name => ?_
  rw [List.mem_filter, List.mem_filter]
  exact ⟨fun ⟨hmem, hsome⟩ => ⟨(h name hsome).mp hmem, hsome⟩,
    fun ⟨hmem, hsome⟩ => ⟨(h name hsome).mpr hmem, hsome⟩⟩

end EventMerge.NameMap
