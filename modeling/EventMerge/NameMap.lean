/-!
# Maps keyed by name

A `NameMap` is a list of pairs whose names strictly increase, so that two maps with the same
look-ups are equal (`NameMap.ext_get?`) and every listing is in name order.  Names are compared by
code points, which is also the order of their UTF-8 octets.

* `get?`, `contains`, `keys`  the view of a map;
* `insert`, `erase`, `filter`, `map`, `union`  the operations, each with its look-up lemma.
-/

namespace EventMerge

/-- a finite map from names, listed in increasing order of its names -/
structure NameMap (α : Type) where
  entries : List (String × α)
  sorted : entries.Pairwise (fun a b => a.1 < b.1)
  deriving DecidableEq

namespace NameMap

variable {α β : Type}

/-! ## sorted lists of pairs -/

def lookup (name : String) : List (String × α) → Option α
  | [] => none
  | (key, value) :: rest => if name = key then some value else lookup name rest

def insertEntry (name : String) (value : α) : List (String × α) → List (String × α)
  | [] => [(name, value)]
  | (key, old) :: rest =>
    if name < key then (name, value) :: (key, old) :: rest
    else if name = key then (name, value) :: rest
    else (key, old) :: insertEntry name value rest

theorem lookup_nil (name : String) : lookup name ([] : List (String × α)) = none := rfl
theorem lookup_cons (name key : String) (value : α) (rest : List (String × α)) :
    lookup name ((key, value) :: rest) = if name = key then some value else lookup name rest := rfl

theorem lt_of_not_lt_of_ne {a b : String} (h : ¬ a < b) (hne : a ≠ b) : b < a := by
  rcases Decidable.em (b < a) with hba | hba
  · exact hba
  · exact absurd (String.le_antisymm (String.not_lt.mp hba) (String.not_lt.mp h)) hne

theorem mem_insertEntry {name : String} {value : α} {entries : List (String × α)}
    {entry : String × α} (h : entry ∈ insertEntry name value entries) :
    entry = (name, value) ∨ entry ∈ entries := by
  induction entries with
  | nil => simpa [insertEntry] using h
  | cons head rest ih =>
    obtain ⟨key, old⟩ := head
    rw [insertEntry] at h
    split at h
    · simpa using h
    · split at h
      · rcases List.mem_cons.mp h with h | h
        · exact .inl h
        · exact .inr (List.mem_cons_of_mem _ h)
      · rcases List.mem_cons.mp h with h | h
        · rw [h]
          exact .inr List.mem_cons_self
        · exact (ih h).imp_right (List.mem_cons_of_mem _)

theorem sorted_insertEntry (name : String) (value : α) (entries : List (String × α))
    (h : entries.Pairwise (fun a b => a.1 < b.1)) :
    (insertEntry name value entries).Pairwise (fun a b => a.1 < b.1) := by
  induction entries with
  | nil => exact List.pairwise_singleton _ _
  | cons head rest ih =>
    obtain ⟨key, old⟩ := head
    obtain ⟨hhead, hrest⟩ := List.pairwise_cons.mp h
    rw [insertEntry]
    split
    · rename_i hlt
      refine List.pairwise_cons.mpr ⟨fun entry hmem => ?_, h⟩
      rcases List.mem_cons.mp hmem with rfl | hmem
      · exact hlt
      · exact String.lt_trans hlt (hhead entry hmem)
    · split
      · rename_i heq
        exact List.pairwise_cons.mpr ⟨fun entry hmem => heq ▸ hhead entry hmem, hrest⟩
      · rename_i hlt hne
        refine List.pairwise_cons.mpr ⟨fun entry hmem => ?_, ih hrest⟩
        rcases mem_insertEntry hmem with rfl | hmem
        · exact lt_of_not_lt_of_ne hlt hne
        · exact hhead entry hmem

theorem lookup_insertEntry (name other : String) (value : α) (entries : List (String × α)) :
    lookup other (insertEntry name value entries)
      = if other = name then some value else lookup other entries := by
  induction entries with
  | nil => rfl
  | cons head rest ih =>
    obtain ⟨key, old⟩ := head
    rw [insertEntry]
    split
    · rfl
    · split
      · rename_i heq
        subst heq
        rw [lookup_cons, lookup_cons]
        split <;> rfl
      · rename_i hlt hne
        rw [lookup_cons, lookup_cons, ih]
        split
        · rename_i hother
          rw [if_neg (fun h => hne (h.symm.trans hother))]
        · rfl

theorem lookup_eq_none_of_lt {name : String} {entries : List (String × α)}
    (h : ∀ entry ∈ entries, name < entry.1) : lookup name entries = none := by
  induction entries with
  | nil => rfl
  | cons head rest ih =>
    obtain ⟨key, old⟩ := head
    rw [lookup_cons, if_neg]
    · exact ih fun entry hmem => h entry (List.mem_cons_of_mem _ hmem)
    · intro heq
      exact String.lt_irrefl _ (heq ▸ h _ List.mem_cons_self)

/-! ## the operations -/

def empty : NameMap α := ⟨[], List.Pairwise.nil⟩

instance : Inhabited (NameMap α) := ⟨empty⟩
instance : EmptyCollection (NameMap α) := ⟨empty⟩

def get? (m : NameMap α) (name : String) : Option α := lookup name m.entries

def contains (m : NameMap α) (name : String) : Bool := (m.get? name).isSome

def keys (m : NameMap α) : List String := m.entries.map Prod.fst

def size (m : NameMap α) : Nat := m.entries.length

def isEmpty (m : NameMap α) : Bool := m.entries.isEmpty

/-- the map with `value` under `name`; an earlier value gives way -/
def insert (m : NameMap α) (name : String) (value : α) : NameMap α :=
  ⟨insertEntry name value m.entries, sorted_insertEntry name value m.entries m.sorted⟩

def filter (p : String → α → Bool) (m : NameMap α) : NameMap α :=
  ⟨m.entries.filter fun entry => p entry.1 entry.2, m.sorted.filter _⟩

def erase (m : NameMap α) (name : String) : NameMap α := m.filter fun key _ => key ≠ name

def map (f : α → β) (m : NameMap α) : NameMap β :=
  ⟨m.entries.map fun entry => (entry.1, f entry.2),
    List.pairwise_map.mpr (m.sorted.imp fun h => h)⟩

/-- the map of a list of pairs; of two pairs with one name the later wins -/
def ofList (entries : List (String × α)) : NameMap α :=
  entries.foldl (fun m entry => m.insert entry.1 entry.2) empty

/-- the entries of both maps, those of `n` where both have a name -/
def union (m n : NameMap α) : NameMap α :=
  n.entries.foldl (fun m entry => m.insert entry.1 entry.2) m

/-! ## look-ups after an operation -/

theorem get?_empty (name : String) : (empty : NameMap α).get? name = none := rfl

theorem get?_insert (m : NameMap α) (name other : String) (value : α) :
    (m.insert name value).get? other = if other = name then some value else m.get? other :=
  lookup_insertEntry name other value m.entries

theorem get?_insert_self (m : NameMap α) (name : String) (value : α) :
    (m.insert name value).get? name = some value := by
  rw [get?_insert, if_pos rfl]

theorem get?_insert_of_ne (m : NameMap α) {name other : String} (value : α)
    (h : other ≠ name) : (m.insert name value).get? other = m.get? other := by
  rw [get?_insert, if_neg h]

theorem lookup_map (f : α → β) (name : String) (entries : List (String × α)) :
    lookup name (entries.map fun entry => (entry.1, f entry.2)) = (lookup name entries).map f := by
  induction entries with
  | nil => rfl
  | cons head rest ih =>
    rw [List.map_cons, lookup_cons, ih, lookup_cons]
    split <;> rfl

theorem lookup_filter (p : String → α → Bool) (name : String) {entries : List (String × α)}
    (h : entries.Pairwise (fun a b => a.1 < b.1)) :
    lookup name (entries.filter fun entry => p entry.1 entry.2)
      = (lookup name entries).filter (p name) := by
  induction entries with
  | nil => rfl
  | cons head rest ih =>
    obtain ⟨key, value⟩ := head
    obtain ⟨hhead, hrest⟩ := List.pairwise_cons.mp h
    rw [List.filter_cons, lookup_cons]
    by_cases hname : name = key
    · subst hname
      rw [if_pos rfl, Option.filter_some]
      split
      · rename_i hp
        rw [lookup_cons, if_pos rfl]
      · rw [ih hrest, lookup_eq_none_of_lt hhead]
        rfl
    · rw [if_neg hname]
      split
      · rw [lookup_cons, if_neg hname, ih hrest]
      · exact ih hrest

theorem get?_filter (p : String → α → Bool) (m : NameMap α) (name : String) :
    (m.filter p).get? name = (m.get? name).filter (p name) := lookup_filter p name m.sorted

theorem contains_eq_true_iff {m : NameMap α} {name : String} :
    m.contains name = true ↔ ∃ value, m.get? name = some value := Option.isSome_iff_exists

theorem lookup_isSome_iff_mem (name : String) (entries : List (String × α)) :
    (lookup name entries).isSome = true ↔ name ∈ entries.map Prod.fst := by
  induction entries with
  | nil => simp [lookup_nil]
  | cons head rest ih =>
    obtain ⟨key, value⟩ := head
    rw [lookup_cons, List.map_cons, List.mem_cons]
    split
    · rename_i h
      simp [h]
    · rename_i h
      rw [ih]
      exact ⟨.inr, fun hmem => hmem.resolve_left h⟩

theorem contains_iff_mem_keys {m : NameMap α} {name : String} :
    m.contains name = true ↔ name ∈ m.keys := lookup_isSome_iff_mem name m.entries

theorem sorted_keys (m : NameMap α) : m.keys.Pairwise (· < ·) := List.pairwise_map.mpr m.sorted

/-! ## equality -/

theorem entries_eq_of_lookup {xs ys : List (String × α)}
    (hx : xs.Pairwise (fun a b => a.1 < b.1)) (hy : ys.Pairwise (fun a b => a.1 < b.1))
    (h : ∀ name, lookup name xs = lookup name ys) : xs = ys := by
  induction xs generalizing ys with
  | nil =>
    cases ys with
    | nil => rfl
    | cons head rest =>
      have := h head.1
      rw [lookup_nil, lookup_cons, if_pos rfl] at this
      exact nomatch this
  | cons x xs ih =>
    obtain ⟨kx, vx⟩ := x
    obtain ⟨hxhead, hxrest⟩ := List.pairwise_cons.mp hx
    cases ys with
    | nil =>
      have := h kx
      rw [lookup_nil, lookup_cons, if_pos rfl] at this
      exact nomatch this
    | cons y ys =>
      obtain ⟨ky, vy⟩ := y
      obtain ⟨hyhead, hyrest⟩ := List.pairwise_cons.mp hy
      have hkey : kx = ky := by
        rcases Decidable.em (kx = ky) with heq | hne
        · exact heq
        · rcases Decidable.em (kx < ky) with hlt | hge
          · have := h kx
            rw [lookup_cons, if_pos rfl, lookup_cons, if_neg hne,
              lookup_eq_none_of_lt fun entry hmem => String.lt_trans hlt (hyhead entry hmem)]
              at this
            exact nomatch this
          · have hlt := lt_of_not_lt_of_ne hge hne
            have := h ky
            rw [lookup_cons, if_neg (Ne.symm hne), lookup_cons, if_pos rfl,
              lookup_eq_none_of_lt fun entry hmem => String.lt_trans hlt (hxhead entry hmem)]
              at this
            exact nomatch this
      subst hkey
      have hval : vx = vy := by
        have := h kx
        rw [lookup_cons, lookup_cons, if_pos rfl, if_pos rfl] at this
        exact Option.some.inj this
      subst hval
      rw [ih hxrest hyrest]
      intro name
      rcases Decidable.em (name = kx) with heq | hne
      · subst heq
        rw [lookup_eq_none_of_lt hxhead, lookup_eq_none_of_lt hyhead]
      · have := h name
        rwa [lookup_cons, lookup_cons, if_neg hne, if_neg hne] at this

theorem ext_get? {m n : NameMap α} (h : ∀ name, m.get? name = n.get? name) : m = n := by
  obtain ⟨xs, hx⟩ := m
  obtain ⟨ys, hy⟩ := n
  have : xs = ys := entries_eq_of_lookup hx hy h
  subst this
  rfl

end NameMap

end EventMerge
