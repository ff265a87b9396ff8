import EventMerge.Pack.Writer
import EventMerge.Proofs.Names
import EventMerge.Proofs.Table.Columns
import Mathlib.Data.List.Basic

/-!
# How a pack numbers names

A name that is new to a pack gets the next number; a name that is not keeps its number, so that once
all names are numbered the order in which they come up does not matter any more.

* `PackedTable.indices`         the number of each name of a table;
* `PackWriter.contentOf`        the payloads of an event under their numbers;
* `PackWriter.withCollections`  the writer with another list of numbered names;
* `PackWriter.indexNames_ok`    numbering names adds those that are new;
* `PackWriter.indexNames_lists` if there are too many of them, the first ones are added;
* `PackWriter.indexAll_ok`      so does numbering the names of payloads, each of which gets its number;
* `PackWriter.indexAll_grows`   no name is taken from its number, even if there are too many of them;
* `PackWriter.indexFor_of_mem`, `PackWriter.indexAll_of_mem`  numbered names keep their numbers.
-/

namespace EventMerge

namespace Pack.PackedTable

open TableReader (distinct)

/-- the number of a name -/
def indexOf (t : PackedTable) (name : String) : LocalIndex :=
  ⟨UInt32.ofNat (t.collections.idxOf name)⟩

/-- the entries of payloads whose names are numbered -/
def entriesOf (t : PackedTable) (payloads : List (String × Buffers)) : List PackedEntry :=
  payloads.map fun payload => ⟨t.indexOf payload.1, payload.2⟩

theorem indexOf_of_isPrefix {t t' : PackedTable} (h : t.collections <+: t'.collections)
    {name : String} (hname : name ∈ t.collections) : t'.indexOf name = t.indexOf name := by
  obtain ⟨more, hmore⟩ := h
  rw [indexOf, indexOf, ← hmore, List.idxOf_append_of_mem hname]

theorem entriesOf_of_isPrefix {t t' : PackedTable} (h : t.collections <+: t'.collections)
    (payloads : List (String × Buffers))
    (hnames : ∀ payload ∈ payloads, payload.1 ∈ t.collections) :
    t'.entriesOf payloads = t.entriesOf payloads := by
  refine List.map_congr_left fun payload hpayload => ?_
  rw [indexOf_of_isPrefix h (hnames payload hpayload)]

theorem nameOf?_of_isPrefix {t t' : PackedTable} (h : t.collections <+: t'.collections)
    {index : LocalIndex} {name : String} (hname : t.nameOf? index = some name) :
    t'.nameOf? index = some name := by
  obtain ⟨more, hmore⟩ := h
  obtain ⟨hplace, -⟩ := List.getElem?_eq_some_iff.mp hname
  rw [nameOf?, ← hmore, List.getElem?_append_left hplace]
  exact hname

/-- the index of each name of a table -/
def indices (t : PackedTable) : NameMap LocalIndex :=
  NameMap.ofList ((distinct t.collections).map fun name => (name, t.indexOf name))

theorem get?_indices (t : PackedTable) (name : String) :
    t.indices.get? name
      = (t.collections.idxOf? name).map fun place => ⟨UInt32.ofNat place⟩ := by
  have hkeys : (((distinct t.collections).map fun name => (name, t.indexOf name)).map Prod.fst).Nodup := by
    rw [List.map_map]
    exact (List.map_id _).symm ▸ TableReader.nodup_addNames List.nodup_nil t.collections
  have hlookup := NameMap.lookup_filterMap (fun name => some (t.indexOf name))
    (distinct t.collections) name
  simp only [Option.map_some, List.filterMap_eq_map'] at hlookup
  rw [indices, NameMap.get?_ofList hkeys, hlookup, TableReader.distinct_eq_addNames]
  by_cases hmem : name ∈ t.collections
  · rw [if_pos (TableReader.mem_addNames.mpr (.inr hmem)), TableReader.idxOf?_of_mem hmem]
    rfl
  · rw [if_neg fun h => hmem ((TableReader.mem_addNames.mp h).resolve_left List.not_mem_nil),
      List.idxOf?_eq_none_iff.mpr hmem]
    rfl

theorem nameOf?_indexOf {t : PackedTable} (hroom : t.collections.length ≤ 0x100000000)
    {name : String} (hname : name ∈ t.collections) : t.nameOf? (t.indexOf name) = some name := by
  have hplace : t.collections.idxOf name < t.collections.length :=
    List.idxOf_lt_length_of_mem hname
  rw [nameOf?, indexOf, LocalIndex.toNat_ofNat (by omega)]
  exact List.getElem?_idxOf hname

end Pack.PackedTable

namespace PackWriter

open TableReader (addName addNames)

/-- what a pack lists of an event -/
def contentOf (t : Pack.PackedTable) (names : List String) (e : Event) : Pack.PackedEvent :=
  ⟨t.entriesOf (e.collectionsForWrite names).value⟩

theorem get?_indices (w : PackWriter) (name : String) :
    w.indices.get? name
      = if name ∈ w.table.collections then some (w.table.indexOf name) else none := by
  rw [w.numbered]
  by_cases hmem : name ∈ w.table.collections
  · rw [if_pos hmem, TableReader.idxOf?_of_mem hmem]
    rfl
  · rw [if_neg hmem, List.idxOf?_eq_none_iff.mpr hmem]
    rfl

/-- the writer with another table, and the indices that go with it -/
def withTable (w : PackWriter) (t : Pack.PackedTable) : PackWriter :=
  { w with table := t, indices := t.indices, numbered := t.get?_indices }

def withCollections (w : PackWriter) (collections : List String) : PackWriter :=
  w.withTable { w.table with collections }

theorem indices_eq (w : PackWriter) : w.indices = w.table.indices := by
  refine NameMap.ext_get? fun name => ?_
  rw [w.numbered, w.table.get?_indices]

theorem withTable_self (w : PackWriter) : w.withTable w.table = w := by
  have hindices := w.indices_eq
  cases w
  simp only [withTable, mk.injEq, true_and, and_true]
  exact hindices.symm

theorem withCollections_self (w : PackWriter) : w.withCollections w.table.collections = w :=
  w.withTable_self

theorem number_eq {w : PackWriter} {name : String} {index : LocalIndex}
    (hnew : w.indices.get? name = none)
    (hindex : LocalIndex.ofPosition w.table.collections.length = .ok index) :
    w.number name index hnew hindex = w.withCollections (w.table.collections ++ [name]) :=
  (w.number name index hnew hindex).withCollections_self.symm

theorem indexFor_of_mem {w : PackWriter} {name : String} (h : name ∈ w.table.collections) :
    w.indexFor name = .ok (w.table.indexOf name, w) := by
  have hknown := w.get?_indices name
  rw [if_pos h] at hknown
  rw [indexFor]
  split
  · rename_i index hindex
    rw [hknown] at hindex
    rw [Option.some.inj hindex]
  · rename_i hnew
    rw [hknown] at hnew
    cases hnew

theorem indexFor_of_not_mem {w : PackWriter} {name : String} (h : name ∉ w.table.collections) :
    w.indexFor name
      = match LocalIndex.ofPosition w.table.collections.length with
        | .error e => .error (.index e)
        | .ok index => .ok (index, w.withCollections (w.table.collections ++ [name])) := by
  have hknown := w.get?_indices name
  rw [if_neg h] at hknown
  rw [indexFor]
  split
  · rename_i index hindex
    rw [hknown] at hindex
    cases hindex
  · split
    · rename_i e hposition
      simp only [hposition]
    · rename_i index hposition
      simp only [hposition, number_eq]

theorem indexFor_ok {w w' : PackWriter} {name : String} {index : LocalIndex}
    (h : w.indexFor name = .ok (index, w')) :
    w' = w.withCollections (addName w.table.collections name)
      ∧ (w.table.collections.length ≤ 0x100000000 →
          w'.table.collections.length ≤ 0x100000000) := by
  by_cases hmem : name ∈ w.table.collections
  · rw [indexFor_of_mem hmem] at h
    cases h
    rw [TableReader.addName_of_mem hmem, withCollections_self]
    exact ⟨rfl, id⟩
  · rw [indexFor_of_not_mem hmem] at h
    split at h
    · cases h
    · rename_i position hposition
      cases h
      rw [TableReader.addName_of_not_mem hmem]
      refine ⟨rfl, fun _ => ?_⟩
      have hroom := (LocalIndex.ofPosition_eq_ok_iff.mp hposition).1
      show (w.table.collections ++ [name]).length ≤ _
      rw [List.length_append, List.length_singleton]
      omega

theorem indexNames_ok {w w' : PackWriter} {names : List String}
    (h : w.indexNames names = (.ok (), w')) :
    w' = w.withCollections (addNames w.table.collections names)
      ∧ (w.table.collections.length ≤ 0x100000000 →
          w'.table.collections.length ≤ 0x100000000) := by
  induction names generalizing w with
  | nil =>
    cases h
    exact ⟨(withCollections_self _).symm, id⟩
  | cons name rest ih =>
    rw [indexNames] at h
    split at h
    · cases h
    · rename_i index w₁ hfirst
      obtain ⟨rfl, hroom⟩ := indexFor_ok hfirst
      obtain ⟨rfl, hroom'⟩ := ih h
      exact ⟨rfl, fun hlength => hroom' (hroom hlength)⟩

/-- the number that a name is given is its place among all names then -/
theorem index_of_indexFor {w w' : PackWriter} {name : String} {index : LocalIndex}
    (h : w.indexFor name = .ok (index, w')) : index = w'.table.indexOf name := by
  by_cases hmem : name ∈ w.table.collections
  · rw [indexFor_of_mem hmem] at h
    cases h
    rfl
  · rw [indexFor_of_not_mem hmem] at h
    split at h
    · cases h
    · rename_i position hposition
      cases h
      have hplace : (w.table.collections ++ [name]).idxOf name = w.table.collections.length := by
        rw [List.idxOf_append_of_notMem hmem, List.idxOf_cons_self, Nat.add_zero]
      show _ = (⟨UInt32.ofNat ((w.table.collections ++ [name]).idxOf name)⟩ : LocalIndex)
      rw [hplace]
      exact (LocalIndex.ofPosition_eq_ok_iff.mp hposition).2

theorem indexAll_ok {w w' : PackWriter} {payloads : List (String × Buffers)}
    {entries : List Pack.PackedEntry} (h : w.indexAll payloads = (.ok entries, w')) :
    w' = w.withCollections (addNames w.table.collections (payloads.map Prod.fst))
      ∧ entries = w'.table.entriesOf payloads := by
  induction payloads generalizing w entries with
  | nil =>
    cases h
    exact ⟨(withCollections_self _).symm, rfl⟩
  | cons payload rest ih =>
    obtain ⟨name, buffers⟩ := payload
    rw [indexAll] at h
    split at h
    · cases h
    · rename_i index w₁ hfirst
      have hindex := index_of_indexFor hfirst
      obtain ⟨hw₁, -⟩ := indexFor_ok hfirst
      split at h
      · rename_i others w₂ hrest
        cases h
        obtain ⟨hw', rfl⟩ := ih hrest
        -- the names that come later leave the number of this one as it is
        have hfront : w₁.table.collections <+: w'.table.collections := by
          rw [hw']
          exact TableReader.isPrefix_addNames _ _
        have hmem : name ∈ w₁.table.collections := by
          rw [hw₁]
          exact TableReader.mem_addName.mpr (.inr rfl)
        refine ⟨?_, ?_⟩
        · rw [hw', hw₁]
          rfl
        · rw [hindex, ← Pack.PackedTable.indexOf_of_isPrefix hfront hmem]
          rfl
      · cases h

/-- of names that are numbered the first ones are listed, all of them unless there are too many -/
theorem indexNames_lists (w : PackWriter) (names : List String) :
    ∃ numbered, numbered <+: names
      ∧ (w.indexNames names).2 = w.withCollections (addNames w.table.collections numbered)
      ∧ (w.table.collections.length ≤ 0x100000000 →
          (addNames w.table.collections numbered).length ≤ 0x100000000) := by
  induction names generalizing w with
  | nil => exact ⟨[], List.prefix_rfl, w.withCollections_self.symm, id⟩
  | cons name rest ih =>
    rw [indexNames]
    split
    · exact ⟨[], List.nil_prefix, w.withCollections_self.symm, id⟩
    · rename_i index w₁ hfirst
      obtain ⟨rfl, hroom⟩ := indexFor_ok hfirst
      obtain ⟨numbered, hfront, hrest, hroom'⟩ :=
        ih (w.withCollections (addName w.table.collections name))
      exact ⟨name :: numbered, (List.prefix_cons_inj name).mpr hfront, hrest,
        fun hlength => hroom' (hroom hlength)⟩

theorem indexAll_snd (w : PackWriter) (payloads : List (String × Buffers)) :
    (w.indexAll payloads).2 = (w.indexNames (payloads.map Prod.fst)).2 := by
  induction payloads generalizing w with
  | nil => rfl
  | cons payload rest ih =>
    obtain ⟨name, buffers⟩ := payload
    rw [List.map_cons, indexAll, indexNames]
    cases w.indexFor name with
    | error e => rfl
    | ok numbered =>
      dsimp only
      rw [← ih numbered.2]
      rcases numbered.2.indexAll rest with ⟨entries | e, w'⟩ <;> rfl

/-- numbering the names of payloads adds names, even if there are too many of them -/
theorem indexAll_grows (w : PackWriter) (payloads : List (String × Buffers)) :
    ∃ collections, (w.indexAll payloads).2 = w.withCollections collections
      ∧ w.table.collections <+: collections
      ∧ (w.table.collections.length ≤ 0x100000000 → collections.length ≤ 0x100000000) := by
  obtain ⟨numbered, -, hlists, hroom⟩ := w.indexNames_lists (payloads.map Prod.fst)
  exact ⟨_, (w.indexAll_snd payloads).trans hlists, TableReader.isPrefix_addNames _ numbered, hroom⟩

theorem indexAll_of_mem {w : PackWriter} {payloads : List (String × Buffers)}
    (h : ∀ payload ∈ payloads, payload.1 ∈ w.table.collections) :
    w.indexAll payloads = (.ok (w.table.entriesOf payloads), w) := by
  induction payloads with
  | nil => rfl
  | cons payload rest ih =>
    obtain ⟨name, buffers⟩ := payload
    rw [indexAll, indexFor_of_mem (h (name, buffers) List.mem_cons_self)]
    dsimp only
    rw [ih fun p hp => h p (List.mem_cons_of_mem _ hp)]
    rfl

end PackWriter

end EventMerge
