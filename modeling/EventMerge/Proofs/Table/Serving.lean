import EventMerge.Proofs.Store.Rereading
import EventMerge.Proofs.Table.Columns

/-!
# The columns that names are served from

A document labels its columns by a list of names.  Its reader counts a repeated name once, but the rows
keep a cell for each column, so that behind a repetition a name is served from a column in front of
its own.

* `Row.inColumn`            what a row has in a column;
* `TableReader.ServesFrom`  a name is served from a column;
* `TableReader.column`      the column that a reader of a document serves a name from;
* `TableReader.serves_own_column`  it is the name's own exactly if no name in front of it is repeated.
-/

namespace EventMerge

/-- what a row has in a column, or the error of an index if it has nothing there -/
def Row.inColumn (row : Row) (column : Nat) (index : LocalIndex) : Except DecodeError Buffers :=
  match row[column]?.join with
  | some cell => .ok cell.toBuffers
  | none => .error (.notStored index)

namespace TableReader

/-- under the index that the reader has for the name, every row gives what it has in the column -/
def ServesFrom (r : TableReader) (name : String) (column : Nat) : Prop :=
  ∃ index, r.entries.get? name = some index
    ∧ ∀ row : Row, row.decode index = row.inColumn column index

/-- the column that a name is served from if the columns are labelled like this -/
def column (labels : List String) (name : String) : Nat :=
  (distinct (labels.take (labels.idxOf name))).length % 0x100000000

theorem entries_ofDocument (label : String) (d : TableDocument) {name : String}
    (h : name ∈ d.collections) :
    ∃ index, (ofDocument label d).entries.get? name = some index
      ∧ index.toNat = column d.collections name := by
  have hmem : name ∈ distinct d.collections := mem_addNames.mpr (.inr h)
  have hentry := Feed.get?_indexed (nodup_addNames List.nodup_nil d.collections) name
  rw [← distinct_eq_addNames, if_pos hmem, idxOf_distinct h] at hentry
  exact ⟨_, hentry, UInt32.toNat_ofNat'⟩

/-- an index can stand for the column of a name, and no name in front of it is repeated -/
theorem column_eq_iff {labels : List String} {name : String} :
    column labels name = labels.idxOf name
      ↔ (labels.take (labels.idxOf name)).Nodup ∧ labels.idxOf name < 0x100000000 := by
  have hlength : (labels.take (labels.idxOf name)).length = labels.idxOf name :=
    List.length_take_of_le List.idxOf_le_length
  have hdistinct := length_distinct_le (labels.take (labels.idxOf name))
  rw [hlength] at hdistinct
  rw [← length_distinct_eq_iff, hlength, column]
  constructor
  · intro hcolumn
    omega
  · rintro ⟨hsame, hroom⟩
    rw [hsame, Nat.mod_eq_of_lt hroom]

/-- a name is never served from a column behind its own -/
theorem column_le (labels : List String) (name : String) :
    column labels name ≤ labels.idxOf name := by
  have hdistinct := length_distinct_le (labels.take (labels.idxOf name))
  rw [List.length_take_of_le List.idxOf_le_length] at hdistinct
  exact Nat.le_trans (Nat.mod_le _ _) hdistinct

/-- no column in front of the first one with a name has that label -/
theorem getElem?_column {labels : List String} {name : String} (h : name ∈ labels) :
    ∃ label, labels[column labels name]? = some label
      ∧ (label = name ↔ column labels name = labels.idxOf name) := by
  have hplace : column labels name < labels.length :=
    Nat.lt_of_le_of_lt (column_le labels name) (List.idxOf_lt_length_of_mem h)
  refine ⟨_, List.getElem?_eq_getElem hplace, fun hlabel => ?_, fun hown => ?_⟩
  · refine Nat.le_antisymm (column_le labels name) (Nat.le_of_not_lt fun hfront => ?_)
    exact beq_eq_false_iff_ne.mp (List.not_of_lt_findIdx hfront) hlabel
  · simp only [hown, List.getElem_idxOf]

/-- **A name is served from its own column exactly if no name in front of that is repeated.**  Every
name of a document is served from one column, for all rows alike, and otherwise that column is
labelled with another name. -/
theorem serves_own_column (source : String) (d : TableDocument) {name : String}
    (h : name ∈ d.collections) :
    ((ofDocument source d).feed source).script = d.rows.map (fun row => .event (.row row))
      ∧ (∀ row, ((ofDocument source d).feed source).decoder (.row row) = row.decode)
      ∧ ∃ column label, (ofDocument source d).ServesFrom name column
        ∧ d.collections[column]? = some label
        ∧ (label = name ↔ (d.collections.take (d.collections.idxOf name)).Nodup
          ∧ d.collections.idxOf name < 0x100000000) := by
  obtain ⟨label, hlabel, hown⟩ := getElem?_column h
  obtain ⟨index, hindex, hcolumn⟩ := entries_ofDocument source d h
  refine ⟨rfl, decoder_feed source _, column d.collections name, label,
    ⟨index, hindex, fun row => ?_⟩, hlabel, hown.trans column_eq_iff⟩
  rw [← hcolumn]
  rfl

/-- a document with a name twice in front of another one -/
def repeated : TableDocument :=
  { collections := ["hits", "hits", "tracks"]
    rows := [[some ⟨[1], none, none, some 1⟩, some ⟨[2], none, none, some 1⟩,
      some ⟨[3], none, none, some 1⟩]] }

/-- the name in front of which another is repeated is served from that one's column, the repeated name
from its first one -/
theorem serves_own_column_repeated :
    (∃ column label, (ofDocument "table" repeated).ServesFrom "tracks" column
        ∧ repeated.collections[column]? = some label ∧ label ≠ "tracks")
      ∧ ∃ column, (ofDocument "table" repeated).ServesFrom "hits" column
        ∧ repeated.collections[column]? = some "hits" := by
  obtain ⟨-, -, column, label, hserves, hlabel, hown⟩ :=
    serves_own_column "table" repeated (show "tracks" ∈ repeated.collections by decide)
  obtain ⟨-, -, column', label', hserves', hlabel', hown'⟩ :=
    serves_own_column "table" repeated (show "hits" ∈ repeated.collections by decide)
  have hothers : ¬ (repeated.collections.take (repeated.collections.idxOf "tracks")).Nodup := by
    decide
  have hfirst : (repeated.collections.take (repeated.collections.idxOf "hits")).Nodup := by decide
  refine ⟨⟨column, label, hserves, hlabel, fun h => hothers (hown.mp h).1⟩, column', hserves', ?_⟩
  rw [hlabel', hown'.mpr ⟨hfirst, by decide⟩]

/-- what a row of the document gives for the name is in none of the columns with that name -/
theorem serves_other_column :
    ∃ index, (ofDocument "table" repeated).entries.get? "tracks" = some index
      ∧ ∃ row ∈ repeated.rows, ∀ column, repeated.collections[column]? = some "tracks" →
        row.decode index ≠ row.inColumn column index := by
  refine ⟨⟨1⟩, by decide, _, List.mem_singleton.mpr rfl, fun column hlabel => ?_⟩
  match column, hlabel with
  | 2, _ => exact fun h => absurd (Except.ok.inj h) (by decide)

end TableReader

end EventMerge
