import EventMerge.Buffers
import EventMerge.Error

/-!
# Rows of a table

A row has a cell for every column, or fewer; a cell may be missing.  A cell always has data.  Fields
it leaves out are read as empty, except for the schema version, which stays unset.

* `Cell`        one payload as it is stored;
* `Row.decode`  the payload of a column.
-/

namespace EventMerge

structure Cell where
  data : Bytes
  relations : Option (List Bytes) := none
  vectorMembers : Option (List VectorMember) := none
  schemaVersion : Option UInt32 := none
  deriving DecidableEq

namespace Cell

instance : Inhabited Cell := ⟨⟨[], none, none, none⟩⟩

def ofBuffers (b : Buffers) : Cell :=
  ⟨b.data.getD [], b.relations, b.vectorMembers, b.schemaVersion⟩

def toBuffers (c : Cell) : Buffers :=
  ⟨some c.data, some (c.relations.getD []), some (c.vectorMembers.getD []), c.schemaVersion⟩

theorem toBuffers_ofBuffers {b : Buffers} (h : b.isValid = true) : (ofBuffers b).toBuffers = b := by
  obtain ⟨d, r, m, v, rfl⟩ := Buffers.isValid_iff_eq_complete.mp h
  rfl

end Cell

abbrev Row := List (Option Cell)

namespace Row

def cell? (row : Row) (index : LocalIndex) : Option Cell := (row[index.toNat]?).join

def decode (row : Row) (index : LocalIndex) : Except DecodeError Buffers :=
  match cell? row index with
  | some cell => .ok cell.toBuffers
  | none => .error (.notStored index)

theorem decode_not_foreign (row : Row) (index : LocalIndex) (expected : HandleKind) :
    row.decode index ≠ .error (.foreignHandle expected) := by
  rw [decode]
  split <;> exact nofun

end Row

end EventMerge
