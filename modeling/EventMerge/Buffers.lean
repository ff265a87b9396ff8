import EventMerge.Total
import EventMerge.Bytes

/-!
# The raw payload of a collection

Each of the four fields is unset, set to nothing, or set to content; the three cases differ.

* `Buffers`          the payload;
* `Buffers.isValid`  all four fields are set;
* `Buffers.filled`   the payload with defaults in the unset fields.
-/

namespace EventMerge

structure VectorMember where
  name : String
  payload : Bytes
  deriving DecidableEq

def defaultSchemaVersion : UInt32 := 1

/-- the raw payload of one collection -/
structure Buffers where
  data : Option Bytes := none
  relations : Option (List Bytes) := none
  vectorMembers : Option (List VectorMember) := none
  schemaVersion : Option UInt32 := none
  deriving DecidableEq

namespace Buffers

instance : Inhabited Buffers := ⟨{}⟩

/-- the payload with no field set -/
def unset : Buffers := {}

def complete (data : Bytes) (relations : List Bytes) (vectorMembers : List VectorMember)
    (schemaVersion : UInt32) : Buffers :=
  ⟨some data, some relations, some vectorMembers, some schemaVersion⟩

def isValid (b : Buffers) : Bool :=
  b.data.isSome && b.relations.isSome && b.vectorMembers.isSome && b.schemaVersion.isSome

/-- the schema version as a signed number, `-1` when it is unset -/
def rawSchemaVersion (b : Buffers) : Int :=
  match b.schemaVersion with
  | none => -1
  | some version => version.toNat

def payloadLength (b : Buffers) : Nat :=
  (b.data.getD []).length + total List.length (b.relations.getD [])
    + total (fun m => m.payload.length) (b.vectorMembers.getD [])

/-- the payload with a default in every unset field -/
def filled (b : Buffers) : Buffers :=
  complete (b.data.getD []) (b.relations.getD []) (b.vectorMembers.getD [])
    (b.schemaVersion.getD defaultSchemaVersion)

theorem isValid_complete (data : Bytes) (relations : List Bytes)
    (vectorMembers : List VectorMember) (schemaVersion : UInt32) :
    (complete data relations vectorMembers schemaVersion).isValid = true := rfl

theorem isValid_filled (b : Buffers) : b.filled.isValid = true := rfl

theorem isValid_iff_eq_complete {b : Buffers} :
    b.isValid = true ↔ ∃ d r m v, b = complete d r m v := by
  obtain ⟨data, relations, vectorMembers, schemaVersion⟩ := b
  constructor
  · intro h
    cases data <;> cases relations <;> cases vectorMembers <;> cases schemaVersion <;>
      simp [isValid] at h
    exact ⟨_, _, _, _, rfl⟩
  · rintro ⟨d, r, m, v, h⟩
    rw [h, isValid_complete]

theorem filled_of_isValid {b : Buffers} (h : b.isValid = true) : b.filled = b := by
  obtain ⟨d, r, m, v, rfl⟩ := isValid_iff_eq_complete.mp h
  rfl

theorem filled_filled (b : Buffers) : b.filled.filled = b.filled :=
  filled_of_isValid b.isValid_filled

end Buffers

end EventMerge
