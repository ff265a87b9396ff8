import EventMerge.NameMap

/-!
# Parameters of an event

Three maps from names to lists of values: whole numbers, single-precision numbers and texts.  The
same name may be used in each of them.

* `ParameterKind`      which of the three maps;
* `Parameters.values`  the map of a kind;
* `Parameters.setAll`  stores a list of values under a name.
-/

namespace EventMerge

/-- a single-precision number, told apart by its 32 bits -/
structure Single where
  bits : UInt32
  deriving DecidableEq

inductive ParameterKind where
  | int
  | float
  | text
  deriving DecidableEq

namespace ParameterKind

abbrev Value : ParameterKind → Type
  | .int => Int32
  | .float => Single
  | .text => String

end ParameterKind

structure Parameters where
  ints : NameMap (List Int32) := .empty
  floats : NameMap (List Single) := .empty
  texts : NameMap (List String) := .empty
  deriving DecidableEq

namespace Parameters

instance : Inhabited Parameters := ⟨{}⟩

def values (p : Parameters) : (kind : ParameterKind) → NameMap (List kind.Value)
  | .int => p.ints
  | .float => p.floats
  | .text => p.texts

/-- stores a list of values, in place of any earlier one -/
def setAll (p : Parameters) :
    (kind : ParameterKind) → (name : String) → List kind.Value → Parameters
  | .int, name, list => { p with ints := p.ints.insert name list }
  | .float, name, list => { p with floats := p.floats.insert name list }
  | .text, name, list => { p with texts := p.texts.insert name list }

def set (p : Parameters) (kind : ParameterKind) (name : String) (value : kind.Value) : Parameters :=
  p.setAll kind name [value]

/-- the values under a name; none when the name is unknown -/
def getAll (p : Parameters) (kind : ParameterKind) (name : String) : List kind.Value :=
  ((p.values kind).get? name).getD []

def get? (p : Parameters) (kind : ParameterKind) (name : String) : Option kind.Value :=
  (p.getAll kind name).head?

def names (p : Parameters) (kind : ParameterKind) : List String := (p.values kind).keys

/-- the number of names, counted once for each kind -/
def size (p : Parameters) : Nat := p.ints.size + p.floats.size + p.texts.size

theorem getAll_setAll_self (p : Parameters) (kind : ParameterKind) (name : String)
    (list : List kind.Value) : (p.setAll kind name list).getAll kind name = list := by
  cases kind <;> simp [setAll, getAll, values, NameMap.get?_insert_self]

theorem getAll_setAll_of_ne (p : Parameters) (kind : ParameterKind) {name other : String}
    (list : List kind.Value) (h : other ≠ name) :
    (p.setAll kind name list).getAll kind other = p.getAll kind other := by
  cases kind <;> simp [setAll, getAll, values, NameMap.get?_insert_of_ne _ _ h]

end Parameters

end EventMerge
