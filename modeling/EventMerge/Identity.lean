import EventMerge.Text.Decimal

/-!
# Where a collection comes from

* `SourceId`    a source, numbered in registration order; negative numbers stand for no reader;
* `LocalIndex`  the place of a collection among those of one source;
* `IndexError`  a position that has no number.
-/

namespace EventMerge

inductive IndexError where
  | localIndex (position : Nat)
  | source (position : Nat)
  deriving DecidableEq

namespace IndexError

def message : IndexError → String
  | .localIndex position =>
    "local index " ++ Text.Decimal.ofNat position ++ " does not fit into 32 bits"
  | .source position =>
    "source position " ++ Text.Decimal.ofNat position ++ " does not fit into a source id"

end IndexError

/-- a source, numbered in registration order -/
structure SourceId where
  value : Int32
  deriving DecidableEq

namespace SourceId

/-- the virtual source of the collections that are made while an event is processed -/
def runtime : SourceId := ⟨-1⟩

instance : Inhabited SourceId := ⟨runtime⟩

def ofPosition (position : Nat) : Except IndexError SourceId :=
  if position < 0x80000000 then .ok ⟨Int32.ofNat position⟩ else .error (.source position)

def toInt (source : SourceId) : Int := source.value.toInt

def isRuntime (source : SourceId) : Bool := source.toInt < 0

def text (source : SourceId) : String := Text.Decimal.ofInt source.toInt

def description (source : SourceId) : String :=
  "SourceId(" ++ (if source.isRuntime then "runtime" else source.text) ++ ")"

theorem ofPosition_eq_ok_iff {position : Nat} {source : SourceId} :
    ofPosition position = .ok source ↔ position < 0x80000000 ∧ source = ⟨Int32.ofNat position⟩ := by
  rw [ofPosition]
  split
  · rename_i h
    constructor
    · intro heq
      exact ⟨h, (Except.ok.inj heq).symm⟩
    · intro heq
      rw [heq.2]
  · rename_i h
    constructor
    · intro heq
      exact nomatch heq
    · intro heq
      exact absurd heq.1 h

end SourceId

/-- the place of a collection among those of one source -/
structure LocalIndex where
  value : UInt32
  deriving DecidableEq

namespace LocalIndex

instance : Inhabited LocalIndex := ⟨⟨0⟩⟩

def ofPosition (position : Nat) : Except IndexError LocalIndex :=
  if position < 0x100000000 then .ok ⟨UInt32.ofNat position⟩ else .error (.localIndex position)

def toNat (index : LocalIndex) : Nat := index.value.toNat

def text (index : LocalIndex) : String := Text.Decimal.ofNat index.toNat

def description (index : LocalIndex) : String := "LocalIndex(" ++ index.text ++ ")"

theorem ofPosition_eq_ok_iff {position : Nat} {index : LocalIndex} :
    ofPosition position = .ok index ↔ position < 0x100000000 ∧ index = ⟨UInt32.ofNat position⟩ := by
  rw [ofPosition]
  split
  · rename_i h
    constructor
    · intro heq
      exact ⟨h, (Except.ok.inj heq).symm⟩
    · intro heq
      rw [heq.2]
  · rename_i h
    constructor
    · intro heq
      exact nomatch heq
    · intro heq
      exact absurd heq.1 h

theorem toNat_ofNat {position : Nat} (h : position < 0x100000000) :
    (⟨UInt32.ofNat position⟩ : LocalIndex).toNat = position := by
  exact UInt32.toNat_ofNat_of_lt' h

end LocalIndex

end EventMerge
