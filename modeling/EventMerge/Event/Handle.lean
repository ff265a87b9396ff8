import EventMerge.Pack.Event
import EventMerge.Table.Row

/-!
# Handles and decoders

For each event a reader gives a handle, into which only a decoder looks.  A decoder is made for the
handles of one type, and refuses all others.

* `Handle`         what a reader gives for one event;
* `Decoder`        what finds a payload in a handle;
* `Decoder.typed`  the decoder for the handles of one type;
* `Decoder.row`    the decoder for the rows of tables.
-/

namespace EventMerge

/-- what a handle has under each index -/
abbrev Decoding := LocalIndex → Except DecodeError Buffers

/-- what a reader gives for one event -/
inductive Handle where
  | row (row : Row)
  /-- an event of a pack, which is unpacked when it is first asked for something -/
  | packed (event : Thunk (Except PackError Pack.PackedEvent))
  /-- of a reader of any other kind, known by what its own decoder finds in it -/
  | other (contents : Decoding)

namespace Handle

/-- a handle of another type, in which nothing is found -/
def nothing : Handle := .other fun index => .error (.notStored index)

def row? : Handle → Option Row
  | .row r => some r
  | _ => none

def packed? : Handle → Option (Thunk (Except PackError Pack.PackedEvent))
  | .packed event => some event
  | _ => none

end Handle

/-- finds the payload of an index in a handle -/
abbrev Decoder := Handle → Decoding

namespace Decoder

section

variable {α : Type} {expected kind : HandleKind} {cast? : Handle → Option α} {decode : α → Decoding}
  {handle : Handle} {index : LocalIndex}

/-- the decoder for the handles of one type -/
def typed (expected : HandleKind) (cast? : Handle → Option α) (decode : α → Decoding) : Decoder :=
  fun handle index =>
    match cast? handle with
    | some a => decode a index
    | none => .error (.foreignHandle expected)

theorem typed_of_some {a : α} (h : cast? handle = some a) :
    typed expected cast? decode handle index = decode a index := by
  rw [typed, h]

theorem typed_of_none (h : cast? handle = none) :
    typed expected cast? decode handle index = .error (.foreignHandle expected) := by
  rw [typed, h]

/-- **A handle is refused exactly if it is not of the type of the decoder.** -/
theorem typed_eq_foreign_iff (h : ∀ a index kind, decode a index ≠ .error (.foreignHandle kind)) :
    typed expected cast? decode handle index = .error (.foreignHandle kind)
      ↔ cast? handle = none ∧ kind = expected := by
  cases hcast : cast? handle with
  | some a =>
    rw [typed_of_some hcast]
    exact ⟨fun hforeign => absurd hforeign (h a index kind), fun hnone => nomatch hnone.1⟩
  | none =>
    rw [typed_of_none hcast]
    constructor
    · intro hsame
      cases hsame
      exact ⟨rfl, rfl⟩
    · rintro ⟨-, rfl⟩
      rfl

end

def row : Decoder := typed .tableRow Handle.row? Row.decode

/-- the decoder for rows refuses whatever is not a row -/
theorem row_eq_foreign_iff {handle : Handle} {index : LocalIndex} {kind : HandleKind} :
    row handle index = .error (.foreignHandle kind) ↔ handle.row? = none ∧ kind = .tableRow :=
  typed_eq_foreign_iff Row.decode_not_foreign

end Decoder

end EventMerge
