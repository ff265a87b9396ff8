import EventMerge.Error
import EventMerge.Text.Blank

/-!
# Selecting events of a file

A selection is a list of positions, `0,2,5`, or a half-open range, `1:4`, either end of which may be
left out.  No selection at all stands for every event.

* `Selection.ofText`       the selection of a text;
* `Selection.beyond?`      the first position that a file does not have;
* `Selection.positions`    the list of positions that is made of a selection;
* `Selection.resolve`      the positions of a text in a file.
-/

namespace EventMerge

open Text (quote trim)

inductive Selection where
  /-- from `start` up to, but not including, `stop` -/
  | range (start stop : Nat)
  | list (positions : List Nat)
  deriving DecidableEq

namespace Selection

/-! ## positions -/

def positions : Selection → List Nat
  | range start stop => List.range' start (stop - start)
  | list positions => positions

def size : Selection → Nat
  | range start stop => stop - start
  | list positions => positions.length

/-- the first position that is not below `count` -/
def beyond? (count : Nat) : Selection → Option Nat
  | range start stop => if max start count < stop then some (max start count) else none
  | list positions => positions.find? fun n => count ≤ n

/-- no list is longer than this: its places, of eight octets each, have 63-bit addresses -/
def sizeLimit : Nat := 0x1000000000000000 - 1

/-! ## reading -/

def bound (default : Nat) (text : String) : Except Failure Nat :=
  let text := trim text
  if text.isEmpty then .ok default
  else
    match Text.Decimal.parse Text.Decimal.limit64 text with
    | .ok n => .ok n
    | .error e => .error (Failure.within ("bad range bound " ++ quote text) ⟨[], .number e⟩)

def position (text : String) : Except Failure Nat :=
  match Text.Decimal.parse Text.Decimal.limit64 (trim text) with
  | .ok n => .ok n
  | .error e => .error (Failure.within ("bad entry " ++ quote text) ⟨[], .number e⟩)

def positionList : List String → Except Failure (List Nat)
  | [] => .ok []
  | text :: rest =>
    match position text with
    | .error f => .error f
    | .ok n =>
      match positionList rest with
      | .error f => .error f
      | .ok others => .ok (n :: others)

def rangeBetween (count : Nat) (whole first last : String) : Except Failure Selection :=
  match bound 0 first with
  | .error f => .error f
  | .ok start =>
    match bound count last with
    | .error f => .error f
    | .ok stop =>
      if stop < start then .error (.refuse ("empty entry range " ++ whole))
      else .ok (.range start stop)

def ofTrimmed (count : Nat) (text : String) : Except Failure Selection :=
  match Text.splitFirst? ':' text.toList with
  | some (first, last) =>
    rangeBetween count text (String.ofList first) (String.ofList last)
  | none =>
    match positionList (Text.splitOn ',' text) with
    | .ok positions => .ok (.list positions)
    | .error f => .error f

def ofText (count : Nat) : Option String → Except Failure Selection
  | none => .ok (.range 0 count)
  | some text =>
    if (trim text).isEmpty then .ok (.range 0 count) else ofTrimmed count (trim text)

/-- the positions of a text in a file of `count` events.  The list is made before it is checked, so
one that is too long to be made is not found to be out of range. -/
def resolve (count : Nat) (text : Option String) : Except Failure (List Nat) :=
  match ofText count text with
  | .error f => .error f
  | .ok s =>
    if sizeLimit < s.size then .error ⟨[], .memory⟩
    else
      match s.beyond? count with
      | some n =>
        .error (.refuse ("entry " ++ Text.Decimal.ofNat n ++ " out of range, the file has "
          ++ Text.Decimal.ofNat count ++ " events"))
      | none => .ok s.positions

/-! ## small facts -/

theorem length_positions (s : Selection) : s.positions.length = s.size := by
  cases s with
  | range start stop => exact List.length_range'
  | list positions => rfl

theorem beyond?_list_eq_none {count : Nat} {positions : List Nat} :
    (list positions).beyond? count = none ↔ ∀ n ∈ positions, n < count := by
  simp [beyond?, List.find?_eq_none]

theorem beyond?_range_eq_none {count start stop : Nat} :
    (range start stop).beyond? count = none ↔ stop ≤ max start count := by
  rw [beyond?]
  split
  · rename_i h
    exact ⟨(nomatch ·), fun hle => absurd h (Nat.not_lt.mpr hle)⟩
  · rename_i h
    exact ⟨fun _ => Nat.not_lt.mp h, fun _ => rfl⟩

end Selection

end EventMerge
