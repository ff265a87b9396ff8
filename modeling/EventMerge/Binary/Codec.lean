import EventMerge.Bytes
import EventMerge.NameMap

/-!
# Binary codecs

A codec writes values one after the other without any separator, so a reader gives back what it did
not take.  Numbers have a fixed width, the least significant octet first; a list is preceded by the
count of its items, an optional value by an octet that tells whether it is there.

* `Codec`                                         a writer and a reader;
* `Codec.number`, `Codec.octets`, `Codec.text`    the leaves;
* `Codec.option`, `Codec.list`, `Codec.pair`, `Codec.map`, `Codec.via`.
-/

namespace EventMerge.Binary

/-- a writer of values and a reader that gives back what it did not take -/
structure Codec (α : Type) where
  write : α → Bytes
  read? : Bytes → Option (α × Bytes)

namespace Codec

variable {α β : Type}

/-! ## leaves -/

def split? (count : Nat) (bytes : Bytes) : Option (Bytes × Bytes) :=
  if bytes.length < count then none else some (bytes.take count, bytes.drop count)

theorem split?_append (a rest : Bytes) : split? a.length (a ++ rest) = some (a, rest) := by
  rw [split?, if_neg (by rw [List.length_append]; omega), List.take_left, List.drop_left]

def number (width : Nat) : Codec Nat where
  write := Bytes.ofNatLE width
  read? bytes := (split? width bytes).map fun (head, rest) => (Bytes.toNatLE head, rest)

theorem read?_write_number {width n : Nat} (h : n < Nat.pow 256 width) (rest : Bytes) :
    (number width).read? ((number width).write n ++ rest) = some (n, rest) := by
  show (split? width (Bytes.ofNatLE width n ++ rest)).map _ = _
  have hsplit := split?_append (Bytes.ofNatLE width n) rest
  rw [Bytes.length_ofNatLE] at hsplit
  rw [hsplit, Option.map_some]
  show some (Bytes.toNatLE (Bytes.ofNatLE width n), rest) = _
  rw [Bytes.toNatLE_ofNatLE, Nat.mod_eq_of_lt h]

def countWidth : Nat := 8

/-- octets with their count in front -/
def octets : Codec Bytes where
  write b := (number countWidth).write b.length ++ b
  read? bytes :=
    match (number countWidth).read? bytes with
    | some (count, rest) => split? count rest
    | none => none

theorem read?_octets (bytes : Bytes) :
    octets.read? bytes = match (number countWidth).read? bytes with
      | some (count, rest) => split? count rest
      | none => none := rfl

theorem write_octets (b : Bytes) :
    octets.write b = (number countWidth).write b.length ++ b := rfl

theorem read?_write_octets {b : Bytes} (h : b.length < Nat.pow 256 countWidth) (rest : Bytes) :
    octets.read? (octets.write b ++ rest) = some (b, rest) := by
  rw [read?_octets, write_octets, List.append_assoc, read?_write_number h]
  exact split?_append b rest

def text : Codec String where
  write t := octets.write (Bytes.ofText t)
  read? bytes :=
    match octets.read? bytes with
    | some (b, rest) => (Bytes.toText? b).map (·, rest)
    | none => none

theorem read?_text (bytes : Bytes) :
    text.read? bytes = match octets.read? bytes with
      | some (b, rest) => (Bytes.toText? b).map (·, rest)
      | none => none := rfl

theorem write_text (t : String) : text.write t = octets.write (Bytes.ofText t) := rfl

theorem read?_write_text {t : String} (h : (Bytes.ofText t).length < Nat.pow 256 countWidth)
    (rest : Bytes) : text.read? (text.write t ++ rest) = some (t, rest) := by
  rw [read?_text, write_text, read?_write_octets h]
  simp only [Bytes.toText?_ofText, Option.map_some]

/-! ## composition -/

def via (c : Codec α) (ofPart : α → β) (toPart : β → α) : Codec β where
  write b := c.write (toPart b)
  read? bytes := (c.read? bytes).map fun (a, rest) => (ofPart a, rest)

def pair (c : Codec α) (d : Codec β) : Codec (α × β) where
  write p := c.write p.1 ++ d.write p.2
  read? bytes :=
    match c.read? bytes with
    | some (a, rest) => (d.read? rest).map fun (b, rest) => ((a, b), rest)
    | none => none

/-- zero for nothing, one in front of a value -/
def option (c : Codec α) : Codec (Option α) where
  write
    | none => [0]
    | some a => 1 :: c.write a
  read?
    | [] => none
    | tag :: rest =>
      if tag = 0 then some (none, rest)
      else if tag = 1 then (c.read? rest).map fun (a, rest) => (some a, rest)
      else none

def readMany? (c : Codec α) : (count : Nat) → Bytes → Option (List α × Bytes)
  | 0, bytes => some ([], bytes)
  | count + 1, bytes =>
    match c.read? bytes with
    | some (a, rest) => (readMany? c count rest).map fun (list, rest) => (a :: list, rest)
    | none => none

def list (c : Codec α) : Codec (List α) where
  write l := (number countWidth).write l.length ++ l.flatMap c.write
  read? bytes :=
    match (number countWidth).read? bytes with
    | some (count, rest) => c.readMany? count rest
    | none => none

/-- pairs with their count in front; of two with one name the later wins -/
def map (c : Codec α) : Codec (NameMap α) := (text.pair c).list.via NameMap.ofList NameMap.entries

/-- the value at the start of a byte string; what follows it does not matter -/
def decode? (c : Codec α) (bytes : Bytes) : Option α := (c.read? bytes).map Prod.fst

end Codec

end EventMerge.Binary
