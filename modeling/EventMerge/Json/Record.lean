import EventMerge.Json.Literal
import EventMerge.Json.Parser
import EventMerge.NameMap

/-!
# Reading values from documents

Each reader below takes a tree and gives a value of one kind, or nothing.  A record is written as an
object, whose unknown fields are passed over and whose known fields occur at most once, or as an
array of all its fields in order.

* `natural?`, `integer?`, `text?`, `octets?`  the leaves;
* `optional?`, `list?`, `map?`                what is built from them;
* `Record.ofTree?`                            the fields of a record.
-/

namespace EventMerge.Json

/-! ## leaves -/

def integer? (low high : Int) : Tree → Option Int
  | .number token =>
    match (Numeral.ofToken? token).bind Numeral.integer? with
    | some n => if low ≤ n ∧ n ≤ high then some n else none
    | none => none
  | _ => none

def natural? (high : Nat) (tree : Tree) : Option Nat := (integer? 0 high tree).map Int.toNat

def text? : Tree → Option String
  | .string raw => Literal.text? raw
  | _ => none

def octet? (tree : Tree) : Option UInt8 := (natural? 255 tree).map UInt8.ofNat

/-! ## composition -/

def all? {α β : Type} (read : α → Option β) : List α → Option (List β)
  | [] => some []
  | item :: rest =>
    match read item with
    | none => none
    | some value => (all? read rest).map (value :: ·)

def list? {α : Type} (read : Tree → Option α) : Tree → Option (List α)
  | .array items => all? read items
  | _ => none

/-- `null` stands for nothing -/
def optional? {α : Type} (read : Tree → Option α) : Tree → Option (Option α)
  | .null => some none
  | tree => (read tree).map some

def octets? : Tree → Option Bytes
  | .array items => all? octet? items
  | .string raw => Literal.octets? raw
  | _ => none

/-- an object as a map; of two fields with one name the later wins -/
def map? {α : Type} (read : Tree → Option α) : Tree → Option (NameMap α)
  | .object fields =>
    (all? (fun field =>
      match Literal.text? field.1, read field.2 with
      | some name, some value => some (name, value)
      | _, _ => none) fields).map NameMap.ofList
  | _ => none

mutual

/-- a reader that does not look at the tree accepts it -/
def isSkippable : Tree → Bool
  | .string raw => Literal.isSkippable raw
  | .array items => areSkippable items
  | .object fields => areSkippableFields fields
  | _ => true

def areSkippable : List Tree → Bool
  | [] => true
  | item :: rest => isSkippable item && areSkippable rest

def areSkippableFields : List (Bytes × Tree) → Bool
  | [] => true
  | (key, value) :: rest =>
    Literal.isSkippable key && isSkippable value && areSkippableFields rest

end

/-! ## records -/

inductive Slot where
  | given (tree : Tree)
  /-- the object has no such field -/
  | missing
  /-- the array ends before it -/
  | beyond

namespace Slot

def required? {α : Type} (read : Tree → Option α) : Slot → Option α
  | given tree => read tree
  | _ => none

def omissible? {α : Type} (read : Tree → Option α) : Slot → Option (Option α)
  | given tree => optional? read tree
  | missing => some none
  | beyond => none

/-- a field with a value of its own for a document that does not have it -/
def withDefault? {α : Type} (value : α) (read : Tree → Option α) : Slot → Option α
  | given tree => read tree
  | _ => some value

end Slot

abbrev Record := List Slot

namespace Record

/-- the fields of an object by name; unknown ones must only be well formed -/
def knownFields? (names : List String) :
    List (Bytes × Tree) → Option (List (String × Tree))
  | [] => some []
  | (key, value) :: rest =>
    match Literal.text? key, knownFields? names rest with
    | some name, some known =>
      if names.contains name then
        if known.any (·.1 == name) then none else some ((name, value) :: known)
      else if isSkippable value then some known
      else none
    | _, _ => none

def positional : List String → List Tree → Record
  | [], _ => []
  | _ :: names, [] => .beyond :: positional names []
  | _ :: names, item :: rest => .given item :: positional names rest

def slotOf (known : List (String × Tree)) (name : String) : Slot :=
  match known.find? (·.1 == name) with
  | some field => .given field.2
  | none => .missing

def ofTree? (names : List String) : Tree → Option Record
  | .object fields => (knownFields? names fields).map fun known => names.map (slotOf known)
  | .array items => if items.length ≤ names.length then some (positional names items) else none
  | _ => none

end Record

/-! ## writing -/

namespace Tree

def ofText (text : String) : Tree := .string (Literal.ofText text)

def ofNat (n : Nat) : Tree := .number (Text.Ascii.ofNat n)

def ofInt : Int → Tree
  | .ofNat n => ofNat n
  | .negSucc n => .number (0x2D :: Text.Ascii.ofNat (n + 1))

def ofOctets (octets : Bytes) : Tree := .array (octets.map fun b => ofNat b.toNat)

def ofOption {α : Type} (write : α → Tree) : Option α → Tree
  | none => .null
  | some value => write value

def ofList {α : Type} (write : α → Tree) (list : List α) : Tree := .array (list.map write)

def ofFields (fields : List (String × Tree)) : Tree :=
  .object (fields.map fun field => (Literal.ofText field.1, field.2))

def ofMap {α : Type} (write : α → Tree) (m : NameMap α) : Tree :=
  ofFields (m.entries.map fun entry => (entry.1, write entry.2))

def compactText (tree : Tree) : String := (Bytes.toText? tree.compact).getD ""

def prettyText (tree : Tree) : String := (Bytes.toText? tree.pretty).getD ""

end Tree

end EventMerge.Json
