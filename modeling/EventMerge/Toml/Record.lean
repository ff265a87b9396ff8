import EventMerge.NameMap
import EventMerge.Toml.Parser

/-!
# Reading values from TOML documents

Each reader takes an item and gives a value of one kind, or nothing.  A record is a table, whose
unknown fields are passed over, or a list of its fields in order, of which more than enough may be
there; a field that is not there has a value of its own.

* `boolean?`, `natural?`, `text?`, `texts?`, `textMap?`, `choice?`
* `Slots.ofItem?`  the fields of a record.
-/

namespace EventMerge.Toml

def boolean? : Item → Option Bool
  | .scalar (.boolean value) => some value
  | _ => none

def natural? : Item → Option Nat
  | .scalar (.integer value) => if 0 ≤ value then some value.toNat else none
  | _ => none

def text? : Item → Option String
  | .scalar (.string text) => some text
  | _ => none

def all? {α β : Type} (read : α → Option β) : List α → Option (List β)
  | [] => some []
  | item :: rest =>
    match read item with
    | none => none
    | some value => (all? read rest).map (value :: ·)

def texts? : Item → Option (List String)
  | .array items => all? text? items
  | _ => none

/-- the name under which a date is kept when a table is asked for -/
def dateKey : String := "$__toml_private_datetime"

/-- a table of texts; a date counts as a table with one field -/
def textMap? : Item → Option (NameMap String)
  | .table _ fields | .inlineTable _ fields =>
    (all? (fun field => (text? field.2).map fun text => (field.1, text)) fields).map NameMap.ofList
  | .scalar (.dateTime text) => some (NameMap.empty.insert dateKey text)
  | _ => none

def isBare : Item → Bool
  | .array items => items.isEmpty
  | .table _ fields | .inlineTable _ fields => fields.isEmpty
  | .tables newest => newest.isEmpty
  | .scalar _ => false

/-- one of several names: as a text, or as the only key of a table with nothing under it -/
def choice? {α : Type} (ofName? : String → Option α) : Item → Option α
  | .scalar (.string name) => ofName? name
  | .table _ [(name, item)] | .inlineTable _ [(name, item)] =>
    if isBare item then ofName? name else none
  | _ => none

abbrev Slots := List (Option Item)

namespace Slots

def positional : List String → List Item → Slots
  | [], _ => []
  | _ :: names, [] => none :: positional names []
  | _ :: names, item :: rest => some item :: positional names rest

def ofItem? (names : List String) : Item → Option Slots
  | .table _ fields | .inlineTable _ fields => some (names.map (Fields.get? fields))
  | .array items => some (positional names items)
  | .tables newest => some (positional names (newest.reverse.map (.table .defined)))
  | .scalar (.dateTime _) => some (names.map fun _ => none)
  | .scalar _ => none

/-- a field with a value of its own for a document that does not have it -/
def orDefault? {α : Type} (value : α) (read : Item → Option α) : Option Item → Option α
  | some item => read item
  | none => some value

end Slots

def record? {α : Type} (read : Item → Option α) (text : String) : Option α :=
  match parse? text with
  | some fields => read (.table .defined fields)
  | none => none

end EventMerge.Toml
