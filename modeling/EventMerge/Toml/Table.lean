import EventMerge.Toml.Scalar

/-!
# TOML tables

A table that was named by a header or written between braces is closed against additions from
elsewhere; one that only came up on the way to another is not, and remembers whether it came up in a
dotted key or in a header.

* `Item`            a value, a table or a list of tables;
* `Fields.define?`  adds a value under a dotted key;
* `Builder`         a document that is being read, header by header.
-/

namespace EventMerge.Toml

inductive Standing where
  /-- named by a header, or between braces -/
  | defined
  /-- on the way to another table, in a header -/
  | implied
  /-- on the way to a value, in a dotted key -/
  | dotted
  deriving DecidableEq

inductive Item where
  | scalar (value : Scalar)
  | array (items : List Item)
  | inlineTable (standing : Standing) (fields : List (String × Item))
  | table (standing : Standing) (fields : List (String × Item))
  /-- tables under one header, the last one first -/
  | tables (newest : List (List (String × Item)))

instance : Inhabited Item := ⟨.array []⟩

/-- the keys of a table in the order in which they came up -/
abbrev Fields := List (String × Item)

namespace Fields

def get? (fields : Fields) (key : String) : Option Item :=
  (fields.find? fun field => field.1 = key).map Prod.snd

def set (key : String) (item : Item) : Fields → Fields
  | [] => [(key, item)]
  | (k, old) :: rest => if k = key then (k, item) :: rest else (k, old) :: set key item rest

def erase (key : String) (fields : Fields) : Fields := fields.filter fun field => field.1 ≠ key

/-- adds a value to the table that a dotted key leads to.  The tables on the way must have come up in
dotted keys, and the key must be new. -/
def define? (inBraces : Bool) (value : Item) : List String → Fields → Option Fields
  | [], _ => none
  | [key], fields =>
    match fields.get? key with
    | some _ => none
    | none => some (fields ++ [(key, value)])
  | key :: path, fields =>
    let wrap (sub : Fields) : Item :=
      if inBraces then .inlineTable .dotted sub else .table .dotted sub
    match fields.get? key with
    | none => (define? inBraces value path []).map fun sub => fields ++ [(key, wrap sub)]
    | some (.table .dotted sub) =>
      if inBraces then none
      else (define? inBraces value path sub).map fun sub => fields.set key (wrap sub)
    | some (.table .implied sub) =>
      -- the way may lead through such a table, but the value may not be put into it
      if inBraces ∨ path.length < 2 then none
      else
        (define? inBraces value path sub).map fun sub => fields.set key (.table .implied sub)
    | some (.inlineTable .dotted sub) =>
      if inBraces then (define? inBraces value path sub).map fun sub => fields.set key (wrap sub)
      else none
    | some (.tables (last :: earlier)) =>
      if inBraces ∨ path.length < 2 then none
      else
        (define? inBraces value path last).map fun sub =>
          fields.set key (.tables (sub :: earlier))
    | some _ => none

/-- changes the table that the path of a header leads to; tables on the way come up if they are
missing -/
def update? (change : Fields → Option Fields) : List String → Fields → Option Fields
  | [], fields => change fields
  | key :: path, fields =>
    match fields.get? key with
    | none => (update? change path []).map fun sub => fields ++ [(key, .table .implied sub)]
    | some (.table standing sub) =>
      (update? change path sub).map fun sub => fields.set key (.table standing sub)
    | some (.tables (last :: earlier)) =>
      (update? change path last).map fun sub => fields.set key (.tables (sub :: earlier))
    | some _ => none

end Fields

/-! ## documents -/

/-- a document that is being read: the tables so far, and the one that keys are added to -/
structure Builder where
  root : Fields := []
  current : Fields := []
  /-- the path of the current table, empty for the top of the document -/
  path : List String := []
  inList : Bool := false

namespace Builder

def splitLast : List String → Option (List String × String)
  | [] => none
  | path => path.getLast?.map fun key => (path.dropLast, key)

def close? (b : Builder) : Option Fields :=
  match splitLast b.path with
  | none => some b.current
  | some (parents, key) =>
    b.root.update? (fun fields =>
      match fields.get? key, b.inList with
      | none, false => some (fields ++ [(key, .table .defined b.current)])
      | some (.table .implied _), false | some (.table .dotted _), false =>
        some (fields.set key (.table .defined b.current))
      | some (.tables earlier), true => some (fields.set key (.tables (b.current :: earlier)))
      | _, _ => none) parents

/-- what the table under a key holds already, on the path of a header.  Only a table that came up on
the way to others may be there. -/
def held? (key : String) : List String → Fields → Option Fields
  | [], fields =>
    match fields.get? key with
    | none => some []
    | some (.table .implied sub) => some sub
    | some _ => none
  | k :: path, fields =>
    match fields.get? k with
    | none => some []
    | some (.table _ sub) => held? key path sub
    | some (.tables (last :: _)) => held? key path last
    | some _ => none

/-- starts the table of a header, which keeps what it holds already -/
def openTable? (root : Fields) (path : List String) : Option Builder :=
  match splitLast path with
  | none => none
  | some (parents, key) =>
    match held? key parents root,
      root.update? (fun fields => some (fields.erase key)) parents with
    | some current, some root => some { root, current, path }
    | _, _ => none

def openList? (root : Fields) (path : List String) : Option Builder :=
  match splitLast path with
  | none => none
  | some (parents, key) =>
    let root? := root.update? (fun fields =>
      match fields.get? key with
      | none => some (fields ++ [(key, .tables [])])
      | some (.tables _) => some fields
      | some _ => none) parents
    root?.map fun root => { root, current := [], path, inList := true }

def define? (b : Builder) (key : List String) (value : Item) : Option Builder :=
  (b.current.define? false value key).map fun current => { b with current }

end Builder

end EventMerge.Toml
