import EventMerge.Json.Payload
import EventMerge.Pack.Event
import EventMerge.Table.Row

/-!
# Table documents

A table is kept as a JSON document: the names of the columns, texts about them, and the rows.

* `TableDocument.load`  reads a document;
* `TableDocument.save`  its octets.
-/

namespace EventMerge

open Json (Tree Record)
open Json.Tree (ofFields ofOption ofList)

namespace Cell

/-- a field that is left out when it is unset -/
def optionalField (name : String) {α : Type} (write : α → Tree) :
    Option α → List (String × Tree)
  | none => []
  | some value => [(name, write value)]

def toTree (c : Cell) : Tree :=
  ofFields
    ([("data", .ofOctets c.data)]
      ++ optionalField "relations" (ofList .ofOctets) c.relations
      ++ optionalField "vector_members" (ofList VectorMember.toTree) c.vectorMembers
      ++ [("schema_version", ofOption Buffers.versionToTree c.schemaVersion)])

def ofTree? (tree : Tree) : Option Cell :=
  match Record.ofTree? ["data", "relations", "vector_members", "schema_version"] tree with
  | some [data, relations, members, version] =>
    match data.required? Json.octets?,
      relations.withDefault? none (Json.optional? (Json.list? Json.octets?)),
      members.withDefault? none (Json.optional? (Json.list? VectorMember.ofTree?)),
      version.withDefault? none (Json.optional? Buffers.versionOfTree?) with
    | some data, some relations, some members, some version =>
      some ⟨data, relations, members, version⟩
    | _, _, _, _ => none
  | _ => none

end Cell

namespace Row

def toTree (row : Row) : Tree := ofList (ofOption Cell.toTree) row

def ofTree? (tree : Tree) : Option Row := Json.list? (Json.optional? Cell.ofTree?) tree

end Row

structure TableDocument where
  collections : List String
  metadata : Metadata := .empty
  rows : List Row := []
  deriving DecidableEq

namespace TableDocument

def toTree (d : TableDocument) : Tree :=
  ofFields [
    ("collections", ofList Tree.ofText d.collections),
    ("metadata", .ofMap Tree.ofText d.metadata),
    ("rows", ofList Row.toTree d.rows)]

def ofTree? (tree : Tree) : Option TableDocument :=
  match Record.ofTree? ["collections", "metadata", "rows"] tree with
  | some [collections, metadata, rows] =>
    match collections.required? (Json.list? Json.text?),
      metadata.withDefault? .empty (Json.map? Json.text?),
      rows.withDefault? [] (Json.list? Row.ofTree?) with
    | some collections, some metadata, some rows => some ⟨collections, metadata, rows⟩
    | _, _, _ => none
  | _ => none

def save (d : TableDocument) : Bytes := d.toTree.pretty

def load (path : String) (bytes : Bytes) : Except StoreError TableDocument :=
  match (Tree.parse? bytes).bind ofTree? with
  | some d => .ok d
  | none => .error (.source (.document path))

end TableDocument

end EventMerge
