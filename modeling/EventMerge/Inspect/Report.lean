import EventMerge.Inspect.Selection
import EventMerge.Json.Record
import EventMerge.Pack.Reader

/-!
# Reports about a pack

A report gives the checksum, the collections with the texts about them, the identity table and the
selected events of a pack, as lines of text or as a document.  Lines are printed up to the first event
that cannot be read; of a document nothing is printed then.

* `Inspection.text`      the lines of a report;
* `Inspection.document`  the report as a document.
-/

namespace EventMerge

open Json (Tree)
open Json.Tree (ofFields ofOption ofList)
open Pack

structure Inspection where
  reader : PackReader
  positions : List Nat
  /-- show the first octets of the data, and the members -/
  detailed : Bool

namespace Inspection

/-! ## details -/

def previewLength : Nat := 8

def preview : Option Bytes → String
  | none => "unset"
  | some data =>
    if previewLength < data.length then Bytes.toHex (data.take previewLength) ++ "…"
    else Bytes.toHex data

def padRight (width : Nat) (text : String) : String :=
  text ++ String.ofList (List.replicate (width - text.length) ' ')

def padLeft (width : Nat) (text : String) : String :=
  String.ofList (List.replicate (width - text.length) ' ') ++ text

/-! ## lines -/

def ofLines (lines : List String) : String := String.join (lines.map (· ++ "\n"))

def collectionLine (metadata : Metadata) (entry : String × Nat) : String :=
  let note :=
    match metadata.get? entry.1 with
    | some text => "  " ++ text
    | none => ""
  "  " ++ padLeft 3 (Text.Decimal.ofNat entry.2) ++ " " ++ entry.1 ++ note

def sourceLabel (source : SourceId) : String :=
  if source = SourceId.runtime then "runtime" else source.text

def sourceLine (entry : SourceId × SourceEntries) : String :=
  "  " ++ sourceLabel entry.1 ++ " " ++ ", ".intercalate entry.2.keys

def headLines (i : Inspection) : List String :=
  let collections := i.reader.collections.zipIdx.map (collectionLine i.reader.metadata)
  let sources :=
    match i.reader.table.sources with
    | some table => "sources:" :: table.sources.map sourceLine
    | none => []
  ["checksum: " ++ Bytes.toHex i.reader.checksum, "events: " ++ Text.Decimal.ofNat i.reader.eventCount,
    "collections:"] ++ collections ++ sources

def memberLine (m : VectorMember) : String :=
  "      member: " ++ m.name ++ " (" ++ Text.Decimal.ofNat m.payload.length ++ " bytes)"

def entryLines (i : Inspection) (entry : PackedEntry) : List String :=
  let b := entry.buffers
  let name := (i.reader.nameOf? entry.index).getD "?"
  let line :=
    "  " ++ (if b.isValid then "✓" else "✗") ++ " " ++ padRight 16 name ++ " "
      ++ padLeft 8 (Text.Decimal.ofNat b.payloadLength) ++ " bytes  v"
      ++ Text.Decimal.ofInt b.rawSchemaVersion
  let details :=
    if i.detailed then
      ("      data: " ++ preview b.data) :: (b.vectorMembers.getD []).map memberLine
    else []
  line :: details

def eventLines (i : Inspection) (position : Nat) (event : PackedEvent) : List String :=
  ("event " ++ Text.Decimal.ofNat position ++ " (" ++ Text.Decimal.ofNat event.size
    ++ " collections)") :: event.entries.flatMap i.entryLines

/-- the lines of events, up to the first that cannot be read -/
def linesOf (i : Inspection) : List Nat → List String × Except Failure Unit
  | [] => ([], .ok ())
  | position :: rest =>
    match i.reader.readEvent position with
    | .error e => ([], .error (.ofPack e))
    | .ok event =>
      let (lines, result) := linesOf i rest
      (i.eventLines position event ++ lines, result)

def text (i : Inspection) : String × Except Failure Unit :=
  let (lines, result) := i.linesOf i.positions
  (ofLines (i.headLines ++ lines), result)

/-! ## documents -/

/-- the fields of every document are in the order of their names -/
def entryTree (i : Inspection) (entry : PackedEntry) : Tree :=
  let b := entry.buffers
  let preview := if i.detailed then [("preview", Tree.ofText (preview b.data))] else []
  let members :=
    if i.detailed then
      [("vector_members",
        ofList Tree.ofText ((b.vectorMembers.getD []).map VectorMember.name))]
    else []
  ofFields
    ([("bytes", .ofNat b.payloadLength), ("index", .ofNat entry.index.toNat),
      ("name", ofOption Tree.ofText (i.reader.nameOf? entry.index))]
      ++ preview
      ++ [("relations", .ofNat (b.relations.getD []).length),
        ("schema_version", .ofInt b.rawSchemaVersion), ("valid", .bool b.isValid)]
      ++ members)

def eventTree (i : Inspection) (position : Nat) (event : PackedEvent) : Tree :=
  ofFields [("collections", ofList i.entryTree event.entries), ("event", .ofNat position)]

def treesOf (i : Inspection) : List Nat → Except Failure (List Tree)
  | [] => .ok []
  | position :: rest =>
    match i.reader.readEvent position with
    | .error e => .error (.ofPack e)
    | .ok event =>
      match treesOf i rest with
      | .error f => .error f
      | .ok trees => .ok (i.eventTree position event :: trees)

def sourceTree (entry : SourceId × SourceEntries) : Tree :=
  ofFields [("collections", ofList Tree.ofText entry.2.keys), ("source", .ofInt entry.1.toInt)]

def document (i : Inspection) : Except Failure Tree :=
  match i.treesOf i.positions with
  | .error f => .error f
  | .ok events =>
    .ok (ofFields [
      ("checksum", .ofText (Bytes.toHex i.reader.checksum)),
      ("collections", ofList Tree.ofText i.reader.collections),
      ("entries", .array events),
      ("events", .ofNat i.reader.eventCount),
      ("metadata", .ofMap Tree.ofText i.reader.metadata),
      ("sources", ofOption (fun table => ofList sourceTree table.sources) i.reader.table.sources)])

end Inspection

end EventMerge
