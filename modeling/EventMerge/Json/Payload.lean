import EventMerge.IdentityTable
import EventMerge.Buffers
import EventMerge.Json.Record
import EventMerge.Number.Layout
import EventMerge.Parameters

/-!
# Documents of payloads, identities and parameters

For every type a writer and a reader, in that order.
-/

namespace EventMerge

open Json (Tree Record)
open Json.Tree (ofFields ofOption ofList)

/-! ## payloads -/

namespace VectorMember

def toTree (m : VectorMember) : Tree :=
  ofFields [("name", .ofText m.name), ("payload", .ofOctets m.payload)]

def ofTree? (tree : Tree) : Option VectorMember :=
  match Record.ofTree? ["name", "payload"] tree with
  | some [name, payload] =>
    match name.required? Json.text?, payload.required? Json.octets? with
    | some name, some payload => some ⟨name, payload⟩
    | _, _ => none
  | _ => none

end VectorMember

namespace Buffers

def schemaLimit : Nat := 0x100000000 - 1

def versionToTree (version : UInt32) : Tree := .ofNat version.toNat

def versionOfTree? (tree : Tree) : Option UInt32 :=
  (Json.natural? schemaLimit tree).map UInt32.ofNat

def toTree (b : Buffers) : Tree :=
  ofFields [
    ("data", ofOption .ofOctets b.data),
    ("relations", ofOption (ofList .ofOctets) b.relations),
    ("vector_members", ofOption (ofList VectorMember.toTree) b.vectorMembers),
    ("schema_version", ofOption versionToTree b.schemaVersion)]

def ofTree? (tree : Tree) : Option Buffers :=
  match Record.ofTree? ["data", "relations", "vector_members", "schema_version"] tree with
  | some [data, relations, members, version] =>
    match data.omissible? Json.octets?, relations.omissible? (Json.list? Json.octets?),
      members.omissible? (Json.list? VectorMember.ofTree?),
      version.omissible? versionOfTree? with
    | some data, some relations, some members, some version =>
      some ⟨data, relations, members, version⟩
    | _, _, _, _ => none
  | _ => none

end Buffers

/-! ## identities -/

namespace SourceId

def toTree (source : SourceId) : Tree := .ofInt source.toInt

def ofTree? (tree : Tree) : Option SourceId :=
  (Json.integer? (-0x80000000) (0x80000000 - 1) tree).map fun n => ⟨Int32.ofInt n⟩

end SourceId

namespace LocalIndex

def toTree (index : LocalIndex) : Tree := .ofNat index.toNat

def ofTree? (tree : Tree) : Option LocalIndex :=
  (Json.natural? (0x100000000 - 1) tree).map fun n => ⟨UInt32.ofNat n⟩

end LocalIndex

namespace IdentityTable

def entryToTree (entry : SourceId × SourceEntries) : Tree :=
  .array [entry.1.toTree, .ofMap LocalIndex.toTree entry.2]

def entryOfTree? : Tree → Option (SourceId × SourceEntries)
  | .array [source, entries] =>
    match SourceId.ofTree? source, Json.map? LocalIndex.ofTree? entries with
    | some source, some entries => some (source, entries)
    | _, _ => none
  | _ => none

def toTree (table : IdentityTable) : Tree :=
  ofFields [("sources", ofList entryToTree table.sources)]

def ofTree? (tree : Tree) : Option IdentityTable :=
  match Record.ofTree? ["sources"] tree with
  | some [sources] =>
    match sources.required? (Json.list? entryOfTree?) with
    | some sources => some ⟨sources⟩
    | none => none
  | _ => none

end IdentityTable

/-! ## parameters -/

namespace Single

/-- Single-precision numbers keep their point, and are written positionally down to six places and
up to thirteen digits. -/
def layout : Number.Layout := ⟨-6, 12, ".0"⟩

/-- `null` for what is not a finite number -/
def toTree (x : Single) : Tree :=
  let bits := x.bits.toNat
  match Number.single.decode (bits % 0x80000000) with
  | some (.finite significand exponent) =>
    let text := layout.write (Number.shortest Number.single significand exponent)
    .number (Bytes.ofText (if 0x80000000 ≤ bits then "-" ++ text else text))
  | _ => .null

def ofTree? : Tree → Option Single
  | .number token =>
    match Json.Numeral.ofToken? token with
    | some numeral =>
      numeral.single?.map fun magnitude =>
        let bits := Number.single.encode magnitude
        ⟨UInt32.ofNat (if numeral.negative then bits + 0x80000000 else bits)⟩
    | none => none
  | _ => none

end Single

namespace Parameters

def intToTree (n : Int32) : Tree := .ofInt n.toInt

def intOfTree? (tree : Tree) : Option Int32 :=
  (Json.integer? (-0x80000000) (0x80000000 - 1) tree).map Int32.ofInt

def toTree (p : Parameters) : Tree :=
  ofFields [
    ("ints", .ofMap (ofList intToTree) p.ints),
    ("floats", .ofMap (ofList Single.toTree) p.floats),
    ("strings", .ofMap (ofList Tree.ofText) p.texts)]

def ofTree? (tree : Tree) : Option Parameters :=
  match Record.ofTree? ["ints", "floats", "strings"] tree with
  | some [ints, floats, texts] =>
    match ints.required? (Json.map? (Json.list? intOfTree?)),
      floats.required? (Json.map? (Json.list? Single.ofTree?)),
      texts.required? (Json.map? (Json.list? Json.text?)) with
    | some ints, some floats, some texts => some ⟨ints, floats, texts⟩
    | _, _, _ => none
  | _ => none

end Parameters

end EventMerge
