import EventMerge.Buffers
import EventMerge.IdentityTable
import EventMerge.Pack.Record

/-!
# What the records of a pack hold

* `PackedEvent`  the payloads of an event, each under the index of its collection;
* `PackedTable`  the names of the collections, and the identity table the pack was written under;
* `Metadata`     a text for each name.
-/

namespace EventMerge

/-- texts about collections, by name -/
abbrev Metadata := NameMap String

namespace Pack

open Binary (Codec)

structure PackedEntry where
  index : LocalIndex
  buffers : Buffers
  deriving DecidableEq

structure PackedEvent where
  entries : List PackedEntry := []
  deriving DecidableEq

namespace PackedEvent

instance : Inhabited PackedEvent := ⟨{}⟩

def get? (e : PackedEvent) (index : LocalIndex) : Option Buffers :=
  (e.entries.find? fun entry => entry.index = index).map PackedEntry.buffers

def size (e : PackedEvent) : Nat := e.entries.length

end PackedEvent

/-- the collections of a pack in index order -/
structure PackedTable where
  collections : List String := []
  sources : Option IdentityTable := none
  deriving DecidableEq

namespace PackedTable

instance : Inhabited PackedTable := ⟨{}⟩

def nameOf? (t : PackedTable) (index : LocalIndex) : Option String :=
  t.collections[index.toNat]?

end PackedTable

/-! ## codecs -/

namespace Codecs

def word : Codec UInt32 := (Codec.number 4).via UInt32.ofNat UInt32.toNat

def index : Codec LocalIndex := word.via LocalIndex.mk LocalIndex.value

def source : Codec SourceId :=
  word.via (fun n => ⟨n.toInt32⟩) fun id => id.value.toUInt32

def member : Codec VectorMember :=
  (Codec.text.pair Codec.octets).via (fun p => ⟨p.1, p.2⟩) fun m => (m.name, m.payload)

def buffers : Codec Buffers :=
  (Codec.octets.option.pair
    (Codec.octets.list.option.pair (member.list.option.pair word.option))).via
    (fun p => ⟨p.1, p.2.1, p.2.2.1, p.2.2.2⟩)
    fun b => (b.data, b.relations, b.vectorMembers, b.schemaVersion)

def entry : Codec PackedEntry :=
  (index.pair buffers).via (fun p => ⟨p.1, p.2⟩) fun e => (e.index, e.buffers)

def event : Codec PackedEvent := entry.list.via PackedEvent.mk PackedEvent.entries

def identityTable : Codec IdentityTable :=
  (source.pair index.map).list.via IdentityTable.mk IdentityTable.sources

def table : Codec PackedTable :=
  (Codec.text.list.pair identityTable.option).via (fun p => ⟨p.1, p.2⟩)
    fun t => (t.collections, t.sources)

def metadata : Codec Metadata := Codec.text.map

end Codecs

end Pack

end EventMerge
