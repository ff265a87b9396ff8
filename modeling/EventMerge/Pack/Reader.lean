import EventMerge.Checksum.Blake3
import EventMerge.Pack.Event
import EventMerge.Store.Feed
import EventMerge.Text.Utf8

/-!
# Reading packs

A pack is a header, records, and a trailer with the hash of all that is in front of it.

* `PackReader.ofBytes`    checks a pack and indexes its records;
* `PackReader.readEvent`  the event at a position;
* `PackReader.next`       the handle of the next event;
* `PackHandle.decode`     decodes one collection; the event is unpacked once and remembered.
-/

namespace EventMerge

open Pack

namespace Pack

def magic : Bytes := Bytes.ofText "EVMP"

def trailerMagic : Bytes := Bytes.ofText "EVME"

def version : Nat := 1

def versionWidth : Nat := 4

def header : Bytes := magic ++ Bytes.ofNatBE versionWidth version

def headerLength : Nat := 8

def checksumLength : Nat := 32

def trailerLength : Nat := 36

structure Layout where
  body : Bytes
  checksum : Bytes

/-- checks the magic numbers, the version and the checksum, in this order -/
def layout (data : Bytes) : Except PackError Layout :=
  let trailerAt := data.length - trailerLength
  let checksumAt := data.length - checksumLength
  let checksum := data.drop checksumAt
  let found := Bytes.toNatBE ((data.drop 4).take versionWidth)
  if data.length < headerLength + trailerLength then .error (.corruptRecord 0 .tooShort)
  else if data.take 4 ≠ magic then
    .error (.invalidMagic (Text.Utf8.lossy magic) (Text.Utf8.lossy (data.take 4)))
  else if found ≠ version then .error (.unsupportedVersion found)
  else if (data.drop trailerAt).take 4 ≠ trailerMagic then
    .error (.corruptRecord trailerAt .missingTrailer)
  else if Checksum.Blake3.hash (data.take checksumAt) ≠ checksum then .error .checksumMismatch
  else .ok ⟨(data.take trailerAt).drop headerLength, checksum⟩

end Pack

/-! ## handles -/

/-- an event of a pack, which is unpacked when it is first asked for something -/
structure PackHandle where
  record : Pack.Record
  unpacked : Option (Except PackError PackedEvent) := none

namespace PackHandle

def unpack (h : PackHandle) : Except PackError PackedEvent × PackHandle :=
  match h.unpacked with
  | some result => (result, h)
  | none =>
    let result := h.record.decode Codecs.event
    (result, { h with unpacked := some result })

def isUnpacked (h : PackHandle) : Bool := h.unpacked.isSome

def pick (index : LocalIndex) : Except PackError PackedEvent → Except DecodeError Buffers
  | .error cause => .error (.unreadable index cause)
  | .ok event =>
    match event.get? index with
    | some buffers => .ok buffers
    | none => .error (.notStored index)

theorem pick_not_foreign (index : LocalIndex) (unpacked : Except PackError PackedEvent)
    (expected : HandleKind) : pick index unpacked ≠ .error (.foreignHandle expected) := by
  unfold pick
  split
  · exact nofun
  · split <;> exact nofun

def decode (h : PackHandle) (index : LocalIndex) : Except DecodeError Buffers × PackHandle :=
  let (result, h) := h.unpack
  (pick index result, h)

end PackHandle

/-! ## readers -/

structure PackReader where
  name : String := ""
  events : List Pack.Record := []
  table : PackedTable := {}
  metadata : Metadata := .empty
  checksum : Bytes := List.replicate checksumLength 0
  cursor : Nat := 0
  deriving DecidableEq

namespace PackReader

/-- takes one record: events are kept as they are, tables replace each other, metadata are merged -/
def addRecord (r : PackReader) (record : Pack.Record) : Except PackError PackReader :=
  match record.kind with
  | .event => .ok { r with events := r.events ++ [record] }
  | .idTable =>
    match record.decode Codecs.table with
    | .ok table => .ok { r with table }
    | .error e => .error e
  | .metadata =>
    match record.decode Codecs.metadata with
    | .ok metadata => .ok { r with metadata := r.metadata.union metadata }
    | .error e => .error e

def addRecords (r : PackReader) : List Pack.Record → Except PackError PackReader
  | [] => .ok r
  | record :: rest =>
    match r.addRecord record with
    | .ok r => addRecords r rest
    | .error e => .error e

def ofBytes (data : Bytes) : Except PackError PackReader :=
  match Pack.layout data with
  | .error e => .error e
  | .ok layout =>
    match Pack.Record.split headerLength layout.body with
    | .error e => .error e
    | .ok records => addRecords { checksum := layout.checksum } records

def eventCount (r : PackReader) : Nat := r.events.length

def collections (r : PackReader) : List String := r.table.collections

def nameOf? (r : PackReader) (index : LocalIndex) : Option String := r.table.nameOf? index

def readEvent (r : PackReader) (n : Nat) : Except PackError PackedEvent :=
  match r.events[n]? with
  | none => .error (.eventOutOfRange n)
  | some record => record.decode Codecs.event

def rewind (r : PackReader) : PackReader := { r with cursor := 0 }

def next (r : PackReader) : Option PackHandle × PackReader :=
  match r.events[r.cursor]? with
  | none => (none, r)
  | some record => (some { record }, { r with cursor := r.cursor + 1 })

def entries (r : PackReader) : SourceEntries := Feed.indexed r.collections

/-- the reader of the pack in a file; a name given before stays -/
def openFile (r : PackReader) (path : String) (bytes : Bytes) : Except StoreError PackReader :=
  match ofBytes bytes with
  | .ok opened => .ok { opened with name := if r.name.isEmpty then path else r.name }
  | .error e => .error (.ofSource e)

/-- the decoder for the events of packs -/
def decoder : Decoder :=
  Decoder.typed .packedEvent Handle.packed? fun event index => PackHandle.pick index event.get

/-- the decoder for packs refuses whatever is not an event of a pack -/
theorem decoder_eq_foreign_iff {handle : Handle} {index : LocalIndex} {kind : HandleKind} :
    decoder handle index = .error (.foreignHandle kind)
      ↔ handle.packed? = none ∧ kind = .packedEvent :=
  Decoder.typed_eq_foreign_iff fun event index => PackHandle.pick_not_foreign index event.get

/-- the handle of the event in a record -/
def handleOf (record : Pack.Record) : Handle := .packed ⟨fun _ => record.decode Codecs.event⟩

/-- the event is found in its handle as it is found in the record -/
theorem decoder_handleOf (record : Pack.Record) (index : LocalIndex) :
    decoder (handleOf record) index = PackHandle.pick index (record.decode Codecs.event) := rfl

def feed (label : String) (r : PackReader) : Feed :=
  ⟨label, r.entries, decoder, (r.events.drop r.cursor).map fun record => .event (handleOf record)⟩

end PackReader

end EventMerge
