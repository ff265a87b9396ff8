import EventMerge.Event.Basic
import EventMerge.Pack.Reader

/-!
# Writing packs

A writer appends the record of every event, and at the end the records of its table and metadata and
the trailer.  Records are compressed with the writer's compressor.  Names are numbered in the order in
which they come up.  The hash covers all that the writer was told to write, whether its sink took it or
not.

* `Sink`                    where octets go; one of its writes may fail;
* `PackWriter.writeEvent`   adds the record of an event;
* `PackWriter.finishPack`   ends the pack and gives its checksum.
-/

namespace EventMerge

open Pack

/-! ## sinks -/

structure Sink where
  /-- what was written, the last write first -/
  newest : List Bytes := []
  /-- the number of writes so far, taken or not -/
  attempts : Nat := 0
  /-- the write that fails, counted from one -/
  failAt : Option Nat := none
  deriving DecidableEq

namespace Sink

def octets (s : Sink) : Bytes := s.newest.reverse.flatten

def write (s : Sink) (bytes : Bytes) : Bool × Sink :=
  let attempts := s.attempts + 1
  if s.failAt = some attempts then (false, { s with attempts })
  else (true, { s with attempts, newest := bytes :: s.newest })

end Sink

/-! ## writers -/

/-- what no table lists has no index -/
theorem PackWriter.numbered_nil (name : String) :
    (NameMap.empty : NameMap LocalIndex).get? name
      = (([] : List String).idxOf? name).map fun place => ⟨UInt32.ofNat place⟩ := rfl

structure PackWriter where
  name : String
  compressor : Zstd.Compressor := .stored
  sink : Sink := {}
  /-- what the checksum covers, the last write first -/
  newestHashed : List Bytes := []
  /-- the names in the order of their indices -/
  table : PackedTable := {}
  /-- the index of each name -/
  indices : NameMap LocalIndex := .empty
  metadata : Metadata := .empty
  eventsWritten : Nat := 0
  checksum : Option Bytes := none
  /-- a name has the index of the place where the table lists it first -/
  numbered : ∀ name, indices.get? name
    = (table.collections.idxOf? name).map fun place => ⟨UInt32.ofNat place⟩ := by
      exact PackWriter.numbered_nil

namespace PackWriter

def hashed (w : PackWriter) : Bytes := w.newestHashed.reverse.flatten

def collections (w : PackWriter) : List String := w.table.collections

def isFinished (w : PackWriter) : Bool := w.checksum.isSome

/-- writes octets that the checksum covers -/
def emit (w : PackWriter) (bytes : Bytes) : Except PackError Unit × PackWriter :=
  let (taken, sink) := w.sink.write bytes
  (if taken then .ok () else .error .io,
    { w with sink, newestHashed := bytes :: w.newestHashed })

def new (name : String) (failAt : Option Nat) (compressor : Zstd.Compressor := .stored) :
    Except PackError PackWriter :=
  match emit { name, compressor, sink := { failAt } } Pack.header with
  | (.ok (), w) => .ok w
  | (.error e, _) => .error e

theorem get?_insert_next {w : PackWriter} {name : String} {index : LocalIndex}
    (hnew : w.indices.get? name = none)
    (hindex : LocalIndex.ofPosition w.table.collections.length = .ok index) (other : String) :
    (w.indices.insert name index).get? other
      = ((w.table.collections ++ [name]).idxOf? other).map fun place => ⟨UInt32.ofNat place⟩ := by
  rw [NameMap.get?_insert, List.idxOf?, List.findIdx?_append, List.findIdx?_singleton]
  by_cases hname : other = name
  · rw [w.numbered, Option.map_eq_none_iff, List.idxOf?] at hnew
    rw [if_pos hname, hname, hnew, (LocalIndex.ofPosition_eq_ok_iff.mp hindex).2]
    simp
  · rw [if_neg hname, w.numbered, List.idxOf?, if_neg (by simpa using Ne.symm hname)]
    simp

/-- lists a new name and gives it its index -/
def number (w : PackWriter) (name : String) (index : LocalIndex)
    (hnew : w.indices.get? name = none)
    (hindex : LocalIndex.ofPosition w.table.collections.length = .ok index) : PackWriter :=
  { w with
    table := { w.table with collections := w.table.collections ++ [name] }
    indices := w.indices.insert name index
    numbered := get?_insert_next hnew hindex }

/-- the index of a name, which is numbered if it is new -/
def indexFor (w : PackWriter) (name : String) : Except PackError (LocalIndex × PackWriter) :=
  match hknown : w.indices.get? name with
  | some index => .ok (index, w)
  | none =>
    match hposition : LocalIndex.ofPosition w.table.collections.length with
    | .error e => .error (.index e)
    | .ok index => .ok (index, w.number name index hknown hposition)

def indexAll (w : PackWriter) :
    List (String × Buffers) → Except PackError (List PackedEntry) × PackWriter
  | [] => (.ok [], w)
  | (name, buffers) :: rest =>
    match w.indexFor name with
    | .error e => (.error e, w)
    | .ok (index, w) =>
      match indexAll w rest with
      | (.ok entries, w) => (.ok (⟨index, buffers⟩ :: entries), w)
      | (.error e, w) => (.error e, w)

def indexNames (w : PackWriter) : List String → Except PackError Unit × PackWriter
  | [] => (.ok (), w)
  | name :: rest =>
    match w.indexFor name with
    | .error e => (.error e, w)
    | .ok (_, w) => indexNames w rest

def writePacked (w : PackWriter) (event : PackedEvent) : Except PackError Unit × PackWriter :=
  if w.isFinished then (.error .finished, w)
  else
    match w.emit (Pack.Record.encode w.compressor .event (Codecs.event.write event)) with
    | (.ok (), w) => (.ok (), { w with eventsWritten := w.eventsWritten + 1 })
    | (.error e, w) => (.error e, w)

def writeEvent (w : PackWriter) (event : Event) (names : List String) :
    Outcome (Except StoreError Unit × PackWriter) :=
  if w.isFinished then { value := (.error (.ofSink .finished), w), event }
  else
    let outcome := event.collectionsForWrite names
    let value :=
      match w.indexAll outcome.value with
      | (.error e, w) => (.error (.ofSink e), w)
      | (.ok entries, w) =>
        match w.writePacked ⟨entries⟩ with
        | (.ok (), w) => (.ok (), w)
        | (.error e, w) => (.error (.ofSink e), w)
    { value, event := outcome.event, calls := outcome.calls }

/-- numbers the names of an identity table and keeps it -/
def writeIdentityTable (w : PackWriter) (table : IdentityTable) :
    Except StoreError Unit × PackWriter :=
  match w.indexNames table.names with
  | (.error e, w) => (.error (.ofSink e), w)
  | (.ok (), w) => (.ok (), { w with table := { w.table with sources := some table } })

def writeMetadata (w : PackWriter) (metadata : Metadata) : Except StoreError Unit × PackWriter :=
  if w.isFinished then (.error (.sink .finished), w)
  else (.ok (), { w with metadata := w.metadata.union metadata })

/-- what ends a pack, in front of its checksum -/
def closing (w : PackWriter) : List Bytes :=
  [Pack.Record.encode w.compressor .idTable (Codecs.table.write w.table),
    Pack.Record.encode w.compressor .metadata (Codecs.metadata.write w.metadata), trailerMagic]

def emitAll (w : PackWriter) : List Bytes → Except PackError Unit × PackWriter
  | [] => (.ok (), w)
  | bytes :: rest =>
    match w.emit bytes with
    | (.ok (), w) => emitAll w rest
    | (.error e, w) => (.error e, w)

/-- ends the pack, unless that has been done, and gives its checksum -/
def finishPack (w : PackWriter) : Except PackError Bytes × PackWriter :=
  match w.checksum with
  | some checksum => (.ok checksum, w)
  | none =>
    match w.emitAll w.closing with
    | (.error e, w) => (.error e, w)
    | (.ok (), w) =>
      let checksum := Checksum.Blake3.hash w.hashed
      match w.sink.write checksum with
      | (true, sink) => (.ok checksum, { w with sink, checksum := some checksum })
      | (false, sink) => (.error .io, { w with sink })

def finish (w : PackWriter) : Except StoreError Unit × PackWriter :=
  match w.finishPack with
  | (.ok _, w) => (.ok (), w)
  | (.error e, w) => (.error (.ofSink e), w)

end PackWriter

end EventMerge
