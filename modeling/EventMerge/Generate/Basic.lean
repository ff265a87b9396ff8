import EventMerge.Total
import EventMerge.Number.Literal
import EventMerge.Random.ChaCha
import EventMerge.Pack.Writer
import EventMerge.Table.Writer

/-!
# Synthetic event files

Every event gets every collection, unless it is dropped by chance.  A collection has random data, up
to two random relations, and a member with the number of its event.  The same stream of random words
gives the same file.

* `GenerateRequest`             what a file is to hold;
* `GenerateRequest.addEvent`    one event;
* `GenerateRequest.drafts`      all events;
* `GenerateRequest.produce`     the whole file.
-/

namespace EventMerge

inductive FileKind where
  | pack
  | table
  deriving DecidableEq

namespace FileKind

def ofName? (text : String) : Option FileKind :=
  if text = "pack" then some .pack else if text = "table" then some .table else none

end FileKind

structure GenerateRequest where
  output : String
  events : Nat
  collections : List String
  seed : Nat
  payloadSize : Nat
  dropRate : Number.Double
  kind : FileKind
  deriving DecidableEq

structure GenerateSummary where
  events : Nat
  collections : List String
  /-- the collections given to events, over all events -/
  written : Nat
  checksum : Option Bytes
  deriving DecidableEq

namespace GenerateRequest

/-! ## one collection -/

/-- the octets of a relation, and of the number of an event -/
def wordWidth : Nat := 8

/-- no payload is longer than this: its octets have 63-bit addresses -/
def sizeLimit : Nat := 0x7FFFFFFFFFFFFFFF

def relations : (count : Nat) → Random → List Bytes × Random
  | 0, r => ([], r)
  | count + 1, r =>
    let (n, r) := r.word64
    let (rest, r) := relations count r
    (Bytes.ofNatLE wordWidth n :: rest, r)

def synthetic (name : String) (number size : Nat) (r : Random) : Collection × Random :=
  let (data, r) := Random.octets size r
  let (count, r) := r.below3
  let (relations, r) := relations count r
  let member : VectorMember := ⟨name ++ "Members", Bytes.ofNatLE wordWidth number⟩
  (.ofBuffers (.complete data relations [member] defaultSchemaVersion), r)

/-! ## one event -/

/-- an event that is being filled, the collections given to it, and the words that are left -/
structure Draft where
  event : Event
  given : Nat
  random : Random

/-- whether the next collection is dropped; nothing is drawn if none ever is -/
def drops (q : GenerateRequest) (r : Random) : Bool × Random :=
  if q.dropRate.isPositive then Random.chance (q.dropRate.scaledFloor (0x10000000000000000)) r else (false, r)

def addCollection (q : GenerateRequest) (number : Nat) (d : Draft) (name : String) :
    Except Failure Draft :=
  let (dropped, random) := q.drops d.random
  if dropped then .ok { d with random }
  else if sizeLimit < q.payloadSize then .error ⟨[], .memory⟩
  else
    let (collection, random) := synthetic name number q.payloadSize random
    match d.event.put name collection with
    | .error e => .error (.ofStore e)
    | .ok (_, event) => .ok ⟨event, d.given + 1, random⟩

def addCollections (q : GenerateRequest) (number : Nat) :
    List String → Draft → Except Failure Draft
  | [], d => .ok d
  | name :: rest, d =>
    match q.addCollection number d name with
    | .error e => .error e
    | .ok d => addCollections q number rest d

def addEvent (q : GenerateRequest) (number : Nat) (random : Random) : Except Failure Draft :=
  q.addCollections number q.collections ⟨{ kind := .lazy }, 0, random⟩

def drafts (q : GenerateRequest) : (left number : Nat) → Random → Except Failure (List Draft)
  | 0, _, _ => .ok []
  | left + 1, number, random =>
    match q.addEvent number random with
    | .error e => .error e
    | .ok draft =>
      match drafts q left (number + 1) draft.random with
      | .error e => .error e
      | .ok rest => .ok (draft :: rest)

/-! ## the file -/

def metadata (q : GenerateRequest) : Metadata :=
  let text :=
    "synthetic payload_size=" ++ Text.Decimal.ofNat q.payloadSize ++ " seed="
      ++ Text.Decimal.ofNat q.seed
  NameMap.ofList (q.collections.map fun name => (name, text))

def writePack : List Draft → PackWriter → Except StoreError Unit × PackWriter
  | [], w => (.ok (), w)
  | draft :: rest, w =>
    match (w.writeEvent draft.event []).value with
    | (.error e, w) => (.error e, w)
    | (.ok (), w) => writePack rest w

def endPack (q : GenerateRequest) (w : PackWriter) : Except Failure Bytes × PackWriter :=
  match w.writeMetadata q.metadata with
  | (.error e, w) => (.error (.ofStore e), w)
  | (.ok (), w) =>
    match w.finishPack with
    | (.error e, w) => (.error (.ofPack e), w)
    | (.ok checksum, w) => (.ok checksum, w)

def tableOf (q : GenerateRequest) (drafts : List Draft) : TableWriter :=
  let w := q.collections.foldl TableWriter.register (.new "generate")
  let w := drafts.foldl (fun w draft => (w.writeEvent draft.event []).value) w
  w.writeMetadata q.metadata

/-- what came of a request, and the octets of the file unless none was made -/
structure Production where
  result : Except Failure GenerateSummary
  file : Option Bytes

def Production.failed (f : Failure) : Production := ⟨.error f, none⟩

def summary (q : GenerateRequest) (drafts : List Draft) (checksum : Option Bytes) :
    GenerateSummary :=
  ⟨q.events, q.collections, total Draft.given drafts, checksum⟩

def producePack (q : GenerateRequest) (drafts : List Draft) (z : Zstd.Compressor) : Production :=
  match PackWriter.new q.output none z with
  | .error e => .failed (.ofPack e)
  | .ok w =>
    match writePack drafts w with
    | (.error e, w) => ⟨.error (.ofStore e), some w.sink.octets⟩
    | (.ok (), w) =>
      match q.endPack w with
      | (.error f, w) => ⟨.error f, some w.sink.octets⟩
      | (.ok checksum, w) => ⟨.ok (q.summary drafts (some checksum)), some w.sink.octets⟩

def produceTable (q : GenerateRequest) (drafts : List Draft) : Production :=
  ⟨.ok (q.summary drafts none), some (q.tableOf drafts).document.save⟩

def refusal? (q : GenerateRequest) : Option Failure :=
  if q.collections.isEmpty then some (.refuse "at least one collection is needed")
  else if !q.dropRate.isFraction then
    some (.refuse ("drop rate must be between 0 and 1, got " ++ q.dropRate.text))
  else none

def unwritable (q : GenerateRequest) : Failure :=
  match q.kind with
  | .pack => (Failure.ofPack .io).within ("creating " ++ q.output)
  | .table => .ofStore .io

/-- makes the file of a request from a stream of random words, if it can be written: that of a pack
is made in front of its events, that of a table behind them -/
def produce (q : GenerateRequest) (random : Random) (canWrite : Bool)
    (z : Zstd.Compressor := .stored) : Production :=
  match q.refusal? with
  | some f => .failed f
  | none =>
    if q.kind = .pack && !canWrite then .failed q.unwritable
    else
      match q.drafts q.events 0 random with
      | .error f => .failed f
      | .ok drafts =>
        match q.kind with
        | .pack => q.producePack drafts z
        | .table => if canWrite then q.produceTable drafts else .failed q.unwritable

end GenerateRequest

end EventMerge
