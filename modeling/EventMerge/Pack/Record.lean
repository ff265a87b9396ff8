import EventMerge.Binary.Codec
import EventMerge.Checksum.Crc32
import EventMerge.Error
import EventMerge.Pack.Varint
import EventMerge.Zstd.Compressor

/-!
# Records of a pack

A record is framed by its kind, the length of its content before and after compression, and the
check of the compressed content.

* `RecordKind`      identity table, event or metadata;
* `Frame.encode`    the octets of a record;
* `Frame.read`      the record at the start of a byte string, or what is wrong there;
* `Record.split`    the records that fill a byte string;
* `Record.content`  the content of a record.
-/

set_option linter.unusedVariables false

namespace EventMerge.Pack

inductive RecordKind where
  | idTable
  | event
  | metadata
  deriving DecidableEq

namespace RecordKind

def tag : RecordKind → UInt8
  | idTable => 1
  | event => 2
  | metadata => 3

def name : RecordKind → String
  | idTable => "IdTable"
  | event => "Event"
  | metadata => "Metadata"

def ofTag? (tag : UInt8) : Option RecordKind :=
  if tag = 1 then some idTable
  else if tag = 2 then some event
  else if tag = 3 then some metadata
  else none

theorem ofTag?_tag (kind : RecordKind) : ofTag? kind.tag = some kind := by
  cases kind <;> rfl

theorem tag_of_ofTag? {tag : UInt8} {kind : RecordKind} (h : ofTag? tag = some kind) :
    kind.tag = tag := by
  rw [ofTag?] at h
  split at h
  · cases h
    exact Eq.symm ‹tag = 1›
  · split at h
    · cases h
      exact Eq.symm ‹tag = 2›
    · split at h
      · cases h
        exact Eq.symm ‹tag = 3›
      · exact nomatch h

end RecordKind

/-! ## frames -/

structure Frame where
  kind : RecordKind
  /-- the length of the content before compression -/
  rawLength : Nat
  packed : Bytes
  deriving DecidableEq

inductive FrameError where
  | malformed (fault : RecordFault)
  | crcMismatch
  deriving DecidableEq

namespace FrameError

def toPackError (offset : Nat) : FrameError → PackError
  | malformed fault => .corruptRecord offset fault
  | crcMismatch => .crcMismatch offset

end FrameError

namespace Frame

def crcWidth : Nat := 4

/-- the check of the compressed content, the most significant octet first -/
def crc (packed : Bytes) : Bytes := Bytes.ofNatBE crcWidth (Checksum.Crc32.hash packed).toNat

def encode (f : Frame) : Bytes :=
  f.kind.tag :: Varint.encode f.rawLength ++ Varint.encode f.packed.length ++ crc f.packed
    ++ f.packed

/-- the frame whose kind and lengths have been read, from its check on -/
def readBody (kind : RecordKind) (rawLength packedLength : Nat) (bytes : Bytes) :
    Except FrameError (Frame × Bytes) :=
  let body := bytes.drop crcWidth
  if bytes.length < crcWidth then .error (.malformed .truncatedChecksum)
  else if body.length < packedLength then .error (.malformed .beyondPack)
  else if crc (body.take packedLength) ≠ bytes.take crcWidth then .error .crcMismatch
  else .ok (⟨kind, rawLength, body.take packedLength⟩, body.drop packedLength)

def read : Bytes → Except FrameError (Frame × Bytes)
  | [] => .error (.malformed .emptyRecord)
  | tag :: rest =>
    match RecordKind.ofTag? tag with
    | none => .error (.malformed (.unknownKind tag))
    | some kind =>
      match Varint.decode? rest with
      | none => .error (.malformed .truncatedLength)
      | some (rawLength, rest) =>
        match Varint.decode? rest with
        | none => .error (.malformed .truncatedLength)
        | some (packedLength, rest) => readBody kind rawLength packedLength rest

theorem length_readBody {kind : RecordKind} {rawLength packedLength : Nat} {bytes rest : Bytes}
    {f : Frame} (h : readBody kind rawLength packedLength bytes = .ok (f, rest)) :
    rest.length ≤ bytes.length := by
  unfold readBody at h
  dsimp only at h
  split at h
  · cases h
  · split at h
    · cases h
    · split at h
      · cases h
      · cases h
        simp only [List.length_drop]
        omega

theorem length_read {bytes rest : Bytes} {f : Frame} (h : read bytes = .ok (f, rest)) :
    rest.length < bytes.length := by
  cases bytes with
  | nil => cases h
  | cons tag tail =>
    rw [read] at h
    split at h
    · cases h
    · split at h
      · cases h
      · rename_i hraw
        split at h
        · cases h
        · rename_i hpacked
          have hbody := length_readBody h
          have h1 := Varint.length_decode? hraw
          have h2 := Varint.length_decode? hpacked
          rw [List.length_cons]
          omega

end Frame

/-! ## records -/

structure Record where
  kind : RecordKind
  offset : Nat
  rawLength : Nat
  packed : Bytes
  deriving DecidableEq

namespace Record

def ofFrame (offset : Nat) (f : Frame) : Record := ⟨f.kind, offset, f.rawLength, f.packed⟩

/-- the records that fill a byte string of which the first starts at `offset`.  The offset stands for
a word of 64 bits, which does not overflow while `offset + bytes.length` is below `2 ^ 64`; the reader
passes 8, where the header ends. -/
def split (offset : Nat) (bytes : Bytes) : Except PackError (List Record) :=
  if bytes.isEmpty then .ok []
  else
    match hread : Frame.read bytes with
    | .error e => .error (e.toPackError offset)
    | .ok (frame, rest) =>
      match split (offset + (bytes.length - rest.length)) rest with
      | .ok records => .ok (ofFrame offset frame :: records)
      | .error e => .error e
termination_by bytes.length
decreasing_by exact Frame.length_read hread

/-- the octets of a record with a content, which is compressed -/
def encode (z : Zstd.Compressor) (kind : RecordKind) (content : Bytes) : Bytes :=
  Frame.encode ⟨kind, content.length, z.compress content⟩

/-- the content of a record, whose length must be the one announced -/
def content (r : Record) : Except PackError Bytes :=
  match Zstd.decode? r.packed with
  | none => .error .decompressionFailed
  | some raw =>
    if raw.length = r.rawLength then .ok raw
    else .error (.corruptRecord r.offset (.sizeMismatch r.rawLength raw.length))

def decode {α : Type} (codec : Binary.Codec α) (r : Record) : Except PackError α :=
  match r.content with
  | .error e => .error e
  | .ok raw =>
    match codec.decode? raw with
    | some value => .ok value
    | none => .error .serialization

end Record

end EventMerge.Pack
