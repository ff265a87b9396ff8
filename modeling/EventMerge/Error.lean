import EventMerge.Identity
import EventMerge.Text.Quoted

/-!
# What can go wrong

Errors are causes; the wording of each is given once, by its `message`.  Where the rest of a
sentence belongs to the system (a failed write, a malformed frame), the message stops at the words
that this library is responsible for.

* `RecordFault`  how a record of a pack can be malformed;
* `PackError`    what can go wrong with a pack;
* `DecodeError`  what can go wrong when one collection is decoded;
* `StoreError`   what can go wrong with a store, an event, a reader or a writer;
* `Failure`      an error together with the activities during which it happened.
-/

namespace EventMerge

open Text (quote)

/-! ## packs -/

inductive RecordFault where
  | tooShort
  | missingTrailer
  | emptyRecord
  | unknownKind (tag : UInt8)
  | truncatedLength
  | truncatedChecksum
  | beyondPack
  | sizeMismatch (expected actual : Nat)
  deriving DecidableEq

namespace RecordFault

def message : RecordFault → String
  | tooShort => "pack data too short"
  | missingTrailer => "missing trailer"
  | emptyRecord => "empty record"
  | unknownKind tag => "unknown record kind " ++ Text.Decimal.ofNat tag.toNat
  | truncatedLength => "truncated length"
  | truncatedChecksum => "truncated checksum"
  | beyondPack => "record extends beyond pack"
  | sizeMismatch expected actual =>
    "size mismatch: expected " ++ Text.Decimal.ofNat expected ++ ", got "
      ++ Text.Decimal.ofNat actual

end RecordFault

inductive PackError where
  | invalidMagic (expected actual : String)
  | unsupportedVersion (version : Nat)
  | checksumMismatch
  | corruptRecord (offset : Nat) (fault : RecordFault)
  | crcMismatch (offset : Nat)
  | decompressionFailed
  | serialization
  | eventOutOfRange (position : Nat)
  | finished
  | io
  | index (error : IndexError)
  deriving DecidableEq

namespace PackError

def message : PackError → String
  | invalidMagic expected actual =>
    "invalid pack magic: expected " ++ expected ++ ", got " ++ actual
  | unsupportedVersion version => "unsupported pack version: " ++ Text.Decimal.ofNat version
  | checksumMismatch => "pack checksum mismatch"
  | corruptRecord offset fault =>
    "corrupt pack record at offset " ++ Text.Decimal.ofNat offset ++ ": " ++ fault.message
  | crcMismatch offset => "CRC32 mismatch for record at offset " ++ Text.Decimal.ofNat offset
  | decompressionFailed => "decompression failed"
  | serialization => "serialization error"
  | eventOutOfRange position =>
    "event " ++ Text.Decimal.ofNat position ++ " is beyond the end of the pack"
  | finished => "pack is already finished"
  | io => "I/O error"
  | index error => error.message

end PackError

/-! ## decoding -/

inductive HandleKind where
  | tableRow
  | packedEvent
  deriving DecidableEq

namespace HandleKind

def typeName : HandleKind → String
  | tableRow => "evmux_core::memory::TableRow"
  | packedEvent => "evmux_pack::reader::PackedEventHandle"

end HandleKind

inductive DecodeError where
  | notStored (index : LocalIndex)
  | unreadable (index : LocalIndex) (cause : PackError)
  /-- the handle comes from another kind of reader than the decoder -/
  | foreignHandle (expected : HandleKind)
  deriving DecidableEq

namespace DecodeError

def message : DecodeError → String
  | notStored index =>
    "failed to decode local index " ++ index.text ++ ": collection not stored in this event"
  | unreadable index cause =>
    "failed to decode local index " ++ index.text ++ ": " ++ cause.message
  | foreignHandle expected => "raw handle is not a " ++ expected.typeName

end DecodeError

/-! ## stores, events, readers and writers -/

inductive SourceFault where
  | reported (text : String)
  | pack (cause : PackError)
  | document (path : String)
  deriving DecidableEq

namespace SourceFault

def message : SourceFault → String
  | reported text => text
  | pack cause => cause.message
  | document path => path

end SourceFault

inductive ConfigFault where
  | malformed
  | unknownEventKind (text : String)
  deriving DecidableEq

inductive StoreError where
  | registrationClosed
  | noRawData
  | noSources
  | duplicateCollection (name : String) (existing incoming : SourceId)
  | collectionExists (name : String)
  | decode (cause : DecodeError)
  | source (fault : SourceFault)
  | sink (cause : PackError)
  | registrationUnsupported (writer : String)
  | config (fault : ConfigFault)
  | io
  | index (error : IndexError)
  deriving DecidableEq

namespace StoreError

def message : StoreError → String
  | registrationClosed =>
    "cannot register sources or collections after event processing has started"
  | noRawData => "event has no raw data to materialize"
  | noSources => "event store has no registered sources"
  | duplicateCollection name existing incoming =>
    "collection " ++ quote name ++ " is provided by source " ++ existing.text ++ " and source "
      ++ incoming.text
  | collectionExists name => "collection " ++ quote name ++ " is already present in the event"
  | decode cause => cause.message
  | source fault => "source error: " ++ fault.message
  | sink cause => "sink error: " ++ cause.message
  | registrationUnsupported writer =>
    "writer " ++ writer ++ " does not support collection registration"
  | config .malformed => "invalid configuration"
  | config (.unknownEventKind text) =>
    "invalid configuration: unknown event kind " ++ quote text
  | io => "I/O error"
  | index error => error.message

def ofSource : PackError → StoreError
  | .io => .io
  | cause => .source (.pack cause)

def ofSink : PackError → StoreError
  | .io => .io
  | cause => .sink cause

end StoreError

/-! ## failures of a whole command -/

inductive Cause where
  | store (error : StoreError)
  | pack (error : PackError)
  | number (error : Text.NumberError)
  | refused (text : String)
  | system
  | malformedConfig
  /-- a list is too long for any memory -/
  | memory
  deriving DecidableEq

namespace Cause

/-- the words this library has for a cause; those of the system are left to it -/
def message? : Cause → Option String
  | store error => some error.message
  | pack error => some error.message
  | number error => some error.message
  | refused text => some text
  | system => none
  | malformedConfig => none
  | memory => none

end Cause

/-- a cause and the activities, outermost first, during which it came up -/
structure Failure where
  contexts : List String
  cause : Cause
  deriving DecidableEq

namespace Failure

def ofStore (error : StoreError) : Failure := ⟨[], .store error⟩

def ofPack (error : PackError) : Failure := ⟨[], .pack error⟩

def refuse (text : String) : Failure := ⟨[], .refused text⟩

def within (activity : String) (f : Failure) : Failure :=
  { f with contexts := activity :: f.contexts }

def message (f : Failure) : String :=
  ": ".intercalate (f.contexts ++ f.cause.message?.toList)

theorem message_within (activity : String) (f : Failure) :
    (f.within activity).message
      = ": ".intercalate (activity :: (f.contexts ++ f.cause.message?.toList)) := rfl

end Failure

end EventMerge
