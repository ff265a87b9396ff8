import EventMerge.Pack.Writer
import EventMerge.Table.Writer

/-!
# Writers of either kind

A pack is written as it grows; a table is saved when it is finished, which can fail.

* `Writer.register`, `Writer.writeIdentityTable`, `Writer.writeEvent`, `Writer.writeMetadata`,
  `Writer.finish`
-/

namespace EventMerge

inductive Writer where
  | table (w : TableWriter) (canSave : Bool)
  | pack (w : PackWriter)

namespace Writer

def name : Writer → String
  | table w _ => w.name
  | pack w => w.name

/-- adds a column; a pack has none -/
def register (name : String) : Writer → Except StoreError Writer
  | table w canSave => .ok (table (w.register name) canSave)
  | pack w => .error (.registrationUnsupported w.name)

def writeIdentityTable (t : IdentityTable) : Writer → Except StoreError Unit × Writer
  | table w canSave => (.ok (), table (w.writeIdentityTable t) canSave)
  | pack w =>
    let (result, w) := w.writeIdentityTable t
    (result, pack w)

def writeEvent (event : Event) (names : List String) :
    Writer → Outcome (Except StoreError Unit × Writer)
  | table w canSave =>
    let outcome := w.writeEvent event names
    { value := (.ok (), table outcome.value canSave)
      event := outcome.event
      calls := outcome.calls }
  | pack w =>
    let outcome := w.writeEvent event names
    { value := (outcome.value.1, pack outcome.value.2)
      event := outcome.event
      calls := outcome.calls }

def writeMetadata (metadata : Metadata) : Writer → Except StoreError Unit × Writer
  | table w canSave => (.ok (), table (w.writeMetadata metadata) canSave)
  | pack w =>
    let (result, w) := w.writeMetadata metadata
    (result, pack w)

def finish : Writer → Except StoreError Unit × Writer
  | table w canSave => (if canSave then .ok () else .error .io, table w canSave)
  | pack w =>
    let (result, w) := w.finish
    (result, pack w)

/-- writes an event to one writer after the other, until one fails -/
def writeToAll (names : List String) :
    List Writer → Event → (Except StoreError Unit × List Writer) × Event
  | [], event => ((.ok (), []), event)
  | w :: rest, event =>
    let outcome := w.writeEvent event names
    match outcome.value with
    | (.error error, w) => ((.error error, w :: rest), outcome.event)
    | (.ok (), w) =>
      let ((result, rest), event) := writeToAll names rest outcome.event
      ((result, w :: rest), event)

end Writer

end EventMerge
