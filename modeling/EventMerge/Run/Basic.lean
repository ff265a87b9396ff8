import EventMerge.Error
import EventMerge.Run.Config
import EventMerge.Run.Process
import EventMerge.Run.Writer
import EventMerge.Store.Basic

/-!
# Runs

A run registers feeds and writers, reads events until a feed is dry or the limit is reached, gives
each the collections to be made, and writes it.  At the end the texts about collections are written
and the writers finished.

* `Run.new`         registers feeds and writers;
* `Run.sequential`  reads and writes the events in order;
* `Run.complete`    finishes the writers.
-/

namespace EventMerge

structure Run where
  store : Store
  writers : List Writer
  config : RunConfig

structure RunSummary where
  events : Nat
  /-- the valid collections found, over all events -/
  collectionsFound : Nat
  threads : Nat
  sources : Nat
  writers : Nat
  deriving DecidableEq

namespace Run

/-! ## registration -/

def registerFeeds : List Feed → Store → Except Failure Store
  | [], s => .ok s
  | feed :: rest, s =>
    match s.register feed with
    | (.error e, _) => .error ((Failure.ofStore e).within ("registering source " ++ feed.label))
    | (.ok _, s, _) => registerFeeds rest s

/-- registers names on a writer, until it says that it does not take any -/
def registerNames : List String → Writer → Except Failure Unit × Writer
  | [], w => (.ok (), w)
  | name :: rest, w =>
    match w.register name with
    | .ok w => registerNames rest w
    | .error (.registrationUnsupported _) => (.ok (), w)
    | .error e =>
      (.error ((Failure.ofStore e).within ("registering " ++ name ++ " on " ++ w.name)), w)

/-- tells one writer after the other what there is to write, until one fails -/
def prepareWriters (names : List String) (table : IdentityTable) :
    List Writer → Except Failure Unit × List Writer
  | [] => (.ok (), [])
  | w :: rest =>
    match registerNames names w with
    | (.error f, w) => (.error f, w :: rest)
    | (.ok (), w) =>
      match w.writeIdentityTable table with
      | (.error e, w) => (.error (.ofStore e), w :: rest)
      | (.ok (), w) =>
        let (result, rest) := prepareWriters names table rest
        (result, w :: rest)

/-- registers feeds and writers.  Requested names that nobody provides are left out. -/
def new (config : RunConfig) (feeds : List Feed) (writers : List Writer) :
    Except Failure Run × List Writer :=
  match registerFeeds feeds (.new config.store) with
  | .error f => (.error f, writers)
  | .ok store =>
    match store.registerRuntime config.newCollections with
    | (.error e, _) => (.error (.ofStore e), writers)
    | (.ok (), store) =>
      let config :=
        { config with writeCollections := config.writeCollections.filter store.table.contains }
      match prepareWriters config.writeCollections store.table writers with
      | (.error f, writers) => (.error f, writers)
      | (.ok (), writers) => (.ok ⟨store, writers, config⟩, writers)

/-! ## reading and writing -/

def limitReached (r : Run) : Bool :=
  match r.config.maxEvents with
  | some limit => limit ≤ r.store.eventsRead
  | none => false

/-- a bound on the events that a store can still give -/
def eventBound (s : Store) : Nat :=
  match s.readers with
  | [] => 0
  | r :: _ => r.feed.script.length

/-- processes an event and writes it to all writers: the collections found, the run and the event
afterwards -/
def handle (r : Run) (known : List String) (event : Event) :
    Except Failure Nat × Run × Event :=
  let processed := event.process known r.config.newCollections
  match processed.value with
  | .error e => (.error (.ofStore e), r, processed.event)
  | .ok found =>
    match Writer.writeToAll r.config.writeCollections r.writers processed.event with
    | ((.error e, writers), event) => (.error (.ofStore e), { r with writers }, event)
    | ((.ok (), writers), event) => (.ok found, { r with writers }, event)

/-- reads, processes and writes events in order.  Every event but the last takes one entry of the
first feed's script. -/
def loop (known : List String) :
    (fuel : Nat) → (found : Nat) → (slot : Option Event) → Run → Except Failure Nat × Run
  | 0, found, _, r => (.ok found, r)
  | fuel + 1, found, slot, r =>
    if r.limitReached then (.ok found, r)
    else
      let (next, store, _) := r.store.next r.config.store.factory slot
      let r := { r with store }
      match next with
      | .error e => (.error (.ofStore e), r)
      | .ok none => (.ok found, r)
      | .ok (some event) =>
        match r.handle known event with
        | (.error f, r, _) => (.error f, r)
        | (.ok more, r, event) => loop known fuel (found + more) (some event) r

def sequential (r : Run) : Except Failure Nat × Run :=
  loop r.store.collectionNames (eventBound r.store + 1) 0 none r

/-! ## the end -/

/-- finishes one writer after the other, until one fails; those that were finished come first -/
def finishWriters (metadata : Metadata) : List Writer → Except Failure Unit × List Writer × List Writer
  | [] => (.ok (), [], [])
  | w :: rest =>
    match w.writeMetadata metadata with
    | (.error e, w) => (.error (.ofStore e), [], w :: rest)
    | (.ok (), w) =>
      match w.finish with
      | (.error e, w) =>
        (.error ((Failure.ofStore e).within ("finishing " ++ w.name)), [], w :: rest)
      | (.ok (), w) =>
        let (result, finished, remaining) := finishWriters metadata rest
        (result, w :: finished, remaining)

/-- how a run ended: its summary or failure, the writers that were finished and those that were
not -/
structure Ending where
  result : Except Failure RunSummary
  finished : List Writer
  unfinished : List Writer

def complete (r : Run) (found : Nat) : Ending :=
  let (result, finished, unfinished) := finishWriters r.config.runMetadata r.writers
  match result with
  | .error f => ⟨.error f, finished, unfinished⟩
  | .ok () =>
    ⟨.ok ⟨r.store.eventsRead, found, max r.config.threads 1, r.store.sourceCount,
      r.writers.length⟩, finished, unfinished⟩

end Run

end EventMerge
