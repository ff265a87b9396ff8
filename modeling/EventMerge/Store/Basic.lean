import EventMerge.Store.Config
import EventMerge.Store.Feed

/-!
# Stores

A store reads several feeds in step: its `k`-th event combines what each feed gave for its `k`-th.
Sources and runtime collections are registered before the first event is asked for.

* `Store.register`         adds a feed; its source id is its position;
* `Store.registerRuntime`  adds names that events will be given while they are processed;
* `Store.next`             the next event, or none once a feed is dry.
-/

namespace EventMerge

structure Registered where
  source : SourceId
  feed : Feed
  /-- the decoder that the reader has given when it was registered -/
  decoder : Decoder

structure Store where
  config : StoreConfig := {}
  readers : List Registered := []
  table : IdentityTable := {}
  started : Bool := false
  exhausted : Bool := false
  eventsRead : Nat := 0

namespace Store

instance : Inhabited Store := ⟨{}⟩

def new (config : StoreConfig) : Store := { config }

def sourceCount (s : Store) : Nat := s.readers.length

def collectionNames (s : Store) : List String := s.table.names

/-! ## registration -/

/-- adds a feed; the answer, the store afterwards, and what was asked of the feed: its names, and its
decoder once it is accepted -/
def register (s : Store) (feed : Feed) : Except StoreError SourceId × Store × List Call :=
  if s.started then (.error .registrationClosed, s, [])
  else
    match SourceId.ofPosition s.readers.length with
    | .error e => (.error (.index e), s, [])
    | .ok source =>
      match s.table.insert source feed.entries s.config.collisionPolicy with
      | (.error e, table) => (.error e, { s with table }, [.idTable feed.label])
      | (.ok _, table) =>
        (.ok source, { s with table, readers := s.readers ++ [⟨source, feed, feed.decoder⟩] },
          [.idTable feed.label, .decoder feed.label])

def runtimeEntries (s : Store) : SourceEntries :=
  (s.table.entriesOf? SourceId.runtime).getD .empty

/-- gives each name that is not among `known` or `added` the next index -/
def numberNames (known : SourceEntries) :
    List String → (added : SourceEntries) → Except IndexError SourceEntries
  | [], added => .ok added
  | name :: rest, added =>
    if known.contains name || added.contains name then numberNames known rest added
    else
      match LocalIndex.ofPosition (known.size + added.size) with
      | .error e => .error e
      | .ok index => numberNames known rest (added.insert name index)

/-- adds names that events will be given while they are processed; the answer, and the store
afterwards -/
def registerRuntime (s : Store) (names : List String) : Except StoreError Unit × Store :=
  if s.started then (.error .registrationClosed, s)
  else
    match numberNames s.runtimeEntries names .empty with
    | .error e => (.error (.index e), s)
    | .ok added =>
      if added.isEmpty then (.ok (), s)
      else
        match s.table.insert SourceId.runtime added s.config.collisionPolicy with
        | (.error e, table) => (.error e, { s with table })
        | (.ok _, table) => (.ok (), { s with table })

/-! ## events -/

inductive Gathering where
  | all (suppliers : List Supplier)
  | dry
  | failed (error : StoreError)

/-- asks the feeds one after the other, until one is dry or fails, and keeps each handle beside the
decoder of its reader; the readers afterwards and the calls made -/
def gather : List Registered → Gathering × List Registered × List Call
  | [] => (.all [], [], [])
  | r :: rest =>
    match r.feed.script with
    | [] => (.dry, r :: rest, [.next r.feed.label])
    | .fault error :: script =>
      (.failed error, { r with feed := { r.feed with script } } :: rest, [.next r.feed.label])
    | .event handle :: script =>
      let (gathering, readers, calls) := gather rest
      let gathering :=
        match gathering with
        | .all suppliers => .all (⟨r.source, r.feed.label, handle, r.decoder⟩ :: suppliers)
        | other => other
      (gathering, { r with feed := { r.feed with script } } :: readers,
        .next r.feed.label :: calls)

/-- the next event, made by a factory from an old one if there is one -/
def next (s : Store) (factory : Event.Factory) (slot : Option Event) :
    Except StoreError (Option Event) × Store × List Call :=
  if s.readers.isEmpty then (.error .noSources, s, [])
  else if s.exhausted then (.ok none, s, [])
  else
    let (gathering, readers, calls) := gather s.readers
    let s := { s with readers, started := true }
    match gathering with
    | .failed error => (.error error, s, calls)
    | .dry => (.ok none, { s with exhausted := true }, calls)
    | .all suppliers =>
      (.ok (some ((Event.make factory slot).setRaw ⟨s.table, suppliers⟩)),
        { s with eventsRead := s.eventsRead + 1 }, calls)

end Store

end EventMerge
