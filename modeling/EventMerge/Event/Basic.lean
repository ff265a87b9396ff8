import EventMerge.Event.Cache
import EventMerge.Event.Supply
import EventMerge.Parameters

/-!
# Events

An event holds collections, parameters and the raw data from which collections are decoded.  An eager
event decodes everything when the first collection is needed and then lets the raw data go; a lazy
one decodes each collection when it is needed and keeps the raw data.

Every operation gives its answer, the event afterwards, and the calls that it made, in order.

* `Event.setRaw`               takes the raw data of the next event;
* `Event.get`                  the collection of a name;
* `Event.put`                  puts a collection in;
* `Event.collectionsForWrite`  the payloads to be written;
* `Event.reuse`                forgets everything but kind and policy;
* `Event.make`                 a new event, or an old one reused.
-/

namespace EventMerge

inductive Supply where
  | none
  | held (raw : RawData)
  /-- everything has been decoded -/
  | spent

structure Event where
  kind : EventKind
  putPolicy : PutPolicy := .replace
  cache : Cache := .empty
  parameters : Parameters := {}
  supply : Supply := .none

/-- the answer of an operation, the event afterwards and the calls made -/
structure Outcome (α : Type) where
  value : α
  event : Event
  calls : List Call := []

namespace Event

instance : Inhabited Event := ⟨⟨.eager, .replace, .empty, {}, .none⟩⟩

def raw? (e : Event) : Option RawData :=
  match e.supply with
  | .held raw => some raw
  | _ => none

/-- the event has been given raw data, decoded or not -/
def hasRawData (e : Event) : Bool :=
  match e.supply with
  | .none => false
  | _ => true

def isMaterialized (e : Event) : Bool :=
  match e.supply with
  | .spent => true
  | _ => false

def contains (e : Event) (name : String) : Bool := e.cache.contains name

def cachedNames (e : Event) : List String := e.cache.keys

/-- takes the raw data of the next event; collections put in at runtime stay -/
def setRaw (e : Event) (raw : RawData) : Event :=
  { e with cache := e.cache.dropDecoded, supply := .held raw }

/-- puts a collection in: the collection that the name holds afterwards, and the event -/
def put (e : Event) (name : String) (collection : Collection) :
    Except StoreError (Collection × Event) :=
  match e.cache.put e.putPolicy name collection with
  | .ok (stored, cache) => .ok (stored, { e with cache })
  | .error error => .error error

def reuse (e : Event) : Event := { e with cache := .empty, parameters := {}, supply := .none }

/-! ## eager events -/

/-- decodes every collection that is not held yet -/
def materialize (e : Event) (raw : RawData) : Event × List Call :=
  ({ e with
      cache := raw.resolveAll.foldl (fun cache r => Cache.addDecoded cache r.1 r.2) e.cache
      supply := .spent },
    raw.provisions.map fun p => p.2.call)

/-- decodes everything, if that has not been done; without raw data there is nothing to ask -/
def getEager (e : Event) (name : String) : Outcome (Except StoreError (Option Collection)) :=
  match e.supply with
  | .none => { value := .error .noRawData, event := e }
  | .spent => { value := .ok (e.cache.collection? name), event := e }
  | .held raw =>
    let (event, calls) := e.materialize raw
    { value := .ok (event.cache.collection? name), event, calls }

/-! ## lazy events -/

def getLazy (e : Event) (name : String) : Outcome (Option Collection) :=
  if e.contains name then { value := e.cache.collection? name, event := e }
  else
    match e.raw?.bind fun raw => raw.provision? name with
    | none => { value := none, event := e }
    | some provision =>
      let cache := Cache.addDecoded e.cache name provision.decode
      { value := cache.collection? name, event := { e with cache }, calls := [provision.call] }

/-! ## both kinds -/

def get (e : Event) (name : String) : Outcome (Except StoreError (Option Collection)) :=
  match e.kind with
  | .eager => e.getEager name
  | .lazy =>
    let outcome := e.getLazy name
    { value := .ok outcome.value, event := outcome.event, calls := outcome.calls }

/-- the payload of one name as it is written, for an eager event the held ones only -/
def writeOne (e : Event) (name : String) : Outcome (Option Buffers) :=
  if e.contains name then
    let (buffers, cache) := Cache.buffersForWrite e.cache name
    { value := buffers, event := { e with cache } }
  else
    match e.raw?.bind fun raw => raw.provision? name with
    | none => { value := none, event := e }
    | some provision =>
      let buffers :=
        match provision.decode with
        | .ok buffers => if buffers.isValid then some buffers else none
        | .error _ => none
      { value := buffers, event := e, calls := [provision.call] }

def writeAll : List String → Event → Outcome (List (String × Buffers))
  | [], e => { value := [], event := e }
  | name :: rest, e =>
    let first := e.writeOne name
    let others := writeAll rest first.event
    { value := (first.value.map fun buffers => (name, buffers)).toList ++ others.value
      event := others.event
      calls := first.calls ++ others.calls }

/-- the names that are written when none are asked for -/
def writableNames (e : Event) : List String :=
  match e.raw? with
  | none => e.cachedNames
  | some raw =>
    (NameMap.ofList ((e.cachedNames ++ raw.knownNames).map fun name => (name, ()))).keys

/-- the payloads of the given names, in their order; of all names if none are given.  An eager event
decodes what it holds first, and then has no raw data to turn to. -/
def collectionsForWrite (e : Event) (names : List String) :
    Outcome (List (String × Buffers)) :=
  let (e, calls) :=
    match e.kind, e.supply with
    | .eager, .held raw => e.materialize raw
    | _, _ => (e, [])
  let outcome := writeAll (if names.isEmpty then e.writableNames else names) e
  { outcome with calls := calls ++ outcome.calls }

/-! ## making events -/

structure Factory where
  kind : EventKind
  putPolicy : PutPolicy
  reuse : Bool
  deriving DecidableEq

/-- a new event; an old one of the same kind is reused if that is wanted -/
def make (f : Factory) : Option Event → Event
  | some old =>
    if f.reuse ∧ old.kind = f.kind then old.reuse
    else { kind := f.kind, putPolicy := f.putPolicy }
  | none => { kind := f.kind, putPolicy := f.putPolicy }

end Event

end EventMerge
