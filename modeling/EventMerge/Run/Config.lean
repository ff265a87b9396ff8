import EventMerge.Pack.Event
import EventMerge.Store.ConfigFile

/-!
# How a run works

* `RunConfig.parse`  the configuration of a document;
* `RunConfig.apply`  the configuration with what the command line says on top of it.
-/

namespace EventMerge

structure RunConfig where
  store : StoreConfig := {}
  /-- the number of workers; with one the events keep their order -/
  threads : Nat := 1
  maxEvents : Option Nat := none
  /-- the collections that every event is given -/
  newCollections : List String := []
  /-- the collections to be written; all of them if there are none -/
  writeCollections : List String := []
  metadata : Metadata := .empty
  deriving DecidableEq

structure RunOverrides where
  eventKind : Option EventKind := none
  reuse : Bool := false
  threads : Option Nat := none
  maxEvents : Option Nat := none
  newCollections : List String := []
  writeCollections : List String := []
  deriving DecidableEq

namespace RunConfig

open Toml (Item Slots)

instance : Inhabited RunConfig := ⟨{}⟩

def fieldNames : List String :=
  ["store", "threads", "max_events", "new_collections", "write_collections", "metadata"]

/-- the configuration of a table; what it leaves out has its default -/
def ofItem? (item : Item) : Option RunConfig :=
  match Slots.ofItem? fieldNames item with
  | some [store, threads, maxEvents, newCollections, writeCollections, metadata] =>
    match Slots.orDefault? {} StoreConfig.ofItem? store,
      Slots.orDefault? 1 Toml.natural? threads,
      Slots.orDefault? none (fun item => (Toml.natural? item).map some) maxEvents,
      Slots.orDefault? [] Toml.texts? newCollections,
      Slots.orDefault? [] Toml.texts? writeCollections,
      Slots.orDefault? .empty Toml.textMap? metadata with
    | some store, some threads, some maxEvents, some newCollections, some writeCollections,
      some metadata =>
      some { store, threads, maxEvents, newCollections, writeCollections, metadata }
    | _, _, _, _, _, _ => none
  | _ => none

def parse? (text : String) : Option RunConfig := Toml.record? ofItem? text

def extendUnique (names more : List String) : List String :=
  more.foldl (fun names name => if names.contains name then names else names ++ [name]) names

/-- the configuration with what the command line says on top of it; there is always a worker -/
def apply (c : RunConfig) (o : RunOverrides) : RunConfig :=
  { c with
    store := {
      c.store with
      eventKind := o.eventKind.getD c.store.eventKind
      reuseEvents := o.reuse || c.store.reuseEvents }
    threads := max (o.threads.getD c.threads) 1
    maxEvents := o.maxEvents.or c.maxEvents
    newCollections := extendUnique c.newCollections o.newCollections
    writeCollections := extendUnique c.writeCollections o.writeCollections }

/-- the texts written at the end of a run: those of the configuration, and one for each collection
made at runtime that has none -/
def runMetadata (c : RunConfig) : Metadata :=
  c.newCollections.foldl (fun metadata name =>
    if metadata.contains name then metadata else metadata.insert name "created at runtime")
    c.metadata

end RunConfig

end EventMerge
