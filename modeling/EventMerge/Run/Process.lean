import EventMerge.Event.Basic
import EventMerge.Text.Decimal

/-!
# What a run does with every event

Every known collection is asked for, and one that nobody provides; the valid ones are counted.  Then
the collections to be made are put in, and the counts are kept as parameters.

* `Event.process`  the number of valid collections found.
-/

namespace EventMerge

namespace Event

/-- a name that no source is expected to provide -/
def missingCollection : String := "NotPresent"

/-- the collections counted so far: valid ones, and names without any -/
structure Tally where
  found : Nat := 0
  missing : Nat := 0
  deriving DecidableEq

namespace Tally

def count (t : Tally) : Option Collection → Tally
  | some collection => if collection.valid then { t with found := t.found + 1 } else t
  | none => { t with missing := t.missing + 1 }

end Tally

/-- asks for names one after the other, until one cannot be asked for -/
def survey (t : Tally) : List String → Event → Outcome (Except StoreError Tally)
  | [], e => { value := .ok t, event := e }
  | name :: rest, e =>
    let first := e.get name
    match first.value with
    | .error error => { value := .error error, event := first.event, calls := first.calls }
    | .ok collection =>
      let others := survey (t.count collection) rest first.event
      { others with calls := first.calls ++ others.calls }

def countWidth : Nat := 4

def runtimeCollection (name : String) (found : Nat) : Collection :=
  .ofBuffers (.complete (Bytes.ofText (name ++ ":" ++ Text.Decimal.ofNat found)) []
    [⟨"found", Bytes.ofNatLE countWidth found⟩] defaultSchemaVersion)

def putAll (found : Nat) : List String → Event → Except StoreError Unit × Event
  | [], e => (.ok (), e)
  | name :: rest, e =>
    match e.put name (runtimeCollection name found) with
    | .error error => (.error error, e)
    | .ok (_, e) => putAll found rest e

def recordTally (e : Event) (t : Tally) : Event :=
  { e with
    parameters := (e.parameters.set .int "collections_found" (Int32.ofNat t.found)).set
      .int "collections_missing" (Int32.ofNat t.missing) }

/-- asks for the known collections, counts them and makes the new ones -/
def process (e : Event) (known newCollections : List String) : Outcome (Except StoreError Nat) :=
  let surveyed := survey {} (known ++ [missingCollection]) e
  match surveyed.value with
  | .error error => { surveyed with value := .error error }
  | .ok tally =>
    match putAll tally.found newCollections surveyed.event with
    | (.error error, event) => { value := .error error, event, calls := surveyed.calls }
    | (.ok (), event) =>
      { value := .ok tally.found, event := event.recordTally tally, calls := surveyed.calls }

end Event

end EventMerge
