import EventMerge.Error
import EventMerge.NameMap
import EventMerge.Policy

/-!
# Which source serves which name

An identity table lists, in registration order, what each source calls its collections and at which
local index it keeps them.  A name is served by the first source that has it.

* `IdentityTable.lookup`  the source and index of a name;
* `IdentityTable.names`   all names, sorted and without repetition;
* `IdentityTable.insert`  adds the entries of a source under a collision policy.
-/

namespace EventMerge

/-- the collections of one source, each with its local index -/
abbrev SourceEntries := NameMap LocalIndex

structure Collision where
  name : String
  existing : SourceId
  incoming : SourceId
  deriving DecidableEq

/-- the entries of every source, in registration order -/
structure IdentityTable where
  sources : List (SourceId × SourceEntries) := []
  deriving DecidableEq

namespace IdentityTable

instance : Inhabited IdentityTable := ⟨{}⟩

def empty : IdentityTable := {}

/-! ## looking up -/

/-- the source and index that the first source with the name gives it -/
def lookup (table : IdentityTable) (name : String) : Option (SourceId × LocalIndex) :=
  table.sources.findSome? fun entry => (entry.2.get? name).map fun index => (entry.1, index)

def contains (table : IdentityTable) (name : String) : Bool := (table.lookup name).isSome

def entriesOf? (table : IdentityTable) (source : SourceId) : Option SourceEntries :=
  (table.sources.find? fun entry => entry.1 = source).map Prod.snd

/-- every name of the table, once, in name order -/
def names (table : IdentityTable) : List String :=
  (NameMap.ofList (table.sources.flatMap fun entry => entry.2.keys.map fun name => (name, ()))).keys

def size (table : IdentityTable) : Nat := table.names.length

def isEmpty (table : IdentityTable) : Bool := table.sources.all fun entry => entry.2.isEmpty

def sourceCount (table : IdentityTable) : Nat := table.sources.length

/-! ## registering -/

/-- the first source other than `source` that has the name -/
def rival? (table : IdentityTable) (source : SourceId) (name : String) : Option SourceId :=
  (table.sources.find? fun entry => entry.1 ≠ source && entry.2.contains name).map Prod.fst

/-- the names among `entries` that other sources have, in name order -/
def collisions (table : IdentityTable) (source : SourceId) (entries : SourceEntries) :
    List Collision :=
  entries.keys.filterMap fun name =>
    (table.rival? source name).map fun existing => ⟨name, existing, source⟩

/-- adds entries to those of their source, which comes last if it is new -/
def mergeInto (source : SourceId) (entries : SourceEntries) :
    List (SourceId × SourceEntries) → List (SourceId × SourceEntries)
  | [] => [(source, entries)]
  | (id, old) :: rest =>
    if id = source then (id, old.union entries) :: rest
    else (id, old) :: mergeInto source entries rest

def merge (table : IdentityTable) (source : SourceId) (entries : SourceEntries) : IdentityTable :=
  ⟨mergeInto source entries table.sources⟩

/-- adds the entries of a source; the answer, and the table afterwards.  Under `reject` the first
collision is an error; under `firstWins` the collisions are reported and the earlier sources go on
serving the names. -/
def insert (table : IdentityTable) (source : SourceId) (entries : SourceEntries)
    (policy : CollisionPolicy) : Except StoreError (List Collision) × IdentityTable :=
  let found := table.collisions source entries
  match policy, found with
  | .reject, first :: _ =>
    (.error (.duplicateCollection first.name first.existing first.incoming), table)
  | _, _ => (.ok found, table.merge source entries)

/-! ## small facts -/

theorem mergeInto_nil (source : SourceId) (entries : SourceEntries) :
    mergeInto source entries [] = [(source, entries)] := rfl

theorem insert_firstWins (table : IdentityTable) (source : SourceId) (entries : SourceEntries) :
    table.insert source entries .firstWins
      = (.ok (table.collisions source entries), table.merge source entries) := rfl

theorem sorted_names (table : IdentityTable) : table.names.Pairwise (· < ·) :=
  NameMap.sorted_keys _

end IdentityTable

end EventMerge
