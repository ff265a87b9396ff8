import EventMerge.Event.Handle

/-!
# The raw data of one event

For every source that was read, raw data holds its handle and its decoder.  A name is decoded from the
first source, in the order of the identity table, that has the name and was read.

* `Call`                what is asked of a feed, in order;
* `Supplier`            a source, its handle and its decoder;
* `RawData.provision?`  where a name is decoded from;
* `RawData.provisions`  the same for all names at once.
-/

namespace EventMerge

inductive Call where
  | idTable (feed : String)
  | decoder (feed : String)
  | next (feed : String)
  | decode (feed : String) (index : LocalIndex)
  deriving DecidableEq

structure Supplier where
  source : SourceId
  feed : String
  handle : Handle
  decoder : Decoder

def Supplier.decode (s : Supplier) : Decoding := s.decoder s.handle

/-- what all sources gave for an event, under the identity table of that time -/
structure RawData where
  table : IdentityTable
  suppliers : List Supplier

structure Provision where
  supplier : Supplier
  index : LocalIndex

namespace Provision

def decode (p : Provision) : Except DecodeError Buffers := p.supplier.decode p.index

def call (p : Provision) : Call := .decode p.supplier.feed p.index

end Provision

namespace RawData

def supplier? (raw : RawData) (source : SourceId) : Option Supplier :=
  raw.suppliers.find? fun s => s.source = source

def provisionIn? (raw : RawData) (name : String) (entry : SourceId × SourceEntries) :
    Option Provision :=
  match entry.2.get? name, raw.supplier? entry.1 with
  | some index, some supplier => some ⟨supplier, index⟩
  | _, _ => none

def provision? (raw : RawData) (name : String) : Option Provision :=
  raw.table.sources.findSome? (raw.provisionIn? name)

/-- the result of decoding a name; `none` when no source provides it -/
def resolve? (raw : RawData) (name : String) : Option (Except DecodeError Buffers) :=
  (raw.provision? name).map Provision.decode

def provisionsOf (raw : RawData) (entry : SourceId × SourceEntries) :
    List (String × Provision) :=
  match raw.supplier? entry.1 with
  | some supplier => entry.2.entries.map fun e => (e.1, ⟨supplier, e.2⟩)
  | none => []

/-- the pairs whose name is not among `seen` and comes up for the first time -/
def firstOfName {α : Type} (seen : List String) : List (String × α) → List (String × α)
  | [] => []
  | (name, value) :: rest =>
    if seen.contains name then firstOfName seen rest
    else (name, value) :: firstOfName (name :: seen) rest

/-- where every name is decoded from, in registration order and then name order -/
def provisions (raw : RawData) : List (String × Provision) :=
  firstOfName [] (raw.table.sources.flatMap raw.provisionsOf)

def resolveAll (raw : RawData) : List (String × Except DecodeError Buffers) :=
  raw.provisions.map fun p => (p.1, p.2.decode)

/-- every name of the identity table, decodable or not -/
def knownNames (raw : RawData) : List String := raw.table.names

def sourceCount (raw : RawData) : Nat := raw.suppliers.length

def description (raw : RawData) : String :=
  "EventRawData \x7b source_count: " ++ Text.Decimal.ofNat raw.sourceCount ++ ", known_names: "
    ++ Text.Decimal.ofNat raw.table.size ++ " \x7d"

theorem firstOfName_nil {α : Type} (seen : List String) :
    firstOfName seen ([] : List (String × α)) = [] := rfl
theorem firstOfName_cons {α : Type} (seen : List String) (name : String) (value : α)
    (rest : List (String × α)) :
    firstOfName seen ((name, value) :: rest)
      = if seen.contains name then firstOfName seen rest
        else (name, value) :: firstOfName (name :: seen) rest := rfl

end RawData

end EventMerge
