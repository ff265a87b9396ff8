import EventMerge.Collection
import EventMerge.Error
import EventMerge.NameMap
import EventMerge.Policy

/-!
# The collections of an event

A cache holds collections by name and remembers which of them were decoded from raw data and which
were put in at runtime.

* `Cache.addDecoded`       adds what was decoded, unless the name is taken;
* `Cache.put`              puts a collection in, by a policy;
* `Cache.buffersForWrite`  the payload to be written for a name;
* `Cache.dropDecoded`      forgets all that was decoded.
-/

namespace EventMerge

inductive Origin where
  | decoded
  | runtime
  deriving DecidableEq

structure CacheEntry where
  collection : Collection
  origin : Origin
  deriving DecidableEq

abbrev Cache := NameMap CacheEntry

namespace Cache

def collection? (cache : Cache) (name : String) : Option Collection :=
  (cache.get? name).map CacheEntry.collection

/-- the collection of a decoding; one that failed gives a collection with no field set -/
def ofDecoding : Except DecodeError Buffers → Collection
  | .ok buffers => .ofBuffers buffers
  | .error _ => .ofBuffers .unset

/-- adds what was decoded, unless the name is taken -/
def addDecoded (cache : Cache) (name : String) (result : Except DecodeError Buffers) : Cache :=
  if cache.contains name then cache
  else cache.insert name ⟨ofDecoding result, .decoded⟩

def put (cache : Cache) (policy : PutPolicy) (name : String) (collection : Collection) :
    Except StoreError (Collection × Cache) :=
  match cache.get? name, policy with
  | none, _ => .ok (collection, cache.insert name ⟨collection, .runtime⟩)
  | some _, .replace => .ok (collection, cache.insert name ⟨collection, .runtime⟩)
  | some old, .keepOriginal => .ok (old.collection, cache)
  | some _, .reject => .error (.collectionExists name)

/-- the payload to be written for a name, which prepares its collection.  What was decoded and is
not valid is never written. -/
def buffersForWrite (cache : Cache) (name : String) : Option Buffers × Cache :=
  match cache.get? name with
  | none => (none, cache)
  | some entry =>
    if !entry.collection.valid && entry.origin = .decoded then (none, cache)
    else
      let prepared := entry.collection.prepareForWrite
      (some prepared.buffers, cache.insert name { entry with collection := prepared })

def dropDecoded (cache : Cache) : Cache := cache.filter fun _ entry => entry.origin = .runtime

end Cache

end EventMerge
