import EventMerge.Event.Basic
import EventMerge.Proofs.Names

/-!
# Decoding one collection and decoding all

* `RawData.lookup_provisions`  going through all sources finds, for every name, what looking the
                               name up finds;
* `RawData.decoded?`           the collection that raw data give for a name;
* `Cache.get?_addAll`          adding decoded collections keeps what a name holds already;
* `Event.get?_materialize`     what an event holds once everything is decoded.
-/

namespace EventMerge

namespace RawData

open NameMap (lookup lookup_nil lookup_cons)

/-! ## where a name is decoded from -/

theorem lookup_firstOfName {α : Type} (seen : List String) (name : String)
    (entries : List (String × α)) :
    lookup name (firstOfName seen entries)
      = if seen.contains name then none else lookup name entries := by
  induction entries generalizing seen with
  | nil => rw [firstOfName_nil, lookup_nil, ite_self]
  | cons entry rest ih =>
    obtain ⟨key, value⟩ := entry
    rw [firstOfName_cons, lookup_cons]
    by_cases hkey : seen.contains key = true
    · rw [if_pos hkey, ih]
      by_cases hname : name = key
      · rw [hname, if_pos hkey, if_pos hkey]
      · rw [if_neg hname]
    · rw [if_neg hkey, lookup_cons, ih]
      by_cases hname : name = key
      · rw [hname, if_pos rfl, if_pos rfl, if_neg hkey]
      · simp [hname]

theorem lookup_provisionsOf (raw : RawData) (name : String) (entry : SourceId × SourceEntries) :
    lookup name (raw.provisionsOf entry) = raw.provisionIn? name entry := by
  rw [provisionsOf, provisionIn?]
  cases raw.supplier? entry.1 with
  | none => cases entry.2.get? name <;> rfl
  | some supplier =>
    show lookup name (entry.2.entries.map fun e => (e.1, (⟨supplier, e.2⟩ : Provision))) = _
    rw [NameMap.lookup_map fun index => (⟨supplier, index⟩ : Provision)]
    show (entry.2.get? name).map _ = _
    cases entry.2.get? name <;> rfl

theorem lookup_provisions (raw : RawData) (name : String) :
    lookup name raw.provisions = raw.provision? name := by
  rw [provisions, lookup_firstOfName]
  show lookup name (raw.table.sources.flatMap raw.provisionsOf) = _
  rw [NameMap.lookup_flatMap, provision?]
  simp only [lookup_provisionsOf]

theorem lookup_resolveAll (raw : RawData) (name : String) :
    lookup name raw.resolveAll = raw.resolve? name := by
  rw [resolveAll, NameMap.lookup_map, lookup_provisions, resolve?]

theorem mem_knownNames_of_provision? {raw : RawData} {name : String} {p : Provision}
    (h : raw.provision? name = some p) : name ∈ raw.knownNames := by
  obtain ⟨entry, hentry, hp⟩ := List.exists_of_findSome?_eq_some h
  have hname : entry.2.contains name = true := by
    rw [NameMap.contains]
    rw [provisionIn?] at hp
    cases hget : entry.2.get? name with
    | none => rw [hget] at hp; cases hp
    | some index => rfl
  refine (NameMap.mem_keys_ofList _ _).mpr ?_
  rw [List.map_flatMap]
  refine List.mem_flatMap.mpr ⟨entry, hentry, ?_⟩
  rw [List.map_map]
  exact List.mem_map.mpr ⟨name, NameMap.contains_iff_mem_keys.mp hname, rfl⟩

/-! ## what a name is decoded to -/

/-- the collection that is decoded for a name, which is without content if the decoding fails -/
def decoded? (raw : RawData) (name : String) : Option Collection :=
  (raw.resolve? name).map Cache.ofDecoding

/-- the payload that is decoded for a name, if all its fields are set -/
def readable? (raw : RawData) (name : String) : Option Buffers :=
  match raw.resolve? name with
  | some (.ok buffers) => if buffers.isValid then some buffers else none
  | _ => none

theorem readable?_eq (raw : RawData) (name : String) :
    raw.readable? name
      = (raw.decoded? name).bind fun c => if c.valid then some c.buffers else none := by
  rw [readable?, decoded?]
  rcases raw.resolve? name with _ | e | buffers <;> rfl

theorem mem_knownNames_of_decoded? {raw : RawData} {name : String} {c : Collection}
    (h : raw.decoded? name = some c) : name ∈ raw.knownNames := by
  rw [decoded?, resolve?] at h
  cases hp : raw.provision? name with
  | none => rw [hp] at h; cases h
  | some p => exact mem_knownNames_of_provision? hp

end RawData

/-! ## adding what was decoded -/

namespace Cache

theorem get?_addDecoded (cache : Cache) (name other : String)
    (result : Except DecodeError Buffers) :
    (cache.addDecoded name result).get? other
      = (cache.get? other).or
          (if other = name then some ⟨ofDecoding result, .decoded⟩ else none) := by
  rw [addDecoded]
  by_cases hname : other = name
  · subst hname
    cases hget : cache.get? other with
    | none => simp [NameMap.contains, hget, NameMap.get?_insert_self]
    | some entry => simp [NameMap.contains, hget]
  · rw [if_neg hname, Option.or_none]
    split
    · rfl
    · exact NameMap.get?_insert_of_ne _ _ hname

theorem get?_addAll (results : List (String × Except DecodeError Buffers)) (cache : Cache)
    (name : String) :
    (results.foldl (fun cache r => Cache.addDecoded cache r.1 r.2) cache).get? name
      = (cache.get? name).or
          ((NameMap.lookup name results).map fun r => ⟨ofDecoding r, .decoded⟩) := by
  induction results generalizing cache with
  | nil => simp [NameMap.lookup_nil]
  | cons r results ih =>
    rw [List.foldl_cons, ih, get?_addDecoded, NameMap.lookup_cons, Option.or_assoc]
    congr 1
    split <;> rfl

end Cache

namespace Event

/-- what was held stays, and everything else comes from the raw data -/
theorem get?_materialize (e : Event) (raw : RawData) (name : String) :
    (e.materialize raw).1.cache.get? name
      = (e.cache.get? name).or ((raw.decoded? name).map fun c => ⟨c, .decoded⟩) := by
  show (raw.resolveAll.foldl (fun cache r => Cache.addDecoded cache r.1 r.2) e.cache).get? name = _
  rw [Cache.get?_addAll, RawData.lookup_resolveAll, RawData.decoded?, Option.map_map]
  rfl

end Event

end EventMerge
