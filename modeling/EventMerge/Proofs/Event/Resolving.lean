import EventMerge.Proofs.Event.Decoding

/-!
# Resolving one name and resolving all

One search goes to the first sub-table that has the name and whose source was read.  The other goes
through the sub-tables whose source was read and passes over the names that came up before.  Both
come to the same place, whatever overlaps and whatever is missing.

* `RawData.Serves`          a name is decoded from the first sub-table that can;
* `RawData.provision?_eq_some_iff`  the search for one name finds exactly that;
* `RawData.nodup_provisions`  going through all sources lists no name twice;
* `RawData.Precedes`        the order of the names, by sub-table and then by name;
* `RawData.sorted_provisions`  the names are listed in that order;
* `RawData.resolve_agrees`  both ways of resolving agree.
-/

namespace EventMerge

namespace NameMap

variable {α : Type}

/-- where no name comes twice, looking up gives what is listed -/
theorem lookup_eq_some_iff_mem {entries : List (String × α)} (h : (entries.map Prod.fst).Nodup)
    {name : String} {value : α} : lookup name entries = some value ↔ (name, value) ∈ entries := by
  induction entries with
  | nil => simp [lookup_nil]
  | cons entry rest ih =>
    obtain ⟨key, first⟩ := entry
    obtain ⟨hkey, hrest⟩ := List.nodup_cons.mp h
    rw [lookup_cons, List.mem_cons]
    by_cases hname : name = key
    · subst hname
      have hnot : (name, value) ∉ rest := fun hmem =>
        hkey (List.mem_map.mpr ⟨(name, value), hmem, rfl⟩)
      rw [if_pos rfl, Option.some_inj, Prod.mk.injEq, or_iff_left hnot]
      exact ⟨fun heq => ⟨rfl, heq.symm⟩, fun heq => heq.2.symm⟩
    · rw [if_neg hname, ih hrest, Prod.mk.injEq]
      simp [hname]

end NameMap

namespace RawData

open NameMap (lookup)

variable {raw : RawData}

/-! ## the search for one name -/

theorem supplier?_eq_none_iff {source : SourceId} :
    raw.supplier? source = none ↔ ∀ s ∈ raw.suppliers, s.source ≠ source := by
  rw [supplier?, List.find?_eq_none]
  simp

theorem provisionIn?_eq_some_iff {name : String} {entry : SourceId × SourceEntries}
    {p : Provision} :
    raw.provisionIn? name entry = some p
      ↔ entry.2.get? name = some p.index ∧ raw.supplier? entry.1 = some p.supplier := by
  obtain ⟨supplier, index⟩ := p
  rw [provisionIn?]
  cases entry.2.get? name with
  | none => simp
  | some i =>
    cases raw.supplier? entry.1 with
    | none => simp
    | some s => simp [and_comm]

theorem provisionIn?_eq_none_iff {name : String} {entry : SourceId × SourceEntries} :
    raw.provisionIn? name entry = none
      ↔ entry.2.get? name = none ∨ ∀ s ∈ raw.suppliers, s.source ≠ entry.1 := by
  rw [← supplier?_eq_none_iff, provisionIn?]
  cases entry.2.get? name with
  | none => simp
  | some i => cases raw.supplier? entry.1 <;> simp

/-- A name is decoded from the first sub-table, in registration order, that has the name and whose
source was read: what comes before lacks the name or was not read.  Of a source that was read twice
the first reading counts. -/
def Serves (raw : RawData) (name : String) (p : Provision) : Prop :=
  ∃ earlier entry later, raw.table.sources = earlier ++ entry :: later
    ∧ entry.2.get? name = some p.index
    ∧ (raw.suppliers.find? fun s => s.source = entry.1) = some p.supplier
    ∧ ∀ other ∈ earlier, other.2.get? name = none ∨ ∀ s ∈ raw.suppliers, s.source ≠ other.1

theorem provision?_eq_some_iff {name : String} {p : Provision} :
    raw.provision? name = some p ↔ raw.Serves name p := by
  rw [provision?, List.findSome?_eq_some_iff, Serves]
  simp only [provisionIn?_eq_some_iff, provisionIn?_eq_none_iff, supplier?, and_assoc]

/-! ## the pass over all sources -/

section

variable {α : Type}

theorem firstOfName_sublist (seen : List String) (entries : List (String × α)) :
    (firstOfName seen entries).Sublist entries := by
  induction entries generalizing seen with
  | nil => exact List.Sublist.refl []
  | cons entry rest ih =>
    obtain ⟨name, value⟩ := entry
    rw [firstOfName_cons]
    split
    · exact (ih seen).cons (name, value)
    · exact (ih (name :: seen)).cons_cons (name, value)

theorem mem_names_firstOfName {seen : List String} {entries : List (String × α)} {name : String} :
    name ∈ (firstOfName seen entries).map Prod.fst
      ↔ name ∉ seen ∧ name ∈ entries.map Prod.fst := by
  rw [← NameMap.lookup_isSome_iff_mem, ← NameMap.lookup_isSome_iff_mem, lookup_firstOfName]
  by_cases hseen : name ∈ seen
  · simp [hseen]
  · simp [hseen]

theorem nodup_firstOfName (seen : List String) (entries : List (String × α)) :
    ((firstOfName seen entries).map Prod.fst).Nodup := by
  induction entries generalizing seen with
  | nil => exact List.nodup_nil
  | cons entry rest ih =>
    obtain ⟨name, value⟩ := entry
    rw [firstOfName_cons]
    split
    · exact ih seen
    · refine List.nodup_cons.mpr ⟨fun hmem => ?_, ih (name :: seen)⟩
      exact (mem_names_firstOfName.mp hmem).1 List.mem_cons_self

/-- after some pairs, their names count as seen -/
theorem firstOfName_append (seen : List String) (xs ys : List (String × α)) :
    ∃ seen', (∀ name, name ∈ seen' ↔ name ∈ xs.map Prod.fst ∨ name ∈ seen)
      ∧ firstOfName seen (xs ++ ys) = firstOfName seen xs ++ firstOfName seen' ys := by
  induction xs generalizing seen with
  | nil => exact ⟨seen, fun name => by simp, rfl⟩
  | cons x xs ih =>
    obtain ⟨name, value⟩ := x
    rw [List.cons_append, firstOfName_cons, firstOfName_cons]
    by_cases hseen : seen.contains name = true
    · obtain ⟨seen', hmem, heq⟩ := ih seen
      rw [if_pos hseen, if_pos hseen]
      refine ⟨seen', fun other => ?_, heq⟩
      have hname : name ∈ seen := List.contains_iff_mem.mp hseen
      rw [hmem, List.map_cons, List.mem_cons]
      constructor
      · rintro (h | h)
        · exact .inl (.inr h)
        · exact .inr h
      · rintro ((rfl | h) | h)
        · exact .inr hname
        · exact .inl h
        · exact .inr h
    · obtain ⟨seen', hmem, heq⟩ := ih (name :: seen)
      rw [if_neg hseen, if_neg hseen, heq]
      refine ⟨seen', fun other => ?_, rfl⟩
      rw [hmem, List.map_cons, List.mem_cons, List.mem_cons, ← or_assoc]
      exact or_congr_left or_comm

end

theorem nodup_provisions (raw : RawData) : (raw.provisions.map Prod.fst).Nodup :=
  nodup_firstOfName [] _

theorem mem_provisions {name : String} {p : Provision} :
    (name, p) ∈ raw.provisions ↔ raw.provision? name = some p := by
  rw [← NameMap.lookup_eq_some_iff_mem raw.nodup_provisions, lookup_provisions]

theorem mem_names_provisions {name : String} :
    name ∈ raw.provisions.map Prod.fst ↔ (raw.provision? name).isSome = true := by
  rw [← NameMap.lookup_isSome_iff_mem, lookup_provisions]

theorem names_resolveAll (raw : RawData) :
    raw.resolveAll.map Prod.fst = raw.provisions.map Prod.fst := by
  rw [resolveAll, List.map_map]
  rfl

/-! ## the order of the names -/

/-- the place of the first of some sub-tables that can decode a name -/
def placeAmong (raw : RawData) (sources : List (SourceId × SourceEntries)) (name : String) : Nat :=
  sources.findIdx fun entry => (raw.provisionIn? name entry).isSome

/-- a name comes before another one: from an earlier sub-table, or from the same one and smaller -/
def Precedes (raw : RawData) (a b : String) : Prop :=
  raw.placeAmong raw.table.sources a < raw.placeAmong raw.table.sources b
    ∨ raw.placeAmong raw.table.sources a = raw.placeAmong raw.table.sources b ∧ a < b

theorem placeAmong_cons_of_isSome {name : String} {entry : SourceId × SourceEntries}
    (h : (raw.provisionIn? name entry).isSome = true)
    (rest : List (SourceId × SourceEntries)) : raw.placeAmong (entry :: rest) name = 0 := by
  rw [placeAmong, List.findIdx_cons, h]
  rfl

theorem placeAmong_cons_of_isNone {name : String} {entry : SourceId × SourceEntries}
    (h : (raw.provisionIn? name entry).isSome = false)
    (rest : List (SourceId × SourceEntries)) :
    raw.placeAmong (entry :: rest) name = raw.placeAmong rest name + 1 := by
  rw [placeAmong, List.findIdx_cons, h]
  rfl

theorem mem_names_provisionsOf {name : String} {entry : SourceId × SourceEntries} :
    name ∈ (raw.provisionsOf entry).map Prod.fst ↔ (raw.provisionIn? name entry).isSome = true := by
  rw [← NameMap.lookup_isSome_iff_mem, lookup_provisionsOf]

theorem sorted_provisionsOf (raw : RawData) (entry : SourceId × SourceEntries) :
    (raw.provisionsOf entry).Pairwise fun a b => a.1 < b.1 := by
  rw [provisionsOf]
  cases raw.supplier? entry.1 with
  | none => exact List.Pairwise.nil
  | some supplier => exact List.pairwise_map.mpr entry.2.sorted

/-- The induction is on the sub-tables, with any names seen before: the first sub-table gives its
names in their order, and the names that later ones give are not in it. -/
theorem sorted_firstOfName_flatMap (raw : RawData) (sources : List (SourceId × SourceEntries))
    (seen : List String) :
    (firstOfName seen (sources.flatMap raw.provisionsOf)).Pairwise fun a b =>
      raw.placeAmong sources a.1 < raw.placeAmong sources b.1
        ∨ raw.placeAmong sources a.1 = raw.placeAmong sources b.1 ∧ a.1 < b.1 := by
  induction sources generalizing seen with
  | nil => exact List.Pairwise.nil
  | cons entry rest ih =>
    have hfirst : ∀ a ∈ firstOfName seen (raw.provisionsOf entry),
        raw.placeAmong (entry :: rest) a.1 = 0 := by
      intro a ha
      have hmem := List.mem_map_of_mem (f := Prod.fst) ((firstOfName_sublist _ _).mem ha)
      exact placeAmong_cons_of_isSome (mem_names_provisionsOf.mp hmem) rest
    obtain ⟨seen', hseen', heq⟩ := firstOfName_append seen (raw.provisionsOf entry)
      (rest.flatMap raw.provisionsOf)
    have hlater : ∀ a ∈ firstOfName seen' (rest.flatMap raw.provisionsOf),
        raw.placeAmong (entry :: rest) a.1 = raw.placeAmong rest a.1 + 1 := by
      intro a ha
      have hnot := (mem_names_firstOfName.mp (List.mem_map_of_mem (f := Prod.fst) ha)).1
      rw [hseen', mem_names_provisionsOf] at hnot
      have hnone : (raw.provisionIn? a.1 entry).isSome = false :=
        Bool.eq_false_iff.mpr fun h => hnot (.inl h)
      exact placeAmong_cons_of_isNone hnone rest
    rw [List.flatMap_cons, heq]
    refine List.pairwise_append.mpr ⟨?_, ?_, ?_⟩
    · have hsorted := (raw.sorted_provisionsOf entry).sublist (firstOfName_sublist seen _)
      refine hsorted.imp_of_mem fun {a b} ha hb hlt => .inr ⟨?_, hlt⟩
      rw [hfirst a ha, hfirst b hb]
    · refine (ih seen').imp_of_mem fun {a b} ha hb hab => ?_
      rw [hlater a ha, hlater b hb]
      exact hab.imp Nat.succ_lt_succ (And.imp_left (congrArg Nat.succ))
    · intro a ha b hb
      rw [hfirst a ha, hlater b hb]
      exact .inl (Nat.succ_pos _)

/-- all names are decoded in registration order and then name order -/
theorem sorted_provisions (raw : RawData) :
    (raw.provisions.map Prod.fst).Pairwise raw.Precedes :=
  List.pairwise_map.mpr (raw.sorted_firstOfName_flatMap raw.table.sources [])

/-! ## both ways agree -/

/-- **Resolving one name and resolving all agree.**  No name is listed twice; a name has no result
exactly if it is not listed, and otherwise the result is the one that is listed with it, decoded from
the first sub-table that can; and every name that is listed is known. -/
theorem resolve_agrees (raw : RawData) :
    (raw.resolveAll.map Prod.fst).Nodup
      ∧ (∀ name, raw.resolve? name = none ↔ name ∉ raw.resolveAll.map Prod.fst)
      ∧ (∀ name result, raw.resolve? name = some result ↔ (name, result) ∈ raw.resolveAll)
      ∧ (∀ name result, (name, result) ∈ raw.resolveAll
          ↔ ∃ p, raw.Serves name p ∧ result = p.supplier.decode p.index)
      ∧ ∀ name ∈ raw.resolveAll.map Prod.fst, name ∈ raw.knownNames := by
  have hnodup : (raw.resolveAll.map Prod.fst).Nodup := by
    rw [names_resolveAll]
    exact raw.nodup_provisions
  have hlisted : ∀ name result,
      raw.resolve? name = some result ↔ (name, result) ∈ raw.resolveAll := by
    intro name result
    rw [← lookup_resolveAll, NameMap.lookup_eq_some_iff_mem hnodup]
  refine ⟨hnodup, fun name => ?_, hlisted, fun name result => ?_, fun name hname => ?_⟩
  · rw [← lookup_resolveAll, ← NameMap.lookup_isSome_iff_mem, Bool.not_eq_true,
      Option.isSome_eq_false_iff, Option.isNone_iff_eq_none]
  · rw [← hlisted, resolve?, Option.map_eq_some_iff]
    simp only [provision?_eq_some_iff]
    constructor
    · rintro ⟨p, hp, rfl⟩
      exact ⟨p, hp, rfl⟩
    · rintro ⟨p, hp, rfl⟩
      exact ⟨p, hp, rfl⟩
  · rw [names_resolveAll, mem_names_provisions] at hname
    obtain ⟨p, hp⟩ := Option.isSome_iff_exists.mp hname
    exact mem_knownNames_of_provision? hp

end RawData

end EventMerge
