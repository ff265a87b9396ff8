import EventMerge.Proofs.Store.Freezing
import Mathlib.Data.List.Basic

/-!
# Which source a name is looked up to, over later registrations

A name is looked up to the first source that has it, in the order in which the sources came up.  A
source that comes up later takes no name from those before it, but runtime collections are registered
again and again under one id, and their later names are added at its old place.  So a look-up stays what
it was, unless the runtime collections came up before its source and take the name up themselves.

* `IdentityTable.Precedes`      one source is searched before another;
* `IdentityTable.lookup_merge`  a look-up after entries are merged;
* `Registration.runtimeNames`   the names of runtime collections that are registered;
* `Store.reported`              the collisions that a registration reports;
* `Store.Stands.lookup_registerOne`   a look-up after one more registration;
* `Store.Stands.lookup_registerAll`   and after any more;
* `Store.lookup_after_registrations`  when a look-up stays, and that collisions name what is looked up.
-/

namespace EventMerge

namespace IdentityTable

variable {source owner : SourceId} {entries : SourceEntries} {index : LocalIndex} {name : String}

/-! ## the order of the sources -/

def ids (t : IdentityTable) : List SourceId := t.sources.map Prod.fst

/-- the entries of one source are searched before those of the other -/
def Precedes (t : IdentityTable) (source owner : SourceId) : Prop :=
  t.ids.idxOf source < t.ids.idxOf owner

instance (t : IdentityTable) (source owner : SourceId) : Decidable (t.Precedes source owner) :=
  inferInstanceAs (Decidable (_ < _))

theorem not_precedes_self (t : IdentityTable) (source : SourceId) : ¬ t.Precedes source source :=
  Nat.lt_irrefl _

/-- what comes up later leaves the order of the sources that are there -/
theorem idxOf_append_lt_iff {ids : List SourceId} (howner : owner ∈ ids) (more : List SourceId) :
    (ids ++ more).idxOf source < (ids ++ more).idxOf owner ↔ ids.idxOf source < ids.idxOf owner := by
  rw [List.idxOf_append_of_mem howner]
  by_cases hsource : source ∈ ids
  · rw [List.idxOf_append_of_mem hsource]
  · have hplace : ids.idxOf owner < ids.length := List.idxOf_lt_length_of_mem howner
    rw [List.idxOf_append_of_notMem hsource, List.idxOf_of_notMem hsource]
    omega

theorem precedes_merge_iff {t : IdentityTable} (howner : owner ∈ t.ids) (other : SourceId)
    (entries : SourceEntries) :
    (t.merge other entries).Precedes source owner ↔ t.Precedes source owner := by
  have hids : (t.merge other entries).ids
      = if other ∈ t.ids then t.ids else t.ids ++ [other] := ids_mergeInto other entries t.sources
  rw [Precedes, Precedes, hids]
  by_cases hother : other ∈ t.ids
  · rw [if_pos hother]
  · rw [if_neg hother]
    exact idxOf_append_lt_iff howner [other]

/-! ## looking up -/

/-- what the entries of one source give for a name -/
def served (name : String) (entry : SourceId × SourceEntries) : Option (SourceId × LocalIndex) :=
  (entry.2.get? name).map fun index => (entry.1, index)

theorem findSome?_served_of_some {id : SourceId} {old : SourceEntries} {found : LocalIndex}
    (h : old.get? name = some found) (rest : List (SourceId × SourceEntries)) :
    ((id, old) :: rest).findSome? (served name) = some (id, found) := by
  rw [List.findSome?_cons, served, h]
  rfl

theorem findSome?_served_of_none {id : SourceId} {old : SourceEntries} (h : old.get? name = none)
    (rest : List (SourceId × SourceEntries)) :
    ((id, old) :: rest).findSome? (served name) = rest.findSome? (served name) := by
  rw [List.findSome?_cons, served, h]
  rfl

/-- what serves a name is the entries of one source -/
theorem served_of_lookup {t : IdentityTable} (h : t.lookup name = some (owner, index)) :
    ∃ entries, (owner, entries) ∈ t.sources ∧ entries.get? name = some index := by
  obtain ⟨⟨id, entries⟩, hentry, hserved⟩ := List.exists_of_findSome?_eq_some h
  obtain ⟨found, hfound, hsame⟩ := Option.map_eq_some_iff.mp hserved
  cases hsame
  exact ⟨entries, hentry, hfound⟩

theorem mem_ids_of_lookup {t : IdentityTable} (h : t.lookup name = some (owner, index)) :
    owner ∈ t.ids := by
  obtain ⟨entries, hentry, -⟩ := served_of_lookup h
  exact List.mem_map_of_mem hentry

/-- an id that is listed once has the entries that it is listed with -/
theorem entriesOf?_of_mem {t : IdentityTable} (hids : t.ids.Nodup)
    (h : (owner, entries) ∈ t.sources) : t.entriesOf? owner = some entries := by
  obtain ⟨sources⟩ := t
  replace h : (owner, entries) ∈ sources := h
  show (sources.find? fun entry => entry.1 = owner).map Prod.snd = some entries
  induction sources with
  | nil => cases h
  | cons first rest ih =>
    obtain ⟨hid, hrest⟩ := List.nodup_cons.mp hids
    rcases List.mem_cons.mp h with rfl | h
    · rw [List.find?_cons_of_pos (by simp)]
      rfl
    · have hne : first.1 ≠ owner := by
        intro hsame
        exact hid (hsame ▸ List.mem_map_of_mem h)
      rw [List.find?_cons_of_neg (by simpa using hne)]
      exact ih hrest h

/-- a source that is searched before the one of a look-up does not have the name -/
theorem get?_of_precedes {t : IdentityTable} (h : t.lookup name = some (owner, index))
    (hbefore : t.Precedes source owner) (hentries : t.entriesOf? source = some entries) :
    entries.get? name = none := by
  obtain ⟨sources⟩ := t
  replace h : sources.findSome? (served name) = some (owner, index) := h
  replace hbefore : (sources.map Prod.fst).idxOf source < (sources.map Prod.fst).idxOf owner := hbefore
  replace hentries : (sources.find? fun entry => entry.1 = source).map Prod.snd = some entries := hentries
  induction sources with
  | nil => cases h
  | cons first rest ih =>
    obtain ⟨id, old⟩ := first
    rw [List.map_cons] at hbefore
    have howner : id ≠ owner := by
      intro hsame
      rw [hsame, List.idxOf_cons_self] at hbefore
      exact Nat.not_lt_zero _ hbefore
    cases hold : old.get? name with
    | some found =>
      rw [findSome?_served_of_some hold] at h
      exact absurd (congrArg Prod.fst (Option.some.inj h)) howner
    | none =>
      rw [findSome?_served_of_none hold] at h
      by_cases hid : id = source
      · rw [List.find?_cons_of_pos (by simpa using hid)] at hentries
        rw [← Option.some.inj hentries]
        exact hold
      · rw [List.find?_cons_of_neg (by simpa using hid)] at hentries
        rw [List.idxOf_cons_ne _ hid, List.idxOf_cons_ne _ howner] at hbefore
        exact ih h (Nat.lt_of_succ_lt_succ hbefore) hentries

/-- **Entries that are merged leave a look-up as it was, unless they have the name and are searched
before its source**, which then serves it no more. -/
theorem lookup_merge {t : IdentityTable} (hids : t.ids.Nodup)
    (h : t.lookup name = some (owner, index)) (hown : source = owner → entries.get? name = none) :
    (t.merge source entries).lookup name
      = if t.Precedes source owner then
          ((entries.get? name).map fun found => (source, found)).or (some (owner, index))
        else some (owner, index) := by
  obtain ⟨sources⟩ := t
  replace h : sources.findSome? (served name) = some (owner, index) := h
  show (mergeInto source entries sources).findSome? (served name)
    = if (sources.map Prod.fst).idxOf source < (sources.map Prod.fst).idxOf owner then _ else _
  induction sources with
  | nil => cases h
  | cons first rest ih =>
    obtain ⟨id, old⟩ := first
    obtain ⟨hid, hrest⟩ := List.nodup_cons.mp hids
    rw [mergeInto, List.map_cons]
    cases hold : old.get? name with
    | some found =>
      -- the first source serves the name, and nothing is searched before it
      rw [findSome?_served_of_some hold] at h
      cases h
      rw [List.idxOf_cons_self, if_neg (Nat.not_lt_zero _)]
      by_cases hsame : owner = source
      · have hkept : (old.union entries).get? name = some index := by
          rw [NameMap.get?_union, hown hsame.symm, hold]
          rfl
        rw [if_pos hsame, findSome?_served_of_some hkept]
      · rw [if_neg hsame, findSome?_served_of_some hold]
    | none =>
      rw [findSome?_served_of_none hold] at h
      have hne : id ≠ owner := by
        intro hsame
        exact hid (hsame ▸ mem_ids_of_lookup (t := ⟨rest⟩) h)
      by_cases hsame : id = source
      · rw [if_pos hsame, ← hsame, List.idxOf_cons_self, List.idxOf_cons_ne _ hne,
          if_pos (Nat.succ_pos _)]
        cases hname : entries.get? name with
        | some found =>
          have hadded : (old.union entries).get? name = some found := by
            rw [NameMap.get?_union, hname]
            rfl
          rw [findSome?_served_of_some hadded]
          rfl
        | none =>
          have hlacks : (old.union entries).get? name = none := by
            rw [NameMap.get?_union, hname, hold]
            rfl
          rw [findSome?_served_of_none hlacks, h]
          rfl
      · rw [if_neg hsame, findSome?_served_of_none hold, ih hrest h, List.idxOf_cons_ne _ hsame,
          List.idxOf_cons_ne _ hne]
        simp only [Nat.succ_lt_succ_iff]

/-- the other source that has a name is the one it is looked up to, if the source itself lacks it -/
theorem lookup_of_rival? {t : IdentityTable} {existing : SourceId}
    (hlacks : ∀ entry ∈ t.sources, entry.1 = source → entry.2.get? name = none)
    (h : t.rival? source name = some existing) :
    ∃ index, t.lookup name = some (existing, index) := by
  obtain ⟨sources⟩ := t
  replace h : (sources.find? fun entry => entry.1 ≠ source && entry.2.contains name).map Prod.fst
    = some existing := h
  show ∃ index, sources.findSome? (served name) = some (existing, index)
  induction sources with
  | nil => cases h
  | cons first rest ih =>
    obtain ⟨id, old⟩ := first
    cases hold : old.get? name with
    | some found =>
      have hother : id ≠ source := by
        intro hsame
        rw [hlacks (id, old) List.mem_cons_self hsame] at hold
        cases hold
      have hcontains : old.contains name = true := NameMap.contains_eq_true_iff.mpr ⟨found, hold⟩
      rw [List.find?_cons_of_pos (by simp [hother, hcontains])] at h
      rw [findSome?_served_of_some hold, ← Option.some.inj h]
      exact ⟨found, rfl⟩
    | none =>
      have hcontains : old.contains name = false := NameMap.contains_eq_false_iff.mpr hold
      rw [List.find?_cons_of_neg (by simp [hcontains])] at h
      rw [findSome?_served_of_none hold]
      exact ih (fun entry hentry => hlacks entry (List.mem_cons_of_mem _ hentry)) h

theorem ne_of_rival? {t : IdentityTable} {existing : SourceId}
    (h : t.rival? source name = some existing) : existing ≠ source := by
  obtain ⟨entry, hfound, rfl⟩ := Option.map_eq_some_iff.mp h
  have hother := List.find?_some hfound
  rw [Bool.and_eq_true, decide_eq_true_eq] at hother
  exact hother.1

theorem mem_collisions {t : IdentityTable} {collision : Collision} :
    collision ∈ t.collisions source entries
      ↔ entries.contains collision.name = true ∧ collision.incoming = source
        ∧ t.rival? source collision.name = some collision.existing := by
  rw [collisions, List.mem_filterMap]
  constructor
  · rintro ⟨name, hname, hrival⟩
    obtain ⟨existing, hexisting, rfl⟩ := Option.map_eq_some_iff.mp hrival
    exact ⟨NameMap.contains_iff_mem_keys.mpr hname, rfl, hexisting⟩
  · rintro ⟨hname, rfl, hrival⟩
    refine ⟨collision.name, NameMap.contains_iff_mem_keys.mp hname, ?_⟩
    rw [hrival]
    rfl

end IdentityTable

/-! ## registrations -/

namespace Registration

/-- the names of runtime collections -/
def runtimeNames : Registration → List String
  | source _ => []
  | runtime names => names

end Registration

namespace Store

/-- runtime names that are numbered are new among the runtime names, and no others are -/
theorem numberNames_new {known added added' : SourceEntries} {names : List String}
    (h : numberNames known names added = .ok added') {name : String}
    (hname : added'.contains name = true) :
    added.contains name = true ∨ name ∈ names ∧ known.contains name = false := by
  induction names generalizing added with
  | nil =>
    cases h
    exact .inl hname
  | cons first rest ih =>
    rw [numberNames] at h
    split at h
    · rcases ih h with hbefore | ⟨hmem, hunknown⟩
      · exact .inl hbefore
      · exact .inr ⟨List.mem_cons_of_mem _ hmem, hunknown⟩
    · rename_i hfresh
      split at h
      · cases h
      · rcases ih h with hbefore | ⟨hmem, hunknown⟩
        · rw [NameMap.contains_insert, Bool.or_eq_true, decide_eq_true_eq] at hbefore
          rcases hbefore with hfirst | hbefore
          · rw [Bool.or_eq_true, not_or, Bool.not_eq_true] at hfresh
            exact .inr ⟨hfirst ▸ List.mem_cons_self, hfirst ▸ hfresh.1⟩
          · exact .inl hbefore
        · exact .inr ⟨List.mem_cons_of_mem _ hmem, hunknown⟩

/-- the collisions that a registration reports -/
def reported (s : Store) : Registration → List Collision
  | .source feed =>
    match SourceId.ofPosition s.readers.length with
    | .ok source => s.table.collisions source feed.entries
    | .error _ => []
  | .runtime names =>
    match numberNames s.runtimeEntries names .empty with
    | .ok added => s.table.collisions .runtime added
    | .error _ => []

theorem runtimeEntries_of_precedes {s : Store} {name : String} {owner : SourceId}
    {index : LocalIndex} (h : s.table.lookup name = some (owner, index))
    (hbefore : s.table.Precedes .runtime owner) : s.runtimeEntries.contains name = false := by
  rw [runtimeEntries]
  cases hentries : s.table.entriesOf? .runtime with
  | none => rfl
  | some entries =>
    exact NameMap.contains_eq_false_iff.mpr (IdentityTable.get?_of_precedes h hbefore hentries)

namespace Stands

variable {s s' : Store} {feeds : List Feed} {name : String} {owner : SourceId} {index : LocalIndex}

theorem not_mem_ids (h : s.Stands feeds) {source : SourceId}
    (hposition : SourceId.ofPosition s.readers.length = .ok source) : source ∉ s.table.ids := by
  intro hmem
  obtain ⟨entry, hentry, hid⟩ := List.mem_map.mp hmem
  have hread : entry ∈ s.table.readSources := by
    refine List.mem_filter.mpr ⟨hentry, decide_eq_true ?_⟩
    rw [hid]
    exact SourceId.ne_runtime_of_ofPosition hposition
  exact h.ne_of_ofPosition hposition entry hread hid

theorem registerOne (h : s.Stands feeds) {registration : Registration}
    (hs : s.registerOne registration = (.ok (), s')) :
    s'.Stands (feeds ++ registration.feed?.toList) := by
  cases registration with
  | source feed => exact h.source hs
  | runtime names =>
    have hsame : feeds ++ (Registration.runtime names).feed?.toList = feeds := List.append_nil feeds
    rw [hsame]
    exact h.runtime hs

theorem registerAll (h : s.Stands feeds) {registrations : List Registration}
    (hs : Store.registerAll registrations s = (.ok (), s')) : ∃ feeds', s'.Stands feeds' := by
  induction registrations generalizing s feeds with
  | nil =>
    cases hs
    exact ⟨feeds, h⟩
  | cons registration rest ih =>
    rw [Store.registerAll] at hs
    split at hs
    · rename_i s₁ hfirst
      exact ih (h.registerOne hfirst) hs
    · cases hs

/-! ## one more registration -/

theorem precedes_registerOne {registration : Registration}
    (hs : s.registerOne registration = (.ok (), s')) (howner : owner ∈ s.table.ids) :
    s'.table.Precedes .runtime owner ↔ s.table.Precedes .runtime owner := by
  cases registration with
  | source feed =>
    obtain ⟨source, calls, hregister⟩ := registerOne_source hs
    obtain ⟨-, -, -, -, htable, -⟩ := register_ok hregister
    rw [htable]
    exact IdentityTable.precedes_merge_iff howner source feed.entries
  | runtime names =>
    obtain ⟨added, -, ⟨-, rfl⟩ | ⟨table, collisions, hinsert, rfl⟩⟩ := registerRuntime_inv hs
    · exact Iff.rfl
    · show table.Precedes .runtime owner ↔ s.table.Precedes .runtime owner
      rw [IdentityTable.insert_ok hinsert]
      exact IdentityTable.precedes_merge_iff howner .runtime added

/-- a source that is registered comes last -/
theorem lookup_source (h : s.Stands feeds) {feed : Feed}
    (hs : s.registerOne (.source feed) = (.ok (), s'))
    (hlookup : s.table.lookup name = some (owner, index)) :
    s'.table.lookup name = some (owner, index) := by
  obtain ⟨source, calls, hregister⟩ := registerOne_source hs
  obtain ⟨hposition, table, collisions, hinsert, rfl⟩ := register_inv hregister
  have hnew := h.not_mem_ids hposition
  have howner := IdentityTable.mem_ids_of_lookup hlookup
  have hlast : ¬ s.table.Precedes source owner := by
    rw [IdentityTable.Precedes, List.idxOf_of_notMem hnew]
    exact Nat.not_lt.mpr (Nat.le_of_lt (List.idxOf_lt_length_of_mem howner))
  show table.lookup name = some (owner, index)
  rw [IdentityTable.insert_ok hinsert, IdentityTable.lookup_merge h.ids hlookup, if_neg hlast]
  intro hsame
  exact absurd (hsame ▸ howner) hnew

/-- runtime names are added where the runtime collections came up first -/
theorem lookup_runtime (h : s.Stands feeds) {names : List String}
    (hs : s.registerOne (.runtime names) = (.ok (), s'))
    (hlookup : s.table.lookup name = some (owner, index)) :
    ((s.table.Precedes .runtime owner ∧ name ∈ names) →
        ∃ place, s'.table.lookup name = some (.runtime, place))
      ∧ (¬ (s.table.Precedes .runtime owner ∧ name ∈ names) →
        s'.table.lookup name = some (owner, index)) := by
  obtain ⟨added, hadded, hs'⟩ := registerRuntime_inv hs
  obtain ⟨-, hnames⟩ := numberNames_ok hadded
  have hnew : ∀ name, added.contains name = true →
      name ∈ names ∧ s.runtimeEntries.contains name = false := by
    intro name hname
    exact (numberNames_new hadded hname).resolve_left nofun
  -- what the runtime collections do not have yet is numbered
  have htaken : s.table.Precedes .runtime owner ∧ name ∈ names → added.contains name = true := by
    intro hboth
    have hlacks := runtimeEntries_of_precedes hlookup hboth.1
    exact (hnames name hboth.2).resolve_left (by rw [hlacks]; exact Bool.false_ne_true)
  rcases hs' with ⟨hempty, rfl⟩ | ⟨table, collisions, hinsert, rfl⟩
  · refine ⟨?_, fun _ => hlookup⟩
    intro hboth
    have hname := htaken hboth
    rw [NameMap.contains, NameMap.get?, List.isEmpty_iff.mp hempty] at hname
    cases hname
  · have hown : SourceId.runtime = owner → added.get? name = none := by
      intro hsame
      obtain ⟨entries, hentry, hhas⟩ := IdentityTable.served_of_lookup hlookup
      have hentries := IdentityTable.entriesOf?_of_mem h.ids hentry
      refine NameMap.contains_eq_false_iff.mp (Bool.eq_false_iff.mpr ?_)
      intro hname
      have hlacks := (hnew name hname).2
      rw [runtimeEntries, hsame, hentries] at hlacks
      have hnone := NameMap.contains_eq_false_iff.mp hlacks
      rw [Option.getD_some, hhas] at hnone
      cases hnone
    have hmerge := IdentityTable.lookup_merge h.ids hlookup hown
    rw [← IdentityTable.insert_ok hinsert] at hmerge
    constructor
    · intro hboth
      obtain ⟨place, hplace⟩ := NameMap.contains_eq_true_iff.mp (htaken hboth)
      rw [if_pos hboth.1, hplace] at hmerge
      exact ⟨place, hmerge⟩
    · intro hnot
      by_cases hbefore : s.table.Precedes .runtime owner
      · have hnone : added.get? name = none := by
          refine NameMap.contains_eq_false_iff.mp (Bool.eq_false_iff.mpr ?_)
          intro hname
          exact hnot ⟨hbefore, (hnew name hname).1⟩
        rw [if_pos hbefore, hnone] at hmerge
        exact hmerge
      · rw [if_neg hbefore] at hmerge
        exact hmerge

theorem lookup_registerOne (h : s.Stands feeds) {registration : Registration}
    (hs : s.registerOne registration = (.ok (), s'))
    (hlookup : s.table.lookup name = some (owner, index)) :
    ((s.table.Precedes .runtime owner ∧ name ∈ registration.runtimeNames) →
        ∃ place, s'.table.lookup name = some (.runtime, place))
      ∧ (¬ (s.table.Precedes .runtime owner ∧ name ∈ registration.runtimeNames) →
        s'.table.lookup name = some (owner, index)) := by
  cases registration with
  | source feed =>
    refine ⟨?_, fun _ => h.lookup_source hs hlookup⟩
    intro hboth
    cases hboth.2
  | runtime names => exact h.lookup_runtime hs hlookup

/-! ## more registrations -/

/-- **A look-up stays until runtime names overtake it**: over any registrations it is what it was, or,
if the runtime collections came up before its source and the name is among those that are registered,
it is one of a runtime collection. -/
theorem lookup_registerAll (h : s.Stands feeds) {later : List Registration}
    (hs : Store.registerAll later s = (.ok (), s'))
    (hlookup : s.table.lookup name = some (owner, index)) :
    ((s.table.Precedes .runtime owner ∧ name ∈ later.flatMap Registration.runtimeNames) →
        ∃ place, s'.table.lookup name = some (.runtime, place))
      ∧ (¬ (s.table.Precedes .runtime owner ∧ name ∈ later.flatMap Registration.runtimeNames) →
        s'.table.lookup name = some (owner, index)) := by
  induction later generalizing s feeds owner index with
  | nil =>
    cases hs
    refine ⟨?_, fun _ => hlookup⟩
    intro hboth
    cases hboth.2
  | cons registration rest ih =>
    rw [Store.registerAll] at hs
    rw [List.flatMap_cons, List.mem_append]
    split at hs
    · rename_i s₁ hfirst
      have hnext := h.registerOne hfirst
      have horder := precedes_registerOne hfirst (IdentityTable.mem_ids_of_lookup hlookup)
      obtain ⟨hovertaken, hkept⟩ := h.lookup_registerOne hfirst hlookup
      by_cases hname : s.table.Precedes .runtime owner ∧ name ∈ registration.runtimeNames
      · -- from here on it is a runtime collection, which nothing overtakes
        obtain ⟨place, hplace⟩ := hovertaken hname
        have hrest := (ih hnext hs hplace).2
        refine ⟨fun _ => ⟨place, hrest ?_⟩, ?_⟩
        · intro hboth
          exact IdentityTable.not_precedes_self _ _ hboth.1
        · intro hnot
          exact absurd ⟨hname.1, .inl hname.2⟩ hnot
      · obtain ⟨hrest, hrest'⟩ := ih hnext hs (hkept hname)
        rw [horder] at hrest hrest'
        constructor
        · rintro ⟨hbefore, hmem⟩
          refine hrest ⟨hbefore, hmem.resolve_left ?_⟩
          intro hfirst
          exact hname ⟨hbefore, hfirst⟩
        · intro hnot
          refine hrest' ?_
          intro hboth
          exact hnot ⟨hboth.1, .inr hboth.2⟩
    · cases hs

/-- **A collision names the source that the name is looked up to.** -/
theorem lookup_of_reported (h : s.Stands feeds) {registration : Registration} {collision : Collision}
    (hreported : collision ∈ s.reported registration) :
    collision.existing ≠ collision.incoming
      ∧ ∃ index, s.table.lookup collision.name = some (collision.existing, index) := by
  -- what comes in is of a new source, or lacks what the runtime collections have
  have hsource : ∃ source entries, collision ∈ s.table.collisions source entries
      ∧ ∀ entry ∈ s.table.sources, entry.1 = source → entry.2.get? collision.name = none := by
    cases registration with
    | source feed =>
      rw [reported] at hreported
      split at hreported
      · rename_i source hposition
        refine ⟨source, feed.entries, hreported, ?_⟩
        intro entry hentry hsame
        exact absurd (hsame ▸ List.mem_map_of_mem hentry) (h.not_mem_ids hposition)
      · cases hreported
    | runtime names =>
      rw [reported] at hreported
      split at hreported
      · rename_i added hadded
        refine ⟨.runtime, added, hreported, ?_⟩
        have hname := (IdentityTable.mem_collisions.mp hreported).1
        have hlacks := ((numberNames_new hadded hname).resolve_left nofun).2
        rintro ⟨id, entries⟩ hentry rfl
        rw [runtimeEntries, IdentityTable.entriesOf?_of_mem h.ids hentry] at hlacks
        exact NameMap.contains_eq_false_iff.mp hlacks
      · cases hreported
  obtain ⟨source, entries, hcollision, hlacks⟩ := hsource
  obtain ⟨-, hincoming, hrival⟩ := IdentityTable.mem_collisions.mp hcollision
  refine ⟨?_, IdentityTable.lookup_of_rival? hlacks hrival⟩
  rw [hincoming]
  exact IdentityTable.ne_of_rival? hrival

end Stands

/-- **Who serves a name is settled when it comes up, unless runtime collections came up before its
source.**  After any registrations, over any others that are accepted: the look-up of a name stays what
it is, source and index, if and only if the runtime collections did not come up before its source or the
name is not among those that are registered then; otherwise it becomes one of a runtime collection.  And
a collision that a registration reports names the source that the name is looked up to before. -/
theorem lookup_after_registrations {config : StoreConfig} {earlier later : List Registration}
    {s s' : Store} (hs : registerAll earlier (new config) = (.ok (), s))
    (hs' : registerAll later s = (.ok (), s')) :
    (∀ name source index, s.table.lookup name = some (source, index) →
        (s'.table.lookup name = some (source, index)
            ↔ ¬ (s.table.Precedes .runtime source
              ∧ name ∈ later.flatMap Registration.runtimeNames))
          ∧ (s.table.Precedes .runtime source ∧ name ∈ later.flatMap Registration.runtimeNames →
              ∃ place, s'.table.lookup name = some (.runtime, place)))
      ∧ ∀ registration collision, collision ∈ s.reported registration →
          collision.existing ≠ collision.incoming
            ∧ ∃ index, s.table.lookup collision.name = some (collision.existing, index) := by
  obtain ⟨feeds, hstands⟩ := (stands_new config).registerAll hs
  refine ⟨?_, fun registration collision => hstands.lookup_of_reported⟩
  intro name source index hlookup
  obtain ⟨hovertaken, hkept⟩ := hstands.lookup_registerAll hs' hlookup
  refine ⟨⟨?_, hkept⟩, hovertaken⟩
  intro hsame hboth
  obtain ⟨place, hplace⟩ := hovertaken hboth
  rw [hsame] at hplace
  have hruntime : source = .runtime := congrArg Prod.fst (Option.some.inj hplace)
  rw [hruntime] at hboth
  exact IdentityTable.not_precedes_self _ _ hboth.1

/-- runtime collections, and then a source -/
def namedFirst : List Registration := [.runtime ["made"], .source (dryFeed "first" "hits")]

def namedLater : List Registration :=
  [.source (dryFeed "second" "hits"), .runtime ["made", "later"]]

theorem lookup_after_registrations_namedLater :
    ∃ s s', registerAll namedFirst (new {}) = (.ok (), s) ∧ registerAll namedLater s = (.ok (), s')
      ∧ s.table.Precedes .runtime ⟨0⟩
      ∧ s'.table.lookup "hits" = some (⟨0⟩, ⟨0⟩) ∧ s'.table.lookup "made" = some (.runtime, ⟨0⟩) := by
  obtain ⟨hlookups, -⟩ := @lookup_after_registrations {} namedFirst namedLater _ _ rfl rfl
  refine ⟨_, _, rfl, rfl, by decide +kernel, ?_, ?_⟩
  · exact (hlookups "hits" ⟨0⟩ ⟨0⟩ (by decide +kernel)).1.mpr (by decide +kernel)
  · exact (hlookups "made" .runtime ⟨0⟩ (by decide +kernel)).1.mpr (by decide +kernel)

/-- runtime collections that came up before a source take a name of it up: the collision is reported
with the source as the existing one, and the name is looked up to the runtime collections -/
theorem lookup_overtaken :
    ∃ s s', registerAll namedFirst (new { collisionPolicy := .firstWins }) = (.ok (), s)
      ∧ registerAll [.runtime ["hits"]] s = (.ok (), s')
      ∧ s.table.lookup "hits" = some (⟨0⟩, ⟨0⟩)
      ∧ s.reported (.runtime ["hits"]) = [⟨"hits", ⟨0⟩, .runtime⟩]
      ∧ s'.table.lookup "hits" = some (.runtime, ⟨1⟩) := by
  refine ⟨_, _, rfl, rfl, ?_, ?_, ?_⟩
  · decide +kernel
  · decide +kernel
  · decide +kernel

end Store

end EventMerge
