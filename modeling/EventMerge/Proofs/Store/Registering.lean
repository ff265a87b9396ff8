import EventMerge.Proofs.Names
import EventMerge.Store.Basic

/-!
# The names of a store

* `IdentityTable.mem_names`, `IdentityTable.contains_iff_mem_names`  the names of an identity table;
* `IdentityTable.mem_names_merge`  the names after a source is added;
* `Store.register_inv`, `Store.registerRuntime_inv`  what is changed by a registration that is
                               accepted;
* `Store.register_error`, `Store.registerRuntime_error`  one that is refused changes nothing;
* `Store.register_ok`          a feed that is accepted;
* `Store.registerRuntime_ok`   after runtime names are registered, all of them are in the table.
-/

namespace EventMerge

namespace NameMap

variable {α : Type}

theorem contains_union (m n : NameMap α) (name : String) :
    (m.union n).contains name = (m.contains name || n.contains name) := by
  rw [Bool.eq_iff_iff, union, contains_foldl_insert, Bool.or_eq_true,
    contains_iff_mem_keys (m := n)]
  rfl

end NameMap

namespace IdentityTable

theorem mem_names {t : IdentityTable} {name : String} :
    name ∈ t.names ↔ ∃ entry ∈ t.sources, entry.2.contains name = true := by
  rw [names, NameMap.mem_keys_ofList, List.map_flatMap, List.mem_flatMap]
  refine exists_congr fun entry => and_congr_right fun _ => ?_
  rw [List.map_map, NameMap.contains_iff_mem_keys]
  simp

theorem contains_iff_mem_names {t : IdentityTable} {name : String} :
    t.contains name = true ↔ name ∈ t.names := by
  rw [contains, lookup, mem_names, List.findSome?_isSome_iff]
  refine exists_congr fun entry => and_congr_right fun _ => ?_
  rw [Option.isSome_map, NameMap.contains]

theorem mem_mergeInto {source : SourceId} {entries : SourceEntries}
    {sources : List (SourceId × SourceEntries)} {name : String} :
    (∃ entry ∈ mergeInto source entries sources, entry.2.contains name = true)
      ↔ (∃ entry ∈ sources, entry.2.contains name = true) ∨ entries.contains name = true := by
  induction sources with
  | nil => simp [mergeInto_nil]
  | cons first rest ih =>
    obtain ⟨id, old⟩ := first
    rw [mergeInto]
    split
    · simp only [List.mem_cons, exists_eq_or_imp, NameMap.contains_union, Bool.or_eq_true]
      exact or_right_comm
    · simp only [List.mem_cons, exists_eq_or_imp]
      rw [ih, or_assoc]

theorem mem_names_merge {t : IdentityTable} {source : SourceId} {entries : SourceEntries}
    {name : String} :
    name ∈ (t.merge source entries).names ↔ name ∈ t.names ∨ entries.contains name = true := by
  rw [mem_names, mem_names]
  exact mem_mergeInto

section

variable {t t' : IdentityTable} {source : SourceId} {entries : SourceEntries}
  {policy : CollisionPolicy}

theorem insert_ok {collisions : List Collision}
    (h : t.insert source entries policy = (.ok collisions, t')) : t' = t.merge source entries := by
  unfold insert at h
  dsimp only at h
  split at h
  · cases h
  · cases h
    rfl

/-- entries that are refused leave the table as it was -/
theorem insert_error {e : StoreError} (h : t.insert source entries policy = (.error e, t')) :
    t' = t := by
  unfold insert at h
  dsimp only at h
  split at h
  · cases h
    rfl
  · cases h

end

theorem mem_names_of_entriesOf? {t : IdentityTable} {source : SourceId} {entries : SourceEntries}
    (h : t.entriesOf? source = some entries) {name : String} (hname : entries.contains name = true) :
    name ∈ t.names := by
  obtain ⟨entry, hentry, rfl⟩ := Option.map_eq_some_iff.mp h
  exact mem_names.mpr ⟨entry, List.mem_of_find?_eq_some hentry, hname⟩

end IdentityTable

namespace Store

/-! ## feeds -/

/-- a feed that is accepted comes last among the readers, under the next position, and the table takes
its names -/
theorem register_inv {s s' : Store} {feed : Feed} {source : SourceId} {calls : List Call}
    (h : s.register feed = (.ok source, s', calls)) :
    SourceId.ofPosition s.readers.length = .ok source
      ∧ ∃ table collisions,
        s.table.insert source feed.entries s.config.collisionPolicy = (.ok collisions, table)
          ∧ s' = { s with
              table := table
              readers := s.readers ++ [⟨source, feed, feed.decoder⟩] } := by
  rw [register] at h
  split at h
  · cases h
  · split at h
    · cases h
    · rename_i hposition
      split at h
      · cases h
      · rename_i collisions table hinsert
        cases h
        exact ⟨hposition, table, collisions, hinsert, rfl⟩

/-- a feed that is refused leaves the store as it was -/
theorem register_error {s s' : Store} {feed : Feed} {e : StoreError} {calls : List Call}
    (h : s.register feed = (.error e, s', calls)) : s' = s := by
  rw [register] at h
  split at h
  · cases h
    rfl
  · split at h
    · cases h
      rfl
    · split at h
      · rename_i table hinsert
        cases h
        rw [IdentityTable.insert_error hinsert]
      · cases h

theorem register_ok {s s' : Store} {feed : Feed} {source : SourceId} {calls : List Call}
    (h : s.register feed = (.ok source, s', calls)) :
    s'.readers = s.readers ++ [⟨source, feed, feed.decoder⟩] ∧ s'.exhausted = s.exhausted
      ∧ s'.eventsRead = s.eventsRead ∧ s'.config = s.config
      ∧ s'.table = s.table.merge source feed.entries
      ∧ SourceId.ofPosition s.readers.length = .ok source := by
  obtain ⟨hposition, table, collisions, hinsert, rfl⟩ := register_inv h
  exact ⟨rfl, rfl, rfl, rfl, IdentityTable.insert_ok hinsert, hposition⟩

/-! ## names of collections to be made -/

theorem numberNames_ok {known added added' : SourceEntries} {names : List String}
    (h : numberNames known names added = .ok added') :
    (∀ name, added.contains name = true → added'.contains name = true)
      ∧ ∀ name ∈ names, known.contains name = true ∨ added'.contains name = true := by
  induction names generalizing added with
  | nil =>
    cases h
    exact ⟨fun _ => id, fun _ hname => nomatch hname⟩
  | cons first rest ih =>
    rw [numberNames] at h
    split at h
    · rename_i htaken
      obtain ⟨hkept, hrest⟩ := ih h
      refine ⟨hkept, fun name hname => ?_⟩
      rcases List.mem_cons.mp hname with rfl | hname
      · exact ((Bool.or_eq_true _ _).mp htaken).imp_right (hkept _)
      · exact hrest name hname
    · split at h
      · cases h
      · obtain ⟨hkept, hrest⟩ := ih h
        have hinsert := fun name value => NameMap.contains_insert added first name value
        refine ⟨fun name hname => hkept name ?_, fun name hname => ?_⟩
        · rw [hinsert, hname, Bool.or_true]
        · rcases List.mem_cons.mp hname with rfl | hname
          · exact .inr (hkept name (by rw [hinsert, decide_eq_true rfl, Bool.true_or]))
          · exact hrest name hname

/-- runtime names that are accepted change nothing if there is none to be added, and otherwise only the
table, which takes those that were numbered -/
theorem registerRuntime_inv {s s' : Store} {names : List String}
    (h : s.registerRuntime names = (.ok (), s')) :
    ∃ added, numberNames s.runtimeEntries names .empty = .ok added
      ∧ (added.isEmpty = true ∧ s' = s
        ∨ ∃ table collisions,
          s.table.insert .runtime added s.config.collisionPolicy = (.ok collisions, table)
            ∧ s' = { s with table := table }) := by
  rw [registerRuntime] at h
  split at h
  · cases h
  · split at h
    · cases h
    · rename_i added hadded
      refine ⟨added, hadded, ?_⟩
      split at h
      · rename_i hempty
        cases h
        exact .inl ⟨hempty, rfl⟩
      · split at h
        · cases h
        · rename_i collisions table hinsert
          cases h
          exact .inr ⟨table, collisions, hinsert, rfl⟩

/-- runtime names that are refused leave the store as it was -/
theorem registerRuntime_error {s s' : Store} {names : List String} {e : StoreError}
    (h : s.registerRuntime names = (.error e, s')) : s' = s := by
  rw [registerRuntime] at h
  split at h
  · cases h
    rfl
  · split at h
    · cases h
      rfl
    · split at h
      · cases h
      · split at h
        · rename_i table hinsert
          cases h
          rw [IdentityTable.insert_error hinsert]
        · cases h

theorem registerRuntime_ok {s s' : Store} {names : List String}
    (h : s.registerRuntime names = (.ok (), s')) :
    s'.readers = s.readers ∧ s'.exhausted = s.exhausted ∧ s'.eventsRead = s.eventsRead
      ∧ s'.config = s.config ∧ ∀ name ∈ names, name ∈ s'.table.names := by
  obtain ⟨added, hadded, hs'⟩ := registerRuntime_inv h
  obtain ⟨-, hnames⟩ := numberNames_ok hadded
  have hknown : ∀ name, s.runtimeEntries.contains name = true → name ∈ s.table.names := by
    intro name hname
    rw [runtimeEntries] at hname
    cases hentries : s.table.entriesOf? SourceId.runtime with
    | none => rw [hentries] at hname; cases hname
    | some entries =>
      rw [hentries] at hname
      exact IdentityTable.mem_names_of_entriesOf? hentries hname
  rcases hs' with ⟨hempty, rfl⟩ | ⟨table, collisions, hinsert, rfl⟩
  · refine ⟨rfl, rfl, rfl, rfl, fun name hname => ?_⟩
    rcases hnames name hname with hname | hname
    · exact hknown name hname
    · rw [NameMap.contains, NameMap.get?, List.isEmpty_iff.mp hempty] at hname
      cases hname
  · refine ⟨rfl, rfl, rfl, rfl, fun name hname => ?_⟩
    rw [IdentityTable.insert_ok hinsert]
    exact IdentityTable.mem_names_merge.mpr ((hnames name hname).imp_left (hknown name))

end Store

end EventMerge
