import EventMerge.Proofs.Store.Lookups

/-!
# Identity tables after any insertions

Whatever is inserted into an empty table, each source is listed once, and a name is served by the first
source that has it.  An insertion collides where another source has one of its names.  It is refused for
that, and then the table stays; or else nothing changes but the entries of its own source.

* `Insertion`, `IdentityTable.perform`, `IdentityTable.after`  one insertion, and one after the other;
* `IdentityTable.FirstWith`            the first source with a property;
* `IdentityTable.lookup_eq_some_iff`   a name is looked up to the first source that has it;
* `Insertion.Collides`                 the collisions of an insertion;
* `Insertion.Adds`                     what an insertion that is accepted changes;
* `IdentityTable.entriesOf?_merge_self`, `IdentityTable.entriesOf?_merge_of_ne`  the entries of its own
                                       source and of another one then;
* `IdentityTable.performed`            the one or the other, for any insertion;
* `IdentityTable.after_insertions`     all of this, after any insertions.
-/

namespace EventMerge

/-- entries of a source that are to be inserted under a policy -/
structure Insertion where
  source : SourceId
  entries : SourceEntries
  policy : CollisionPolicy

namespace IdentityTable

variable {t : IdentityTable} {source existing : SourceId} {entries old : SourceEntries}
  {name : String} {index : LocalIndex}

/-! ## insertions -/

/-- the answer to an insertion and the table afterwards -/
def perform (t : IdentityTable) (i : Insertion) :
    Except StoreError (List Collision) × IdentityTable := t.insert i.source i.entries i.policy

/-- the table after insertions, whether they are accepted or not -/
def after : List Insertion → IdentityTable → IdentityTable
  | [], t => t
  | i :: rest, t => after rest (t.perform i).2

theorem perform_firstWins (t : IdentityTable) (source : SourceId) (entries : SourceEntries) :
    t.perform ⟨source, entries, .firstWins⟩
      = (.ok (t.collisions source entries), t.merge source entries) := rfl

theorem perform_of_apart (policy : CollisionPolicy) (h : t.collisions source entries = []) :
    t.perform ⟨source, entries, policy⟩ = (.ok [], t.merge source entries) := by
  cases policy with
  | firstWins => rw [perform_firstWins, h]
  | reject =>
    unfold perform insert
    rw [h]

theorem perform_reject_of_collision {first : Collision} {rest : List Collision}
    (h : t.collisions source entries = first :: rest) :
    t.perform ⟨source, entries, .reject⟩
      = (.error (.duplicateCollection first.name first.existing first.incoming), t) := by
  unfold perform insert
  rw [h]

theorem nodup_ids_perform (h : t.ids.Nodup) (i : Insertion) : (t.perform i).2.ids.Nodup := by
  rcases hinsert : t.perform i with ⟨answer, t'⟩
  cases answer with
  | ok reported =>
    rw [insert_ok hinsert]
    exact nodup_ids_mergeInto h
  | error e =>
    rw [insert_error hinsert]
    exact h

theorem nodup_ids_after (h : t.ids.Nodup) (insertions : List Insertion) :
    (after insertions t).ids.Nodup := by
  induction insertions generalizing t with
  | nil => exact h
  | cons i rest ih => exact ih (nodup_ids_perform h i)

/-! ## the first source -/

/-- the entries of a source have a property, and no entries in front of them do -/
def FirstWith (t : IdentityTable) (p : SourceId × SourceEntries → Prop)
    (entry : SourceId × SourceEntries) : Prop :=
  ∃ before behind, t.sources = before ++ entry :: behind ∧ p entry ∧ ∀ other ∈ before, ¬ p other

/-- **A name is looked up to the first source that has it.** -/
theorem lookup_eq_some_iff :
    t.lookup name = some (source, index)
      ↔ ∃ entries, t.FirstWith (fun entry => entry.2.contains name = true) (source, entries)
          ∧ entries.get? name = some index := by
  have hlacks : ∀ entry, served name entry = none ↔ ¬ entry.2.contains name = true := by
    intro entry
    rw [served, Option.map_eq_none_iff, Bool.not_eq_true, NameMap.contains_eq_false_iff]
  show t.sources.findSome? (served name) = some (source, index) ↔ _
  rw [List.findSome?_eq_some_iff]
  constructor
  · rintro ⟨before, ⟨id, entries⟩, behind, hsources, hserved, hbefore⟩
    obtain ⟨found, hfound, hsame⟩ := Option.map_eq_some_iff.mp hserved
    cases hsame
    have hhas : entries.contains name = true := NameMap.contains_eq_true_iff.mpr ⟨index, hfound⟩
    exact ⟨entries, ⟨before, behind, hsources, hhas,
      fun other hother => (hlacks other).mp (hbefore other hother)⟩, hfound⟩
  · rintro ⟨entries, ⟨before, behind, hsources, -, hbefore⟩, hfound⟩
    refine ⟨before, (source, entries), behind, hsources, ?_,
      fun other hother => (hlacks other).mpr (hbefore other hother)⟩
    rw [served, hfound]
    rfl

theorem rival?_eq_some_iff :
    t.rival? source name = some existing
      ↔ ∃ held, t.FirstWith (fun entry => entry.1 ≠ source ∧ entry.2.contains name = true)
          (existing, held) := by
  have hrival : ∀ entry : SourceId × SourceEntries,
      (entry.1 ≠ source && entry.2.contains name) = true
        ↔ entry.1 ≠ source ∧ entry.2.contains name = true := by
    intro entry
    rw [Bool.and_eq_true, decide_eq_true_eq]
  rw [rival?, Option.map_eq_some_iff]
  constructor
  · rintro ⟨⟨id, held⟩, hfound, rfl⟩
    obtain ⟨hfirst, before, behind, hsources, hbefore⟩ := List.find?_eq_some_iff_append.mp hfound
    refine ⟨held, before, behind, hsources, (hrival _).mp hfirst, fun other hother hboth => ?_⟩
    have hnot := hbefore other hother
    rw [(hrival other).mpr hboth] at hnot
    cases hnot
  · rintro ⟨held, before, behind, hsources, hfirst, hbefore⟩
    refine ⟨(existing, held), List.find?_eq_some_iff_append.mpr ?_, rfl⟩
    refine ⟨(hrival _).mpr hfirst, before, behind, hsources, fun other hother => ?_⟩
    rw [Bool.eq_false_iff.mpr fun h => hbefore other hother ((hrival other).mp h)]
    rfl

theorem isSome_rival?_iff :
    (t.rival? source name).isSome = true
      ↔ ∃ entry ∈ t.sources, entry.1 ≠ source ∧ entry.2.contains name = true := by
  rw [rival?, Option.isSome_map, List.find?_isSome]
  simp only [Bool.and_eq_true, decide_eq_true_eq]

end IdentityTable

/-! ## collisions -/

/-- `found` are the collisions of an insertion into a table: one for each name of its entries that
another source has, in the order of the names, and with the first source that has it -/
structure Insertion.Collides (i : Insertion) (t : IdentityTable) (found : List Collision) :
    Prop where
  sorted : (found.map Collision.name).Pairwise (· < ·)
  mem_names_iff : ∀ name, name ∈ found.map Collision.name ↔ i.entries.contains name = true
    ∧ ∃ entry ∈ t.sources, entry.1 ≠ i.source ∧ entry.2.contains name = true
  first : ∀ collision ∈ found, collision.incoming = i.source ∧ ∃ held,
    t.FirstWith (fun entry => entry.1 ≠ i.source ∧ entry.2.contains collision.name = true)
      (collision.existing, held)

namespace IdentityTable

variable {t : IdentityTable} {source existing : SourceId} {entries old : SourceEntries}

theorem names_collisions (t : IdentityTable) (source : SourceId) (entries : SourceEntries) :
    (t.collisions source entries).map Collision.name
      = entries.keys.filter fun name => (t.rival? source name).isSome := by
  rw [collisions, List.map_filterMap, ← List.filterMap_eq_filter]
  refine List.filterMap_congr fun name _ => ?_
  cases hrival : t.rival? source name <;> simp [Option.guard, hrival]

theorem collides_collisions (t : IdentityTable) (i : Insertion) :
    i.Collides t (t.collisions i.source i.entries) := by
  refine ⟨?_, fun name => ?_, fun collision hcollision => ?_⟩
  · rw [names_collisions]
    exact i.entries.sorted_keys.filter _
  · rw [names_collisions, List.mem_filter, isSome_rival?_iff, NameMap.contains_iff_mem_keys]
  · obtain ⟨-, hincoming, hrival⟩ := mem_collisions.mp hcollision
    exact ⟨hincoming, rival?_eq_some_iff.mp hrival⟩

/-! ## what is added -/

theorem mergeInto_of_mem {before behind : List (SourceId × SourceEntries)}
    (hbefore : source ∉ before.map Prod.fst) (old entries : SourceEntries) :
    mergeInto source entries (before ++ (source, old) :: behind)
      = before ++ (source, old.union entries) :: behind := by
  induction before with
  | nil => rw [List.nil_append, mergeInto, if_pos rfl, List.nil_append]
  | cons first rest ih =>
    rw [List.map_cons, List.mem_cons, not_or] at hbefore
    rw [List.cons_append, mergeInto, if_neg (Ne.symm hbefore.1), ih hbefore.2, List.cons_append]

end IdentityTable

/-- the table `t'` is `t` with the entries of an insertion: those of its source come before what the
source had, or the source comes last if it is new, and all else stays -/
structure Insertion.Adds (i : Insertion) (t t' : IdentityTable) : Prop where
  extended : ∀ before old behind, t.sources = before ++ (i.source, old) :: behind →
    ∃ merged : SourceEntries, t'.sources = before ++ (i.source, merged) :: behind
      ∧ ∀ name, merged.get? name = (i.entries.get? name).or (old.get? name)
  appended : i.source ∉ t.ids → t'.sources = t.sources ++ [(i.source, i.entries)]

namespace IdentityTable

variable {t : IdentityTable} {source existing : SourceId} {entries old : SourceEntries}

theorem entriesOf?_merge_self (t : IdentityTable) (source : SourceId) (entries : SourceEntries) :
    (t.merge source entries).entriesOf? source
      = some (((t.entriesOf? source).getD .empty).union entries) := by
  obtain ⟨sources⟩ := t
  show ((mergeInto source entries sources).find? fun entry => entry.1 = source).map Prod.snd
    = some ((((sources.find? fun entry => entry.1 = source).map Prod.snd).getD .empty).union entries)
  induction sources with
  | nil =>
    rw [mergeInto, List.find?_cons_of_pos (by simp)]
    exact congrArg some (NameMap.empty_union entries).symm
  | cons first rest ih =>
    rw [mergeInto]
    split
    · rename_i hsame
      rw [List.find?_cons_of_pos (by simp [hsame]), List.find?_cons_of_pos (by simp [hsame])]
      rfl
    · rename_i hother
      rw [List.find?_cons_of_neg (by simpa using hother),
        List.find?_cons_of_neg (by simpa using hother)]
      exact ih

theorem entriesOf?_merge_of_ne (t : IdentityTable) {other : SourceId} (h : other ≠ source)
    (entries : SourceEntries) : (t.merge other entries).entriesOf? source = t.entriesOf? source := by
  obtain ⟨sources⟩ := t
  show ((mergeInto other entries sources).find? fun entry => entry.1 = source).map Prod.snd
    = (sources.find? fun entry => entry.1 = source).map Prod.snd
  induction sources with
  | nil =>
    rw [mergeInto, List.find?_cons_of_neg (by simpa using h)]
  | cons first rest ih =>
    rw [mergeInto]
    split
    · rename_i hsame
      rw [List.find?_cons_of_neg (by simp [hsame, h]), List.find?_cons_of_neg (by simp [hsame, h])]
    · by_cases hfirst : first.1 = source
      · rw [List.find?_cons_of_pos (by simpa using hfirst),
          List.find?_cons_of_pos (by simpa using hfirst)]
      · rw [List.find?_cons_of_neg (by simpa using hfirst),
          List.find?_cons_of_neg (by simpa using hfirst)]
        exact ih

theorem adds_merge (hids : t.ids.Nodup) (i : Insertion) :
    i.Adds t (t.merge i.source i.entries) := by
  refine ⟨fun before old behind hsources => ?_, fun hnew => ?_⟩
  · have hbefore : i.source ∉ before.map Prod.fst := by
      have hnodup : ((before ++ (i.source, old) :: behind).map Prod.fst).Nodup := hsources ▸ hids
      rw [List.map_append, List.map_cons] at hnodup
      intro hmem
      exact (List.nodup_append.mp hnodup).2.2 _ hmem _ List.mem_cons_self rfl
    refine ⟨old.union i.entries, ?_, old.get?_union i.entries⟩
    rw [merge, hsources]
    exact mergeInto_of_mem hbefore old i.entries
  · refine mergeInto_of_new i.entries fun entry hentry hsame => hnew ?_
    exact hsame ▸ List.mem_map_of_mem hentry

/-! ## any insertion -/

/-- **An insertion is refused if it collides where collisions are refused, and the table stays; all
others are added**, and the collisions reported. -/
theorem performed (hids : t.ids.Nodup) (i : Insertion) :
    ∃ found, i.Collides t found
      ∧ ((∃ e, (t.perform i).1 = .error e) ↔ i.policy = .reject ∧ found ≠ [])
      ∧ (∀ first rest, i.policy = .reject → found = first :: rest →
          t.perform i
            = (.error (.duplicateCollection first.name first.existing first.incoming), t))
      ∧ (∀ reported, (t.perform i).1 = .ok reported →
          reported = found ∧ i.Adds t (t.perform i).2) := by
  have hadds := adds_merge hids i
  refine ⟨t.collisions i.source i.entries, collides_collisions t i, ?_⟩
  obtain ⟨source, entries, policy⟩ := i
  dsimp only at hadds ⊢
  cases hfound : t.collisions source entries with
  | nil =>
    rw [perform_of_apart policy hfound]
    refine ⟨⟨nofun, fun h => absurd rfl h.2⟩, nofun, fun reported hreported => ?_⟩
    exact ⟨(Except.ok.inj hreported).symm, hadds⟩
  | cons first rest =>
    cases policy with
    | firstWins =>
      rw [perform_firstWins, hfound]
      refine ⟨⟨nofun, nofun⟩, nofun, fun reported hreported => ?_⟩
      exact ⟨(Except.ok.inj hreported).symm, hadds⟩
    | reject =>
      rw [perform_reject_of_collision hfound]
      refine ⟨⟨fun _ => ⟨rfl, List.cons_ne_nil _ _⟩, fun _ => ⟨_, rfl⟩⟩, ?_, nofun⟩
      rintro _ _ - ⟨rfl, rfl⟩
      rfl

/-- **What is inserted is looked up to the first source that has it.**  After any insertions into an
empty table, refused or not: each source is listed once; the names are sorted, and they are those that
can be looked up; a name is looked up to a source that maps it so, and no source in front of it has the
name.  One more insertion collides with the names that another source has, and with the first such
source; it is refused exactly if there are any and collisions are refused, for the first of them, and
the table stays; otherwise they are reported, and its entries come before those that its source had,
which comes last if it is new, while all other sources stay as they are. -/
theorem after_insertions {insertions : List Insertion} (ht : after insertions empty = t) :
    t.ids.Nodup
      ∧ t.names.Pairwise (· < ·)
      ∧ (∀ name, (name ∈ t.names ↔ t.contains name = true)
          ∧ (t.contains name = true ↔ ∃ source index, t.lookup name = some (source, index)))
      ∧ (∀ name source index, t.lookup name = some (source, index) →
          ∃ entries, t.entriesOf? source = some entries ∧ entries.get? name = some index
            ∧ t.FirstWith (fun entry => entry.2.contains name = true) (source, entries))
      ∧ ∀ i : Insertion, ∃ found, i.Collides t found
          ∧ ((∃ e, (t.perform i).1 = .error e) ↔ i.policy = .reject ∧ found ≠ [])
          ∧ (∀ first rest, i.policy = .reject → found = first :: rest →
              t.perform i
                = (.error (.duplicateCollection first.name first.existing first.incoming), t))
          ∧ (∀ reported, (t.perform i).1 = .ok reported →
              reported = found ∧ i.Adds t (t.perform i).2) := by
  have hids : t.ids.Nodup := ht ▸ nodup_ids_after (t := empty) List.nodup_nil insertions
  refine ⟨hids, t.sorted_names, fun name => ⟨contains_iff_mem_names.symm, ?_⟩,
    fun name source index hlookup => ?_, performed hids⟩
  · rw [contains, Option.isSome_iff_exists, Prod.exists]
  · obtain ⟨entries, hfirst, hindex⟩ := lookup_eq_some_iff.mp hlookup
    obtain ⟨before, behind, hsources, -⟩ := id hfirst
    have hentry : (source, entries) ∈ t.sources := by
      rw [hsources]
      exact List.mem_append_right _ List.mem_cons_self
    exact ⟨entries, entriesOf?_of_mem hids hentry, hindex, hfirst⟩

/-- two sources with a common name, of which the first takes up a name of the second later on -/
def crossing : List Insertion :=
  [⟨⟨0⟩, NameMap.ofList [("hits", ⟨0⟩)], .reject⟩,
    ⟨⟨1⟩, NameMap.ofList [("hits", ⟨0⟩), ("notes", ⟨1⟩)], .reject⟩,
    ⟨⟨1⟩, NameMap.ofList [("hits", ⟨0⟩), ("notes", ⟨1⟩)], .firstWins⟩,
    ⟨⟨0⟩, NameMap.ofList [("notes", ⟨7⟩)], .firstWins⟩]

theorem after_insertions_crossing :
    ∃ t, after crossing empty = t ∧ t.ids.Nodup
      ∧ (∃ entries, t.entriesOf? ⟨0⟩ = some entries ∧ entries.get? "notes" = some ⟨7⟩)
      ∧ ∃ found, (Insertion.mk ⟨2⟩ (NameMap.ofList [("notes", ⟨0⟩)]) .reject).Collides t found
          ∧ found ≠ [] := by
  have hafter : after crossing empty = _ := rfl
  obtain ⟨hids, -, -, hserved, hperformed⟩ := after_insertions hafter
  obtain ⟨entries, hentries, hindex, -⟩ := hserved "notes" ⟨0⟩ ⟨7⟩ (by decide +kernel)
  obtain ⟨found, hcollides, hrefused, -⟩ :=
    hperformed ⟨⟨2⟩, NameMap.ofList [("notes", ⟨0⟩)], .reject⟩
  exact ⟨_, rfl, hids, ⟨entries, hentries, hindex⟩, found, hcollides, (hrefused.mp ⟨_, rfl⟩).2⟩

end IdentityTable

end EventMerge
