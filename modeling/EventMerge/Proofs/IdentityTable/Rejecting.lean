import EventMerge.Proofs.IdentityTable.Inserting
import Mathlib.Data.List.Pairwise

/-!
# Insertions where collisions are refused

Entries of different sources are all accepted if and only if no two of them have a name in common.  The
table then lists them as they came, and since every name has a single source, the order in which they
came makes no difference to a look-up.

* `IdentityTable.answers`, `IdentityTable.Accepts`  what insertions are answered, and that none is
                                           refused;
* `IdentityTable.collisions_eq_nil_iff`    entries collide with no other source;
* `IdentityTable.insert_error_iff`         when an insertion is refused;
* `IdentityTable.accepts_rejecting_iff`, `IdentityTable.after_rejecting`  when all are accepted, and the
                                           table then;
* `IdentityTable.lookup_eq_some_iff_mem`   a look-up where no two sources have a name in common;
* `IdentityTable.rejecting_perm`           the order makes no difference.
-/

namespace EventMerge.IdentityTable

variable {t : IdentityTable} {source : SourceId} {entries : SourceEntries} {name : String}
  {pairs pairs' : List (SourceId × SourceEntries)}

/-! ## answers -/

/-- the answers to insertions, one after the other -/
def answers : List Insertion → IdentityTable → List (Except StoreError (List Collision))
  | [], _ => []
  | i :: rest, t => (t.perform i).1 :: answers rest (t.perform i).2

/-- every one of the insertions succeeds -/
def Accepts (t : IdentityTable) (insertions : List Insertion) : Prop :=
  ∀ answer ∈ answers insertions t, ∃ reported, answer = .ok reported

/-- the entries of sources, to be inserted where collisions are refused -/
def rejecting (pairs : List (SourceId × SourceEntries)) : List Insertion :=
  pairs.map fun pair => ⟨pair.1, pair.2, .reject⟩

theorem rejecting_cons (source : SourceId) (entries : SourceEntries)
    (rest : List (SourceId × SourceEntries)) :
    rejecting ((source, entries) :: rest) = ⟨source, entries, .reject⟩ :: rejecting rest := rfl

theorem accepts_nil (t : IdentityTable) : t.Accepts [] := fun _ => (nomatch ·)

theorem accepts_cons_iff {i : Insertion} {rest : List Insertion} :
    t.Accepts (i :: rest)
      ↔ (∃ reported, (t.perform i).1 = .ok reported) ∧ (t.perform i).2.Accepts rest :=
  List.forall_mem_cons

/-! ## sources without a common name -/

theorem apart_symm {a b : SourceId × SourceEntries} (h : Apart a b) : Apart b a :=
  fun name hboth => h name hboth.symm

instance : Std.Symm Apart := ⟨fun _ _ => apart_symm⟩

theorem collisions_eq_nil_iff :
    t.collisions source entries = []
      ↔ ∀ entry ∈ t.sources, entry.1 ≠ source → Apart (source, entries) entry := by
  have hcollides := t.collides_collisions ⟨source, entries, .reject⟩
  constructor
  · intro hnone entry hentry hother name hboth
    have hmem := (hcollides.mem_names_iff name).mpr ⟨hboth.1, entry, hentry, hother, hboth.2⟩
    rw [hnone] at hmem
    cases hmem
  · intro hapart
    rw [← List.map_eq_nil_iff (f := Collision.name), List.eq_nil_iff_forall_not_mem]
    intro name hmem
    obtain ⟨hname, entry, hentry, hother, hhas⟩ := (hcollides.mem_names_iff name).mp hmem
    exact hapart entry hentry hother name ⟨hname, hhas⟩

theorem insert_error_iff {t : IdentityTable} {policy : CollisionPolicy} :
    (∃ e, (t.insert source entries policy).1 = .error e)
      ↔ policy = .reject ∧ ∃ entry ∈ t.sources, entry.1 ≠ source
        ∧ ∃ name, entries.contains name = true ∧ entry.2.contains name = true := by
  have hcollisions : t.collisions source entries ≠ [] ↔ ∃ entry ∈ t.sources, entry.1 ≠ source
      ∧ ∃ name, entries.contains name = true ∧ entry.2.contains name = true := by
    rw [Ne, collisions_eq_nil_iff]
    simp only [Apart, not_forall, not_not, exists_prop]
  rw [← hcollisions]
  cases policy with
  | firstWins =>
    rw [insert_firstWins]
    exact ⟨nofun, nofun⟩
  | reject =>
    unfold insert
    cases t.collisions source entries with
    | nil => exact ⟨nofun, fun h => absurd rfl h.2⟩
    | cons first rest => exact ⟨fun _ => ⟨rfl, List.cons_ne_nil _ _⟩, fun _ => ⟨_, rfl⟩⟩

/-! ## one after the other -/

theorem merge_of_new (hnew : source ∉ t.ids) (entries : SourceEntries) :
    t.merge source entries = ⟨t.sources ++ [(source, entries)]⟩ := by
  rw [merge, mergeInto_of_new entries fun entry hentry hsame => hnew ?_]
  exact hsame ▸ List.mem_map_of_mem hentry

/-- a source that is new is accepted if it has no name of the others, and comes last then -/
theorem perform_rejecting (hnew : source ∉ t.ids) (entries : SourceEntries) :
    (∀ entry ∈ t.sources, Apart entry (source, entries))
        ∧ t.perform ⟨source, entries, .reject⟩ = (.ok [], ⟨t.sources ++ [(source, entries)]⟩)
      ∨ ¬ (∀ entry ∈ t.sources, Apart entry (source, entries))
        ∧ ¬ ∃ reported, (t.perform ⟨source, entries, .reject⟩).1 = .ok reported := by
  have hother : ∀ entry ∈ t.sources, entry.1 ≠ source := by
    intro entry hentry hsame
    exact hnew (hsame ▸ List.mem_map_of_mem hentry)
  cases hfound : t.collisions source entries with
  | nil =>
    refine .inl ⟨fun entry hentry => ?_, ?_⟩
    · exact apart_symm (collisions_eq_nil_iff.mp hfound entry hentry (hother entry hentry))
    · rw [perform_of_apart .reject hfound, merge_of_new hnew]
  | cons first rest =>
    refine .inr ⟨fun hapart => ?_, ?_⟩
    · have hnone := collisions_eq_nil_iff.mpr fun entry hentry _ => apart_symm (hapart entry hentry)
      rw [hfound] at hnone
      cases hnone
    · rw [perform_reject_of_collision hfound]
      exact nofun

/-- **Entries of different sources are accepted if and only if no two have a name in common**, and then
the table lists them as they came. -/
theorem accepts_rejecting_iff (hids : (t.ids ++ pairs.map Prod.fst).Nodup)
    (hapart : t.sources.Pairwise Apart) :
    (t.Accepts (rejecting pairs) ↔ (t.sources ++ pairs).Pairwise Apart)
      ∧ (t.Accepts (rejecting pairs) → after (rejecting pairs) t = ⟨t.sources ++ pairs⟩) := by
  induction pairs generalizing t with
  | nil =>
    rw [List.append_nil]
    exact ⟨⟨fun _ => hapart, fun _ => t.accepts_nil⟩, fun _ => rfl⟩
  | cons pair rest ih =>
    obtain ⟨source, entries⟩ := pair
    have hnew : source ∉ t.ids := fun hmem =>
      (List.nodup_append.mp hids).2.2 source hmem source List.mem_cons_self rfl
    rw [rejecting_cons, accepts_cons_iff, after]
    rcases perform_rejecting hnew entries with ⟨hall, haccepted⟩ | ⟨hclash, hrefused⟩
    · have hids' : ((⟨t.sources ++ [(source, entries)]⟩ : IdentityTable).ids
          ++ rest.map Prod.fst).Nodup := by
        rw [ids, List.map_append, List.append_assoc]
        exact hids
      have hapart' : (t.sources ++ [(source, entries)]).Pairwise Apart :=
        List.pairwise_append.mpr ⟨hapart, List.pairwise_singleton _ _,
          fun entry hentry other hother => List.mem_singleton.mp hother ▸ hall entry hentry⟩
      obtain ⟨hiff, hafter⟩ := ih hids' hapart'
      rw [List.append_assoc, List.singleton_append] at hiff hafter
      rw [haccepted]
      exact ⟨⟨fun h => hiff.mp h.2, fun h => ⟨⟨[], rfl⟩, hiff.mpr h⟩⟩, fun h => hafter h.2⟩
    · refine ⟨⟨fun h => absurd h.1 hrefused, fun h => ?_⟩, fun h => absurd h.1 hrefused⟩
      refine absurd (fun entry hentry => ?_) hclash
      exact (List.pairwise_append.mp h).2.2 entry hentry (source, entries) List.mem_cons_self

/-! ## look-ups where every name has a single source -/

theorem lookup_eq_some_iff_mem (hapart : t.sources.Pairwise Apart) {index : LocalIndex} :
    t.lookup name = some (source, index)
      ↔ ∃ entries, (source, entries) ∈ t.sources ∧ entries.get? name = some index := by
  constructor
  · exact served_of_lookup
  · rintro ⟨entries, hentry, hindex⟩
    have hhas : entries.contains name = true := NameMap.contains_eq_true_iff.mpr ⟨index, hindex⟩
    have hknown : (t.lookup name).isSome = true :=
      contains_iff_mem_names.mpr (mem_names.mpr ⟨(source, entries), hentry, hhas⟩)
    obtain ⟨⟨source', index'⟩, hlookup⟩ := Option.isSome_iff_exists.mp hknown
    obtain ⟨entries', hentry', hindex'⟩ := served_of_lookup hlookup
    -- both sources have the name, so they are one
    have hsame : (source', entries') = (source, entries) := by
      by_contra hne
      have hhas' : entries'.contains name = true := NameMap.contains_eq_true_iff.mpr ⟨index', hindex'⟩
      exact hapart.forall hentry' hentry hne name ⟨hhas', hhas⟩
    cases hsame
    rw [hindex] at hindex'
    rw [hlookup, Option.some.inj hindex']

theorem lookup_of_perm (hapart : pairs.Pairwise Apart) (hperm : pairs.Perm pairs') (name : String) :
    lookup ⟨pairs'⟩ name = lookup ⟨pairs⟩ name := by
  have hapart' : pairs'.Pairwise Apart := (hperm.pairwise_iff apart_symm).mp hapart
  refine Option.ext fun ⟨source, index⟩ => ?_
  rw [lookup_eq_some_iff_mem (t := ⟨pairs'⟩) hapart', lookup_eq_some_iff_mem (t := ⟨pairs⟩) hapart]
  exact exists_congr fun entries => and_congr_left fun _ => hperm.mem_iff.symm

theorem contains_congr {t' : IdentityTable} (h : t'.lookup name = t.lookup name) :
    t'.contains name = t.contains name := by
  rw [contains, contains, h]

theorem names_congr {t' : IdentityTable} (h : ∀ name, t'.lookup name = t.lookup name) :
    t'.names = t.names := by
  refine NameMap.eq_of_sorted t'.sorted_names t.sorted_names fun name => ?_
  rw [← contains_iff_mem_names, ← contains_iff_mem_names, contains_congr (h name)]

/-! ## any order -/

/-- **Where collisions are refused, the order of the sources makes no difference.**  Entries of
different sources are all accepted by an empty table if and only if no two of them have a name in
common; hence in every order or in none; and if they are, look-ups and names are the same after every
order. -/
theorem rejecting_perm (hids : (pairs.map Prod.fst).Nodup) (hperm : pairs.Perm pairs') :
    (empty.Accepts (rejecting pairs) ↔ pairs.Pairwise Apart)
      ∧ (empty.Accepts (rejecting pairs') ↔ empty.Accepts (rejecting pairs))
      ∧ (empty.Accepts (rejecting pairs) →
          (∀ name, (after (rejecting pairs') empty).lookup name
                = (after (rejecting pairs) empty).lookup name
              ∧ (after (rejecting pairs') empty).contains name
                = (after (rejecting pairs) empty).contains name)
            ∧ (after (rejecting pairs') empty).names = (after (rejecting pairs) empty).names) := by
  have hids' : (pairs'.map Prod.fst).Nodup := (hperm.map Prod.fst).nodup_iff.mp hids
  obtain ⟨hiff, hafter⟩ := accepts_rejecting_iff (t := empty) hids .nil
  obtain ⟨hiff', hafter'⟩ := accepts_rejecting_iff (t := empty) hids' .nil
  have hboth : empty.Accepts (rejecting pairs') ↔ empty.Accepts (rejecting pairs) :=
    hiff'.trans ((hperm.pairwise_iff apart_symm).symm.trans hiff.symm)
  refine ⟨hiff, hboth, fun haccepts => ?_⟩
  have hlookup : ∀ name, (after (rejecting pairs') empty).lookup name
      = (after (rejecting pairs) empty).lookup name := by
    rw [hafter haccepts, hafter' (hboth.mpr haccepts)]
    exact lookup_of_perm (hiff.mp haccepts) hperm
  exact ⟨fun name => ⟨hlookup name, contains_congr (hlookup name)⟩, names_congr hlookup⟩

/-- two sources with no name in common -/
def disjointPairs : List (SourceId × SourceEntries) :=
  [(⟨0⟩, NameMap.ofList [("hits", ⟨0⟩), ("tracks", ⟨1⟩)]),
    (.runtime, NameMap.ofList [("made", ⟨0⟩)])]

theorem rejecting_perm_disjointPairs :
    (disjointPairs.map Prod.fst).Nodup ∧ disjointPairs.Perm disjointPairs.reverse
      ∧ empty.Accepts (rejecting disjointPairs.reverse)
      ∧ (after (rejecting disjointPairs.reverse) empty).lookup "tracks"
        = (after (rejecting disjointPairs) empty).lookup "tracks" := by
  have hids : (disjointPairs.map Prod.fst).Nodup := by decide
  have hperm : disjointPairs.Perm disjointPairs.reverse := (List.reverse_perm disjointPairs).symm
  have haccepts : empty.Accepts (rejecting disjointPairs) := by
    intro answer hanswer
    exact ⟨[], List.eq_of_mem_replicate (n := 2) hanswer⟩
  obtain ⟨-, hboth, hsame⟩ := rejecting_perm hids hperm
  exact ⟨hids, hperm, hboth.mpr haccepts, ((hsame haccepts).1 "tracks").1⟩

end EventMerge.IdentityTable
