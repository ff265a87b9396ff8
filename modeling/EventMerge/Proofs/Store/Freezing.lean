import EventMerge.Proofs.Store.Pulling
import EventMerge.Proofs.Store.Sources

/-!
# The identity table over the life of a store

Whatever is asked of a store, its identity table lists the feeds that it has accepted, each under its
position, and the runtime collections under an id of their own.  The first event that is asked for
closes registration, even if it cannot be given, and from then on the table stays as it is.

* `IdentityTable.Apart`         two sources without a name in common;
* `IdentityTable.insert_keeps`  what is accepted leaves each id once, and sources apart;
* `StoreCall`, `StoreReply`    what can be asked of a store, and what it answers;
* `Store.perform`, `Store.after`, `Store.answers`  one call, and one after the other;
* `Store.accepted`             the feeds that are registered by calls;
* `Store.Stands`               what is known of a store at any time;
* `Store.Stands.perform`       every call keeps it;
* `Store.frozen_after`         once a store has started, its table stays;
* `Store.listed_after`         all of this together, after any calls.
-/

namespace EventMerge

/-- the number of a source that was registered is its position -/
theorem SourceId.toInt_of_ofPosition {n : Nat} {source : SourceId} (h : ofPosition n = .ok source) :
    source.toInt = n := by
  obtain ⟨hless, rfl⟩ := ofPosition_eq_ok_iff.mp h
  exact Int32.toInt_ofNat_of_lt hless

/-! ## sources without a common name -/

namespace IdentityTable

/-- no name is among both entries -/
def Apart (a b : SourceId × SourceEntries) : Prop :=
  ∀ name, ¬ (a.2.contains name = true ∧ b.2.contains name = true)

theorem ids_mergeInto (source : SourceId) (entries : SourceEntries)
    (sources : List (SourceId × SourceEntries)) :
    (mergeInto source entries sources).map Prod.fst
      = if source ∈ sources.map Prod.fst then sources.map Prod.fst
        else sources.map Prod.fst ++ [source] := by
  induction sources with
  | nil => rfl
  | cons first rest ih =>
    obtain ⟨id, old⟩ := first
    rw [mergeInto]
    by_cases hid : id = source
    · subst hid
      simp
    · rw [if_neg hid, List.map_cons, ih]
      have hne : source ≠ id := fun hsame => hid hsame.symm
      simp only [List.map_cons, List.mem_cons, hne, false_or]
      split <;> rfl

theorem nodup_ids_mergeInto {source : SourceId} {entries : SourceEntries}
    {sources : List (SourceId × SourceEntries)} (h : (sources.map Prod.fst).Nodup) :
    ((mergeInto source entries sources).map Prod.fst).Nodup := by
  rw [ids_mergeInto]
  split
  · exact h
  · rename_i hnew
    refine List.nodup_append.mpr ⟨h, List.pairwise_singleton _ _, fun id hid other hother => ?_⟩
    rw [List.mem_singleton.mp hother]
    exact fun hsame => hnew (hsame ▸ hid)

/-- what is merged into sources that are apart, and has no name of any source but its own -/
theorem apart_mergeInto {source : SourceId} {entries : SourceEntries}
    {sources : List (SourceId × SourceEntries)} (hids : (sources.map Prod.fst).Nodup)
    (h : sources.Pairwise Apart)
    (hnew : ∀ entry ∈ sources, entry.1 ≠ source → Apart (source, entries) entry) :
    (mergeInto source entries sources).Pairwise Apart := by
  induction sources with
  | nil => exact List.pairwise_singleton _ _
  | cons first rest ih =>
    obtain ⟨id, old⟩ := first
    obtain ⟨hid, hids⟩ := List.nodup_cons.mp hids
    obtain ⟨hfirst, hrest⟩ := List.pairwise_cons.mp h
    rw [mergeInto]
    split
    · rename_i hsame
      refine List.pairwise_cons.mpr ⟨fun entry hentry name hboth => ?_, hrest⟩
      have hother : entry.1 ≠ source := fun hsource =>
        hid (List.mem_map.mpr ⟨entry, hentry, hsource.trans hsame.symm⟩)
      rw [NameMap.contains_union, Bool.or_eq_true] at hboth
      rcases hboth.1 with hold | hadded
      · exact hfirst entry hentry name ⟨hold, hboth.2⟩
      · exact hnew entry (List.mem_cons_of_mem _ hentry) hother name ⟨hadded, hboth.2⟩
    · rename_i hne
      refine List.pairwise_cons.mpr ⟨fun entry hentry name hboth => ?_,
        ih hids hrest fun entry hentry => hnew entry (List.mem_cons_of_mem _ hentry)⟩
      rcases mem_mergeInto.mp ⟨entry, hentry, hboth.2⟩ with ⟨other, hother, hname⟩ | hadded
      · exact hfirst other hother name ⟨hboth.1, hname⟩
      · exact hnew (id, old) List.mem_cons_self hne name ⟨hadded, hboth.1⟩

/-- a source that is accepted where collisions are refused has no name of another source -/
theorem apart_of_insert {t t' : IdentityTable} {source : SourceId} {entries : SourceEntries}
    {collisions : List Collision} (h : t.insert source entries .reject = (.ok collisions, t')) :
    ∀ entry ∈ t.sources, entry.1 ≠ source → Apart (source, entries) entry := by
  have hnone : t.collisions source entries = [] := by
    cases hfound : t.collisions source entries with
    | nil => rfl
    | cons first rest =>
      unfold insert at h
      rw [hfound] at h
      cases h
  intro entry hentry hother name hboth
  have hrival := List.filterMap_eq_nil_iff.mp hnone name (NameMap.contains_iff_mem_keys.mp hboth.1)
  rw [Option.map_eq_none_iff, rival?, Option.map_eq_none_iff, List.find?_eq_none] at hrival
  refine hrival entry hentry ?_
  rw [hboth.2, Bool.and_true]
  exact decide_eq_true hother

/-- what is accepted leaves each id once, and sources apart where collisions are refused -/
theorem insert_keeps {t t' : IdentityTable} {source : SourceId} {entries : SourceEntries}
    {policy : CollisionPolicy} {collisions : List Collision}
    (h : t.insert source entries policy = (.ok collisions, t'))
    (hids : (t.sources.map Prod.fst).Nodup)
    (hapart : policy = .reject → t.sources.Pairwise Apart) :
    (t'.sources.map Prod.fst).Nodup ∧ (policy = .reject → t'.sources.Pairwise Apart) := by
  rw [insert_ok h]
  refine ⟨nodup_ids_mergeInto hids, fun hpolicy => ?_⟩
  subst hpolicy
  exact apart_mergeInto hids (hapart rfl) (apart_of_insert h)

end IdentityTable

/-! ## calls -/

/-- what can be asked of a store -/
inductive StoreCall where
  | register (registration : Registration)
  | next (factory : Event.Factory) (slot : Option Event)

/-- what a store answers -/
inductive StoreReply where
  | registered (result : Except StoreError Unit)
  | event (result : Except StoreError (Option Event))

/-- an event is given -/
def StoreReply.isEvent : StoreReply → Bool
  | event (.ok (some _)) => true
  | _ => false

namespace Store

/-- the answer to a call and the store afterwards -/
def perform (s : Store) : StoreCall → StoreReply × Store
  | .register registration =>
    (.registered (s.registerOne registration).1, (s.registerOne registration).2)
  | .next factory slot => (.event (s.next factory slot).1, (s.next factory slot).2.1)

/-- the answers to calls, one after the other -/
def answers : List StoreCall → Store → List StoreReply
  | [], _ => []
  | call :: rest, s => (s.perform call).1 :: answers rest (s.perform call).2

/-- the store after calls -/
def after : List StoreCall → Store → Store
  | [], s => s
  | call :: rest, s => after rest (s.perform call).2

/-- the feed that is registered by a call, if it is accepted -/
def acceptedBy (s : Store) : StoreCall → Option Feed
  | .register registration =>
    match s.registerOne registration with
    | (.ok (), _) => registration.feed?
    | (.error _, _) => none
  | .next _ _ => none

/-- the feeds that are registered by calls, in their order -/
def accepted : List StoreCall → Store → List Feed
  | [], _ => []
  | call :: rest, s => (s.acceptedBy call).toList ++ accepted rest (s.perform call).2

theorem after_append (first second : List StoreCall) (s : Store) :
    after (first ++ second) s = after second (after first s) := by
  induction first generalizing s with
  | nil => rfl
  | cons call rest ih => exact ih (s.perform call).2

/-! ## what a call does -/

/-- what the identity table has of a reader -/
def listing (r : Registered) : SourceId × SourceEntries := (r.source, r.feed.entries)

/-- **An event that is asked for leaves the table and what it has of the readers**, and is counted if
it is given. -/
theorem next_leaves (s : Store) (factory : Event.Factory) (slot : Option Event) :
    (s.next factory slot).2.1.table = s.table
      ∧ (s.next factory slot).2.1.config = s.config
      ∧ (s.next factory slot).2.1.readers.map listing = s.readers.map listing
      ∧ (s.next factory slot).2.1.eventsRead
        = s.eventsRead + (StoreReply.event (s.next factory slot).1).isEvent.toNat := by
  rw [next]
  split
  · exact ⟨rfl, rfl, rfl, rfl⟩
  · split
    · exact ⟨rfl, rfl, rfl, rfl⟩
    · have hreaders := map_gather (f := listing) (fun _ => rfl) s.readers
      dsimp only
      split
      · exact ⟨rfl, rfl, hreaders, rfl⟩
      · exact ⟨rfl, rfl, hreaders, rfl⟩
      · exact ⟨rfl, rfl, hreaders, rfl⟩

/-- an event that is asked for starts the store, unless there is no reader -/
theorem next_starts {s : Store} (hbegun : s.exhausted = true → s.started = true)
    (factory : Event.Factory) (slot : Option Event) :
    s.readers = [] ∧ (s.next factory slot).2.1 = s
      ∨ (s.next factory slot).2.1.started = true := by
  rw [next]
  split
  · rename_i hempty
    exact .inl ⟨List.isEmpty_iff.mp hempty, rfl⟩
  · refine .inr ?_
    split
    · rename_i hexhausted
      exact hbegun hexhausted
    · dsimp only
      split <;> rfl

theorem registerOne_of_started {s : Store} (h : s.started = true) (registration : Registration) :
    s.registerOne registration = (.error .registrationClosed, s) := by
  cases registration with
  | source feed =>
    rw [registerOne, register, if_pos h]
    rfl
  | runtime names => rw [registerOne, registerRuntime, if_pos h]

theorem perform_register_of_started {s : Store} (h : s.started = true)
    (registration : Registration) :
    s.perform (.register registration) = (.registered (.error .registrationClosed), s) := by
  rw [perform, registerOne_of_started h]

/-! ## a store at any time -/

/-- A store that has accepted `feeds`.  Its readers are theirs and in their order, each under the
number of its position; the table lists them so, each id once; and nothing is exhausted before the
start. -/
structure Stands (s : Store) (feeds : List Feed) : Prop where
  positions : (s.readers.map listing).map (fun entry => (entry.1.toInt, entry.2))
    = feeds.mapIdx fun i feed => ((i : Int), feed.entries)
  sources : s.table.readSources = s.readers.map listing
  ids : (s.table.sources.map Prod.fst).Nodup
  apart : s.config.collisionPolicy = .reject → s.table.sources.Pairwise IdentityTable.Apart
  begun : s.exhausted = true → s.started = true

theorem stands_new (config : StoreConfig) : (new config).Stands [] :=
  ⟨rfl, rfl, List.nodup_nil, fun _ => .nil, (nomatch ·)⟩

namespace Stands

variable {s s' : Store} {feeds : List Feed}

theorem length_readers (h : s.Stands feeds) : s.readers.length = feeds.length := by
  have hlength := congrArg List.length h.positions
  rwa [List.length_map, List.length_map, List.length_mapIdx] at hlength

/-- the next position is not yet the id of a source that is read -/
theorem ne_of_ofPosition (h : s.Stands feeds) {source : SourceId}
    (hposition : SourceId.ofPosition s.readers.length = .ok source) :
    ∀ entry ∈ s.table.readSources, entry.1 ≠ source := by
  have hnumber : source.toInt = (feeds.length : Int) := by
    rw [SourceId.toInt_of_ofPosition hposition, h.length_readers]
  -- the numbers of the readers so far are smaller
  intro entry hentry hsame
  have hmem := List.mem_map_of_mem (f := fun entry => (entry.1.toInt, entry.2))
    (h.sources ▸ hentry)
  rw [h.positions, hsame] at hmem
  obtain ⟨i, hi, hentry⟩ := List.mem_mapIdx.mp hmem
  have hnumbers : (i : Int) = source.toInt := congrArg Prod.fst hentry
  omega

theorem source (h : s.Stands feeds) {feed : Feed}
    (hs : s.registerOne (.source feed) = (.ok (), s')) : s'.Stands (feeds ++ [feed]) := by
  obtain ⟨source, calls, hregister⟩ := registerOne_source hs
  obtain ⟨hposition, table, collisions, hinsert, rfl⟩ := register_inv hregister
  obtain ⟨hids, hapart⟩ := IdentityTable.insert_keeps hinsert h.ids h.apart
  have hnumber : source.toInt = (feeds.length : Int) := by
    rw [SourceId.toInt_of_ofPosition hposition, h.length_readers]
  have hnew := h.ne_of_ofPosition hposition
  refine ⟨?_, ?_, hids, hapart, h.begun⟩
  · show ((s.readers ++ [(⟨source, feed, _⟩ : Registered)]).map listing).map _ = _
    rw [List.map_append, List.map_append, h.positions, List.mapIdx_concat, ← hnumber]
    rfl
  · show table.readSources = (s.readers ++ [(⟨source, feed, _⟩ : Registered)]).map listing
    rw [IdentityTable.insert_ok hinsert, IdentityTable.readSources_merge_new feed.entries
      (SourceId.ne_runtime_of_ofPosition hposition) hnew, h.sources, List.map_append]
    rfl

theorem runtime (h : s.Stands feeds) {names : List String}
    (hs : s.registerOne (.runtime names) = (.ok (), s')) : s'.Stands feeds := by
  obtain ⟨added, -, ⟨-, rfl⟩ | ⟨table, collisions, hinsert, rfl⟩⟩ := registerRuntime_inv hs
  · exact h
  · obtain ⟨hids, hapart⟩ := IdentityTable.insert_keeps hinsert h.ids h.apart
    refine ⟨h.positions, ?_, hids, hapart, h.begun⟩
    show table.readSources = s.readers.map listing
    rw [IdentityTable.insert_ok hinsert, IdentityTable.readSources_merge_runtime, h.sources]

theorem next (h : s.Stands feeds) (factory : Event.Factory) (slot : Option Event) :
    (s.next factory slot).2.1.Stands feeds := by
  obtain ⟨htable, hconfig, hreaders, -⟩ := s.next_leaves factory slot
  exact {
    positions := by rw [hreaders]; exact h.positions
    sources := by rw [htable, hreaders]; exact h.sources
    ids := by rw [htable]; exact h.ids
    apart := by rw [htable, hconfig]; exact h.apart
    begun := by
      rcases next_starts h.begun factory slot with ⟨-, hsame⟩ | hstarted
      · rw [hsame]
        exact h.begun
      · exact fun _ => hstarted }

/-- **Every call keeps what is known of a store**, with the feed that it registers. -/
theorem perform (h : s.Stands feeds) (call : StoreCall) :
    (s.perform call).2.Stands (feeds ++ (s.acceptedBy call).toList) := by
  cases call with
  | next factory slot =>
    rw [acceptedBy, Option.toList_none, List.append_nil]
    exact h.next factory slot
  | register registration =>
    rw [acceptedBy, Store.perform]
    rcases hs : s.registerOne registration with ⟨result, s'⟩
    cases result with
    | error e =>
      rw [registerOne_error hs, Option.toList_none, List.append_nil]
      exact h
    | ok _ =>
      cases registration with
      | source feed => exact h.source hs
      | runtime names =>
        dsimp only [Registration.feed?]
        rw [Option.toList_none, List.append_nil]
        exact h.runtime hs

theorem after (h : s.Stands feeds) (calls : List StoreCall) :
    (Store.after calls s).Stands (feeds ++ accepted calls s) := by
  induction calls generalizing s feeds with
  | nil => rwa [accepted, List.append_nil]
  | cons call rest ih =>
    rw [accepted, ← List.append_assoc]
    exact ih (h.perform call)

end Stands

/-! ## after the start -/

theorem perform_of_started {s : Store} (h : s.started = true) (call : StoreCall) :
    (s.perform call).2.table = s.table ∧ (s.perform call).2.started = true := by
  cases call with
  | register registration =>
    rw [perform_register_of_started h]
    exact ⟨rfl, h⟩
  | next factory slot =>
    refine ⟨(s.next_leaves factory slot).1, ?_⟩
    show (s.next factory slot).2.1.started = true
    rcases next_starts (fun _ => h) factory slot with ⟨-, hsame⟩ | hstarted
    · rwa [hsame]
    · exact hstarted

theorem frozen_after {s : Store} (h : s.started = true) (calls : List StoreCall) :
    (after calls s).table = s.table ∧ (after calls s).started = true := by
  induction calls generalizing s with
  | nil => exact ⟨rfl, h⟩
  | cons call rest ih =>
    obtain ⟨htable, hstarted⟩ := perform_of_started h call
    obtain ⟨htable', hstarted'⟩ := ih hstarted
    exact ⟨htable'.trans htable, hstarted'⟩

/-- every call leaves the configuration and counts the event that it gives -/
theorem perform_leaves (s : Store) (call : StoreCall) :
    (s.perform call).2.config = s.config
      ∧ (s.perform call).2.eventsRead = s.eventsRead + (s.perform call).1.isEvent.toNat := by
  cases call with
  | next factory slot =>
    obtain ⟨-, hconfig, -, hread⟩ := s.next_leaves factory slot
    exact ⟨hconfig, hread⟩
  | register registration =>
    rw [perform]
    rcases hs : s.registerOne registration with ⟨result, s'⟩
    cases result with
    | error e =>
      rw [registerOne_error hs]
      exact ⟨rfl, rfl⟩
    | ok _ =>
      cases registration with
      | source feed =>
        obtain ⟨source, calls, hregister⟩ := registerOne_source hs
        obtain ⟨-, -, hread, hconfig, -, -⟩ := register_ok hregister
        exact ⟨hconfig, hread⟩
      | runtime names =>
        obtain ⟨-, -, hread, hconfig, -⟩ := registerRuntime_ok hs
        exact ⟨hconfig, hread⟩

theorem config_after (calls : List StoreCall) (s : Store) :
    (after calls s).config = s.config := by
  induction calls generalizing s with
  | nil => rfl
  | cons call rest ih => exact (ih _).trans (s.perform_leaves call).1

theorem eventsRead_after (calls : List StoreCall) (s : Store) :
    (after calls s).eventsRead = s.eventsRead + (answers calls s).countP StoreReply.isEvent := by
  induction calls generalizing s with
  | nil => rfl
  | cons call rest ih =>
    rw [after, ih, (s.perform_leaves call).2, answers, List.countP_cons, Nat.add_assoc,
      Nat.add_comm (Bool.toNat _)]
    cases (s.perform call).1.isEvent <;> rfl

/-! ## any calls to a new store -/

/-- **What is registered is listed, until an event is asked for.**  Whatever was asked of a new store:
the table lists the feeds that were accepted, in their order, each with its own names and under the
number of its position, and beside them runtime collections at most once; where collisions are
refused no two sources have a name in common; a registration that fails changes nothing; an event that
was asked for when there was a reader, whatever came of it, has closed registration, and the table is
what it was then; and the events that were given have been counted. -/
theorem listed_after {config : StoreConfig} {calls : List StoreCall} {s : Store}
    (hs : after calls (new config) = s) :
    (s.table.readSources.map fun entry => (entry.1.toInt, entry.2))
        = (accepted calls (new config)).mapIdx (fun i feed => ((i : Int), feed.entries))
      ∧ (s.table.sources.filter fun entry => entry.1 = .runtime).length ≤ 1
      ∧ s.sourceCount = (accepted calls (new config)).length
      ∧ (config.collisionPolicy = .reject → s.table.sources.Pairwise IdentityTable.Apart)
      ∧ (∀ registration error, (s.perform (.register registration)).1 = .registered (.error error) →
          (s.perform (.register registration)).2 = s)
      ∧ (∀ before factory slot behind, calls = before ++ .next factory slot :: behind →
          (after before (new config)).readers ≠ [] →
            s.table = (after before (new config)).table
              ∧ ∀ registration,
                s.perform (.register registration) = (.registered (.error .registrationClosed), s))
      ∧ s.eventsRead = (answers calls (new config)).countP StoreReply.isEvent := by
  have hstands : ∀ calls, (after calls (new config)).Stands (accepted calls (new config)) :=
    fun calls => List.nil_append (accepted calls (new config)) ▸ (stands_new config).after calls
  have h := hs ▸ hstands calls
  refine ⟨?_, ?_, h.length_readers, fun hpolicy => h.apart ?_, fun registration error herror => ?_,
    fun before factory slot behind hcalls hreaders => ?_, ?_⟩
  · rw [h.sources, h.positions]
  · have honce := List.nodup_iff_count.mp h.ids .runtime
    rwa [List.count, List.countP_map, List.countP_eq_length_filter] at honce
  · rw [← hs, config_after]
    exact hpolicy
  · rcases hone : s.registerOne registration with ⟨result, s'⟩
    rw [perform, hone] at herror ⊢
    cases herror
    exact registerOne_error hone
  · rw [hcalls, after_append] at hs
    have hstarted : ((after before (new config)).perform (.next factory slot)).2.started = true :=
      (next_starts (hstands before).begun factory slot).resolve_left fun h => hreaders h.1
    obtain ⟨htable, hstarted⟩ := frozen_after hstarted behind
    rw [← hs]
    refine ⟨htable.trans ((after before (new config)).next_leaves factory slot).1, ?_⟩
    exact perform_register_of_started hstarted
  · rw [← hs, eventsRead_after]
    exact Nat.zero_add _

/-- a feed of no event that provides a name -/
def dryFeed (label name : String) : Feed := ⟨label, NameMap.ofList [(name, ⟨0⟩)], .row, []⟩

/-- two feeds and runtime collections, and between them a feed with a name that is taken -/
def clashingCalls : List StoreCall :=
  [.register (.source (dryFeed "first" "hits")), .register (.source (dryFeed "second" "hits")),
    .register (.runtime ["made"]), .register (.source (dryFeed "third" "notes"))]

/-- a refused registration leaves no gap, and an event that cannot be given closes registration all
the same -/
theorem listed_after_clashing :
    ∃ s : Store, after (clashingCalls ++ [.next ⟨.lazy, .replace, false⟩ none])
        (new { collisionPolicy := .reject }) = s
      ∧ (s.table.readSources.map fun entry => (entry.1.toInt, entry.2))
        = [(0, NameMap.ofList [("hits", ⟨0⟩)]), (1, NameMap.ofList [("notes", ⟨0⟩)])]
      ∧ s.sourceCount = 2 ∧ s.eventsRead = 0
      ∧ s.perform (.register (.runtime ["later"]))
        = (.registered (.error .registrationClosed), s) := by
  have hafter : after (clashingCalls ++ [.next ⟨.lazy, .replace, false⟩ none])
      (new { collisionPolicy := .reject }) = _ := rfl
  obtain ⟨htable, -, hcount, -, -, hclosed, hread⟩ := listed_after hafter
  obtain ⟨-, hrefused⟩ := hclosed clashingCalls ⟨.lazy, .replace, false⟩ none [] rfl (by decide)
  exact ⟨_, rfl, htable, hcount, hread, hrefused _⟩

end Store

end EventMerge
