import EventMerge.Proofs.Event.Settling
import EventMerge.Proofs.Run.Finishing

/-!
# When the collections of a run are decoded

A run in order comes to the same, whatever the kind of its events, and whether an event is made from
the one before it or not: every event is asked for all known names before anything is put in, and
nothing is left of an event in the one that is made from it.

* `RunConfig.withEvents`     a configuration with events of another kind, reused or not;
* `Run.new_withEvents`       registration does not depend on the events;
* `Writer.writeToAll_congr`  writers take the same of events that offer the same;
* `Run.loop_withEvents`      one event after the other;
* `Run.conduct`              a run from its registration to its end;
* `Run.conduct_withEvents`   how it ends does not depend on the events.
-/

namespace EventMerge

/-! ## other events -/

def StoreConfig.withEvents (c : StoreConfig) (kind : EventKind) (reuse : Bool) : StoreConfig :=
  { c with eventKind := kind, reuseEvents := reuse }

/-- the configuration with events of another kind, reused or not -/
def RunConfig.withEvents (c : RunConfig) (kind : EventKind) (reuse : Bool) : RunConfig :=
  { c with store := c.store.withEvents kind reuse }

def Store.withEvents (s : Store) (kind : EventKind) (reuse : Bool) : Store :=
  { s with config := s.config.withEvents kind reuse }

def Run.withEvents (r : Run) (kind : EventKind) (reuse : Bool) : Run :=
  { r with store := r.store.withEvents kind reuse, config := r.config.withEvents kind reuse }

section

variable (kind : EventKind) (reuse : Bool)

/-! ## registration -/

namespace Store

theorem register_withEvents (s : Store) (feed : Feed) :
    (s.withEvents kind reuse).register feed
      = ((s.register feed).1, (s.register feed).2.1.withEvents kind reuse,
          (s.register feed).2.2) := by
  obtain ⟨config, readers, table, started, exhausted, eventsRead⟩ := s
  simp only [register, withEvents, StoreConfig.withEvents]
  cases started with
  | true => rfl
  | false =>
    cases SourceId.ofPosition readers.length with
    | error e => rfl
    | ok source =>
      rcases hinsert : table.insert source feed.entries config.collisionPolicy with ⟨result, table'⟩
      cases result <;> simp [hinsert]

theorem registerRuntime_withEvents (s : Store) (names : List String) :
    (s.withEvents kind reuse).registerRuntime names
      = ((s.registerRuntime names).1, (s.registerRuntime names).2.withEvents kind reuse) := by
  obtain ⟨config, readers, table, started, exhausted, eventsRead⟩ := s
  simp only [registerRuntime, runtimeEntries, withEvents, StoreConfig.withEvents]
  cases started with
  | true => rfl
  | false =>
    cases numberNames ((table.entriesOf? SourceId.runtime).getD .empty) names .empty with
    | error e => rfl
    | ok added =>
      cases hempty : added.isEmpty with
      | true => simp [hempty]
      | false =>
        rcases hinsert : table.insert SourceId.runtime added config.collisionPolicy
          with ⟨result, table'⟩
        cases result <;> simp [hempty, hinsert]

end Store

namespace Run

theorem registerFeeds_withEvents (feeds : List Feed) (s : Store) :
    registerFeeds feeds (s.withEvents kind reuse)
      = (registerFeeds feeds s).map fun s => s.withEvents kind reuse := by
  induction feeds generalizing s with
  | nil => rfl
  | cons feed rest ih =>
    rw [registerFeeds, registerFeeds, Store.register_withEvents]
    rcases s.register feed with ⟨result, next, calls⟩
    cases result with
    | error e => rfl
    | ok source => exact ih next

/-- **Registration does not depend on the events.** -/
theorem new_withEvents (config : RunConfig) (feeds : List Feed) (writers : List Writer) :
    Run.new (config.withEvents kind reuse) feeds writers
      = ((Run.new config feeds writers).1.map fun r => r.withEvents kind reuse,
          (Run.new config feeds writers).2) := by
  have hfeeds : registerFeeds feeds (.new (config.store.withEvents kind reuse))
      = (registerFeeds feeds (.new config.store)).map fun s => s.withEvents kind reuse :=
    registerFeeds_withEvents kind reuse feeds (.new config.store)
  rw [Run.new, Run.new, RunConfig.withEvents, hfeeds]
  cases registerFeeds feeds (.new config.store) with
  | error f => rfl
  | ok fed =>
    have hruntime := fed.registerRuntime_withEvents kind reuse config.newCollections
    dsimp only [Except.map] at hruntime ⊢
    rw [hruntime]
    rcases fed.registerRuntime config.newCollections with ⟨result, s⟩
    cases result with
    | error e => rfl
    | ok _ =>
      dsimp only [Except.map, Store.withEvents]
      rcases prepareWriters (config.writeCollections.filter s.table.contains) s.table writers
        with ⟨result, prepared⟩
      cases result <;> rfl

end Run

/-! ## fetching -/

namespace Store

theorem pull_withEvents (s : Store) :
    (s.withEvents kind reuse).pull = (s.pull.1, s.pull.2.withEvents kind reuse) := by
  obtain ⟨config, readers, table, started, exhausted, eventsRead⟩ := s
  simp only [pull, withEvents]
  cases readers with
  | nil => rfl
  | cons first rest =>
    cases exhausted with
    | true => rfl
    | false => cases (gather (first :: rest)).1 <;> rfl

theorem fetch_withEvents (limit : Option Nat) (s : Store) :
    (s.withEvents kind reuse).fetch limit
      = ((s.fetch limit).1, (s.fetch limit).2.withEvents kind reuse) := by
  have hfull : (s.withEvents kind reuse).isFull limit = s.isFull limit := rfl
  rw [fetch, fetch, hfull]
  split
  · rfl
  · exact s.pull_withEvents kind reuse

end Store

end

/-! ## writing -/

namespace Writer

variable {e e' : Event} {raw : Option RawData} (names : List String)

theorem writeEvent_congr (w : Writer)
    (h : ∀ asked, (e'.collectionsForWrite asked).value = (e.collectionsForWrite asked).value) :
    (w.writeEvent e' names).value = (w.writeEvent e names).value := by
  cases w with
  | table w canSave =>
    rw [writeEvent, writeEvent, TableWriter.writeEvent_value, TableWriter.writeEvent_value,
      TableWriter.addEvent, TableWriter.addEvent, TableWriter.offersFor, TableWriter.offersFor, h]
  | pack w =>
    rw [writeEvent, writeEvent, PackWriter.writeEvent, PackWriter.writeEvent]
    split
    · rfl
    · dsimp only
      rw [h]

/-- **Writers take the same of events that offer the same.** -/
theorem writeToAll_congr (writers : List Writer) (he : e.Follows raw) (he' : e'.Follows raw)
    (h : ∀ asked, (e'.collectionsForWrite asked).value = (e.collectionsForWrite asked).value) :
    (writeToAll names writers e').1 = (writeToAll names writers e).1 := by
  induction writers generalizing e e' with
  | nil => rfl
  | cons w rest ih =>
    have hrest := ih (follows_writeEvent he w names) (follows_writeEvent he' w names)
      fun asked => by rw [offers_writeEvent he', offers_writeEvent he, h]
    rw [writeToAll, writeToAll]
    dsimp only
    rw [w.writeEvent_congr names h]
    rcases (w.writeEvent e names).value with ⟨result, written⟩
    cases result with
    | error error => rfl
    | ok _ => exact congrArg (fun written' => (written'.1, written :: written'.2)) hrest

end Writer

/-! ## one event -/

namespace Run

open Pool (pairFeed pairWriters)

variable {r : Run} {known : List String}

theorem handle_keeps {r' : Run} {e event : Event} {result : Except Failure Nat}
    (h : r.handle known e = (result, r', event)) :
    r'.store = r.store ∧ r'.config = r.config ∧ event.putPolicy = e.putPolicy := by
  have hprocessed := e.putPolicy_process known r.config.newCollections
  have hwritten := Writer.putPolicy_writeToAll r.config.writeCollections r.writers
    (e.process known r.config.newCollections).event
  rw [handle] at h
  split at h
  · cases h
    exact ⟨rfl, rfl, hprocessed⟩
  · split at h
    all_goals
      rename_i heq
      cases h
      rw [heq] at hwritten
      exact ⟨rfl, rfl, hwritten.trans hprocessed⟩

theorem handle_withEvents (r : Run) (kind : EventKind) (reuse : Bool) {e e' : Event}
    {raw : RawData} (h : Event.Beside e e' (some raw)) (hknown : ∀ name ∈ raw.knownNames, name ∈ known) :
    ((r.withEvents kind reuse).handle known e').1 = (r.handle known e).1
      ∧ ((r.withEvents kind reuse).handle known e').2.1
        = (r.handle known e).2.1.withEvents kind reuse := by
  obtain ⟨hvalue, hevents⟩ := h.process hknown r.config.newCollections
  have hwritten := Writer.writeToAll_congr r.config.writeCollections r.writers hevents.left
    hevents.right fun asked => (hevents.collectionsForWrite asked).symm
  have hnew : (r.withEvents kind reuse).config.newCollections = r.config.newCollections := rfl
  have hselected :
    (r.withEvents kind reuse).config.writeCollections = r.config.writeCollections := rfl
  have hwriters : (r.withEvents kind reuse).writers = r.writers := rfl
  rw [handle, handle, hnew, hselected, hwriters, ← hvalue]
  cases (e.process known r.config.newCollections).value with
  | error error => exact ⟨rfl, rfl⟩
  | ok found =>
    dsimp only
    generalize Writer.writeToAll _ _ (e.process _ _).event = one at hwritten ⊢
    generalize Writer.writeToAll _ _ (e'.process _ _).event = other at hwritten ⊢
    obtain ⟨⟨result, writers⟩, event⟩ := one
    obtain ⟨_, event'⟩ := other
    cases hwritten
    cases result <;> exact ⟨rfl, rfl⟩

/-! ## one event after the other -/

section

variable {fuel found more : Nat} {slot : Option Event} {s : Store} {raw : RawData} {next : Run}
  {event : Event}

theorem loop_handled (hfetch : r.store.fetch r.config.maxEvents = (.ok (some raw), s))
    (h : ({ r with store := s } : Run).handle known
      ((Event.make r.config.store.factory slot).setRaw raw) = (.ok more, next, event)) :
    loop known (fuel + 1) found slot r = loop known fuel (found + more) (some event) next := by
  rw [loop_succ, hfetch]
  dsimp only
  rw [h]

theorem loop_failed {f : Failure} (hfetch : r.store.fetch r.config.maxEvents = (.ok (some raw), s))
    (h : ({ r with store := s } : Run).handle known
      ((Event.make r.config.store.factory slot).setRaw raw) = (.error f, next, event)) :
    loop known (fuel + 1) found slot r = (.error f, next) := by
  rw [loop_succ, hfetch]
  dsimp only
  rw [h]

end

variable {kind : EventKind} {reuse : Bool}

/-- **The kind of the events and whether they are reused make no difference to a run in order**:
what is left of an event that is reused is its policy, which is that of all events. -/
theorem loop_withEvents {fuel found : Nat} {slot slot' : Option Event}
    (htable : r.store.table.names = known)
    (hslot : ∀ old ∈ slot, old.putPolicy = r.config.store.putPolicy)
    (hslot' : ∀ old ∈ slot', old.putPolicy = r.config.store.putPolicy) :
    loop known fuel found slot' (r.withEvents kind reuse)
      = ((loop known fuel found slot r).1, (loop known fuel found slot r).2.withEvents kind reuse) := by
  induction fuel generalizing found slot slot' r with
  | zero => rfl
  | succ fuel ih =>
    have hfetch := r.store.fetch_withEvents kind reuse r.config.maxEvents
    rcases hnext : r.store.fetch r.config.maxEvents with ⟨result, s⟩
    rw [hnext] at hfetch
    have hfetch' : (r.withEvents kind reuse).store.fetch (r.withEvents kind reuse).config.maxEvents
      = (result, s.withEvents kind reuse) := hfetch
    rcases result with e | _ | raw
    · rw [loop_succ, loop_succ, hnext, hfetch']
      rfl
    · rw [loop_succ, loop_succ, hnext, hfetch']
      rfl
    · obtain ⟨-, hpull⟩ := Store.isFull_eq_false_of_fetch_some hnext
      obtain ⟨hraw, hkept, -⟩ := Store.pull_some hpull
      have hknown : ∀ name ∈ raw.knownNames, name ∈ known := fun name hname => by
        rwa [← htable, ← hraw]
      have hsame : r.config.store.factory.putPolicy
        = (r.withEvents kind reuse).config.store.factory.putPolicy := rfl
      have hbeside := Event.beside_make hsame hslot hslot' raw
      have hpolicy : ((Event.make r.config.store.factory slot).setRaw raw).putPolicy
        = r.config.store.putPolicy := congrArg Event.putPolicy (Event.make_eq_fresh _ hslot)
      obtain ⟨hresult, hrun⟩ :=
        ({ r with store := s } : Run).handle_withEvents kind reuse hbeside hknown
      rcases hone : ({ r with store := s } : Run).handle known
        ((Event.make r.config.store.factory slot).setRaw raw) with ⟨result, next, event⟩
      rcases hother : (({ r with store := s } : Run).withEvents kind reuse).handle known
        ((Event.make (r.withEvents kind reuse).config.store.factory slot').setRaw raw)
        with ⟨result', next', event'⟩
      rw [hone, hother] at hresult hrun
      obtain rfl : result' = result := hresult
      obtain rfl : next' = next.withEvents kind reuse := hrun
      cases result' with
      | error f => rw [loop_failed hnext hone, loop_failed hfetch' hother]
      | ok more =>
        obtain ⟨hstore, hconfig, hleft⟩ := handle_keeps hone
        obtain ⟨-, -, hright⟩ := handle_keeps hother
        rw [loop_handled hnext hone, loop_handled hfetch' hother]
        refine ih ?_ (fun old hold => ?_) fun old hold => ?_
        · rw [hstore, ← htable]
          exact congrArg _ hkept
        · cases hold
          rw [hleft, hpolicy, hconfig]
        · cases hold
          rw [hright, ← hbeside.policy, hpolicy, hconfig]

/-! ## whole runs -/

theorem sequential_withEvents :
    (r.withEvents kind reuse).sequential
      = (r.sequential.1, r.sequential.2.withEvents kind reuse) :=
  loop_withEvents rfl (fun _ => nofun) fun _ => nofun

theorem execute_withEvents (hthreads : r.config.threads ≤ 1) :
    (r.withEvents kind reuse).execute = r.execute := by
  have hone : max r.config.threads 1 = 1 := Nat.max_eq_right hthreads
  have hsame : (r.withEvents kind reuse).config.threads = r.config.threads := rfl
  rw [execute, execute, hsame, hone, if_pos rfl, if_pos rfl, sequential_withEvents]
  rcases r.sequential with ⟨result, last⟩
  cases result <;> rfl

/-- a run from its registration to its end -/
def conduct (config : RunConfig) (feeds : List Feed) (writers : List Writer) : Ending :=
  match Run.new config feeds writers with
  | (.error f, writers) => ⟨.error f, [], writers⟩
  | (.ok r, _) => r.execute

/-- **How a run with one worker ends does not depend on the kind of its events, nor on whether they
are reused**: neither its summary or failure, nor what any writer holds. -/
theorem conduct_withEvents {config : RunConfig} (hthreads : config.threads ≤ 1) (kind : EventKind)
    (reuse : Bool) (feeds : List Feed) (writers : List Writer) :
    conduct (config.withEvents kind reuse) feeds writers = conduct config feeds writers := by
  rw [conduct, conduct, new_withEvents]
  rcases hnew : Run.new config feeds writers with ⟨result, prepared⟩
  cases result with
  | error f => rfl
  | ok r =>
    have hbegun := begun_of_new (congrArg Prod.fst hnew)
    refine execute_withEvents ?_
    rw [hbegun.config]
    exact hthreads

/-- a run that is to make a collection which the first of its two events has already -/
def keepingConfig : RunConfig :=
  { store := { putPolicy := .keepOriginal }, newCollections := ["hits"] }

theorem conduct_withEvents_keeping :
    (conduct keepingConfig [pairFeed] pairWriters).result = .ok ⟨2, 1, 1, 1, 2⟩
      ∧ conduct (keepingConfig.withEvents .lazy true) [pairFeed] pairWriters
        = conduct keepingConfig [pairFeed] pairWriters := by
  have hthreads : keepingConfig.threads ≤ 1 := Nat.le_refl 1
  exact ⟨rfl, conduct_withEvents hthreads .lazy true [pairFeed] pairWriters⟩

end Run

end EventMerge
