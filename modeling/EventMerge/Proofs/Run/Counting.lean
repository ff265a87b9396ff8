import EventMerge.Proofs.Event.Counting
import EventMerge.Proofs.Run.Ending

/-!
# The collections that a run finds

A run adds up what is counted in its events.  That is one for every event and every known name under
which the sources have a valid collection, and one more for every event in which they have one under the
name that nobody is expected to provide: if a source provides it, it is counted twice.

* `RawData.countValid`        the names under which raw data have a valid collection;
* `RunConfig.foundIn_of_processed`  what is counted in an event of raw data;
* `Run.Counted`               what a run counts;
* `Pool.Counts`               what the workers have counted, as long as none has failed;
* `Pool.counted_steps`        what they have counted once all have stopped;
* `Run.counted_execute`       what a run has counted;
* `Run.found_counted`         what is counted in an event and in a run.
-/

namespace EventMerge

open Event (missingCollection)

theorem total_congr {α : Type} {measure measure' : α → Nat} {l : List α}
    (h : ∀ a ∈ l, measure a = measure' a) : total measure l = total measure' l := by
  induction l with
  | nil => rfl
  | cons a rest ih =>
    rw [total_cons, total_cons, h a List.mem_cons_self, ih fun b hb => h b (List.mem_cons_of_mem _ hb)]

/-! ## one event -/

/-- the number of names in a list under which raw data have a valid collection -/
def RawData.countValid (names : List String) (raw : RawData) : Nat :=
  names.countP fun name => (raw.readable? name).isSome

theorem RawData.countValid_append (first second : List String) (raw : RawData) :
    raw.countValid (first ++ second) = raw.countValid first + raw.countValid second :=
  List.countP_append

namespace RunConfig

/-- before an event is processed its valid collections are those of its raw data -/
theorem showsValid_made (c : RunConfig) (raw : RawData) (name : String) :
    (c.made raw).showsValid name = (raw.readable? name).isSome := by
  have hfollows : (c.made raw).Follows (some raw) := Event.follows_setRaw _ raw
  obtain ⟨found, hvalue, hfound⟩ := hfollows.get_value rfl name
  have hshown : (c.made raw).shown? (some raw) name = raw.decoded? name := by
    rw [Event.shown?, c.runtime?_made, Option.none_or]
    rfl
  rw [hshown] at hfound
  rw [Event.showsValid, hvalue, RawData.readable?_eq]
  cases found with
  | none =>
    rw [Option.map_none, eq_comm, Option.map_eq_none_iff] at hfound
    rw [hfound]
    rfl
  | some collection =>
    obtain ⟨decoded, hdecoded, hsame⟩ := Option.map_eq_some_iff.mp hfound.symm
    have hvalid : decoded.valid = collection.valid := (Collection.mk.inj hsame).2.1
    show collection.valid = _
    rw [hdecoded, ← hvalid]
    cases hmark : decoded.valid <;> simp [hmark]

theorem countP_showsValid_made (c : RunConfig) (names : List String) (raw : RawData) :
    names.countP (c.made raw).showsValid = raw.countValid names :=
  List.countP_congr fun name _ => by rw [showsValid_made]

theorem foundIn_of_processed {c : RunConfig} {known : List String} {raw : RawData} {found : Nat}
    (h : (c.processed known raw).value = .ok found) :
    c.foundIn known raw = raw.countValid (known ++ [missingCollection]) := by
  rw [foundIn_eq h, Event.process_found h, countP_showsValid_made]

end RunConfig

/-! ## runs -/

namespace Run

/-- the names that every event of a run is asked for -/
def askedFor (r : Run) : List String := r.store.collectionNames ++ [missingCollection]

/-- A run has read so many events and found so many collections in them: those that are valid under a
known name, and once more those under the name that nobody is expected to provide.  So the number is
right if and only if there are none of these. -/
def Counted (r : Run) (events found : Nat) : Prop :=
  ∃ raws last, r.store.Supplies r.config.maxEvents raws last ∧ events = raws.length
    ∧ found = total (RawData.countValid r.store.collectionNames) raws
      + (raws.countP fun raw => (raw.readable? missingCollection).isSome)
    ∧ (found = total (RawData.countValid r.store.collectionNames) raws
      ↔ ∀ raw ∈ raws, raw.readable? missingCollection = none)

theorem total_countValid_askedFor (r : Run) (raws : List RawData) :
    total (RawData.countValid r.askedFor) raws
      = total (RawData.countValid r.store.collectionNames) raws
        + raws.countP fun raw => (raw.readable? missingCollection).isSome := by
  induction raws with
  | nil => rfl
  | cons raw rest ih =>
    have hone : raw.countValid [missingCollection]
        = if (raw.readable? missingCollection).isSome = true then 1 else 0 := by
      rw [RawData.countValid, List.countP_singleton]
    rw [total_cons, total_cons, ih, askedFor, RawData.countValid_append, hone, List.countP_cons]
    omega

theorem counted_of_supplies {r : Run} {raws : List RawData} {last : Store}
    (hunread : r.store.eventsRead = 0) (h : r.store.Supplies r.config.maxEvents raws last) :
    r.Counted last.eventsRead (total (RawData.countValid r.askedFor) raws) := by
  refine ⟨raws, last, h, ?_, r.total_countValid_askedFor raws, ?_⟩
  · rw [h.eventsRead_eq, hunread, Nat.zero_add]
  · rw [r.total_countValid_askedFor, Nat.add_eq_left, List.countP_eq_zero]
    simp only [Bool.not_eq_true, Option.isSome_eq_false_iff, Option.isNone_iff_eq_none]

end Run

/-! ## several workers -/

theorem Store.Supplies.of_dry {limit : Option Nat} {s s' : Store} {raws : List RawData}
    (h : s.Supplies limit raws s') (hdry : s.fetch limit = (.ok none, s)) : raws = [] ∧ s' = s := by
  cases h with
  | done hfetch =>
    rw [hdry] at hfetch
    cases hfetch
    exact ⟨rfl, rfl⟩
  | more hfetch _ =>
    rw [hdry] at hfetch
    cases hfetch

/-- the valid collections in an event that a worker has yet to process -/
def Worker.toCount (names : List String) (w : Worker) : Nat :=
  match w.state with
  | .processing e => names.countP e.showsValid
  | _ => 0

namespace Pool

/-- A pool that works for the run `r` and has fetched some raw data, so that the store goes on behind
them.  What the workers have counted, and will count in the events that they have in hand, is what there
is to be counted in the raw data. -/
structure Counts (r : Run) (p : Pool) (fetched : List RawData) : Prop where
  known : p.known = r.store.collectionNames
  config : p.run.config = r.config
  onward : ∀ remaining last, p.run.store.Supplies r.config.maxEvents remaining last →
    r.store.Supplies r.config.maxEvents (fetched ++ remaining) last
  found : total Worker.found p.workers + total (Worker.toCount r.askedFor) p.workers
    = total (RawData.countValid r.askedFor) fetched
  stopped : (∃ w ∈ p.workers, w.state = .stopped) →
    p.run.store.fetch r.config.maxEvents = (.ok none, p.run.store)

theorem counts_new (r : Run) (threads : Nat) : Counts r (Pool.new r threads) [] := by
  have hidle : ∀ w ∈ (Pool.new r threads).workers, w = {} :=
    fun w hw => (List.mem_replicate.mp hw).2
  refine ⟨rfl, rfl, fun _ _ => id, ?_, ?_⟩
  · rw [total_eq_zero fun w hw => by rw [hidle w hw], total_eq_zero fun w hw => by
      rw [hidle w hw]; rfl]
    rfl
  · rintro ⟨w, hw, hstopped⟩
    rw [hidle w hw] at hstopped
    cases hstopped

namespace Counts

variable {r : Run} {p : Pool} {fetched fetched' : List RawData} {i : Nat} {w w' : Worker} {run' : Run}

/-- a step that changes one worker -/
theorem replace (h : Counts r p fetched) (hw : p.workers[i]? = some w)
    (hconfig : run'.config = r.config)
    (honward : ∀ remaining last, run'.store.Supplies r.config.maxEvents remaining last →
      r.store.Supplies r.config.maxEvents (fetched' ++ remaining) last)
    (hfound : w'.found + w'.toCount r.askedFor + total (RawData.countValid r.askedFor) fetched
      = w.found + w.toCount r.askedFor + total (RawData.countValid r.askedFor) fetched')
    (hstopped : w'.state = .stopped ∨ (∃ v ∈ p.workers, v.state = .stopped) →
      run'.store.fetch r.config.maxEvents = (.ok none, run'.store)) :
    Counts r { p with run := run', workers := p.workers.set i w' } fetched' := by
  refine ⟨h.known, hconfig, honward, ?_, ?_⟩
  · have htotal := h.found
    have hbefore := perm_cons_eraseIdx hw
    have hafter := set_perm_cons_eraseIdx hw w'
    rw [total_perm _ hbefore, total_perm _ hbefore, total_cons, total_cons] at htotal
    rw [total_perm _ hafter, total_perm _ hafter, total_cons, total_cons]
    omega
  · rintro ⟨v, hv, hv'⟩
    rcases List.mem_or_eq_of_mem_set hv with hv | rfl
    · exact hstopped (.inr ⟨v, hv, hv'⟩)
    · exact hstopped (.inl hv')

theorem fetch (h : Counts r p fetched) (hw : p.workers[i]? = some w) (hstate : w.state = .fetching)
    (hfailure : (Pool.fetch p.run).1.failure? = none) :
    ∃ fetched', Counts r
      { p with
        run := (Pool.fetch p.run).2
        workers := p.workers.set i { w with state := (Pool.fetch p.run).1 } } fetched' := by
  have htoCount : w.toCount r.askedFor = 0 := by
    rw [Worker.toCount, hstate]
  rw [fetch_eq, h.config] at hfailure ⊢
  split at hfailure
  · cases hfailure
  · rename_i s hfetch
    have hdry := (Store.fetch_none hfetch).1
    refine ⟨fetched, h.replace hw rfl (fun remaining last hrest => ?_) ?_ fun _ => hdry⟩
    · -- a store that is dry stays so, and nothing comes behind
      obtain ⟨rfl, hlast⟩ := hrest.of_dry hdry
      rw [hlast]
      exact h.onward [] s (.done hfetch)
    · rw [htoCount]
      rfl
  · rename_i raw s hfetch
    refine ⟨fetched ++ [raw], h.replace hw rfl (fun remaining last hrest => ?_) ?_ fun hstopped => ?_⟩
    · rw [List.append_assoc]
      exact h.onward (raw :: remaining) last (.more hfetch hrest)
    · rw [htoCount, total_append, total_cons, total_nil]
      show w.found + r.askedFor.countP (r.config.made raw).showsValid + _ = _
      rw [r.config.countP_showsValid_made]
      omega
    · rcases hstopped with hstopped | hstopped
      · cases hstopped
      · rw [h.stopped hstopped] at hfetch
        cases hfetch

theorem process (h : Counts r p fetched) (hw : p.workers[i]? = some w) {e : Event} {found : Nat}
    (hstate : w.state = .processing e)
    (hfound : (e.process p.known p.run.config.newCollections).value = .ok found) :
    Counts r
      { p with
        workers := p.workers.set i
          ⟨.writing (e.process p.known p.run.config.newCollections).event, w.found + found⟩ }
      fetched := by
  refine h.replace hw h.config h.onward ?_ fun hstopped => ?_
  · have htoCount : w.toCount r.askedFor = found := by
      rw [Worker.toCount, hstate, Event.process_found hfound, h.known]
      rfl
    rw [htoCount]
    rfl
  · rcases hstopped with hstopped | hstopped
    · cases hstopped
    · exact h.stopped hstopped

theorem write (h : Counts r p fetched) (hw : p.workers[i]? = some w) {e : Event}
    (hstate : w.state = .writing e) (writers : List Writer) :
    Counts r
      { p with
        run := { p.run with writers := writers }
        workers := p.workers.set i { w with state := .fetching } } fetched := by
  refine h.replace hw h.config h.onward ?_ fun hstopped => ?_
  · rw [Worker.toCount, Worker.toCount, hstate]
  · rcases hstopped with hstopped | hstopped
    · cases hstopped
    · exact h.stopped hstopped

end Counts

/-! ## workers that have not failed -/

theorem failure?_eq_none_iff {p : Pool} :
    p.failure? = none ↔ ∀ w ∈ p.workers, w.state.failure? = none :=
  List.findSome?_eq_none_iff

theorem failure?_stepWorker {known : List String} {r : Run} {w : Worker}
    (h : (stepWorker known r w).1.state.failure? = none) : w.state.failure? = none := by
  cases hstate : w.state with
  | failed failure =>
    rw [stepWorker, hstate] at h
    dsimp only at h
    rwa [hstate] at h
  | fetching => rfl
  | processing e => rfl
  | writing e => rfl
  | stopped => rfl

/-- a worker that has failed stays so -/
theorem failure?_step {p : Pool} {i : Nat} (h : (p.step i).failure? = none) : p.failure? = none := by
  rw [step] at h
  split at h
  · exact h
  · rename_i w hw
    obtain ⟨hi, -⟩ := List.getElem?_eq_some_iff.mp hw
    rw [failure?_eq_none_iff] at h ⊢
    intro v hv
    obtain ⟨j, hj⟩ := List.mem_iff_getElem?.mp hv
    by_cases hplace : i = j
    · subst hplace
      rw [hw] at hj
      cases hj
      exact failure?_stepWorker (h _ (List.mem_set hi _))
    · refine h v (List.mem_iff_getElem?.mpr ⟨j, ?_⟩)
      rw [List.getElem?_set_ne hplace, hj]

theorem failure?_steps {p : Pool} {schedule : List Nat} (h : (p.steps schedule).failure? = none) :
    p.failure? = none := by
  induction schedule generalizing p with
  | nil => exact h
  | cons i rest ih => exact failure?_step (ih h)

variable {r : Run} {p : Pool} {fetched : List RawData}

/-- **Steps of workers of which none fails keep the count.** -/
theorem Counts.step (h : Counts r p fetched) {i : Nat} (hfailure : (p.step i).failure? = none) :
    ∃ fetched', Counts r (p.step i) fetched' := by
  rw [Pool.step] at hfailure ⊢
  cases hw : p.workers[i]? with
  | none => exact ⟨fetched, h⟩
  | some w =>
    obtain ⟨hi, hsame⟩ := List.getElem?_eq_some_iff.mp hw
    rw [hw] at hfailure
    have hworker := failure?_eq_none_iff.mp hfailure _ (List.mem_set hi _)
    dsimp only at hworker ⊢
    rw [stepWorker] at hworker ⊢
    cases hstate : w.state with
    | fetching =>
      rw [hstate] at hworker
      exact h.fetch hw hstate hworker
    | processing e =>
      rw [hstate] at hworker
      dsimp only at hworker ⊢
      split at hworker
      · cases hworker
      · rename_i found hfound
        exact ⟨fetched, h.process hw hstate hfound⟩
    | writing e =>
      rw [hstate] at hworker
      dsimp only at hworker ⊢
      split at hworker
      · cases hworker
      · exact ⟨fetched, h.write hw hstate _⟩
    | stopped | failed failure =>
      refine ⟨fetched, ?_⟩
      dsimp only
      rw [← hsame, List.set_getElem_self]
      exact h

theorem Counts.steps (h : Counts r p fetched) {schedule : List Nat}
    (hfailure : (p.steps schedule).failure? = none) :
    ∃ fetched', Counts r (p.steps schedule) fetched' := by
  induction schedule generalizing p fetched with
  | nil => exact ⟨fetched, h⟩
  | cons i rest ih =>
    obtain ⟨fetched', hnext⟩ := h.step (failure?_steps hfailure)
    exact ih hnext hfailure

/-- **However the workers take turns, once all have stopped without a failure they have counted the
events of the run.** -/
theorem counted_steps (hunread : r.store.eventsRead = 0) {threads : Nat} (hthreads : 0 < threads)
    {schedule : List Nat} (hp : (Pool.new r threads).steps schedule = p) (hover : p.isOver = true)
    (hfailure : p.failure? = none) : r.Counted p.run.store.eventsRead p.found := by
  obtain ⟨fetched, h⟩ := (counts_new r threads).steps (hp.symm ▸ hfailure)
  rw [hp] at h
  have hstopped : ∀ w ∈ p.workers, w.state = .stopped := fun w hw =>
    WorkerState.eq_stopped (List.all_eq_true.mp hover w hw) (failure?_eq_none_iff.mp hfailure w hw)
  have hworkers : p.workers ≠ [] := by
    rw [← hp]
    exact workers_steps_ne_nil (by simp [Pool.new]; omega) schedule
  -- a worker has stopped because the store was dry, so all that there was has been fetched
  obtain ⟨w, hw⟩ := List.exists_mem_of_ne_nil p.workers hworkers
  have hdry := h.stopped ⟨w, hw, hstopped w hw⟩
  have hsupplies := h.onward [] p.run.store (.done hdry)
  rw [List.append_nil] at hsupplies
  have htoCount : total (Worker.toCount r.askedFor) p.workers = 0 :=
    total_eq_zero fun v hv => by rw [Worker.toCount, hstopped v hv]
  have hfound := h.found
  rw [htoCount, Nat.add_zero] at hfound
  rw [found, hfound]
  exact Run.counted_of_supplies hunread hsupplies

end Pool

/-! ## whole runs -/

namespace Run

variable {r : Run}

theorem counted_sequential {r' : Run} {found : Nat} (hready : r.Ready r.store.collectionNames)
    (hunread : r.store.eventsRead = 0) (h : r.sequential = (.ok found, r')) :
    r.Counted r'.store.eventsRead found := by
  obtain ⟨raws, last, hsucceeds, htotal, rfl, -⟩ := sequential_ok hready h
  have hsame : total (r.config.foundIn r.store.collectionNames) raws
      = total (RawData.countValid r.askedFor) raws := by
    refine total_congr fun raw hraw => ?_
    obtain ⟨found, hfound⟩ := hsucceeds.processed raw hraw
    exact RunConfig.foundIn_of_processed hfound
  rw [htotal, hsame]
  exact counted_of_supplies hunread hsucceeds.supplies

theorem counted_parallel {r' : Run} {found threads : Nat} (hthreads : 0 < threads)
    (hunread : r.store.eventsRead = 0) (h : r.parallel threads = (.ok found, r')) :
    r.Counted r'.store.eventsRead found := by
  rw [parallel] at h
  split at h
  · cases h
  · rename_i hfailure
    cases h
    obtain ⟨schedule, hrounds⟩ := Pool.exists_schedule (3 * (eventBound r.store + 1) + 1)
      (Pool.new r threads)
    exact Pool.counted_steps hunread hthreads hrounds.symm (Pool.isOver_runToEnd r threads) hfailure

theorem counted_execute {summary : RunSummary} (hready : r.Ready r.store.collectionNames)
    (hunread : r.store.eventsRead = 0) (h : r.execute.result = .ok summary) :
    r.Counted summary.events summary.collectionsFound := by
  rw [execute] at h
  have hcounted : ∀ found r', (if max r.config.threads 1 = 1 then r.sequential
      else r.parallel (max r.config.threads 1)) = (.ok found, r') →
      r.Counted r'.store.eventsRead found := by
    intro found r' hread
    split at hread
    · exact counted_sequential hready hunread hread
    · exact counted_parallel (by omega) hunread hread
  generalize (if max r.config.threads 1 = 1 then r.sequential
    else r.parallel (max r.config.threads 1)) = outcome at h hcounted
  obtain ⟨f | found, r'⟩ := outcome
  · cases h
  · obtain ⟨hevents, hfound⟩ := summary_of_complete h
    rw [hevents, hfound]
    exact hcounted found r' rfl

/-- **What is counted are the valid collections, and those under the name that nobody is expected to
provide once more.**  An event that is processed successfully counts the known names under which it has
a valid collection, and one more if it has one under that name, known or not; whatever its kind, its
raw data and the collections that are made.  So a run that succeeds has counted the events with a valid
collection under a known name, over all names, and once more its events with one under that name, with
any number of workers and in whatever order they step.  Both are right if and only if there is no valid
collection under that name. -/
theorem found_counted {config : RunConfig} {feeds : List Feed} {writers : List Writer}
    (hnew : (Run.new config feeds writers).1 = .ok r) :
    (∀ (e : Event) (known new : List String) (found : Nat), (e.process known new).value = .ok found →
        found = known.countP e.showsValid + (e.showsValid missingCollection).toNat
          ∧ (found = known.countP e.showsValid ↔ e.showsValid missingCollection = false))
      ∧ (∀ summary, r.execute.result = .ok summary →
          r.Counted summary.events summary.collectionsFound)
      ∧ ∀ (threads : Nat) (schedule : List Nat) (p : Pool), 0 < threads →
          (Pool.new r threads).steps schedule = p → p.isOver = true → p.failure? = none →
            r.Counted p.run.store.eventsRead p.found := by
  have hbegun := begun_of_new hnew
  refine ⟨fun e known new found hprocess => ?_,
    fun summary => counted_execute (ready_of_begun hbegun) hbegun.unread,
    fun threads schedule p hthreads => Pool.counted_steps hbegun.unread hthreads⟩
  rw [Event.process_found hprocess, List.countP_append, List.countP_singleton]
  cases e.showsValid missingCollection <;> simp

open Pool (pairFeed pairWriters pairRun)

/-- the first event of the pair -/
def pairEvent : Event :=
  pairRun.config.made ⟨pairRun.store.table,
    [⟨⟨0⟩, "hits", .row [some ⟨[1], none, none, some 1⟩], .row⟩]⟩

theorem found_counted_pair :
    (pairEvent.process ["hits"] ["notes"]).value = .ok 1
      ∧ 1 = ["hits"].countP pairEvent.showsValid + (pairEvent.showsValid missingCollection).toNat
      ∧ (1 = ["hits"].countP pairEvent.showsValid ↔ pairEvent.showsValid missingCollection = false)
      ∧ (Run.new {} [pairFeed] pairWriters).1 = .ok pairRun
      ∧ pairRun.execute.result = .ok ⟨2, 1, 1, 1, 2⟩ ∧ pairRun.Counted 2 1
      ∧ ∃ p, (Pool.new pairRun 2).steps [0, 1, 1, 1, 0, 0, 1, 0] = p ∧ p.isOver = true
          ∧ p.failure? = none ∧ pairRun.Counted p.run.store.eventsRead p.found := by
  have hprocess : (pairEvent.process ["hits"] ["notes"]).value = .ok 1 := rfl
  have hnew : (Run.new {} [pairFeed] pairWriters).1 = .ok pairRun := rfl
  have hrun : pairRun.execute.result = .ok ⟨2, 1, 1, 1, 2⟩ := rfl
  have hover : ((Pool.new pairRun 2).steps [0, 1, 1, 1, 0, 0, 1, 0]).isOver = true := by decide
  have hfailure : ((Pool.new pairRun 2).steps [0, 1, 1, 1, 0, 0, 1, 0]).failure? = none := rfl
  obtain ⟨hevent, hsummary, hpool⟩ := found_counted hnew
  obtain ⟨hfound, hright⟩ := hevent pairEvent ["hits"] ["notes"] 1 hprocess
  exact ⟨hprocess, hfound, hright, hnew, hrun, hsummary _ hrun, _, rfl, hover, hfailure,
    hpool 2 _ _ Nat.two_pos rfl hover hfailure⟩

/-- a feed of one event with a valid collection under the name that nobody is expected to provide -/
def probedFeed : Feed :=
  TableReader.feed "probed"
    (.ofDocument "probed" ⟨[missingCollection], .empty, [[some ⟨[120], none, none, some 1⟩]]⟩)

def probedRun : Run :=
  { store := {
      readers := [⟨⟨0⟩, probedFeed, probedFeed.decoder⟩]
      table := ⟨[(⟨0⟩, probedFeed.entries)]⟩ }
    writers := []
    config := {} }

/-- a run finds two collections in an event that has one -/
theorem found_twice :
    (Run.new {} [probedFeed] []).1 = .ok probedRun
      ∧ probedRun.store.collectionNames = [missingCollection]
      ∧ probedRun.execute.result = .ok ⟨1, 2, 1, 1, 0⟩
      ∧ ∃ raw last, probedRun.store.Supplies none [raw] last
          ∧ raw.countValid probedRun.store.collectionNames = 1
          ∧ ((probedRun.config.made raw).process probedRun.store.collectionNames []).value = .ok 2 :=
  ⟨rfl, by decide +kernel, rfl, _, _, .more rfl (.done rfl), by decide +kernel, rfl⟩

end Run

end EventMerge
