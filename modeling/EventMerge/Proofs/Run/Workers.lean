import EventMerge.Proofs.Run.Sequence
import EventMerge.Run.Pool
import Mathlib.Data.List.Perm.Basic

/-!
# What the workers of a pool come to

However the steps of the workers are mixed, every event of the run in order is fetched by exactly one
worker, processed as it would be in order, and written once to every writer.

* `Worker.carried`, `Worker.toFind`, `Worker.Sound`  what a worker has in hand;
* `Pool.Tracks`        all events are written, in hand or still to be fetched, each once;
* `Pool.Tracks.step`   a step of a worker keeps this;
* `Pool.steps_agree`   when all workers have stopped, the pool has come to the same as the run in
                       order, up to the order of rows and records.
-/

namespace EventMerge

theorem total_perm {α : Type} (measure : α → Nat) {a b : List α} (h : a.Perm b) :
    total measure a = total measure b := by
  induction h with
  | nil => rfl
  | cons x _ ih => rw [total_cons, total_cons, ih]
  | swap x y l => rw [total_cons, total_cons, total_cons, total_cons, Nat.add_left_comm]
  | trans _ _ ih ih' => exact ih.trans ih'

theorem total_eq_zero {α : Type} {measure : α → Nat} {l : List α} (h : ∀ a ∈ l, measure a = 0) :
    total measure l = 0 := by
  induction l with
  | nil => rfl
  | cons a rest ih =>
    rw [total_cons, h a List.mem_cons_self, ih fun b hb => h b (List.mem_cons_of_mem _ hb)]

/-! ## what a worker has in hand -/

namespace Worker

/-- the event that a worker has in hand, as it will be written -/
def carried (c : RunConfig) (known : List String) (w : Worker) : List Event :=
  match w.state with
  | .processing e => [(e.process known c.newCollections).event]
  | .writing e => [e]
  | _ => []

/-- the collections that a worker will find in the event that it has in hand -/
def toFind (c : RunConfig) (known : List String) (w : Worker) : Nat :=
  match w.state with
  | .processing e =>
    match (e.process known c.newCollections).value with
    | .ok found => found
    | .error _ => 0
  | _ => 0

/-- the worker has not failed, and what it has in hand was made of one of the raw data -/
def Sound (c : RunConfig) (known : List String) (raws : List RawData) (w : Worker) : Prop :=
  match w.state with
  | .processing e => ∃ raw ∈ raws, e = c.made raw
  | .writing e => ∃ raw ∈ raws, e = c.finished known raw
  | .failed _ => False
  | _ => True

end Worker

/-! ## workers in a list -/

section

variable {workers : List Worker} {i : Nat} {w : Worker}

theorem perm_cons_eraseIdx (h : workers[i]? = some w) :
    workers.Perm (w :: workers.eraseIdx i) := by
  obtain ⟨hi, rfl⟩ := List.getElem?_eq_some_iff.mp h
  exact (List.getElem_cons_eraseIdx_perm hi).symm

theorem set_perm_cons_eraseIdx (h : workers[i]? = some w) (w' : Worker) :
    (workers.set i w').Perm (w' :: workers.eraseIdx i) := by
  obtain ⟨hi, -⟩ := List.getElem?_eq_some_iff.mp h
  exact List.set_perm_cons_eraseIdx hi w'

end

namespace Pool

/-! ## the invariant -/

theorem fetch_eq (r : Run) :
    fetch r = match r.store.fetch r.config.maxEvents with
      | (.error e, s) => (.failed (.ofStore e), { r with store := s })
      | (.ok none, s) => (.stopped, { r with store := s })
      | (.ok (some raw), s) => (.processing (r.config.made raw), { r with store := s }) := by
  rw [fetch, Store.fetch]
  show (if r.store.isFull r.config.maxEvents = true then _ else _) = _
  split
  · rfl
  · dsimp only
    rw [Store.next_value, Store.next_store]
    rcases r.store.pull with ⟨result, s⟩
    rcases result with e | _ | raw <;> rfl

/-- A pool that works for the run `r` on the raw data `raws`.  The events in `done` are written, and
the raw data in `remaining` are still to be fetched. -/
structure Tracks (r : Run) (raws : List RawData) (last : Store) (p : Pool) (done : List Event)
    (remaining : List RawData) : Prop where
  known : p.known = r.store.collectionNames
  config : p.run.config = r.config
  supplies : p.run.store.Supplies r.config.maxEvents remaining last
  remains : ∀ raw ∈ remaining, raw ∈ raws
  sound : ∀ w ∈ p.workers, w.Sound r.config r.store.collectionNames raws
  written : p.run.writers = r.writers.map fun w => w.addAll r.config.writeCollections done
  events : (done ++ (p.workers.flatMap (Worker.carried r.config r.store.collectionNames)
    ++ remaining.map (r.config.finished r.store.collectionNames))).Perm
      (raws.map (r.config.finished r.store.collectionNames))
  found : total Worker.found p.workers + (total (Worker.toFind r.config r.store.collectionNames)
    p.workers + total (r.config.foundIn r.store.collectionNames) remaining)
      = total (r.config.foundIn r.store.collectionNames) raws
  stopped : (∃ w ∈ p.workers, w.state = .stopped) → remaining = [] ∧ p.run.store = last

theorem tracks_new {r : Run} {raws : List RawData} {last : Store} (threads : Nat)
    (h : r.Succeeds r.store.collectionNames raws last) :
    Tracks r raws last (Pool.new r threads) [] raws := by
  have hidle : ∀ w ∈ (Pool.new r threads).workers, w = {} :=
    fun w hw => (List.mem_replicate.mp hw).2
  refine ⟨rfl, rfl, h.supplies, fun _ hraw => hraw, fun w hw => ?_, ?_, ?_, ?_, ?_⟩
  · rw [hidle w hw]
    trivial
  · simp [Writer.addAll_nil, Pool.new]
  · have hnone : (Pool.new r threads).workers.flatMap
        (Worker.carried r.config r.store.collectionNames) = [] :=
      List.flatMap_eq_nil_iff.mpr fun w hw => by rw [hidle w hw]; rfl
    rw [hnone]
    exact .refl _
  · rw [total_eq_zero fun w hw => by rw [hidle w hw], total_eq_zero fun w hw => by
      rw [hidle w hw]; rfl, Nat.zero_add, Nat.zero_add]
  · rintro ⟨w, hw, hstopped⟩
    rw [hidle w hw] at hstopped
    cases hstopped

theorem workers_steps_ne_nil {p : Pool} (h : p.workers ≠ []) (schedule : List Nat) :
    (p.steps schedule).workers ≠ [] := by
  induction schedule generalizing p with
  | nil => exact h
  | cons i rest ih =>
    refine ih ?_
    rw [step]
    split
    · exact h
    · refine List.length_pos_iff.mp ?_
      rw [List.length_set]
      exact List.length_pos_iff.mpr h

namespace Tracks

variable {r : Run} {raws remaining remaining' : List RawData} {last : Store} {p : Pool}
  {done done' : List Event} {i : Nat} {w w' : Worker} {run' : Run}

/-- a step that changes one worker: what it and the run have afterwards is what they had before -/
theorem replace (h : Tracks r raws last p done remaining) (hw : p.workers[i]? = some w)
    (hconfig : run'.config = r.config)
    (hsupplies : run'.store.Supplies r.config.maxEvents remaining' last)
    (hremains : ∀ raw ∈ remaining', raw ∈ remaining)
    (hsound : w'.Sound r.config r.store.collectionNames raws)
    (hwritten : run'.writers = r.writers.map fun w => w.addAll r.config.writeCollections done')
    (hevents : ∀ others : List Event,
      (done' ++ (w'.carried r.config r.store.collectionNames ++ others
          ++ remaining'.map (r.config.finished r.store.collectionNames))).Perm
        (done ++ (w.carried r.config r.store.collectionNames ++ others
          ++ remaining.map (r.config.finished r.store.collectionNames))))
    (hfound : w'.found + (w'.toFind r.config r.store.collectionNames
        + total (r.config.foundIn r.store.collectionNames) remaining')
      = w.found + (w.toFind r.config r.store.collectionNames
        + total (r.config.foundIn r.store.collectionNames) remaining))
    (hstopped : w'.state = .stopped ∨ (∃ v ∈ p.workers, v.state = .stopped) →
      remaining' = [] ∧ run'.store = last) :
    Tracks r raws last { p with run := run', workers := p.workers.set i w' } done' remaining' := by
  -- the worker that steps is taken to the front, and the others stay as they are
  have hbefore := perm_cons_eraseIdx hw
  have hafter := set_perm_cons_eraseIdx hw w'
  refine ⟨h.known, hconfig, hsupplies, fun raw hraw => h.remains raw (hremains raw hraw),
    fun v hv => ?_, hwritten, ?_, ?_, ?_⟩
  · rcases List.mem_or_eq_of_mem_set hv with hv | rfl
    · exact h.sound v hv
    · exact hsound
  · refine List.Perm.trans ?_ h.events
    have hcarried := hafter.flatMap_right (Worker.carried r.config r.store.collectionNames)
    have hcarried' := hbefore.flatMap_right (Worker.carried r.config r.store.collectionNames)
    rw [List.flatMap_cons] at hcarried hcarried'
    refine ((hcarried.append_right _).append_left _).trans ((hevents _).trans ?_)
    exact (hcarried'.symm.append_right _).append_left _
  · have htotal := h.found
    rw [total_perm _ hbefore, total_perm _ hbefore, total_cons, total_cons] at htotal
    rw [total_perm _ hafter, total_perm _ hafter, total_cons, total_cons]
    omega
  · rintro ⟨v, hv, hv'⟩
    rcases List.mem_or_eq_of_mem_set hv with hv | rfl
    · exact hstopped (.inr ⟨v, hv, hv'⟩)
    · exact hstopped (.inl hv')

/-! ## the steps of a worker -/

theorem fetch (h : Tracks r raws last p done remaining) (hw : p.workers[i]? = some w)
    (hstate : w.state = .fetching) :
    ∃ remaining', Tracks r raws last
      { p with
        run := (Pool.fetch p.run).2
        workers := p.workers.set i { w with state := (Pool.fetch p.run).1 } } done remaining' := by
  have hcarried : w.carried r.config r.store.collectionNames = [] := by
    rw [Worker.carried, hstate]
  have htoFind : w.toFind r.config r.store.collectionNames = 0 := by
    rw [Worker.toFind, hstate]
  have hsupplies := h.supplies
  rw [fetch_eq, h.config]
  cases hsupplies with
  | done hfetch =>
    rw [hfetch]
    refine ⟨[], h.replace hw rfl (.done (Store.fetch_none hfetch).1) (fun _ => id) trivial
      h.written (fun others => ?_) ?_ fun _ => ⟨rfl, rfl⟩⟩
    · rw [hcarried]
      exact .refl _
    · rw [htoFind]
      rfl
  | @more _ s _ raw rest hfetch hrest =>
    rw [hfetch]
    have hmem : raw ∈ raws := h.remains raw List.mem_cons_self
    refine ⟨rest, h.replace hw rfl hrest (fun _ => List.mem_cons_of_mem _) ⟨raw, hmem, rfl⟩
      h.written (fun others => ?_) ?_ fun hstopped => ?_⟩
    · rw [hcarried]
      show (done ++ (r.config.finished r.store.collectionNames raw
        :: others ++ rest.map _)).Perm (done ++ (others ++ (raw :: rest).map _))
      exact List.perm_middle.symm.append_left done
    · rw [htoFind, total_cons, Nat.zero_add]
      rfl
    · rcases hstopped with hstopped | hstopped
      · cases hstopped
      · cases (h.stopped hstopped).1

theorem process (h : Tracks r raws last p done remaining) (hw : p.workers[i]? = some w) {e : Event}
    (hstate : w.state = .processing e)
    (hsucceeds : r.Succeeds r.store.collectionNames raws last) :
    ∃ found, (e.process p.known p.run.config.newCollections).value = .ok found
      ∧ Tracks r raws last
        { p with
          workers := p.workers.set i
            ⟨.writing (e.process p.known p.run.config.newCollections).event, w.found + found⟩ }
        done remaining := by
  have hsound := h.sound w (List.mem_of_getElem? hw)
  rw [Worker.Sound, hstate] at hsound
  obtain ⟨raw, hraw, rfl⟩ := hsound
  obtain ⟨found, hfound⟩ := hsucceeds.processed raw hraw
  have hwriting : Worker.Sound r.config r.store.collectionNames raws
      ⟨.writing (r.config.finished r.store.collectionNames raw), w.found + found⟩ := ⟨raw, hraw, rfl⟩
  have hprocess : (r.config.made raw).process p.known p.run.config.newCollections
      = r.config.processed r.store.collectionNames raw := by
    rw [h.known, h.config]
    rfl
  rw [hprocess]
  refine ⟨found, hfound, h.replace hw h.config h.supplies (fun _ => id) hwriting h.written
    (fun others => ?_) ?_ fun hstopped => ?_⟩
  · rw [Worker.carried, Worker.carried, hstate]
    exact .refl _
  · have htoFind : w.toFind r.config r.store.collectionNames = found := by
      rw [Worker.toFind, hstate]
      exact r.config.foundIn_eq hfound
    rw [htoFind, Nat.add_assoc]
    exact congrArg _ (congrArg _ (Nat.zero_add _))
  · rcases hstopped with hstopped | hstopped
    · cases hstopped
    · exact h.stopped hstopped

theorem length_done_lt (h : Tracks r raws last p done remaining) (hw : p.workers[i]? = some w)
    {e : Event} (hstate : w.state = .writing e) : done.length < raws.length := by
  have hmem : e ∈ p.workers.flatMap (Worker.carried r.config r.store.collectionNames) := by
    refine List.mem_flatMap.mpr ⟨w, List.mem_of_getElem? hw, ?_⟩
    rw [Worker.carried, hstate]
    exact List.mem_singleton.mpr rfl
  have hpos := List.length_pos_of_mem hmem
  have hlength := h.events.length_eq
  rw [List.length_append, List.length_append, List.length_map, List.length_map] at hlength
  omega

theorem write (h : Tracks r raws last p done remaining) (hw : p.workers[i]? = some w) {e : Event}
    (hstate : w.state = .writing e) (hready : r.Ready r.store.collectionNames)
    (hsucceeds : r.Succeeds r.store.collectionNames raws last) :
    (Writer.writeToAll p.run.config.writeCollections p.run.writers e).1.1 = .ok ()
      ∧ Tracks r raws last
        { p with
          run := {
            p.run with
            writers := (Writer.writeToAll p.run.config.writeCollections p.run.writers e).1.2 }
          workers := p.workers.set i { w with state := .fetching } }
        (done ++ [e]) remaining := by
  have hsound := h.sound w (List.mem_of_getElem? hw)
  rw [Worker.Sound, hstate] at hsound
  obtain ⟨raw, hraw, rfl⟩ := hsound
  have hwithin := RunConfig.within_finished hready.new_known
    (congrArg IdentityTable.names (hsucceeds.supplies.table_eq raw hraw))
  have hknows : ∀ v ∈ p.run.writers, v.Knows r.store.collectionNames := by
    rw [h.written]
    intro v hv
    obtain ⟨v', hv', rfl⟩ := List.mem_map.mp hv
    exact (hready.knows v' hv').addAll done
  have hroom : ∀ v ∈ p.run.writers, v.HasRoom 0 := by
    rw [h.written]
    intro v hv
    obtain ⟨v', hv', rfl⟩ := List.mem_map.mp hv
    refine Writer.hasRoom_addAll.mpr (hsucceeds.room v' hv' _ ?_)
    rw [Nat.zero_add]
    exact h.length_done_lt hw hstate
  rw [Writer.writeToAll_ok _ hknows hwithin hroom]
  refine ⟨rfl, h.replace hw h.config h.supplies (fun _ => id) trivial ?_ (fun others => ?_) ?_
    fun hstopped => ?_⟩
  · show p.run.writers.map _ = _
    rw [h.written, h.config, List.map_map]
    refine List.map_congr_left fun v _ => ?_
    rw [Writer.addAll_append]
    rfl
  · rw [Worker.carried, Worker.carried, hstate]
    show (done ++ [_] ++ (others ++ _)).Perm (done ++ (_ :: others ++ _))
    rw [List.append_assoc]
    exact .refl _
  · rw [Worker.toFind, Worker.toFind, hstate]
  · rcases hstopped with hstopped | hstopped
    · cases hstopped
    · exact h.stopped hstopped

/-- a step of a worker keeps the events of a pool together -/
theorem step (h : Tracks r raws last p done remaining) (hready : r.Ready r.store.collectionNames)
    (hsucceeds : r.Succeeds r.store.collectionNames raws last) (i : Nat) :
    ∃ done' remaining', Tracks r raws last (p.step i) done' remaining' := by
  rw [Pool.step]
  cases hw : p.workers[i]? with
  | none => exact ⟨done, remaining, h⟩
  | some w =>
    dsimp only
    rw [stepWorker]
    cases hstate : w.state with
    | fetching =>
      obtain ⟨remaining', hnext⟩ := h.fetch hw hstate
      exact ⟨done, remaining', hnext⟩
    | processing e =>
      obtain ⟨found, hfound, hnext⟩ := h.process hw hstate hsucceeds
      dsimp only
      rw [hfound]
      exact ⟨done, remaining, hnext⟩
    | writing e =>
      obtain ⟨hwritten, hnext⟩ := h.write hw hstate hready hsucceeds
      dsimp only
      rw [hwritten]
      exact ⟨done ++ [e], remaining, hnext⟩
    | stopped =>
      refine ⟨done, remaining, ?_⟩
      obtain ⟨hi, rfl⟩ := List.getElem?_eq_some_iff.mp hw
      dsimp only
      rw [List.set_getElem_self]
      exact h
    | failed failure =>
      have hsound := h.sound w (List.mem_of_getElem? hw)
      rw [Worker.Sound, hstate] at hsound
      exact hsound.elim

theorem steps (h : Tracks r raws last p done remaining) (hready : r.Ready r.store.collectionNames)
    (hsucceeds : r.Succeeds r.store.collectionNames raws last) (schedule : List Nat) :
    ∃ done' remaining', Tracks r raws last (p.steps schedule) done' remaining' := by
  induction schedule generalizing p done remaining with
  | nil => exact ⟨done, remaining, h⟩
  | cons i rest ih =>
    obtain ⟨done', remaining', hnext⟩ := h.step hready hsucceeds i
    exact ih hnext

/-! ## the end -/

theorem stopped_of_isOver (h : Tracks r raws last p done remaining) (hover : p.isOver = true)
    (hw : w ∈ p.workers) : w.state = .stopped := by
  have hsound := h.sound w hw
  have hisOver := List.all_eq_true.mp hover w hw
  rw [Worker.Sound] at hsound
  cases hstate : w.state with
  | stopped => rfl
  | failed failure => rw [hstate] at hsound; exact hsound.elim
  | fetching => rw [hstate] at hisOver; cases hisOver
  | processing e => rw [hstate] at hisOver; cases hisOver
  | writing e => rw [hstate] at hisOver; cases hisOver

theorem of_isOver (h : Tracks r raws last p done remaining) (hover : p.isOver = true)
    (hworkers : p.workers ≠ []) :
    p.failure? = none ∧ p.run.store = last
      ∧ p.found = total (r.config.foundIn r.store.collectionNames) raws
      ∧ done.Perm (raws.map (r.config.finished r.store.collectionNames)) := by
  have hstopped : ∀ w ∈ p.workers, w.state = .stopped := fun w hw => h.stopped_of_isOver hover hw
  obtain ⟨w, hw⟩ := List.exists_mem_of_ne_nil p.workers hworkers
  obtain ⟨rfl, hstore⟩ := h.stopped ⟨w, hw, hstopped w hw⟩
  have hcarried : p.workers.flatMap (Worker.carried r.config r.store.collectionNames) = [] :=
    List.flatMap_eq_nil_iff.mpr fun v hv => by rw [Worker.carried, hstopped v hv]
  have htoFind : total (Worker.toFind r.config r.store.collectionNames) p.workers = 0 :=
    total_eq_zero fun v hv => by rw [Worker.toFind, hstopped v hv]
  refine ⟨?_, hstore, ?_, ?_⟩
  · refine List.findSome?_eq_none_iff.mpr fun v hv => ?_
    rw [hstopped v hv]
    rfl
  · have hfound := h.found
    rw [htoFind] at hfound
    exact hfound
  · have hevents := h.events
    rw [hcarried] at hevents
    simpa using hevents

end Tracks

end Pool

/-! ## runs in order -/

namespace Run

theorem summary_of_complete {r : Run} {found : Nat} {summary : RunSummary}
    (h : (r.complete found).result = .ok summary) :
    summary.events = r.store.eventsRead ∧ summary.collectionsFound = found := by
  rw [complete] at h
  dsimp only at h
  split at h
  · cases h
  · cases h
    exact ⟨rfl, rfl⟩

theorem execute_ok {r : Run} {summary : RunSummary} (hthreads : r.config.threads ≤ 1)
    (h : r.execute.result = .ok summary) :
    ∃ found r', r.sequential = (.ok found, r') ∧ r.execute = r'.complete found
      ∧ summary.events = r'.store.eventsRead ∧ summary.collectionsFound = found := by
  have hone : max r.config.threads 1 = 1 := Nat.max_eq_right hthreads
  rw [execute, hone, if_pos rfl] at h ⊢
  generalize r.sequential = outcome at h ⊢
  rcases outcome with ⟨f | found, r'⟩
  · cases h
  · exact ⟨found, r', rfl, rfl, summary_of_complete h⟩

end Run

namespace Pool

/-- **Workers lose, repeat and mix nothing.**  If a run succeeds with one worker, then with several of
them, whatever the order of their steps, once all have stopped none has failed, as many events have
been read and as many collections found, and every writer holds the same rows or records, under the
same columns or numbers.  The number of events is the limit or the length of the shortest feed. -/
theorem steps_agree {config : RunConfig} {feeds : List Feed} {writers : List Writer} {r : Run}
    {summary : RunSummary} (hthreads : 2 ≤ config.threads)
    (hnew : (Run.new { config with threads := 1 } feeds writers).1 = .ok r)
    (hrun : r.execute.result = .ok summary) :
    (Run.new config feeds writers).1 = .ok (r.withThreads config.threads)
      ∧ ∀ (schedule : List Nat) (p : Pool),
          (Pool.new (r.withThreads config.threads) config.threads).steps schedule = p →
          p.isOver = true →
          p.failure? = none
            ∧ p.run.store.eventsRead = summary.events
            ∧ (config.maxEvents.toList ++ feeds.map fun feed => feed.script.length).min?
                = some summary.events
            ∧ p.found = summary.collectionsFound
            ∧ List.Forall₂ Writer.SameUpToOrder p.run.writers r.sequential.2.writers := by
  have hbegun := Run.begun_of_new hnew
  have hready := Run.ready_of_begun hbegun
  have hone : r.config.threads ≤ 1 :=
    Nat.le_of_eq (congrArg RunConfig.threads hbegun.config)
  obtain ⟨found, r', hsequential, -, hevents, hfound⟩ := Run.execute_ok hone hrun
  obtain ⟨raws, last, hsucceeds, htotal, rfl, -⟩ := Run.sequential_ok hready hsequential
  refine ⟨?_, fun schedule p hp hover => ?_⟩
  · have hsame := Run.new_threads { config with threads := 1 } feeds writers config.threads
    rw [hnew] at hsame
    exact hsame
  · have hshared : (r.withThreads config.threads).Succeeds r.store.collectionNames raws last :=
      ⟨hsucceeds.supplies, hsucceeds.processed, hsucceeds.room⟩
    have hreadyShared : (r.withThreads config.threads).Ready r.store.collectionNames :=
      ⟨hready.table, hready.new_known, hready.knows⟩
    obtain ⟨done, remaining, htracks⟩ :=
      (tracks_new config.threads hshared).steps hreadyShared hshared schedule
    rw [hp] at htracks
    have hworkers : p.workers ≠ [] := by
      rw [← hp]
      exact workers_steps_ne_nil (by simp [Pool.new]; omega) schedule
    obtain ⟨hfailure, hstore, hcount, hdone⟩ := htracks.of_isOver hover hworkers
    have hread := hsucceeds.supplies.eventsRead_eq
    rw [hbegun.unread, Nat.zero_add] at hread
    have hsummary : summary.events = raws.length := hevents.trans hread
    refine ⟨hfailure, ?_, ?_, ?_, ?_⟩
    · rw [hstore]
      exact hevents.symm
    · have hmin := hsucceeds.supplies.length_eq_min hbegun.open_ hbegun.unread
      rw [← hbegun.feeds, hsummary, List.map_map]
      rw [hbegun.config] at hmin
      exact hmin
    · rw [hcount, hfound, htotal]
      rfl
    · rw [htracks.written, hsequential]
      show List.Forall₂ _ (r.writers.map _) (r.writers.map _)
      rw [List.forall₂_map_left_iff, List.forall₂_map_right_iff]
      exact List.forall₂_same.mpr fun w _ => w.addAll_perm hdone r.config.writeCollections

/-- a feed of two events, of which the second has no collection -/
def pairFeed : Feed :=
  TableReader.feed "hits"
    (.ofDocument "hits" ⟨["hits"], .empty, [[some ⟨[1], none, none, some 1⟩], [none]]⟩)

def pairWriters : List Writer :=
  [.table (.new "rows") true,
    .pack {
      name := "records"
      sink := { newest := [Pack.header], attempts := 1 }
      newestHashed := [Pack.header] }]

/-- the run of the feed into both writers with one worker -/
def pairRun : Run :=
  { store := {
      readers := [⟨⟨0⟩, pairFeed, pairFeed.decoder⟩]
      table := ⟨[(⟨0⟩, pairFeed.entries)]⟩ }
    writers := [
      .table {
        name := "rows"
        registered := ["hits"]
        identityTable := some ⟨[(⟨0⟩, pairFeed.entries)]⟩ } true,
      .pack (PackWriter.withTable {
        name := "records"
        sink := { newest := [Pack.header], attempts := 1 }
        newestHashed := [Pack.header] } ⟨["hits"], some ⟨[(⟨0⟩, pairFeed.entries)]⟩⟩)]
    config := {} }

/-- two workers, of which the second overtakes the first -/
theorem steps_agree_pair :
    ((Pool.new (pairRun.withThreads 2) 2).steps [0, 1, 1, 1, 0, 0, 1, 0]).isOver = true
      ∧ ((Pool.new (pairRun.withThreads 2) 2).steps [0, 1, 1, 1, 0, 0, 1, 0]).failure? = none
      ∧ ((Pool.new (pairRun.withThreads 2) 2).steps
          [0, 1, 1, 1, 0, 0, 1, 0]).run.store.eventsRead = 2
      ∧ ((Pool.new (pairRun.withThreads 2) 2).steps [0, 1, 1, 1, 0, 0, 1, 0]).found = 1
      ∧ List.Forall₂ Writer.SameUpToOrder
          ((Pool.new (pairRun.withThreads 2) 2).steps [0, 1, 1, 1, 0, 0, 1, 0]).run.writers
          pairRun.sequential.2.writers := by
  have hover : ((Pool.new (pairRun.withThreads 2) 2).steps
      [0, 1, 1, 1, 0, 0, 1, 0]).isOver = true := by decide
  have hnew : (Run.new {} [pairFeed] pairWriters).1 = .ok pairRun := rfl
  have hrun : pairRun.execute.result = .ok ⟨2, 1, 1, 1, 2⟩ := rfl
  have hthreads : 2 ≤ ({ threads := 2 } : RunConfig).threads := Nat.le_refl 2
  obtain ⟨-, hagree⟩ := steps_agree hthreads hnew hrun
  obtain ⟨hfailure, hread, -, hfound, hwriters⟩ := hagree _ _ rfl hover
  exact ⟨hover, hfailure, hread, hfound, hwriters⟩

end Pool

end EventMerge
