import EventMerge.Proofs.Run.Workers

/-!
# The workers of a pool come to an end

Every step of a worker that has not stopped brings it nearer to its end: an event takes three steps, and
fetching it takes one entry of the first feed's script, of which there are only so many.

* `Run.eventBound_fetch_le`      fetching never makes more events of a store;
* `WorkerState.stepsAhead`       a bound on the steps that a worker still makes;
* `Pool.stepsAhead_steps`        it goes down whenever the worker steps, and never up;
* `Pool.isOver_rounds`           so the workers stop if they step in turn for long enough;
* `Pool.isOver_runToEnd`         which they do in a run.
-/

namespace EventMerge

namespace Run

/-! ## the events that a store can still give -/

theorem eventBound_gather (readers : List Registered) (s : Store) :
    eventBound { s with readers := (Store.gather readers).2.1 }
      ≤ eventBound { s with readers } := by
  cases readers with
  | nil => exact Nat.le_refl _
  | cons first rest =>
    show eventBound { s with readers := (Store.gather (first :: rest)).2.1 }
      ≤ first.feed.script.length
    rw [Store.gather]
    split
    · exact Nat.le_refl _
    all_goals
      rename_i hscript
      rw [hscript]
      exact Nat.le_succ _

theorem eventBound_fetch_le (limit : Option Nat) (s : Store) :
    eventBound (s.fetch limit).2 ≤ eventBound s := by
  have hgather := eventBound_gather s.readers s
  rw [Store.fetch, Store.pull]
  split
  · exact Nat.le_refl _
  · split
    · exact Nat.le_refl _
    · split
      · exact Nat.le_refl _
      · dsimp only
        split <;> exact hgather

end Run

/-! ## one worker -/

namespace WorkerState

/-- a bound on the steps until a worker stops, if the store can still give so many events -/
def stepsAhead (bound : Nat) : WorkerState → Nat
  | fetching => 3 * bound + 1
  | writing _ => 3 * bound + 2
  | processing _ => 3 * bound + 3
  | stopped | failed _ => 0

theorem stepsAhead_mono {bound bound' : Nat} (h : bound ≤ bound') (state : WorkerState) :
    state.stepsAhead bound ≤ state.stepsAhead bound' := by
  cases state <;> simp only [stepsAhead] <;> omega

theorem isOver_of_stepsAhead {bound : Nat} {state : WorkerState} (h : state.stepsAhead bound = 0) :
    state.isOver = true := by
  cases state with
  | stopped => rfl
  | failed failure => rfl
  | fetching => cases h
  | processing event => cases h
  | writing event => cases h

theorem eq_stopped {state : WorkerState} (hover : state.isOver = true)
    (hfailure : state.failure? = none) : state = .stopped := by
  cases state with
  | stopped => rfl
  | failed failure => cases hfailure
  | fetching => cases hover
  | processing event => cases hover
  | writing event => cases hover

end WorkerState

namespace Pool

variable {p : Pool}

theorem stepsAhead_fetch (r : Run) :
    (fetch r).1.stepsAhead (Run.eventBound (fetch r).2.store) ≤ 3 * Run.eventBound r.store := by
  rw [fetch_eq]
  split
  · exact Nat.zero_le _
  · exact Nat.zero_le _
  · rename_i raw s hfetch
    have hless := Run.eventBound_of_fetch hfetch
    show 3 * Run.eventBound s + 3 ≤ _
    omega

theorem eventBound_stepWorker (known : List String) (r : Run) (w : Worker) :
    Run.eventBound (stepWorker known r w).2.store ≤ Run.eventBound r.store := by
  rw [stepWorker]
  split
  · have hfetch := Run.eventBound_fetch_le r.config.maxEvents r.store
    dsimp only
    rw [fetch_eq]
    split
    all_goals
      rename_i heq
      rw [heq] at hfetch
      exact hfetch
  · dsimp only
    split <;> exact Nat.le_refl _
  · exact Nat.le_refl _
  · exact Nat.le_refl _

/-- **A step brings a worker nearer to its end.** -/
theorem stepsAhead_stepWorker (known : List String) (r : Run) (w : Worker) :
    (stepWorker known r w).1.state.stepsAhead (Run.eventBound (stepWorker known r w).2.store)
      ≤ w.state.stepsAhead (Run.eventBound r.store) - 1 := by
  rw [stepWorker]
  cases hstate : w.state with
  | fetching => exact stepsAhead_fetch r
  | processing event =>
    dsimp only
    split
    · exact Nat.zero_le _
    · exact Nat.le_refl _
  | writing event =>
    dsimp only
    split
    · exact Nat.zero_le _
    · exact Nat.le_refl _
  | stopped =>
    dsimp only
    rw [hstate]
    exact Nat.le_refl _
  | failed failure =>
    dsimp only
    rw [hstate]
    exact Nat.le_refl _

/-! ## all workers -/

/-- a bound on the steps that the worker in a place still makes -/
def stepsAhead (p : Pool) (i : Nat) : Nat :=
  match p.workers[i]? with
  | some w => w.state.stepsAhead (Run.eventBound p.run.store)
  | none => 0

theorem stepsAhead_step (p : Pool) (i j : Nat) :
    (p.step i).stepsAhead j ≤ p.stepsAhead j - if j = i then 1 else 0 := by
  rw [step]
  cases hw : p.workers[i]? with
  | none =>
    by_cases hplace : j = i
    · rw [stepsAhead, hplace, hw]
      exact Nat.zero_le _
    · rw [if_neg hplace]
      exact Nat.le_refl _
  | some w =>
    obtain ⟨hi, -⟩ := List.getElem?_eq_some_iff.mp hw
    dsimp only
    by_cases hplace : j = i
    · rw [stepsAhead, stepsAhead, hplace, List.getElem?_set_self hi, hw, if_pos rfl]
      exact stepsAhead_stepWorker p.known p.run w
    · rw [stepsAhead, stepsAhead, List.getElem?_set_ne (Ne.symm hplace), if_neg hplace]
      cases p.workers[j]? with
      | none => exact Nat.le_refl _
      | some other =>
        exact WorkerState.stepsAhead_mono (eventBound_stepWorker p.known p.run w) other.state

theorem stepsAhead_steps (p : Pool) (schedule : List Nat) (j : Nat) :
    (p.steps schedule).stepsAhead j ≤ p.stepsAhead j - if j ∈ schedule then 1 else 0 := by
  induction schedule generalizing p with
  | nil => exact Nat.le_refl _
  | cons i rest ih =>
    have hfirst := p.stepsAhead_step i j
    have hrest := ih (p.step i)
    show ((p.step i).steps rest).stepsAhead j ≤ _
    by_cases hplace : j = i
    · rw [if_pos hplace] at hfirst
      rw [if_pos (hplace ▸ List.mem_cons_self)]
      omega
    · rw [if_neg hplace] at hfirst
      simp only [List.mem_cons, hplace, false_or]
      omega

theorem isOver_of_stepsAhead (h : ∀ j, p.stepsAhead j = 0) : p.isOver = true := by
  refine List.all_eq_true.mpr fun w hw => ?_
  obtain ⟨j, hj⟩ := List.mem_iff_getElem?.mp hw
  have hnone := h j
  rw [stepsAhead, hj] at hnone
  exact WorkerState.isOver_of_stepsAhead hnone

/-- **Workers that step in turn all stop.** -/
theorem isOver_rounds {fuel : Nat} (h : ∀ j, p.stepsAhead j ≤ fuel) :
    (rounds fuel p).isOver = true := by
  induction fuel generalizing p with
  | zero => exact isOver_of_stepsAhead fun j => Nat.le_zero.mp (h j)
  | succ fuel ih =>
    rw [rounds]
    split
    · assumption
    · -- every worker steps once in a round
      refine ih fun j => ?_
      have hround := p.stepsAhead_steps (List.range p.workers.length) j
      have hbefore := h j
      by_cases hj : j < p.workers.length
      · rw [if_pos (List.mem_range.mpr hj)] at hround
        omega
      · have hnone : p.stepsAhead j = 0 := by
          rw [stepsAhead, List.getElem?_eq_none (Nat.le_of_not_lt hj)]
        omega

/-- rounds are steps in a certain order -/
theorem exists_schedule (fuel : Nat) (p : Pool) : ∃ schedule, rounds fuel p = p.steps schedule := by
  induction fuel generalizing p with
  | zero => exact ⟨[], rfl⟩
  | succ fuel ih =>
    rw [rounds]
    split
    · exact ⟨[], rfl⟩
    · obtain ⟨schedule, hrest⟩ := ih (p.steps (List.range p.workers.length))
      refine ⟨List.range p.workers.length ++ schedule, hrest.trans ?_⟩
      exact List.foldl_append.symm

/-- **The workers of a run come to an end**, whatever is read, and whether or not some of them fail. -/
theorem isOver_runToEnd (r : Run) (threads : Nat) : (Pool.new r threads).runToEnd.isOver = true := by
  refine isOver_rounds fun j => ?_
  rw [stepsAhead]
  split
  · rename_i w hw
    have hidle : w = {} := (List.mem_replicate.mp (List.mem_of_getElem? hw)).2
    rw [hidle]
    show 3 * Run.eventBound r.store + 1 ≤ 3 * (Run.eventBound r.store + 1) + 1
    omega
  · exact Nat.zero_le _

end Pool

end EventMerge
