import EventMerge.Total
import EventMerge.Run.Basic

/-!
# Runs with several workers

The workers of a pool share the store and the writers.  A worker fetches an event while nobody else
uses the store, processes it by itself, and writes it while nobody else uses the writers; each of
these is one step, and the steps of different workers may come in any order.

* `Pool.step`   a step of one worker;
* `Pool.steps`  steps in the order of a schedule;
* `Pool.runToEnd`  the steps of the workers in turn, until all have stopped.
-/

namespace EventMerge

inductive WorkerState where
  | fetching
  | processing (event : Event)
  | writing (event : Event)
  | stopped
  | failed (failure : Failure)

namespace WorkerState

def isOver : WorkerState → Bool
  | stopped | failed _ => true
  | _ => false

def failure? : WorkerState → Option Failure
  | failed f => some f
  | _ => none

end WorkerState

structure Worker where
  state : WorkerState := .fetching
  found : Nat := 0

structure Pool where
  run : Run
  known : List String
  workers : List Worker

namespace Pool

def new (run : Run) (threads : Nat) : Pool :=
  ⟨run, run.store.collectionNames, List.replicate threads {}⟩

/-- fetches the next event, unless the limit is reached; events are never reused -/
def fetch (r : Run) : WorkerState × Run :=
  if r.limitReached then (.stopped, r)
  else
    let factory := { r.config.store.factory with reuse := false }
    let (next, store, _) := r.store.next factory none
    let state :=
      match next with
      | .error e => .failed (.ofStore e)
      | .ok none => .stopped
      | .ok (some event) => .processing event
    (state, { r with store })

def stepWorker (known : List String) (r : Run) (w : Worker) : Worker × Run :=
  match w.state with
  | .fetching =>
    let (state, r) := fetch r
    ({ w with state }, r)
  | .processing event =>
    let processed := event.process known r.config.newCollections
    match processed.value with
    | .error e => ({ w with state := .failed (.ofStore e) }, r)
    | .ok found => (⟨.writing processed.event, w.found + found⟩, r)
  | .writing event =>
    let ((result, writers), _) := Writer.writeToAll r.config.writeCollections r.writers event
    let state :=
      match result with
      | .error e => .failed (.ofStore e)
      | .ok () => .fetching
    ({ w with state }, { r with writers })
  | _ => (w, r)

def step (p : Pool) (i : Nat) : Pool :=
  match p.workers[i]? with
  | none => p
  | some w =>
    let (w, run) := stepWorker p.known p.run w
    { p with run, workers := p.workers.set i w }

def steps (p : Pool) (schedule : List Nat) : Pool := schedule.foldl step p

def isOver (p : Pool) : Bool := p.workers.all fun w => w.state.isOver

def found (p : Pool) : Nat := total Worker.found p.workers

def failure? (p : Pool) : Option Failure := p.workers.findSome? fun w => w.state.failure?

def rounds : (fuel : Nat) → Pool → Pool
  | 0, p => p
  | fuel + 1, p =>
    if p.isOver then p else rounds fuel (p.steps (List.range p.workers.length))

/-- lets the workers step in turn until all have stopped.  An event takes three steps of a worker,
and a last step of each finds that there is nothing left. -/
def runToEnd (p : Pool) : Pool := rounds (3 * (Run.eventBound p.run.store + 1) + 1) p

end Pool

namespace Run

def parallel (r : Run) (threads : Nat) : Except Failure Nat × Run :=
  let p := (Pool.new r threads).runToEnd
  match p.failure? with
  | some f => (.error f, p.run)
  | none => (.ok p.found, p.run)

def execute (r : Run) : Ending :=
  let threads := max r.config.threads 1
  let (result, r) := if threads = 1 then r.sequential else r.parallel threads
  match result with
  | .error f => ⟨.error f, [], r.writers⟩
  | .ok found => r.complete found

end Run

end EventMerge
