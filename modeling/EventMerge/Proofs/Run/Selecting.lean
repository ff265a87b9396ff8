import EventMerge.Proofs.Run.Holding
import EventMerge.Proofs.Run.Workers

/-!
# Runs that are to write selected collections

A run leaves out the names that nobody provides.  If some names remain then, nothing but the
collections of these names is written, whatever the feeds hold, however the workers take turns, and
whether the run succeeds or fails on the way.  If none remains, the run is the one that was asked for
nothing, which writes everything.

* `Run.Growing`          a run with names selected, none of whose writers holds anything else;
* `Run.Growing.handle`, `Pool.growing_step`  this is kept by one event in order, and by a step of a
                         worker;
* `Run.writes_selected`  what a run writes of what it was asked for;
* `Run.writes_unselected`  a run that writes what it was not asked for.
-/

namespace EventMerge

/-! ## before the first event -/

namespace Writer

variable {names : List String} {t : IdentityTable}

theorem growing_of_prepared {w w' : Writer} (h : Prepared names t w w') (hw : w.Unwritten) :
    w'.Growing names := by
  cases h with
  | table w canSave =>
    have hempty : w.newestRows = [] := hw
    intro row hrow
    change row ∈ w.newestRows.reverse at hrow
    rw [hempty] at hrow
    cases hrow
  | pack w room =>
    obtain ⟨hholds, hcount, hroom⟩ := hw
    refine ⟨⟨[], ?_, hcount.symm, fun _ => (nomatch ·)⟩, room hroom, hholds.unfinished⟩
    rw [List.flatten_nil, List.append_nil]
    exact hholds.octets

theorem growing_of_forall₂ {writers writers' : List Writer}
    (h : List.Forall₂ (Prepared names t) writers writers') (hwriters : ∀ w ∈ writers, w.Unwritten) :
    ∀ w ∈ writers', w.Growing names := by
  induction h with
  | nil => exact fun _ => (nomatch ·)
  | cons hfirst _ ih =>
    intro w hw
    rcases List.mem_cons.mp hw with rfl | hw
    · exact growing_of_prepared hfirst (hwriters _ List.mem_cons_self)
    · exact ih (fun v hv => hwriters v (List.mem_cons_of_mem _ hv)) w hw

end Writer

namespace Run

/-- a run with names selected, none of whose writers holds anything else -/
structure Growing (asked : List String) (r : Run) : Prop where
  selected : r.config.writeCollections = asked
  writers : ∀ w ∈ r.writers, w.Growing asked

theorem growing_of_begun {config : RunConfig} {feeds : List Feed} {writers : List Writer} {r : Run}
    (h : r.Begun config feeds writers) (hwriters : ∀ w ∈ writers, w.Unwritten) :
    r.Growing r.config.writeCollections :=
  ⟨rfl, Writer.growing_of_forall₂ h.prepared hwriters⟩

variable {asked : List String} {r : Run}

/-! ## in order -/

namespace Growing

theorem withStore (h : r.Growing asked) (s : Store) : ({ r with store := s } : Run).Growing asked :=
  ⟨h.selected, h.writers⟩

/-- one event keeps the selection, whether it can be processed and written or not -/
theorem handle (h : r.Growing asked) (hasked : asked ≠ []) (known : List String) (e : Event) :
    (r.handle known e).2.1.Growing asked := by
  have hwritten := Writer.growing_writeToAll hasked h.writers
    (e.process known r.config.newCollections).event
  rw [Run.handle, h.selected]
  split
  · exact h
  · split
    all_goals
      rename_i hvalue
      rw [hvalue] at hwritten
      exact ⟨h.selected, hwritten⟩

theorem loop (h : r.Growing asked) (hasked : asked ≠ []) (known : List String) (fuel found : Nat)
    (slot : Option Event) : (Run.loop known fuel found slot r).2.Growing asked := by
  induction fuel generalizing found slot r with
  | zero => exact h
  | succ fuel ih =>
    rw [loop_succ]
    split
    · exact h.withStore _
    · exact h.withStore _
    · rename_i raw s _
      have hhandled := (h.withStore s).handle hasked known
        ((Event.make r.config.store.factory slot).setRaw raw)
      split
      all_goals
        rename_i hevent
        rw [hevent] at hhandled
      · exact hhandled
      · exact ih hhandled _ _

end Growing

end Run

/-! ## with several workers -/

namespace Pool

variable {asked : List String} {r : Run} {p : Pool}

theorem growing_fetch (h : r.Growing asked) : (fetch r).2.Growing asked := by
  rw [fetch_eq]
  split <;> exact h.withStore _

theorem growing_stepWorker (h : r.Growing asked) (hasked : asked ≠ []) (known : List String)
    (w : Worker) : (stepWorker known r w).2.Growing asked := by
  rw [stepWorker]
  split
  · exact growing_fetch h
  · dsimp only
    split <;> exact h
  · rename_i e _
    have hwritten := Writer.growing_writeToAll hasked h.writers e
    rw [h.selected]
    exact ⟨h.selected, hwritten⟩
  · exact h

theorem growing_step (h : p.run.Growing asked) (hasked : asked ≠ []) (i : Nat) :
    (p.step i).run.Growing asked := by
  rw [step]
  split
  · exact h
  · exact growing_stepWorker h hasked p.known _

theorem growing_steps (h : p.run.Growing asked) (hasked : asked ≠ []) (schedule : List Nat) :
    (p.steps schedule).run.Growing asked := by
  induction schedule generalizing p with
  | nil => exact h
  | cons i rest ih => exact ih (growing_step h hasked i)

theorem growing_rounds (h : p.run.Growing asked) (hasked : asked ≠ []) (fuel : Nat) :
    (rounds fuel p).run.Growing asked := by
  induction fuel generalizing p with
  | zero => exact h
  | succ fuel ih =>
    rw [rounds]
    split
    · exact h
    · exact ih (growing_steps h hasked _)

end Pool

/-! ## the end -/

namespace Run

variable {asked : List String} {r : Run}

theorem holdsOnly_finishWriters {writers : List Writer} (h : ∀ w ∈ writers, w.Growing asked)
    (metadata : Metadata) :
    ∀ w ∈ (finishWriters metadata writers).2.1 ++ (finishWriters metadata writers).2.2,
      w.HoldsOnly asked := by
  induction writers with
  | nil => exact fun _ => (nomatch ·)
  | cons first rest ih =>
    have htold := (h first List.mem_cons_self).writeMetadata metadata
    have hothers : ∀ w ∈ rest, w.Growing asked := fun w hw => h w (List.mem_cons_of_mem _ hw)
    have hleft : ∀ w ∈ rest, w.HoldsOnly asked := fun w hw => (hothers w hw).holdsOnly
    have hrest := ih hothers
    rw [finishWriters]
    split
    · rename_i told hvalue
      rw [hvalue] at htold
      exact List.forall_mem_cons.mpr ⟨htold.holdsOnly, hleft⟩
    · rename_i told hvalue
      rw [hvalue] at htold
      have hfinished := Writer.Growing.finish htold
      split
      all_goals
        rename_i hend
        rw [hend] at hfinished
      · exact List.forall_mem_cons.mpr ⟨hfinished, hleft⟩
      · exact List.forall_mem_cons.mpr ⟨hfinished, hrest⟩

namespace Growing

theorem complete (h : r.Growing asked) (found : Nat) :
    ∀ w ∈ (r.complete found).finished ++ (r.complete found).unfinished, w.HoldsOnly asked := by
  have hended := holdsOnly_finishWriters h.writers r.config.runMetadata
  rw [Run.complete]
  dsimp only
  split <;> exact hended

theorem execute (h : r.Growing asked) (hasked : asked ≠ []) :
    ∀ w ∈ r.execute.finished ++ r.execute.unfinished, w.HoldsOnly asked := by
  have hsequential : r.sequential.2.Growing asked := h.loop hasked _ _ _ _
  have hparallel : (r.parallel (max r.config.threads 1)).2.Growing asked := by
    have hpool : (Pool.new r (max r.config.threads 1)).runToEnd.run.Growing asked :=
      Pool.growing_rounds h hasked _
    rw [parallel]
    split <;> exact hpool
  have hread : (if max r.config.threads 1 = 1 then r.sequential
      else r.parallel (max r.config.threads 1)).2.Growing asked := by
    split
    · exact hsequential
    · exact hparallel
  rw [Run.execute]
  dsimp only
  split
  · exact fun w hw => (hread.writers w hw).holdsOnly
  · exact hread.complete _

end Growing

/-! ## whole runs -/

/-- of the names that a run is asked for only those count that are known -/
theorem new_writeCollections {config : RunConfig} {feeds : List Feed} {writers : List Writer}
    {names : List String} (hnew : (Run.new config feeds writers).1 = .ok r)
    (hnames : names.filter r.store.table.contains
      = config.writeCollections.filter r.store.table.contains) :
    Run.new { config with writeCollections := names } feeds writers = Run.new config feeds writers := by
  rw [Run.new] at hnew
  rw [Run.new, Run.new]
  cases hfeeds : registerFeeds feeds (.new config.store) with
  | error f => rfl
  | ok fed =>
    rw [hfeeds] at hnew
    dsimp only at hnew ⊢
    rcases hruntime : fed.registerRuntime config.newCollections with ⟨result, s⟩
    cases result with
    | error e => rfl
    | ok _ =>
      rw [hruntime] at hnew
      dsimp only at hnew ⊢
      have hstore : r.store = s := by
        split at hnew
        · cases hnew
        · cases hnew
          rfl
      rw [← hstore, hnames]

/-- a run that knows none of the names it is asked for is the one that was asked for nothing -/
theorem new_of_unknown {config : RunConfig} {feeds : List Feed} {writers : List Writer}
    (hnew : (Run.new config feeds writers).1 = .ok r)
    (hunknown : ∀ name ∈ config.writeCollections, name ∉ r.store.collectionNames) :
    Run.new config feeds writers = Run.new { config with writeCollections := [] } feeds writers := by
  have hnone : config.writeCollections.filter r.store.table.contains = [] := by
    refine List.filter_eq_nil_iff.mpr fun name hname hcontains => ?_
    exact hunknown name hname (IdentityTable.contains_iff_mem_names.mp hcontains)
  refine (new_writeCollections hnew ?_).symm
  rw [hnone]
  rfl

/-- **A run writes nothing that it was not asked for, provided that some name it was asked for is
known.**  This holds however its workers take turns, at any time and at the end, even if it fails.
If no such name is known, it is the run that was asked for nothing. -/
theorem writes_selected {config : RunConfig} {feeds : List Feed} {writers : List Writer}
    (hnew : (Run.new config feeds writers).1 = .ok r) (hwriters : ∀ w ∈ writers, w.Unwritten) :
    ((∃ name ∈ config.writeCollections, name ∈ r.store.collectionNames) →
        (∀ w ∈ r.execute.finished ++ r.execute.unfinished, w.HoldsOnly config.writeCollections)
          ∧ ∀ (threads : Nat) (schedule : List Nat) (p : Pool),
              (Pool.new r threads).steps schedule = p →
              (∀ w ∈ p.run.writers, w.HoldsOnly config.writeCollections)
                ∧ ∀ found : Nat, ∀ w ∈ (p.run.complete found).finished
                    ++ (p.run.complete found).unfinished, w.HoldsOnly config.writeCollections)
      ∧ ((∀ name ∈ config.writeCollections, name ∉ r.store.collectionNames) →
        Run.new config feeds writers
          = Run.new { config with writeCollections := [] } feeds writers) := by
  have hbegun := begun_of_new hnew
  have hselected : r.config.writeCollections
      = config.writeCollections.filter r.store.table.contains :=
    congrArg RunConfig.writeCollections hbegun.config
  refine ⟨fun hknown => ?_, new_of_unknown hnew⟩
  obtain ⟨name, hname, hprovided⟩ := hknown
  have hmem : name ∈ r.config.writeCollections := by
    rw [hselected]
    exact List.mem_filter.mpr ⟨hname, IdentityTable.contains_iff_mem_names.mpr hprovided⟩
  have hasked : r.config.writeCollections ≠ [] := List.ne_nil_of_mem hmem
  have hmore : ∀ name ∈ r.config.writeCollections, name ∈ config.writeCollections := by
    rw [hselected]
    exact fun name hname => (List.mem_filter.mp hname).1
  have hgrowing : r.Growing r.config.writeCollections := growing_of_begun hbegun hwriters
  refine ⟨fun w hw => (hgrowing.execute hasked w hw).mono hmore, ?_⟩
  intro threads schedule p hp
  have hpool : p.run.Growing r.config.writeCollections := by
    rw [← hp]
    exact Pool.growing_steps hgrowing hasked schedule
  exact ⟨fun w hw => (hpool.writers w hw).holdsOnly.mono hmore,
    fun found w hw => (hpool.complete found w hw).mono hmore⟩

open Pool (pairFeed pairWriters pairRun)

/-- a run that makes collections, and is asked for those of its feed and for some that nobody has -/
def partlyKnownConfig : RunConfig :=
  { newCollections := ["notes"], writeCollections := ["ghosts", "hits"] }

theorem unwritten_pairWriters : ∀ w ∈ pairWriters, w.Unwritten := by
  have hpack : PackWriter.new "records" none = .ok
      { name := "records"
        sink := { newest := [Pack.header], attempts := 1 }
        newestHashed := [Pack.header] } := rfl
  refine List.forall_mem_cons.mpr ⟨Writer.unwritten_table "rows" true, ?_⟩
  exact List.forall_mem_singleton.mpr (Writer.unwritten_pack hpack)

theorem writes_selected_partlyKnown :
    ∃ r, (Run.new partlyKnownConfig [pairFeed] pairWriters).1 = .ok r
      ∧ r.store.collectionNames = ["hits", "notes"]
      ∧ r.execute.result = .ok ⟨2, 1, 1, 1, 2⟩
      ∧ ∀ w ∈ r.execute.finished ++ r.execute.unfinished, w.HoldsOnly ["ghosts", "hits"] := by
  obtain ⟨r, hnew, hnames, hresult⟩ : ∃ r, (Run.new partlyKnownConfig [pairFeed] pairWriters).1 = .ok r
      ∧ r.store.collectionNames = ["hits", "notes"]
      ∧ r.execute.result = .ok ⟨2, 1, 1, 1, 2⟩ := ⟨_, rfl, by decide +kernel, rfl⟩
  have hknown : ∃ name ∈ partlyKnownConfig.writeCollections, name ∈ r.store.collectionNames := by
    rw [hnames]
    exact ⟨"hits", by decide, by decide⟩
  obtain ⟨hselected, -⟩ := (writes_selected hnew unwritten_pairWriters).1 hknown
  exact ⟨r, hnew, hnames, hresult, hselected⟩

/-- a run that is asked for a collection that nobody has, and for nothing else, writes what it was not
asked for -/
theorem writes_unselected :
    (Run.new { writeCollections := ["ghosts"] } [pairFeed] pairWriters).1 = .ok pairRun
      ∧ pairRun.execute.result = .ok ⟨2, 1, 1, 1, 2⟩
      ∧ ∃ w ∈ pairRun.execute.finished, ¬ w.HoldsOnly ["ghosts"] := by
  refine ⟨rfl, rfl, _, List.mem_cons_self, fun hholds => ?_⟩
  obtain ⟨name, hname, hcolumn⟩ := hholds [some ⟨[1], some [], some [], some 1⟩] (by decide) 0 _ rfl
  rw [List.mem_singleton.mp hname] at hcolumn
  have hsame : "hits" = "ghosts" := Option.some.inj hcolumn
  exact absurd hsame (by decide)

end Run

end EventMerge
