import EventMerge.Proofs.Event.Processing
import EventMerge.Proofs.Run.Registering
import EventMerge.Proofs.Run.Writing
import EventMerge.Proofs.Store.Pulling

/-!
# What a run in order comes to

A run in order fetches raw data until there are no more, and each of them becomes an event that is
processed and written by itself: nothing of an event goes over into the next, reused or not.

* `RunConfig.made`, `RunConfig.finished`, `RunConfig.foundIn`  what becomes of raw data;
* `RunConfig.within_finished`  a processed event offers known names only;
* `Run.Ready`                  all names are known to the writers;
* `Run.Succeeds`               the raw data that a run fetches can all be processed and written;
* `Run.events`                 the events of a run in order;
* `Run.sequential_ok`          what a run in order holds when it has succeeded.
-/

namespace EventMerge

/-! ## what becomes of raw data -/

namespace RunConfig

/-- the event of raw data before it is processed -/
def made (c : RunConfig) (raw : RawData) : Event :=
  (Event.fresh c.store.eventKind c.store.putPolicy).setRaw raw

/-- how the event of raw data is processed -/
def processed (c : RunConfig) (known : List String) (raw : RawData) :
    Outcome (Except StoreError Nat) := (c.made raw).process known c.newCollections

/-- the event of raw data after it is processed -/
def finished (c : RunConfig) (known : List String) (raw : RawData) : Event :=
  (c.processed known raw).event

/-- the collections that are found in an event -/
def foundIn (c : RunConfig) (known : List String) (raw : RawData) : Nat :=
  match (c.processed known raw).value with
  | .ok found => found
  | .error _ => 0

theorem foundIn_eq {c : RunConfig} {known : List String} {raw : RawData} {found : Nat}
    (h : (c.processed known raw).value = .ok found) : c.foundIn known raw = found := by
  rw [foundIn, h]

theorem putPolicy_finished (c : RunConfig) (known : List String) (raw : RawData) :
    (c.finished known raw).putPolicy = c.store.putPolicy :=
  (c.made raw).putPolicy_process known c.newCollections

theorem runtime?_made (c : RunConfig) (raw : RawData) (name : String) :
    (c.made raw).runtime? name = none :=
  (Event.runtime?_setRaw _ raw name).trans (Event.runtime?_fresh _ _ name)

theorem isValid_of_offer? {c : RunConfig} {known : List String} {raw : RawData} {name : String}
    {buffers : Buffers} (h : (c.finished known raw).offer? (some raw) name = some buffers) :
    buffers.isValid = true := by
  rw [Event.offer?] at h
  split at h
  · rename_i d hd
    obtain ⟨-, found, rfl⟩ := Event.made_of_runtime?_process (c.runtime?_made raw) hd
    cases h
    exact Buffers.isValid_filled _
  · change raw.readable? name = some buffers at h
    rw [RawData.readable?] at h
    split at h
    · split at h
      · rename_i hvalid
        cases h
        exact hvalid
      · cases h
    · cases h

/-- an event offers what was put in while it was processed and what the sources have, and all names
of these are known -/
theorem within_finished {c : RunConfig} {known : List String} {raw : RawData}
    (hnew : ∀ name ∈ c.newCollections, name ∈ known) (hraw : raw.table.names = known) :
    (c.finished known raw).Within (some raw) known := by
  refine ⟨(Event.follows_setRaw _ raw).process known c.newCollections, fun name hoffer => ?_⟩
  rcases Event.known_of_offer? hoffer with ⟨d, hd⟩ | ⟨d, hd⟩
  · exact hnew name (Event.made_of_runtime?_process (c.runtime?_made raw) hd).1
  · exact hraw ▸ RawData.mem_knownNames_of_decoded? hd

end RunConfig

/-! ## runs -/

namespace Run

/-- the writers know all names that come up in a run -/
structure Ready (r : Run) (known : List String) : Prop where
  table : r.store.table.names = known
  new_known : ∀ name ∈ r.config.newCollections, name ∈ known
  knows : ∀ w ∈ r.writers, w.Knows known

/-- the run fetches certain raw data and no more, and all of them can be processed and written -/
structure Succeeds (r : Run) (known : List String) (raws : List RawData) (last : Store) : Prop where
  supplies : r.store.Supplies r.config.maxEvents raws last
  processed : ∀ raw ∈ raws, ∃ found, (r.config.processed known raw).value = .ok found
  room : ∀ w ∈ r.writers, ∀ k < raws.length, w.HasRoom k

/-- the run after it has read to the end and written events -/
def finishedWith (r : Run) (last : Store) (events : List Event) : Run :=
  { r with
    store := last
    writers := r.writers.map fun w => w.addAll r.config.writeCollections events }

theorem knows_of_prepared {names : List String} {t : IdentityTable} {writers writers' : List Writer}
    (h : List.Forall₂ (Writer.Prepared names t) writers writers') :
    ∀ w ∈ writers', w.Knows t.names := by
  induction h with
  | nil => exact fun _ hw => nomatch hw
  | cons hfirst _ ih =>
    intro w hw
    rcases List.mem_cons.mp hw with rfl | hw
    · cases hfirst with
      | table w canSave => trivial
      | pack w room => exact fun name hname => TableReader.mem_addNames.mpr (.inr hname)
    · exact ih w hw

theorem ready_of_begun {config : RunConfig} {feeds : List Feed} {writers : List Writer} {r : Run}
    (h : r.Begun config feeds writers) : r.Ready r.store.collectionNames :=
  ⟨rfl, h.new_known, knows_of_prepared h.prepared⟩

/-! ## one event -/

section

variable {r : Run} {known : List String}

theorem handle_of_processed (hready : r.Ready known) {raw : RawData}
    (hraw : raw.table.names = known) {found : Nat}
    (hfound : (r.config.processed known raw).value = .ok found)
    (hroom : ∀ w ∈ r.writers, w.HasRoom 0) :
    ∃ event, r.handle known (r.config.made raw)
        = (.ok found, r.finishedWith r.store [r.config.finished known raw], event)
      ∧ event.putPolicy = r.config.store.putPolicy := by
  have hwithin := RunConfig.within_finished hready.new_known hraw
  have hwritten := Writer.writeToAll_ok r.config.writeCollections hready.knows hwithin hroom
  have hpolicy := Writer.putPolicy_writeToAll r.config.writeCollections r.writers
    (r.config.finished known raw)
  have hprocessed : (r.config.made raw).process known r.config.newCollections
      = r.config.processed known raw := rfl
  have hfinished : (r.config.processed known raw).event = r.config.finished known raw := rfl
  rw [handle, hprocessed, hfound, hfinished]
  dsimp only
  generalize Writer.writeToAll r.config.writeCollections r.writers (r.config.finished known raw)
    = outcome at hwritten hpolicy
  obtain ⟨result, event⟩ := outcome
  obtain rfl := hwritten
  exact ⟨event, rfl, hpolicy.trans (r.config.putPolicy_finished known raw)⟩

theorem handle_ok (hready : r.Ready known) {raw : RawData} (hraw : raw.table.names = known)
    {found : Nat} {r' : Run} {event : Event}
    (h : r.handle known (r.config.made raw) = (.ok found, r', event)) :
    (r.config.processed known raw).value = .ok found ∧ (∀ w ∈ r.writers, w.HasRoom 0)
      ∧ r' = r.finishedWith r.store [r.config.finished known raw]
      ∧ event.putPolicy = r.config.store.putPolicy := by
  have hwithin := RunConfig.within_finished hready.new_known hraw
  have hprocessed : (r.config.made raw).process known r.config.newCollections
      = r.config.processed known raw := rfl
  have hfinished : (r.config.processed known raw).event = r.config.finished known raw := rfl
  -- neither processing nor writing has failed
  have htaken : ∃ more, (r.config.processed known raw).value = .ok more
      ∧ (Writer.writeToAll r.config.writeCollections r.writers
        (r.config.finished known raw)).1.1 = .ok () := by
    rw [handle, hprocessed, hfinished] at h
    split at h
    · cases h
    · rename_i more hvalue
      split at h
      · cases h
      · rename_i hwritten
        exact ⟨more, hvalue, congrArg (fun outcome => outcome.1.1) hwritten⟩
  obtain ⟨more, hvalue, hdone⟩ := htaken
  have hroom := Writer.hasRoom_of_writeToAll hready.knows hwithin hdone
  obtain ⟨event', hhandle, hpolicy⟩ := handle_of_processed hready hraw hvalue hroom
  rw [hhandle] at h
  cases h
  exact ⟨hvalue, hroom, rfl, hpolicy⟩

/-! ## one event after the other -/

theorem loop_succ (known : List String) (fuel found : Nat) (slot : Option Event) (r : Run) :
    loop known (fuel + 1) found slot r
      = match r.store.fetch r.config.maxEvents with
        | (.error e, s) => (.error (.ofStore e), { r with store := s })
        | (.ok none, s) => (.ok found, { r with store := s })
        | (.ok (some raw), s) =>
          match ({ r with store := s } : Run).handle known
              ((Event.make r.config.store.factory slot).setRaw raw) with
          | (.error f, r, _) => (.error f, r)
          | (.ok more, r, event) => loop known fuel (found + more) (some event) r := by
  rw [loop, Store.fetch]
  show (if r.store.isFull r.config.maxEvents = true then _ else _) = _
  split
  · rfl
  · dsimp only
    rw [Store.next_value, Store.next_store]
    rcases r.store.pull with ⟨result, s⟩
    rcases result with e | _ | raw <;> rfl

/-- the events of a run in order, each as it is once it was processed -/
def eventsFrom (known : List String) : (fuel : Nat) → (slot : Option Event) → Run → List Event
  | 0, _, _ => []
  | fuel + 1, slot, r =>
    if r.limitReached then []
    else
      let (next, store, _) := r.store.next r.config.store.factory slot
      let r := { r with store }
      match next with
      | .error _ | .ok none => []
      | .ok (some event) =>
        match r.handle known event with
        | (.error _, _, _) => []
        | (.ok _, r, after) =>
          (event.process known r.config.newCollections).event
            :: eventsFrom known fuel (some after) r

/-- the events that a run in order processes and writes, each as it is once it was processed -/
def events (r : Run) : List Event :=
  eventsFrom r.store.collectionNames (eventBound r.store + 1) none r

theorem eventsFrom_succ (known : List String) (fuel : Nat) (slot : Option Event) (r : Run) :
    eventsFrom known (fuel + 1) slot r
      = match r.store.fetch r.config.maxEvents with
        | (.error _, _) | (.ok none, _) => []
        | (.ok (some raw), s) =>
          match ({ r with store := s } : Run).handle known
              ((Event.make r.config.store.factory slot).setRaw raw) with
          | (.error _, _, _) => []
          | (.ok _, r', after) =>
            (((Event.make r.config.store.factory slot).setRaw raw).process known
              r'.config.newCollections).event :: eventsFrom known fuel (some after) r' := by
  rw [eventsFrom, Store.fetch]
  show (if r.store.isFull r.config.maxEvents = true then _ else _) = _
  split
  · rfl
  · dsimp only
    rw [Store.next_value, Store.next_store]
    rcases r.store.pull with ⟨result, s⟩
    rcases result with e | _ | raw <;> rfl

theorem eventBound_of_fetch {limit : Option Nat} {s s' : Store} {raw : RawData}
    (h : s.fetch limit = (.ok (some raw), s')) : eventBound s' < eventBound s := by
  obtain ⟨-, hpull⟩ := Store.isFull_eq_false_of_fetch_some h
  obtain ⟨-, -, -, -, hreaders, hscripts⟩ := Store.pull_some hpull
  rw [eventBound, eventBound, hreaders]
  cases hs : s.readers with
  | nil =>
    rw [Store.pull, hs] at hpull
    cases hpull
  | cons first rest =>
    have hpos := List.length_pos_iff.mpr (hscripts first (hs ▸ List.mem_cons_self))
    show first.advanced.feed.script.length < first.feed.script.length
    rw [Registered.advanced, List.length_tail]
    omega

theorem Ready.finishedWith (h : r.Ready known) {last : Store} (htable : last.table = r.store.table)
    (events : List Event) : (r.finishedWith last events).Ready known := by
  refine ⟨(congrArg _ htable).trans h.table, h.new_known, fun w hw => ?_⟩
  obtain ⟨v, hv, rfl⟩ := List.mem_map.mp hw
  exact (h.knows v hv).addAll events

theorem finishedWith_finishedWith (r : Run) (s s' : Store) (first second : List Event) :
    (r.finishedWith s first).finishedWith s' second = r.finishedWith s' (first ++ second) := by
  rw [finishedWith, finishedWith, finishedWith]
  simp [Writer.addAll_append]

theorem loop_ok {fuel found total : Nat} {slot : Option Event} {r' : Run} (hready : r.Ready known)
    (hslot : ∀ old ∈ slot, old.putPolicy = r.config.store.putPolicy)
    (hfuel : eventBound r.store < fuel) (h : loop known fuel found slot r = (.ok total, r')) :
    ∃ raws last, r.Succeeds known raws last
      ∧ total = found + EventMerge.total (r.config.foundIn known) raws
      ∧ r' = r.finishedWith last (raws.map (r.config.finished known))
      ∧ eventsFrom known fuel slot r = raws.map (r.config.finished known) := by
  induction fuel generalizing found slot r with
  | zero => omega
  | succ fuel ih =>
    rw [loop_succ] at h
    rw [eventsFrom_succ]
    split at h
    · cases h
    · rename_i s hfetch
      cases h
      refine ⟨[], s, ⟨.done hfetch, fun _ => (nomatch ·), fun _ _ _ => (nomatch ·)⟩, rfl, ?_, ?_⟩
      · rw [finishedWith]
        simp [Writer.addAll_nil]
      · rfl
    · rename_i raw s hfetch
      obtain ⟨-, hpull⟩ := Store.isFull_eq_false_of_fetch_some hfetch
      obtain ⟨htable, hkept, -⟩ := Store.pull_some hpull
      -- nothing of the old event is left in the one that is made of it
      rw [Event.make_eq_fresh _ hslot] at h ⊢
      split at h
      · cases h
      · rename_i more r₁ event hhandle
        have hready₁ : ({ r with store := s } : Run).Ready known :=
          ⟨(congrArg _ hkept).trans hready.table, hready.new_known, hready.knows⟩
        obtain ⟨hvalue, hroom, rfl, hpolicy⟩ :=
          handle_ok hready₁ ((congrArg _ htable).trans hready.table) hhandle
        have hbound := eventBound_of_fetch hfetch
        obtain ⟨raws, last, hsucceeds, htotal, hrun, hevents⟩ := ih
          (hready₁.finishedWith rfl [r.config.finished known raw])
          (fun old hold => Option.some.inj hold ▸ hpolicy) (by
            show eventBound s < fuel
            omega) h
        refine ⟨raw :: raws, last, ⟨.more hfetch hsucceeds.supplies, fun raw' hmem => ?_,
          fun w hw k hk => ?_⟩, ?_, ?_, ?_⟩
        · rcases List.mem_cons.mp hmem with rfl | hmem
          · exact ⟨more, hvalue⟩
          · exact hsucceeds.processed raw' hmem
        · cases k with
          | zero => exact hroom w hw
          | succ k =>
            refine Writer.hasRoom_add.mp (hsucceeds.room _ (List.mem_map_of_mem hw) k ?_)
            rw [List.length_cons] at hk
            omega
        · rw [htotal, total_cons, RunConfig.foundIn_eq hvalue, Nat.add_assoc]
          rfl
        · rw [hrun]
          exact finishedWith_finishedWith { r with store := s } s last _ _
        · rw [hevents]
          rfl

end

/-- **A run in order holds the events of the raw data that it fetched, in their order.** -/
theorem sequential_ok {r r' : Run} {found : Nat} (hready : r.Ready r.store.collectionNames)
    (h : r.sequential = (.ok found, r')) :
    ∃ raws last, r.Succeeds r.store.collectionNames raws last
      ∧ found = total (r.config.foundIn r.store.collectionNames) raws
      ∧ r' = r.finishedWith last (raws.map (r.config.finished r.store.collectionNames))
      ∧ r.events = raws.map (r.config.finished r.store.collectionNames) := by
  obtain ⟨raws, last, hsucceeds, htotal, hrun, hevents⟩ :=
    loop_ok hready (by simp) (Nat.lt_succ_self _) h
  exact ⟨raws, last, hsucceeds, htotal.trans (Nat.zero_add _), hrun, hevents⟩

end Run

end EventMerge
