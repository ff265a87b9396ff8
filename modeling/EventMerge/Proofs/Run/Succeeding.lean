import EventMerge.Proofs.Event.Settling
import EventMerge.Proofs.Pack.Calls
import EventMerge.Proofs.Run.Finishing

/-!
# When a run in order succeeds

Once it was made, a run in order can fail when raw data are fetched, when their event is processed or
written, and when a writer is finished, and nowhere else.  So it comes to its end if raw data are fetched
until there are no more, all of them can be processed, the writers have room for their events, and each
writer can be finished.

* `Event.process_ok`           an event that is given no new collections can be processed;
* `Store.supplies_alone`       the raw data of a single feed that gives nothing but events;
* `Run.sequential_of_succeeds` one event after the other;
* `PackWriter.finished_of_sound`  a pack whose sink never fails can be finished;
* `Run.execute_of_succeeds`    the whole run.
-/

namespace EventMerge

/-! ## processing -/

theorem Event.process_ok {e : Event} {raw : Option RawData} (h : e.Follows raw)
    (hraw : raw.isSome = true) (known : List String) :
    ∃ found, (e.process known []).value = .ok found := by
  have hsurvey := survey_value h hraw (known ++ [missingCollection]) {}
  rw [process, hsurvey]
  exact ⟨_, rfl⟩

theorem RunConfig.processed_ok {c : RunConfig} (h : c.newCollections = []) (known : List String)
    (raw : RawData) : ∃ found, (c.processed known raw).value = .ok found := by
  have hfollows := Event.follows_setRaw (Event.fresh c.store.eventKind c.store.putPolicy) raw
  rw [processed, h]
  exact Event.process_ok hfollows rfl known

/-! ## fetching -/

theorem Store.supplies_alone {source : SourceId} {label : String} {entries : SourceEntries}
    {decoder : Decoder} {handles : List Handle} {s : Store}
    (hreaders : s.readers = [⟨source, ⟨label, entries, decoder, handles.map .event⟩, decoder⟩])
    (hopen : s.exhausted = false) :
    ∃ last, s.Supplies none
      (handles.map fun handle => ⟨s.table, [⟨source, label, handle, decoder⟩]⟩) last := by
  induction handles generalizing s with
  | nil =>
    have hfetch : ∃ last, s.fetch none = (.ok none, last) := by
      rw [fetch, isFull, if_neg Bool.false_ne_true, pull, hreaders, hopen]
      exact ⟨_, rfl⟩
    obtain ⟨last, hfetch⟩ := hfetch
    exact ⟨last, .done hfetch⟩
  | cons handle rest ih =>
    have hfetch : ∃ s',
        s.fetch none = (.ok (some ⟨s.table, [⟨source, label, handle, decoder⟩]⟩), s')
        ∧ s'.readers = [⟨source, ⟨label, entries, decoder, rest.map .event⟩, decoder⟩]
        ∧ s'.exhausted = false ∧ s'.table = s.table := by
      rw [fetch, isFull, if_neg Bool.false_ne_true, pull, hreaders, hopen]
      exact ⟨_, rfl, rfl, rfl, rfl⟩
    obtain ⟨s', hfetch, hreaders', hopen', htable⟩ := hfetch
    obtain ⟨last, hrest⟩ := ih hreaders' hopen'
    rw [htable] at hrest
    exact ⟨last, .more hfetch hrest⟩

/-! ## one event after the other -/

namespace Run

variable {r : Run} {known : List String}

theorem loop_of_succeeds {fuel found : Nat} {slot : Option Event} {raws : List RawData}
    {last : Store} (hready : r.Ready known) (h : r.Succeeds known raws last)
    (hslot : ∀ old ∈ slot, old.putPolicy = r.config.store.putPolicy)
    (hfuel : eventBound r.store < fuel) :
    loop known fuel found slot r
      = (.ok (found + total (r.config.foundIn known) raws),
        r.finishedWith last (raws.map (r.config.finished known))) := by
  induction raws generalizing fuel found slot r with
  | nil =>
    obtain ⟨fuel, rfl⟩ := Nat.exists_eq_succ_of_ne_zero (Nat.ne_of_gt (Nat.zero_lt_of_lt hfuel))
    cases h.supplies with
    | done hfetch =>
      rw [loop_succ, hfetch, finishedWith]
      simp [Writer.addAll_nil, total_nil]
  | cons raw rest ih =>
    obtain ⟨fuel, rfl⟩ := Nat.exists_eq_succ_of_ne_zero (Nat.ne_of_gt (Nat.zero_lt_of_lt hfuel))
    cases h.supplies with
    | @more _ s _ _ _ hfetch hrest =>
      obtain ⟨-, hpull⟩ := Store.isFull_eq_false_of_fetch_some hfetch
      obtain ⟨htable, hkept, -⟩ := Store.pull_some hpull
      have hbound := eventBound_of_fetch hfetch
      have hready₁ : ({ r with store := s } : Run).Ready known :=
        ⟨(congrArg _ hkept).trans hready.table, hready.new_known, hready.knows⟩
      obtain ⟨more, hmore⟩ := h.processed raw List.mem_cons_self
      have hroom : ∀ w ∈ r.writers, w.HasRoom 0 := by
        intro w hw
        exact h.room w hw 0 (by simp)
      obtain ⟨event, hhandle, hpolicy⟩ :=
        handle_of_processed hready₁ ((congrArg _ htable).trans hready.table) hmore hroom
      -- the rest of the run begins with writers that hold this event
      have hsucceeds : (({ r with store := s } : Run).finishedWith s
          [r.config.finished known raw]).Succeeds known rest last := by
        refine ⟨hrest, fun raw' hmem => h.processed raw' (List.mem_cons_of_mem _ hmem), ?_⟩
        intro w hw k hk
        obtain ⟨v, hv, rfl⟩ := List.mem_map.mp hw
        refine Writer.hasRoom_add.mpr (h.room v hv (k + 1) ?_)
        rw [List.length_cons]
        omega
      have hloop := @ih _ fuel (found + more) (some event)
        (hready₁.finishedWith rfl [r.config.finished known raw]) hsucceeds
        (fun old hold => Option.some.inj hold ▸ hpolicy) (by
          show eventBound s < fuel
          omega)
      have hmade : (Event.make r.config.store.factory slot).setRaw raw = r.config.made raw :=
        congrArg (fun e => Event.setRaw e raw) (Event.make_eq_fresh _ hslot)
      have hhandled : ({ r with store := s } : Run).handle known (r.config.made raw)
        = (.ok more, ({ r with store := s } : Run).finishedWith s [r.config.finished known raw],
          event) := hhandle
      have htotal : found + more + total (r.config.foundIn known) rest
          = found + total (r.config.foundIn known) (raw :: rest) := by
        rw [total_cons, RunConfig.foundIn_eq hmore, Nat.add_assoc]
      rw [loop_succ, hfetch]
      dsimp only
      rw [hmade, hhandled]
      dsimp only
      rw [hloop, finishedWith_finishedWith]
      exact Prod.ext (congrArg Except.ok htotal) rfl

theorem sequential_of_succeeds {raws : List RawData} {last : Store}
    (hready : r.Ready r.store.collectionNames)
    (h : r.Succeeds r.store.collectionNames raws last) :
    r.sequential
      = (.ok (total (r.config.foundIn r.store.collectionNames) raws),
        r.finishedWith last (raws.map (r.config.finished r.store.collectionNames))) := by
  have hloop := @loop_of_succeeds r _ _ 0 none _ _ hready h (fun _ => nofun)
    (Nat.lt_succ_self (eventBound r.store))
  rwa [Nat.zero_add] at hloop

end Run

/-! ## the end -/

theorem PackWriter.finished_of_sound {w : PackWriter} (hopen : w.checksum = none)
    (hsound : w.sink.failAt = none) (metadata : Metadata) :
    ∃ done, Run.Finished metadata (.pack w) (.pack done) := by
  have hunfinished : w.isFinished = false := by
    rw [isFinished, hopen]
    rfl
  have htold : w.writeMetadata metadata
      = (.ok (), { w with metadata := w.metadata.union metadata }) := by
    rw [writeMetadata, hunfinished]
    rfl
  have hsame : ({ w with metadata := w.metadata.union metadata } : PackWriter).checksum = none :=
    hopen
  obtain ⟨checksum, done, hdone, -⟩ := finishPack_of_sound hsame hsound
  refine ⟨done, .pack { w with metadata := w.metadata.union metadata }, ?_, ?_⟩
  · rw [Writer.writeMetadata, htold]
  · rw [Writer.finish, finish, hdone]

namespace Run

theorem finishWriters_of_finished {metadata : Metadata} {writers finished : List Writer}
    (h : List.Forall₂ (Finished metadata) writers finished) :
    finishWriters metadata writers = (.ok (), finished, []) := by
  induction h with
  | nil => rfl
  | cons hfirst _ ih =>
    obtain ⟨told, htold, hfinish⟩ := hfirst
    rw [finishWriters, htold]
    dsimp only
    rw [hfinish]
    dsimp only
    rw [ih]

theorem complete_of_finished {r : Run} {finished : List Writer}
    (h : List.Forall₂ (Finished r.config.runMetadata) r.writers finished) (found : Nat) :
    ∃ summary, r.complete found = ⟨.ok summary, finished, []⟩ := by
  rw [complete, finishWriters_of_finished h]
  exact ⟨_, rfl⟩

/-- **A run in order succeeds if its raw data can be processed and written, and its writers be
finished.** -/
theorem execute_of_succeeds {r : Run} {raws : List RawData} {last : Store} {finished : List Writer}
    (hthreads : r.config.threads ≤ 1) (hready : r.Ready r.store.collectionNames)
    (h : r.Succeeds r.store.collectionNames raws last)
    (hfinished : List.Forall₂ (Finished r.config.runMetadata)
      (r.writers.map fun w => w.addAll r.config.writeCollections
        (raws.map (r.config.finished r.store.collectionNames))) finished) :
    ∃ summary, r.execute = ⟨.ok summary, finished, []⟩ := by
  have hone : max r.config.threads 1 = 1 := Nat.max_eq_right hthreads
  have hsequential := sequential_of_succeeds hready h
  rw [execute, hone, if_pos rfl, hsequential]
  exact complete_of_finished hfinished _

end Run

end EventMerge
