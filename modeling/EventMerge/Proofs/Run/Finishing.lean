import EventMerge.Proofs.Pack.Opening
import EventMerge.Proofs.Run.Workers

/-!
# How a run ends

When the events are written, every writer is told the texts about collections and finished.  If that
succeeds, a pack is closed with its checksum, and a table is what it was.

* `PackWriter.holds_addAll`                          what a pack holds of the events;
* `Run.Finished`, `Run.complete_ok`                  how the writers of a run are finished;
* `PackWriter.finished_ok`, `TableWriter.finished_ok`  what they are then;
* `Run.written_ok`                                   what becomes of every writer.
-/

namespace EventMerge

/-! ## packs with events -/

namespace PackWriter

theorem holds_addAll {w : PackWriter} (hw : w.Holds []) (names : List String)
    (events : List Event) :
    ∃ w', (Writer.pack w).addAll names events = .pack w'
      ∧ w'.Holds (events.map (contentOf w.table names)) ∧ w'.table = w.table
      ∧ w'.metadata = w.metadata ∧ w'.sink.failAt = w.sink.failAt := by
  refine ⟨_, Writer.addAll_pack names w events, ⟨?_, ?_, hw.unfinished⟩, rfl, rfl, rfl⟩
  · have hoctets := octets_emitted w (events.map (w.recordOf names))
    have hempty : Pack.Record.encodeAll w.compressor (([] : List Pack.PackedEvent).map fun e =>
        (Pack.RecordKind.event, Pack.Codecs.event.write e)) = [] := rfl
    refine hoctets.trans ?_
    rw [hw.octets, hempty, List.append_nil, Pack.Record.encodeAll, List.map_map, List.flatMap_map]
    rfl
  · have hhashed := hashed_emitted w (events.map (w.recordOf names))
    have hoctets := octets_emitted w (events.map (w.recordOf names))
    refine hhashed.trans ?_
    rw [hw.hashed]
    exact hoctets.symm

end PackWriter

/-! ## the end of a run -/

namespace Run

/-- a writer that was given texts about collections and is finished -/
def Finished (metadata : Metadata) (w w' : Writer) : Prop :=
  ∃ told, w.writeMetadata metadata = (.ok (), told) ∧ told.finish = (.ok (), w')

theorem finishWriters_ok {metadata : Metadata} {writers finished remaining : List Writer}
    (h : finishWriters metadata writers = (.ok (), finished, remaining)) :
    List.Forall₂ (Finished metadata) writers finished := by
  induction writers generalizing finished remaining with
  | nil =>
    cases h
    exact .nil
  | cons w rest ih =>
    rw [finishWriters] at h
    split at h
    · cases h
    · rename_i told htold
      split at h
      · cases h
      · rename_i w' hfinish
        dsimp only at h
        rcases hrest : finishWriters metadata rest with ⟨result, done, left⟩
        rw [hrest] at h
        cases h
        exact .cons ⟨told, htold, hfinish⟩ (ih hrest)

theorem complete_ok {r : Run} {found : Nat} {summary : RunSummary}
    (h : (r.complete found).result = .ok summary) :
    List.Forall₂ (Finished r.config.runMetadata) r.writers (r.complete found).finished := by
  rw [complete] at h ⊢
  rcases hend : finishWriters r.config.runMetadata r.writers with ⟨result, finished, remaining⟩
  rw [hend] at h
  cases result with
  | error f => cases h
  | ok _ => exact finishWriters_ok hend

end Run

theorem PackWriter.finished_ok {metadata : Metadata} {w : PackWriter} {w' : Writer}
    {contents : List Pack.PackedEvent} (hw : w.Holds contents)
    (h : Run.Finished metadata (.pack w) w') :
    ∃ (told done : PackWriter) (checksum : Bytes), w' = .pack done ∧ told.Holds contents
      ∧ told.table = w.table ∧ told.finishPack = (.ok checksum, done) := by
  obtain ⟨told, htold, hfinish⟩ := h
  have hopen : w.isFinished = false := by
    rw [isFinished, hw.unfinished]
    rfl
  have hmetadata : (Writer.pack w).writeMetadata metadata
      = (.ok (), .pack { w with metadata := w.metadata.union metadata }) := by
    show ((w.writeMetadata metadata).1, Writer.pack (w.writeMetadata metadata).2) = _
    rw [writeMetadata, hopen]
    rfl
  rw [hmetadata] at htold
  cases htold
  have hpack : (((({ w with metadata := w.metadata.union metadata } : PackWriter).finish).1),
      Writer.pack ({ w with metadata := w.metadata.union metadata } : PackWriter).finish.2)
      = (.ok (), w') := hfinish
  rw [finish] at hpack
  split at hpack
  · rename_i checksum done hdone
    cases hpack
    exact ⟨{ w with metadata := w.metadata.union metadata }, done, checksum, rfl,
      ⟨hw.octets, hw.hashed, hw.unfinished⟩, rfl, hdone⟩
  · cases hpack

theorem TableWriter.finished_ok {metadata : Metadata} {w : TableWriter} {canSave : Bool} {w' : Writer}
    (h : Run.Finished metadata (.table w canSave) w') :
    w' = .table (w.writeMetadata metadata) canSave := by
  obtain ⟨told, htold, hfinish⟩ := h
  cases htold
  exact (Prod.mk.inj hfinish).2.symm

/-! ## runs in order -/

theorem forall₂_getElem? {α β : Type} {R : α → β → Prop} {as : List α} {bs : List β}
    (h : List.Forall₂ R as bs) {i : Nat} {a : α} (ha : as[i]? = some a) :
    ∃ b, bs[i]? = some b ∧ R a b := by
  induction h generalizing i with
  | nil => cases ha
  | cons hfirst _ ih =>
    cases i with
    | zero =>
      cases ha
      exact ⟨_, rfl, hfirst⟩
    | succ i => exact ih ha

namespace Run

/-- what becomes of every writer of a run in order that has succeeded -/
theorem written_ok {config : RunConfig} {feeds : List Feed} {writers : List Writer} {r : Run}
    {summary : RunSummary} (hnew : (Run.new config feeds writers).1 = .ok r)
    (hthreads : config.threads ≤ 1) (hrun : r.execute.result = .ok summary) :
    ∃ raws : List RawData, (∀ raw ∈ raws, raw.table.names = r.store.collectionNames)
      ∧ r.events = raws.map (r.config.finished r.store.collectionNames)
      ∧ summary.events = raws.length
      ∧ ∀ {i : Nat} {w : Writer}, writers[i]? = some w → ∃ prepared done,
          Writer.Prepared r.config.writeCollections r.store.table w prepared
            ∧ Finished r.config.runMetadata (prepared.addAll r.config.writeCollections r.events) done
            ∧ r.execute.finished[i]? = some done := by
  have hbegun := begun_of_new hnew
  have hone : r.config.threads ≤ 1 := by
    rw [hbegun.config]
    exact hthreads
  obtain ⟨found, r', hsequential, hexecute, hread, -⟩ := execute_ok hone hrun
  obtain ⟨raws, last, hsucceeds, -, rfl, hevents⟩ :=
    sequential_ok (ready_of_begun hbegun) hsequential
  rw [hexecute] at hrun ⊢
  have hfinished := complete_ok hrun
  refine ⟨raws, fun raw hraw => congrArg IdentityTable.names (hsucceeds.supplies.table_eq raw hraw),
    hevents, ?_, fun {i w} hw => ?_⟩
  · have hcount := hsucceeds.supplies.eventsRead_eq
    rw [hbegun.unread, Nat.zero_add] at hcount
    exact hread.trans hcount
  · obtain ⟨prepared, hprepared, hfirst⟩ := forall₂_getElem? hbegun.prepared hw
    have hadded : (r.finishedWith last
        (raws.map (r.config.finished r.store.collectionNames))).writers[i]?
        = some (prepared.addAll r.config.writeCollections r.events) := by
      rw [hevents, finishedWith, List.getElem?_map, hprepared]
      rfl
    obtain ⟨done, hdone, hlast⟩ := forall₂_getElem? hfinished hadded
    exact ⟨prepared, done, hfirst, hlast, hdone⟩

end Run

end EventMerge
