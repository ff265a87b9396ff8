import EventMerge.Proofs.Pack.Finality
import EventMerge.Proofs.Run.Strategies
import EventMerge.Proofs.Run.Succeeding
import EventMerge.Proofs.Store.Rereading

/-!
# From one feed into one pack

A run in order with nothing configured reads a single feed and writes a single new pack.  If there are
numbers for the names of the feed, and the feed gives nothing but events, nothing can go wrong; the pack
lists the valid payloads of every event, in the order of their names.

* `IdentityTable.names_alone`     the names of a table with one source;
* `RunConfig.contentOf_finished`  what a pack lists of an event that is given no new collections;
* `Run.alone`                     the run once it has been made;
* `Run.succeeds_alone`            every event can be processed and written;
* `Run.conduct_alone`             the run from its registration to its end.
-/

namespace EventMerge

open Pack

/-! ## one source -/

theorem IdentityTable.names_alone (source : SourceId) (entries : SourceEntries) :
    (⟨[(source, entries)]⟩ : IdentityTable).names = entries.keys := by
  refine NameMap.eq_of_sorted (sorted_names _) entries.sorted_keys fun name => ?_
  rw [mem_names, ← NameMap.contains_iff_mem_keys]
  simp

/-- the table of a pack that is written from one source -/
def Pack.PackedTable.alone (entries : SourceEntries) : PackedTable :=
  ⟨entries.keys, some ⟨[(⟨0⟩, entries)]⟩⟩

namespace RunConfig

variable {c : RunConfig}

/-- an event that is given no new collections has what its raw data have -/
theorem offer?_finished (h : c.newCollections = []) (known : List String) (raw : RawData)
    (name : String) : (c.finished known raw).offer? (some raw) name = raw.readable? name := by
  have hruntime : (c.finished known raw).runtime? name = none := by
    cases hput : (c.finished known raw).runtime? name with
    | none => rfl
    | some d =>
      have hmade := (Event.made_of_runtime?_process (c.runtime?_made raw) hput).1
      rw [h] at hmade
      cases hmade
  rw [Event.offer?, hruntime]
  rfl

/-- what a pack lists of such an event, if it numbers the names of the raw data in their order -/
theorem contentOf_finished (h : c.newCollections = []) {t : PackedTable} {raw : RawData}
    (ht : t.collections = raw.table.names) :
    PackWriter.contentOf t [] (c.finished t.collections raw)
      = ⟨t.entriesOf (t.collections.filterMap fun name =>
          (raw.readable? name).map fun buffers => (name, buffers))⟩ := by
  have hnew : ∀ name ∈ c.newCollections, name ∈ t.collections := by
    rw [h]
    exact fun _ => nofun
  have hwithin := within_finished hnew ht.symm
  have hoffer := offer?_finished h t.collections raw
  have hvalue := hwithin.follows.collectionsForWrite_value []
  simp only [hoffer] at hvalue
  have hnames : ((c.finished t.collections raw).allNames (some raw)).filterMap (fun name =>
        (raw.readable? name).map fun buffers => (name, buffers))
      = t.collections.filterMap fun name =>
        (raw.readable? name).map fun buffers => (name, buffers) := by
    refine NameMap.filterMap_eq_of_sorted _ (NameMap.sorted_keys _)
      (ht ▸ raw.table.sorted_names) fun name hname => ?_
    rw [Option.isSome_map, ← hoffer] at hname
    exact iff_of_true (Event.mem_allNames_of_offer? hname) (hwithin.known name hname)
  rw [PackWriter.contentOf, hvalue]
  exact congrArg (fun payloads => PackedEvent.mk (t.entriesOf payloads)) hnames

theorem contentOf_alone (h : c.newCollections = []) (label : String) (entries : SourceEntries)
    (decoder : Decoder) (handle : Handle) :
    PackWriter.contentOf (.alone entries) []
        (c.finished entries.keys (Store.rawOf label entries decoder handle))
      = ⟨(PackedTable.alone entries).entriesOf (entries.keys.filterMap fun name =>
          ((Store.rawOf label entries decoder handle).readable? name).map fun buffers =>
            (name, buffers))⟩ := by
  have hraw : entries.keys = (Store.rawOf label entries decoder handle).table.names :=
    (IdentityTable.names_alone ⟨0⟩ entries).symm
  exact contentOf_finished h hraw

end RunConfig

/-! ## from one feed into one pack -/

namespace Run

/-- a run from one feed into one pack, with nothing configured -/
def alone (feed : Feed) (w : PackWriter) : Run :=
  { store := { readers := [⟨⟨0⟩, feed, feed.decoder⟩], table := ⟨[(⟨0⟩, feed.entries)]⟩ }
    writers := [.pack (w.withTable (.alone feed.entries))]
    config := {} }

theorem collectionNames_alone (feed : Feed) (w : PackWriter) :
    (alone feed w).store.collectionNames = feed.entries.keys :=
  IdentityTable.names_alone ⟨0⟩ feed.entries

theorem new_eq_prepared (feed : Feed) (writers : List Writer) :
    Run.new {} [feed] writers
      = match prepareWriters [] ⟨[(⟨0⟩, feed.entries)]⟩ writers with
        | (.error f, writers) => (.error f, writers)
        | (.ok (), writers) =>
          (.ok ⟨{
            readers := [⟨⟨0⟩, feed, feed.decoder⟩]
            table := ⟨[(⟨0⟩, feed.entries)]⟩ }, writers, {}⟩, writers) := by
  rw [Run.new, registerFeeds, Store.register_new]
  rfl

/-- a run from one feed can be made if there are numbers for all names of the feed -/
theorem new_alone (feed : Feed) {w : PackWriter} (hw : w.table = {}) :
    (feed.entries.size ≤ 0x100000000 →
        Run.new {} [feed] [.pack w] = (.ok (alone feed w), (alone feed w).writers))
      ∧ (¬ feed.entries.size ≤ 0x100000000 →
        ∃ f writers, Run.new {} [feed] [.pack w] = (.error f, writers)) := by
  have hnodup : feed.entries.keys.Nodup := NameMap.nodup_of_sorted feed.entries.sorted_keys
  have hnumbered : TableReader.addNames w.table.collections feed.entries.keys = feed.entries.keys := by
    rw [hw]
    exact TableReader.distinct_of_nodup hnodup
  have hsize : feed.entries.keys.length = feed.entries.size := List.length_map _
  have hroom : PackWriter.room w.table.collections = 0x100000000 := by
    rw [hw]
    rfl
  have htold := w.writeIdentityTable_eq ⟨[(⟨0⟩, feed.entries)]⟩
  rw [IdentityTable.names_alone, hnumbered, hsize, hroom] at htold
  refine ⟨fun hfits => ?_, fun hover => ?_⟩
  · rw [if_pos hfits] at htold
    rw [new_eq_prepared, prepareWriters, registerNames_pack]
    dsimp only [Writer.writeIdentityTable]
    rw [htold]
    rfl
  · rw [if_neg hover] at htold
    rw [new_eq_prepared, prepareWriters, registerNames_pack]
    dsimp only [Writer.writeIdentityTable]
    rw [htold]
    exact ⟨_, _, rfl⟩

theorem succeeds_alone {target : String} {z : Zstd.Compressor} {w : PackWriter}
    (hnew : PackWriter.new target none z = .ok w)
    (label : String) (entries : SourceEntries) (decoder : Decoder) (handles : List Handle) {r : Run}
    (hr : r = alone ⟨label, entries, decoder, handles.map .event⟩ w) :
    ∃ last, r.Succeeds entries.keys (handles.map (Store.rawOf label entries decoder)) last := by
  obtain ⟨hholds, -⟩ := PackWriter.holds_new hnew
  have hsound : w.sink.failAt = none := PackWriter.failAt_new hnew
  have hunfinished : w.isFinished = false := by
    rw [PackWriter.isFinished, hholds.unfinished]
    rfl
  have hsupplies : ∃ last, r.store.Supplies r.config.maxEvents
      (handles.map (Store.rawOf label entries decoder)) last := by
    rw [hr]
    exact Store.supplies_alone rfl rfl
  have hnothing : r.config.newCollections = [] := by rw [hr]; rfl
  have hpack : r.writers = [.pack (w.withTable (.alone entries))] := by rw [hr]; rfl
  obtain ⟨last, hsupplies⟩ := hsupplies
  refine ⟨last, hsupplies, fun raw _ => RunConfig.processed_ok hnothing _ raw, ?_⟩
  intro v hv k _
  rw [hpack] at hv
  obtain rfl := List.mem_singleton.mp hv
  refine ⟨hunfinished, fun hfail => ?_⟩
  have hsome : w.sink.failAt = some (w.sink.attempts + k + 1) := hfail
  rw [hsound] at hsome
  cases hsome

/-- **A run from one feed into one pack comes to its end**, if there are numbers for the names of the
feed and it gives nothing but events.  The pack then lists the payloads that were decoded from them. -/
theorem conduct_alone {target : String} {z : Zstd.Compressor} {w : PackWriter}
    (hnew : PackWriter.new target none z = .ok w)
    (label : String) {entries : SourceEntries} (hroom : entries.size ≤ 0x100000000)
    (decoder : Decoder) (handles : List Handle) :
    ∃ (summary : RunSummary) (told done : PackWriter) (checksum : Bytes),
      conduct {} [⟨label, entries, decoder, handles.map .event⟩] [.pack w]
          = ⟨.ok summary, [.pack done], []⟩
        ∧ told.Holds (handles.map fun handle =>
          ⟨(PackedTable.alone entries).entriesOf (entries.keys.filterMap fun name =>
            ((Store.rawOf label entries decoder handle).readable? name).map fun buffers =>
              (name, buffers))⟩)
        ∧ told.table = .alone entries ∧ told.finishPack = (.ok checksum, done) := by
  obtain ⟨hholds, htable, -⟩ := PackWriter.holds_new hnew
  generalize hfeed : Feed.mk label entries decoder (handles.map .event) = feed
  generalize hr : alone feed w = r
  have hrun : Run.new {} [feed] [.pack w] = (.ok r, r.writers) := by
    rw [← hr]
    refine (new_alone feed htable).1 ?_
    rw [← hfeed]
    exact hroom
  have hready := ready_of_begun (begun_of_new (congrArg Prod.fst hrun))
  have hnames : r.store.collectionNames = entries.keys := by
    rw [← hr, collectionNames_alone, ← hfeed]
  have hconfig : r.config = {} := hr ▸ rfl
  have hpack : r.writers = [.pack (w.withTable (.alone entries))] := by
    rw [← hr, ← hfeed]
    rfl
  obtain ⟨last, hsucceeds⟩ := succeeds_alone hnew label entries decoder handles (hfeed ▸ hr.symm)
  rw [← hnames] at hsucceeds
  -- the pack takes the events and is finished
  have hempty : (w.withTable (.alone entries)).Holds [] :=
    ⟨hholds.octets, hholds.hashed, hholds.unfinished⟩
  have hnever : w.sink.failAt = none := PackWriter.failAt_new hnew
  generalize hevents : (handles.map (Store.rawOf label entries decoder)).map
    (r.config.finished r.store.collectionNames) = events
  obtain ⟨added, hadded, haddedHolds, haddedTable, -, hfailAt⟩ :=
    PackWriter.holds_addAll hempty [] events
  obtain ⟨done, hdone⟩ := PackWriter.finished_of_sound haddedHolds.unfinished
    (hfailAt.trans hnever) r.config.runMetadata
  have hall : List.Forall₂ (Finished r.config.runMetadata)
      (r.writers.map fun v => v.addAll r.config.writeCollections events) [.pack done] := by
    rw [hpack, List.map_singleton, hconfig]
    refine .cons ?_ .nil
    rw [hadded]
    exact hconfig ▸ hdone
  obtain ⟨summary, hexecute⟩ :=
    execute_of_succeeds (hconfig ▸ Nat.le_refl 1) hready hsucceeds (hevents ▸ hall)
  obtain ⟨told, done', checksum, hsame, htold, htoldTable, hfinish⟩ :=
    PackWriter.finished_ok haddedHolds hdone
  obtain rfl : done = done' := Writer.pack.inj hsame
  refine ⟨summary, told, done, checksum, ?_, ?_, htoldTable.trans haddedTable, hfinish⟩
  · rw [conduct, hrun]
    exact hexecute
  · rw [← hevents, List.map_map, List.map_map, hnames] at htold
    have hsame : handles.map (PackWriter.contentOf (.alone entries) []
        ∘ r.config.finished entries.keys ∘ Store.rawOf label entries decoder) = _ :=
      List.map_congr_left fun handle _ =>
        RunConfig.contentOf_alone (hconfig ▸ rfl) label entries decoder handle
    exact hsame ▸ htold

end Run

end EventMerge
