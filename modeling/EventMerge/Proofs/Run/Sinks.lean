import EventMerge.Proofs.Run.Finishing
import EventMerge.Proofs.Run.Restoring

/-!
# What is read back of a run

A pack and a table that one run has written are opened again and read, each through a store of its
own.  Both give the events of the run; and for every name that the run knows both show what the
event offered for the selected names, or a collection that is not valid.

* `TableWriter.lookup_offersFor`  what a table is offered for the name of a column;
* `PackWriter.reopen`, `TableWriter.reopen`  the events of a sink that is opened again;
* `Event.Restores`              an event that was read back, beside the one that was written;
* `PackWriter.reopen_finished`, `TableWriter.reopen_finished`  new sinks of a run that was finished;
* `Run.sinks_agree`             the two sinks of one run.
-/

namespace EventMerge

open NameMap (lookup)
open TableReader (addNames)

/-! ## what the sinks have been given -/

namespace TableWriter

/-- a table is offered, for the name of a column, what the event offers for the selected names -/
theorem lookup_offersFor {e : Event} {raw : Option RawData} (he : e.Follows raw) (w : TableWriter)
    (names : List String) {name : String} (hname : name ∈ w.registered) :
    lookup name (w.offersFor names e).reverse = e.offered? raw names name := by
  have hasked : ∀ asked : List String, asked.isEmpty = false →
      (name ∈ asked ↔ names.isEmpty = true ∨ name ∈ names) →
      lookup name (e.collectionsForWrite asked).value.reverse = e.offered? raw names name := by
    intro asked hne hiff
    rw [(he.lookup_collectionsForWrite asked name).2, Event.offered?, Event.offered?, hne]
    simp only [Bool.false_eq_true, false_or, hiff]
  rw [offersFor, selection]
  by_cases hnames : names.isEmpty = true
  · have hne : w.registered.isEmpty = false :=
      List.isEmpty_eq_false_iff.mpr (List.ne_nil_of_mem hname)
    rw [if_pos hnames, hne, if_neg Bool.false_ne_true]
    exact hasked w.registered hne (iff_of_true hname (.inl hnames))
  · have hiff : name ∈ names.filter w.registered.contains ↔ names.isEmpty = true ∨ name ∈ names := by
      simp [hnames, hname]
    rw [if_neg hnames]
    cases hfilter : (names.filter w.registered.contains).isEmpty with
    | false => exact hasked _ hfilter hiff
    -- no selected name is a column: the event is not asked, and has nothing on offer for one
    | true =>
      rw [List.isEmpty_iff.mp hfilter] at hiff
      rw [if_pos rfl, Event.offered?, if_neg fun h => List.not_mem_nil (hiff.mpr h)]
      rfl

end TableWriter

/-! ## reading events back -/

/-- how a sink is read again: where it is opened, what its source is called, and which store reads it -/
structure Reopening where
  path : String
  label : String
  config : StoreConfig

def PackWriter.reopen (w : PackWriter) (unopened : PackReader) (how : Reopening) :
    Except StoreError (List Event) :=
  match unopened.openFile how.path w.sink.octets with
  | .error e => .error e
  | .ok reader => Store.reread how.config (reader.feed how.label)

def TableWriter.reopen (w : TableWriter) (unopened : TableReader) (how : Reopening) :
    Except StoreError (List Event) :=
  match unopened.openFile how.path w.document.save with
  | .error e => .error e
  | .ok reader => Store.reread how.config (reader.feed how.label)

/-- an event that was read back, beside the one that was written: it has the known names and no
others, and under each of them what was on offer, or a collection that is not valid -/
structure Event.Restores (known names : List String) (written restored : Event) : Prop where
  unknown : ∀ name ∉ known, restored.read? name = .ok none
  known : ∀ name ∈ known, ∃ c, restored.read? name = .ok (some c)
    ∧ ∀ buffers, (c.valid = true ∧ c.buffers = buffers)
        ↔ (name, buffers) ∈ (written.collectionsForWrite names).value

namespace RunConfig

/-- what is shown, for a name, by the event that was written for raw data and read back -/
def shownBack (c : RunConfig) (known : List String) (raw : RawData) (name : String) :
    Option Collection :=
  if name ∈ known then
    some (.restored ((c.finished known raw).offered? (some raw) c.writeCollections name))
  else none

variable {c : RunConfig} {known : List String} {raw : RawData}

theorem isValid_of_offered? {names : List String} {name : String} {buffers : Buffers}
    (h : (c.finished known raw).offered? (some raw) names name = some buffers) :
    buffers.isValid = true := by
  rw [Event.offered?] at h
  split at h
  · exact isValid_of_offer? h
  · cases h

theorem restores_finished {restored : Event}
    (h : ∀ name, restored.read? name = .ok (c.shownBack known raw name)) :
    Event.Restores known c.writeCollections (c.finished known raw) restored := by
  have hfollows := (Event.follows_setRaw (Event.fresh c.store.eventKind c.store.putPolicy) raw).process
    known c.newCollections
  refine ⟨fun name hname => ?_, fun name hname => ?_⟩
  · rw [h, shownBack, if_neg hname]
  · refine ⟨_, by rw [h, shownBack, if_pos hname], fun buffers => ?_⟩
    rw [Collection.restored_iff fun b hb => isValid_of_offered? hb]
    exact hfollows.mem_collectionsForWrite.symm

end RunConfig

theorem Store.reread_eq {α : Type} (config : StoreConfig) (label : String) (entries : SourceEntries)
    (decoder : Decoder) (handleOf : α → Handle) (shown : α → String → Option Collection)
    (items : List α)
    (h : ∀ a ∈ items, ∀ name,
      ((entries.get? name).map fun index => Cache.ofDecoding (decoder (handleOf a) index))
        = shown a name) :
    ∃ eventOf : α → Event,
      reread config ⟨label, entries, decoder, items.map fun a => .event (handleOf a)⟩
          = .ok (items.map eventOf)
        ∧ ∀ a ∈ items, ∀ name, (eventOf a).read? name = .ok (shown a name) := by
  refine ⟨fun a => (Event.fresh config.eventKind config.putPolicy).setRaw
    (rawOf label entries decoder (handleOf a)), ?_, fun a ha name => ?_⟩
  · have hread := reread_ok config label entries decoder (items.map handleOf)
    rw [List.map_map, List.map_map] at hread
    exact hread
  · rw [Event.read?_alone, h a ha]

namespace PackWriter

theorem shown_contentOf {t : Pack.PackedTable} (hnodup : t.collections.Nodup)
    (hroom : t.collections.length ≤ 0x100000000) {e : Event} {raw : RawData}
    (he : e.Within (some raw) t.collections) (names : List String) (name : String) :
    (((Feed.indexed t.collections).get? name).map fun index =>
        Cache.ofDecoding (PackReader.decoder (PackReader.handleFor (contentOf t names e)) index))
      = if name ∈ t.collections then some (.restored (e.offered? (some raw) names name))
        else none := by
  rw [Feed.get?_indexed hnodup]
  by_cases hname : name ∈ t.collections
  · have hnumbered : ∀ payload ∈ (e.collectionsForWrite names).value,
        payload.1 ∈ t.collections := fun _ => he.mem_of_payload
    have hgiven := PackReader.ofDecoding_handleFor hroom hnumbered hname
    rw [(he.follows.lookup_collectionsForWrite names name).1] at hgiven
    rw [if_pos hname, if_pos hname]
    exact congrArg some hgiven
  · rw [if_neg hname, if_neg hname]
    rfl

/-- **A finished pack is read back, and every event shows what it offered.** -/
theorem reopen_ok {w done : PackWriter} {checksum : Bytes} {c : RunConfig} {known : List String}
    {raws : List RawData}
    (hw : w.Holds (raws.map fun raw => contentOf w.table c.writeCollections (c.finished known raw)))
    (hknown : w.table.collections = known) (hnodup : known.Nodup) (hroom : known.length ≤ 0x100000000)
    (hwithin : ∀ raw ∈ raws, (c.finished known raw).Within (some raw) known)
    (hdone : w.finishPack = (.ok checksum, done))
    (hlength : done.sink.octets.length < 0x10000000000000000) (unopened : PackReader)
    (how : Reopening) :
    ∃ eventOf : RawData → Event, done.reopen unopened how = .ok (raws.map eventOf)
      ∧ ∀ raw ∈ raws, ∀ name, (eventOf raw).read? name = .ok (c.shownBack known raw name) := by
  subst hknown
  obtain ⟨reader, hreader, -, -, hfeed⟩ := PackReader.ofBytes_finished hw hdone hlength how.label
  have hopen : ∃ opened, unopened.openFile how.path done.sink.octets = .ok opened
      ∧ opened.feed how.label = reader.feed how.label := by
    rw [PackReader.openFile, hreader]
    exact ⟨_, rfl, rfl⟩
  obtain ⟨opened, hopened, hsame⟩ := hopen
  rw [reopen, hopened]
  dsimp only
  rw [hsame, hfeed, List.map_map]
  exact Store.reread_eq how.config how.label _ _ _ _ raws fun raw hraw =>
    shown_contentOf hnodup hroom (hwithin raw hraw) c.writeCollections

end PackWriter

namespace TableWriter

theorem shown_rowOf {w : TableWriter} (hnodup : w.registered.Nodup)
    (hroom : w.registered.length ≤ 0x100000000) {e : Event} {raw : RawData}
    (he : e.Follows (some raw)) {names : List String}
    (hvalid : ∀ name, ∀ b ∈ e.offered? (some raw) names name, b.isValid = true) (name : String) :
    (((Feed.indexed w.registered).get? name).map fun index =>
        Cache.ofDecoding ((rowOf w.registered (w.offersFor names e)).decode index))
      = if name ∈ w.registered then some (.restored (e.offered? (some raw) names name))
        else none := by
  rw [Feed.get?_indexed hnodup]
  by_cases hname : name ∈ w.registered
  · have hlookup := lookup_offersFor he w names hname
    have hshown : ∀ b ∈ lookup name (w.offersFor names e).reverse, b.isValid = true := by
      rw [hlookup]
      exact hvalid name
    have hgiven := ofDecoding_rowOf hroom hname hshown
    rw [hlookup] at hgiven
    rw [if_pos hname, if_pos hname]
    exact congrArg some hgiven
  · rw [if_neg hname, if_neg hname]
    rfl

/-- **A saved table is read back, and every event shows what it offered.** -/
theorem reopen_ok {w : TableWriter} {c : RunConfig} {known : List String} {raws : List RawData}
    (hrows : w.rows = raws.map fun raw =>
      rowOf w.registered (w.offersFor c.writeCollections (c.finished known raw)))
    (hknown : ∀ name, name ∈ w.registered ↔ name ∈ known) (hnodup : w.registered.Nodup)
    (hroom : w.registered.length ≤ 0x100000000)
    (hwithin : ∀ raw ∈ raws, (c.finished known raw).Within (some raw) known)
    (unopened : TableReader) (how : Reopening) :
    ∃ eventOf : RawData → Event, w.reopen unopened how = .ok (raws.map eventOf)
      ∧ ∀ raw ∈ raws, ∀ name, (eventOf raw).read? name = .ok (c.shownBack known raw name) := by
  have hfeed : (TableReader.ofDocument unopened.name w.document).feed how.label
      = ⟨how.label, Feed.indexed w.registered, .row, raws.map fun raw => .event (.row
          (rowOf w.registered (w.offersFor c.writeCollections (c.finished known raw))))⟩ := by
    have hdistinct := TableReader.distinct_of_nodup hnodup
    show Feed.mk how.label (Feed.indexed (TableReader.distinct w.registered)) .row
      (w.rows.map fun row => .event (.row row)) = _
    rw [hdistinct, hrows, List.map_map]
    rfl
  rw [reopen, TableReader.openFile, TableDocument.load_save]
  dsimp only
  rw [hfeed]
  refine Store.reread_eq how.config how.label _ _ _ _ raws fun raw hraw name => ?_
  have hvalid : ∀ name, ∀ b ∈ (c.finished known raw).offered? (some raw) c.writeCollections name,
      b.isValid = true := fun _ _ hb => RunConfig.isValid_of_offered? hb
  have hshown := shown_rowOf hnodup hroom (hwithin raw hraw).follows hvalid name
  simp only [hknown] at hshown
  exact hshown

end TableWriter

/-! ## new sinks -/

section

variable {c : RunConfig} {t : IdentityTable} {raws : List RawData} {prepared done : Writer}

theorem PackWriter.reopen_finished {w : PackWriter} {packName : String} {failAt : Option Nat}
    {z : Zstd.Compressor} (hnew : PackWriter.new packName failAt z = .ok w)
    (hprepared : Writer.Prepared c.writeCollections t (.pack w) prepared)
    (hwithin : ∀ raw ∈ raws, (c.finished t.names raw).Within (some raw) t.names)
    (hfinished : Run.Finished c.runMetadata
      (prepared.addAll c.writeCollections (raws.map (c.finished t.names))) done) :
    ∃ w', done = .pack w' ∧ t.names.length ≤ 0x100000000
      ∧ (w'.sink.octets.length < 0x10000000000000000 → ∀ unopened how,
          ∃ eventOf : RawData → Event, w'.reopen unopened how = .ok (raws.map eventOf)
            ∧ ∀ raw ∈ raws, ∀ name, (eventOf raw).read? name = .ok (c.shownBack t.names raw name)) := by
  obtain ⟨hholds, htable, -⟩ := holds_new hnew
  have hnodup : t.names.Nodup := NameMap.nodup_of_sorted t.sorted_names
  cases hprepared with
  | pack _ room =>
    have hnumbered : addNames w.table.collections t.names = t.names := by
      rw [htable]
      exact TableReader.distinct_of_nodup hnodup
    rw [hnumbered, htable] at room
    have hroom : t.names.length ≤ 0x100000000 := room (Nat.zero_le _)
    rw [hnumbered] at hfinished
    have hready : (w.withTable ⟨t.names, some t⟩).Holds [] :=
      ⟨hholds.octets, hholds.hashed, hholds.unfinished⟩
    obtain ⟨added, hadded, haddedHolds, haddedTable, -⟩ :=
      holds_addAll hready c.writeCollections (raws.map (c.finished t.names))
    rw [hadded] at hfinished
    obtain ⟨told, w', checksum, rfl, htoldHolds, htoldTable, hdone⟩ :=
      finished_ok haddedHolds hfinished
    have hwritten : told.table = ⟨t.names, some t⟩ := htoldTable.trans haddedTable
    refine ⟨w', rfl, hroom, fun hlength unopened how => ?_⟩
    rw [List.map_map] at htoldHolds
    refine reopen_ok ?_ (congrArg _ hwritten) hnodup hroom hwithin hdone hlength unopened how
    rw [hwritten]
    exact htoldHolds

theorem TableWriter.reopen_finished {tableName : String} {canSave : Bool}
    (hprepared : Writer.Prepared c.writeCollections t (.table (.new tableName) canSave) prepared)
    (hselected : ∀ name ∈ c.writeCollections, name ∈ t.names) (hroom : t.names.length ≤ 0x100000000)
    (hwithin : ∀ raw ∈ raws, (c.finished t.names raw).Within (some raw) t.names)
    (hfinished : Run.Finished c.runMetadata
      (prepared.addAll c.writeCollections (raws.map (c.finished t.names))) done) :
    ∃ w', done = .table w' canSave ∧ ∀ unopened how,
      ∃ eventOf : RawData → Event, w'.reopen unopened how = .ok (raws.map eventOf)
        ∧ ∀ raw ∈ raws, ∀ name, (eventOf raw).read? name = .ok (c.shownBack t.names raw name) := by
  have hnodup : t.names.Nodup := NameMap.nodup_of_sorted t.sorted_names
  cases hprepared with
  | table _ _ =>
    rw [Writer.addAll_table] at hfinished
    refine ⟨_, finished_ok hfinished, fun unopened how => ?_⟩
    have hcolumns : (addNames (addNames [] c.writeCollections) t.names).Nodup :=
      TableReader.nodup_addNames (TableReader.nodup_addNames List.nodup_nil _) _
    -- the selected names come first among the columns, so the order is not that of the table
    have hknown : ∀ name, name ∈ addNames (addNames [] c.writeCollections) t.names
        ↔ name ∈ t.names := by
      intro name
      rw [TableReader.mem_addNames, TableReader.mem_addNames]
      exact ⟨fun h => h.elim (fun h => h.elim nofun (hselected name)) id, .inr⟩
    have hlength := ((List.perm_ext_iff_of_nodup hcolumns hnodup).mpr hknown).length_eq
    refine reopen_ok ?_ hknown hcolumns (hlength ▸ hroom) hwithin unopened how
    rw [rows]
    show (_ ++ []).reverse = _
    rw [List.append_nil, List.reverse_reverse, List.map_map]
    rfl

end

/-! ## the sinks of a run -/

namespace Run

/-- the events that are read back from a pack and from a table are those of the run, and alike -/
def SinksAgree (r : Run) (w : PackWriter) (t : TableWriter) : Prop :=
  ∀ (packReader : PackReader) (tableReader : TableReader) (howPack howTable : Reopening),
    ∃ fromPack fromTable, w.reopen packReader howPack = .ok fromPack
      ∧ t.reopen tableReader howTable = .ok fromTable
      ∧ List.Forall₂ (Event.Restores r.store.collectionNames r.config.writeCollections)
          r.events fromPack
      ∧ List.Forall₂ (Event.Restores r.store.collectionNames r.config.writeCollections)
          r.events fromTable
      ∧ List.Forall₂ (fun e e' : Event => ∀ name, e.read? name = e'.read? name) fromPack fromTable

/-- **Both sinks of a run are read back to the events of the run.**  A run with at most one worker
that has succeeded with a new pack and a new table among its writers leaves both finished; and if
the octets of the pack can be counted with 64 bits, whatever its records were compressed with, then
whatever is opened again, and read through a new store with events of either kind, shows under the
known names what the events of the run offered. -/
theorem sinks_agree {config : RunConfig} {feeds : List Feed} {writers : List Writer} {r : Run}
    {summary : RunSummary} {i j : Nat} {w₀ : PackWriter} {packName tableName : String}
    {failAt : Option Nat} {z : Zstd.Compressor} {canSave : Bool}
    (hnew : (Run.new config feeds writers).1 = .ok r)
    (hthreads : config.threads ≤ 1) (hrun : r.execute.result = .ok summary)
    (hpack : PackWriter.new packName failAt z = .ok w₀) (hi : writers[i]? = some (.pack w₀))
    (hj : writers[j]? = some (.table (.new tableName) canSave)) :
    ∃ w t, r.execute.finished[i]? = some (.pack w) ∧ r.execute.finished[j]? = some (.table t canSave)
      ∧ r.events.length = summary.events
      ∧ (w.sink.octets.length < 0x10000000000000000 → r.SinksAgree w t) := by
  have hbegun := begun_of_new hnew
  obtain ⟨raws, hraws, hevents, hcount, hwritten⟩ := written_ok hnew hthreads hrun
  have hwithin : ∀ raw ∈ raws, (r.config.finished r.store.collectionNames raw).Within (some raw)
      r.store.collectionNames := fun raw hraw =>
    RunConfig.within_finished hbegun.new_known (hraws raw hraw)
  have hselected : ∀ name ∈ r.config.writeCollections, name ∈ r.store.table.names := by
    intro name hname
    rw [hbegun.config] at hname
    exact IdentityTable.contains_iff_mem_names.mp (List.mem_filter.mp hname).2
  obtain ⟨packed, done, hprepared, hfinished, hdone⟩ := hwritten hi
  obtain ⟨tabled, saved, hprepared', hfinished', hsaved⟩ := hwritten hj
  rw [hevents] at hfinished hfinished'
  obtain ⟨w, rfl, hroom, hreopen⟩ := PackWriter.reopen_finished hpack hprepared hwithin hfinished
  obtain ⟨t, rfl, hreopen'⟩ :=
    TableWriter.reopen_finished hprepared' hselected hroom hwithin hfinished'
  refine ⟨w, t, hdone, hsaved, ?_, fun hlength packReader tableReader howPack howTable => ?_⟩
  · rw [hevents, List.length_map, hcount]
  · obtain ⟨packEvent, hfromPack, hpackRead⟩ := hreopen hlength packReader howPack
    obtain ⟨tableEvent, hfromTable, htableRead⟩ := hreopen' tableReader howTable
    refine ⟨_, _, hfromPack, hfromTable, ?_, ?_, ?_⟩
    · rw [hevents, List.forall₂_map_left_iff, List.forall₂_map_right_iff, List.forall₂_same]
      exact fun raw hraw => RunConfig.restores_finished (hpackRead raw hraw)
    · rw [hevents, List.forall₂_map_left_iff, List.forall₂_map_right_iff, List.forall₂_same]
      exact fun raw hraw => RunConfig.restores_finished (htableRead raw hraw)
    · rw [List.forall₂_map_left_iff, List.forall₂_map_right_iff, List.forall₂_same]
      exact fun raw hraw name => (hpackRead raw hraw name).trans (htableRead raw hraw name).symm

open Pool (pairFeed pairWriters pairRun)

/-- the pack of the run of two events before it is finished -/
def pairPack : PackWriter :=
  let table : Pack.PackedTable := ⟨["hits"], some pairRun.store.table⟩
  let records := pairRun.events.map fun e =>
    Pack.Record.encode .stored .event (Pack.Codecs.event.write (PackWriter.contentOf table [] e))
  PackWriter.withTable
    { name := "records"
      sink := { newest := records.reverse ++ [Pack.header], attempts := 3 }
      newestHashed := records.reverse ++ [Pack.header]
      metadata := pairRun.config.runMetadata
      eventsWritten := 2 } table

theorem sinks_agree_pair :
    ∃ w t, pairRun.execute.finished[1]? = some (.pack w)
      ∧ pairRun.execute.finished[0]? = some (.table t true) ∧ pairRun.events.length = 2
      ∧ pairRun.SinksAgree w t := by
  have hnew : (Run.new {} [pairFeed] pairWriters).1 = .ok pairRun := rfl
  have hthreads : ({} : RunConfig).threads ≤ 1 := Nat.le_refl 1
  have hrun : pairRun.execute.result = .ok ⟨2, 1, 1, 1, 2⟩ := rfl
  have hpack : PackWriter.new "records" none = .ok
      { name := "records"
        sink := { newest := [Pack.header], attempts := 1 }
        newestHashed := [Pack.header] } := rfl
  have htable : pairWriters[0]? = some (.table (.new "rows") true) := rfl
  obtain ⟨w, t, hw, ht, hcount, hagree⟩ :=
    sinks_agree (i := 1) hnew hthreads hrun hpack rfl htable
  refine ⟨w, t, hw, ht, hcount, hagree ?_⟩
  -- the checksum has 32 octets, whatever they are
  have hdone : pairRun.execute.finished[1]? = some (.pack pairPack.finishPack.2) := rfl
  obtain rfl : w = pairPack.finishPack.2 := by
    rw [hdone] at hw
    cases hw
    rfl
  have hholds : pairPack.Holds (pairRun.events.map (PackWriter.contentOf pairPack.table [])) :=
    ⟨rfl, rfl, rfl⟩
  obtain ⟨checksum, hchecksum⟩ :
      ∃ checksum, pairPack.finishPack = (.ok checksum, pairPack.finishPack.2) := ⟨_, rfl⟩
  have hshort : pairPack.sink.octets.length + pairPack.closing.flatten.length < 1000 := by
    decide +kernel
  rw [PackWriter.length_finishPack hholds.unfinished hchecksum]
  omega

end Run

end EventMerge
