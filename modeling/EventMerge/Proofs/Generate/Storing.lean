import EventMerge.Proofs.Generate.Drafting
import EventMerge.Proofs.Pack.Calls
import EventMerge.Proofs.Run.Registering
import EventMerge.Proofs.Run.Sinks

/-!
# What a generated file stores

The summary of a generated file counts the collections that were given to its events.  The file has one
collection for each different name of an event, so both agree if and only if no event was given two
collections of one name.

* `GenerateRequest.storedCounts`  the different names that are kept of each event;
* `GenerateRequest.Stores`        a file with so many collections in each of its events;
* `GenerateRequest.size_contentOf`, `GenerateRequest.cells_rowOf`  the record and the row of an event;
* `GenerateRequest.written_stored`  the summary against the file.
-/

namespace EventMerge

open TableReader (distinct)

/-! ## names and rows -/

/-- the names of a list without repetition that are among some others -/
theorem TableReader.length_filter_of_mem_iff {names kept : List String} {p : String → Bool}
    (hnodup : names.Nodup) (h : ∀ name, (name ∈ names ∧ p name = true) ↔ name ∈ kept) :
    (names.filter p).length = (distinct kept).length := by
  have hdistinct : (distinct kept).Nodup := TableReader.nodup_addNames List.nodup_nil kept
  refine List.Perm.length_eq ?_
  refine (List.perm_ext_iff_of_nodup (hnodup.filter p) hdistinct).mpr fun name => ?_
  rw [List.mem_filter, h, TableReader.distinct_eq_addNames, TableReader.mem_addNames,
    or_iff_right List.not_mem_nil]

theorem total_distinct_le (lists : List (List String)) :
    total (fun names => (distinct names).length) lists ≤ total List.length lists := by
  induction lists with
  | nil => exact Nat.le_refl 0
  | cons names rest ih => exact Nat.add_le_add (TableReader.length_distinct_le names) ih

/-- the totals agree if and only if they do for each of the lists, as none has more different names
than names -/
theorem total_length_eq_iff (lists : List (List String)) :
    total List.length lists = total (fun names => (distinct names).length) lists
      ↔ ∀ names ∈ lists, names.Nodup := by
  induction lists with
  | nil => exact iff_of_true rfl nofun
  | cons names rest ih =>
    have hfirst := TableReader.length_distinct_le names
    have hrest := total_distinct_le rest
    rw [List.forall_mem_cons, ← ih, ← TableReader.length_distinct_eq_iff, total_cons, total_cons]
    omega

/-- a row without repeated columns has in each what was offered for its name -/
theorem TableWriter.rowOf_eq_map {registered : List String} (hnodup : registered.Nodup)
    (offers : List (String × Buffers)) :
    rowOf registered offers
      = registered.map fun name => (NameMap.lookup name offers.reverse).map Cell.ofBuffers := by
  refine List.ext_getElem? fun column => ?_
  rw [List.getElem?_map]
  by_cases hcolumn : column < registered.length
  · have hcell := getElem?_rowOf (List.getElem_mem hcolumn) offers
    rw [hnodup.idxOf_getElem] at hcell
    rw [hcell, List.getElem?_eq_getElem hcolumn]
    rfl
  · have hlength : (rowOf registered offers).length = registered.length := by
      rw [rowOf, length_foldl_place, List.length_replicate]
    rw [List.getElem?_eq_none (by omega), List.getElem?_eq_none (by omega)]
    rfl

namespace GenerateRequest

variable {q : GenerateRequest} {d : Draft} {kept : List String}

/-! ## one event -/

theorem Keeps.offer_iff (h : Keeps d kept) (name : String) :
    (d.event.offer? none name).isSome = true ↔ name ∈ kept := by
  rw [← h.held, Event.offer?]
  cases d.event.runtime? name <;> exact Iff.rfl

/-- **The record of an event lists each different name once.** -/
theorem size_contentOf (h : Keeps d kept) (t : Pack.PackedTable) :
    (PackWriter.contentOf t [] d.event).size = (distinct kept).length := by
  rw [Pack.PackedEvent.size, PackWriter.contentOf, Pack.PackedTable.entriesOf, List.length_map,
    h.follows.collectionsForWrite_value, List.length_filterMap_eq_countP,
    List.countP_eq_length_filter]
  simp only [Option.isSome_map]
  refine TableReader.length_filter_of_mem_iff (NameMap.nodup_of_sorted (NameMap.sorted_keys _))
    fun name => ?_
  rw [h.offer_iff]
  exact and_iff_right_of_imp fun hname => Event.mem_allNames_of_offer? ((h.offer_iff name).mpr hname)

/-- **The row of an event has a cell for each different name.** -/
theorem cells_rowOf (h : Keeps d kept) {w : TableWriter} (hnodup : w.registered.Nodup)
    (hkept : ∀ name ∈ kept, name ∈ w.registered) :
    (TableWriter.rowOf w.registered (w.offersFor [] d.event)).countP Option.isSome
      = (distinct kept).length := by
  have hcells : ∀ name ∈ w.registered,
      NameMap.lookup name (w.offersFor [] d.event).reverse = d.event.offer? none name := by
    intro name hname
    rw [TableWriter.lookup_offersFor h.follows w [] hname]
    rfl
  rw [TableWriter.rowOf_eq_map hnodup, List.countP_map, List.countP_eq_length_filter]
  refine TableReader.length_filter_of_mem_iff hnodup fun name => ?_
  rw [Function.comp_apply, Option.isSome_map, ← h.offer_iff]
  constructor
  · rintro ⟨hname, hcell⟩
    rwa [← hcells name hname]
  · intro hoffer
    have hname := hkept name ((h.offer_iff name).mp hoffer)
    rw [hcells name hname]
    exact ⟨hname, hoffer⟩

/-! ## files -/

/-- the number of different names that are kept of each event -/
def storedCounts (q : GenerateRequest) (random : Random) : List Nat :=
  (q.keptNames random).map fun kept => (distinct kept).length

/-- the file can be read and has so many collections in each of its events -/
def Stores (q : GenerateRequest) (file : Bytes) (counts : List Nat) : Prop :=
  match q.kind with
  | .pack => ∃ r, PackReader.ofBytes file = .ok r ∧ r.eventCount = counts.length
      ∧ ∀ n count, counts[n]? = some count →
          ∃ content, r.readEvent n = .ok content ∧ content.size = count
  | .table => ∃ d, TableDocument.load q.output file = .ok d
      ∧ d.rows.map (List.countP Option.isSome) = counts

/-- the calls of the writer of a pack -/
def calls (q : GenerateRequest) (drafts : List Draft) : List PackCall :=
  (drafts.map fun draft => .event draft.event []) ++ [.metadata q.metadata]

theorem writePack_performed {drafts : List Draft} {w w' w'' : PackWriter}
    (h : writePack drafts w = (.ok (), w')) (hmetadata : w'.writeMetadata q.metadata = (.ok (), w'')) :
    PackWriter.performAll (q.calls drafts) w = (.ok (), w'') := by
  induction drafts generalizing w with
  | nil =>
    cases h
    show PackWriter.performAll [.metadata q.metadata] _ = _
    rw [PackWriter.performAll, PackWriter.perform, hmetadata]
    rfl
  | cons draft rest ih =>
    rw [writePack] at h
    rw [calls, List.map_cons, List.cons_append, PackWriter.performAll, PackWriter.perform]
    split at h
    · cases h
    · rename_i hfirst
      rw [hfirst]
      exact ih h

theorem rows_writeEvents (drafts : List Draft) (w : TableWriter) :
    (drafts.foldl (fun w draft => (w.writeEvent draft.event []).value) w).rows
      = w.rows ++ drafts.map fun draft =>
          TableWriter.rowOf w.registered (w.offersFor [] draft.event) := by
  induction drafts generalizing w with
  | nil => exact (List.append_nil _).symm
  | cons draft rest ih =>
    rw [List.foldl_cons, TableWriter.writeEvent_value, ih, List.map_cons, List.append_cons]
    congr 1
    exact List.reverse_cons

theorem map_of_keeps {drafts : List Draft} {keptNames : List (List String)}
    (hkeeps : List.Forall₂ Keeps drafts keptNames) {f : Draft → Nat} {g : List String → Nat}
    (h : ∀ d kept, Keeps d kept → kept ∈ keptNames → f d = g kept) :
    drafts.map f = keptNames.map g := by
  induction hkeeps with
  | nil => rfl
  | cons hfirst _ ih =>
    rw [List.map_cons, List.map_cons, h _ _ hfirst List.mem_cons_self,
      ih fun d kept hd hkept => h d kept hd (List.mem_cons_of_mem _ hkept)]

section

variable {drafts : List Draft} {random : Random} (hdrafts : q.drafts q.events 0 random = .ok drafts)

include hdrafts

theorem sizes_of_drafts (t : Pack.PackedTable) :
    drafts.map (fun draft => (PackWriter.contentOf t [] draft.event).size) = q.storedCounts random :=
  map_of_keeps (drafts_keep hdrafts) fun _ _ hkeeps _ => size_contentOf hkeeps t

theorem stores_of_reports (hkind : q.kind = .pack) {bytes checksum : Bytes} {r : PackReader}
    (hopened : PackReader.ofBytes bytes = .ok r) (hreports : r.Reports (q.calls drafts) checksum) :
    q.Stores bytes (q.storedCounts random) := by
  have hcontents : (q.calls drafts).filterMap (PackCall.content? r.table)
      = drafts.map fun draft => PackWriter.contentOf r.table [] draft.event := by
    rw [calls, List.filterMap_append, List.filterMap_map]
    exact (List.append_nil _).trans (congrFun List.filterMap_eq_map' drafts)
  have hsizes := sizes_of_drafts hdrafts r.table
  rw [Stores, hkind]
  refine ⟨r, hopened, ?_, fun n count hcount => ?_⟩
  · have hlength := congrArg List.length hcontents
    rw [List.length_filterMap_eq_countP] at hlength
    simp only [PackCall.isSome_content?] at hlength
    rw [hreports.eventCount, hlength, List.length_map, ← hsizes, List.length_map]
  · rw [← hsizes, List.getElem?_map] at hcount
    obtain ⟨draft, hdraft, hsize⟩ := Option.map_eq_some_iff.mp hcount
    refine ⟨_, hreports.readEvent n _ ?_, hsize⟩
    rw [hcontents, List.getElem?_map, hdraft]
    rfl

theorem stores_of_table (hkind : q.kind = .table) :
    q.Stores (q.tableOf drafts).document.save (q.storedCounts random) := by
  rw [Stores, hkind]
  refine ⟨_, TableDocument.load_save _ _, ?_⟩
  have hrows : (q.tableOf drafts).document.rows = drafts.map fun draft =>
      TableWriter.rowOf (distinct q.collections)
        (((TableWriter.new "generate").withColumns q.collections).offersFor [] draft.event) := by
    rw [tableOf, TableWriter.foldl_register]
    exact rows_writeEvents drafts _
  rw [hrows, List.map_map]
  refine map_of_keeps (drafts_keep hdrafts) fun d kept hkeeps hkept => ?_
  have hnodup : (distinct q.collections).Nodup := TableReader.nodup_addNames List.nodup_nil _
  refine cells_rowOf (w := (TableWriter.new "generate").withColumns q.collections) hkeeps hnodup
    fun name hname => ?_
  exact TableReader.mem_addNames.mpr (.inr ((sublist_of_mem_keptFrom hkept).subset hname))

end

/-! ## summaries -/

section

variable {drafts : List Draft} {random : Random} {canWrite : Bool} {z : Zstd.Compressor}
  {summary : GenerateSummary} {file : Option Bytes}

theorem produce_ok (h : q.produce random canWrite z = ⟨.ok summary, file⟩) :
    ∃ drafts, q.drafts q.events 0 random = .ok drafts
      ∧ (q.kind = .pack ∧ q.producePack drafts z = ⟨.ok summary, file⟩
        ∨ q.kind = .table ∧ q.produceTable drafts = ⟨.ok summary, file⟩) := by
  rw [produce] at h
  split at h
  · cases h
  · split at h
    · cases h
    · split at h
      · cases h
      · rename_i drafts hdrafts
        refine ⟨drafts, hdrafts, ?_⟩
        split at h
        · rename_i hkind
          exact .inl ⟨hkind, h⟩
        · rename_i hkind
          split at h
          · exact .inr ⟨hkind, h⟩
          · cases h

/-- the calls of a pack that was ended, and what is read back of it -/
theorem producePack_ok (h : q.producePack drafts z = ⟨.ok summary, file⟩) :
    ∃ checksum bytes, summary = q.summary drafts (some checksum) ∧ file = some bytes
      ∧ (bytes.length < 0x10000000000000000 →
        ∃ r, PackReader.ofBytes bytes = .ok r ∧ r.Reports (q.calls drafts) checksum) := by
  rw [producePack] at h
  split at h
  · cases h
  · rename_i w hnew
    split at h
    · cases h
    · rename_i w' hwritten
      rcases hmetadata : w'.writeMetadata q.metadata with ⟨result, w''⟩
      rw [endPack, hmetadata] at h
      cases result with
      | error e => cases h
      | ok _ =>
        obtain ⟨checksum, done, hfinish, hread⟩ :=
          PackReader.reports_of_performAll hnew (writePack_performed hwritten hmetadata)
        simp only [hfinish] at h
        cases h
        refine ⟨checksum, _, rfl, rfl, fun hlength => ?_⟩
        obtain ⟨r, hopened, hreports, -, -⟩ := hread hlength
        exact ⟨r, hopened, hreports⟩

theorem given_of_drafts (hdrafts : q.drafts q.events 0 random = .ok drafts)
    (checksum : Option Bytes) :
    (q.summary drafts checksum).written = total List.length (q.keptNames random) := by
  have hgiven := map_of_keeps (drafts_keep hdrafts) fun _ _ hkeeps _ => hkeeps.given
  have htotals := congrArg (total id) hgiven
  rwa [total_map, total_map] at htotals

/-- what was made can be read, and stores each different name that was kept -/
theorem stores_of_produce (h : q.produce random canWrite z = ⟨.ok summary, file⟩) :
    summary.written = total List.length (q.keptNames random)
      ∧ ∃ bytes, file = some bytes ∧ ((q.kind = .pack → bytes.length < 0x10000000000000000) →
          q.Stores bytes (q.storedCounts random)) := by
  obtain ⟨drafts, hdrafts, ⟨hkind, hproduced⟩ | ⟨hkind, hproduced⟩⟩ := produce_ok h
  · obtain ⟨checksum, bytes, rfl, hfile, hread⟩ := producePack_ok hproduced
    refine ⟨given_of_drafts hdrafts (some checksum), bytes, hfile, fun hlength => ?_⟩
    obtain ⟨r, hopened, hreports⟩ := hread (hlength hkind)
    exact stores_of_reports hdrafts hkind hopened hreports
  · cases hproduced
    exact ⟨given_of_drafts hdrafts none, _, rfl, fun _ => stores_of_table hdrafts hkind⟩

/-- **The summary against the file.**  Whatever file was made, of either kind, from whatever stream of
random words, and whatever the records of a pack were compressed with, it can be read and has an event
for each that was asked for, with a collection for each different name that was kept.  The summary
counts every name that was kept, also one that the event had been given before.  Both agree if and
only if no event kept a name twice; so they do if no name is listed twice, and if nothing is ever
dropped they do only then. -/
theorem written_stored (h : q.produce random canWrite z = ⟨.ok summary, file⟩) :
    (∃ bytes, file = some bytes ∧ ((q.kind = .pack → bytes.length < 0x10000000000000000) →
        q.Stores bytes (q.storedCounts random)))
      ∧ (q.storedCounts random).length = q.events
      ∧ summary.written = total List.length (q.keptNames random)
      ∧ (summary.written = total id (q.storedCounts random) ↔ ∀ kept ∈ q.keptNames random, kept.Nodup)
      ∧ (q.collections.Nodup → summary.written = total id (q.storedCounts random))
      ∧ (q.dropRate.isPositive = false → 0 < q.events →
          summary.written = total id (q.storedCounts random) → q.collections.Nodup) := by
  obtain ⟨hwritten, hstores⟩ := stores_of_produce h
  have hagree : summary.written = total id (q.storedCounts random)
      ↔ ∀ kept ∈ q.keptNames random, kept.Nodup := by
    rw [hwritten, storedCounts, total_map]
    exact total_length_eq_iff _
  refine ⟨hstores, (List.length_map _).trans (length_keptFrom _ _), hwritten, hagree,
    fun hnodup => hagree.mpr fun kept hkept => (sublist_of_mem_keptFrom hkept).nodup hnodup,
    fun hnever hevents hsame => ?_⟩
  have hall := hagree.mp hsame
  rw [keptNames, keptFrom_of_never hnever] at hall
  exact hall _ (List.mem_replicate.mpr ⟨Nat.ne_of_gt hevents, rfl⟩)

/-- a table of one event in which nothing is dropped -/
def oneEvent (collections : List String) : GenerateRequest :=
  ⟨"rows.json", 1, collections, 42, 2, Number.Double.zero, .table⟩

/-- two names: the summary counts two collections, and the file has two -/
theorem written_stored_distinct :
    ∃ summary bytes, (oneEvent ["A", "B"]).produce (.ofSeed 42) true = ⟨.ok summary, some bytes⟩
      ∧ (oneEvent ["A", "B"]).Stores bytes [2] ∧ summary.written = total id [2] := by
  have hresult : ((oneEvent ["A", "B"]).produce (.ofSeed 42) true).result
      = .ok ⟨1, ["A", "B"], 2, none⟩ := by decide +kernel
  have hcounts : (oneEvent ["A", "B"]).storedCounts (.ofSeed 42) = [2] := by decide +kernel
  rcases hproduced : (oneEvent ["A", "B"]).produce (.ofSeed 42) true with ⟨result, file⟩
  rw [hproduced] at hresult
  obtain rfl : result = _ := hresult
  obtain ⟨⟨bytes, rfl, hstores⟩, -, -, -, hsame, -⟩ := written_stored hproduced
  rw [hcounts] at hstores hsame
  exact ⟨_, bytes, rfl, hstores nofun, hsame (by decide)⟩

/-- one name that is listed twice: the summary counts two collections, and the file has one -/
theorem written_twice :
    ∃ summary bytes, (oneEvent ["A", "A"]).produce (.ofSeed 42) true = ⟨.ok summary, some bytes⟩
      ∧ (oneEvent ["A", "A"]).Stores bytes [1] ∧ summary.written = 2 := by
  have hresult : ((oneEvent ["A", "A"]).produce (.ofSeed 42) true).result
      = .ok ⟨1, ["A", "A"], 2, none⟩ := by decide +kernel
  have hcounts : (oneEvent ["A", "A"]).storedCounts (.ofSeed 42) = [1] := by decide +kernel
  rcases hproduced : (oneEvent ["A", "A"]).produce (.ofSeed 42) true with ⟨result, file⟩
  rw [hproduced] at hresult
  obtain rfl : result = _ := hresult
  obtain ⟨-, bytes, rfl, hstores⟩ := stores_of_produce hproduced
  rw [hcounts] at hstores
  exact ⟨_, bytes, rfl, hstores nofun, rfl⟩

end

end GenerateRequest

end EventMerge
