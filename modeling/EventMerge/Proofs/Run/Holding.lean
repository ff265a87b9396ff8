import EventMerge.Proofs.Pack.Calls
import EventMerge.Proofs.Run.Writing

/-!
# Writers that hold nothing but selected collections

A writer that is given events with some names selected holds nothing else, whatever the events are and
whether it takes them or not: a table has its cells in the columns of these names, and the records
that a pack has put out list these names only.  Being finished, or the attempt of it, adds no record.

* `TableWriter.HoldsOnly`, `PackWriter.HoldsOnly`  what may be in a table and in a pack;
* `PackWriter.Growing`         a pack that records are still added to;
* `Writer.Growing.writeEvent`  one more event;
* `Writer.Growing.finish`      the end of a writer.
-/

namespace EventMerge

/-! ## tables -/

/-- everything in the row is in the column of one of the names -/
def Row.FilledOnly (columns asked : List String) (row : Row) : Prop :=
  ∀ (column : Nat) (cell : Cell), row[column]? = some (some cell) →
    ∃ name ∈ asked, columns[column]? = some name

namespace TableWriter

/-- every row of the table has its cells in the columns of the given names -/
def HoldsOnly (asked : List String) (w : TableWriter) : Prop :=
  ∀ row ∈ w.rows, Row.FilledOnly w.registered asked row

variable {asked : List String}

theorem filledOnly_place {registered : List String} {row : Row}
    (h : Row.FilledOnly registered asked row) {offer : String × Buffers} (hoffer : offer.1 ∈ asked) :
    Row.FilledOnly registered asked (place registered row offer) := by
  by_cases hmem : offer.1 ∈ registered
  · intro column cell hcell
    rw [place, TableReader.idxOf?_of_mem hmem] at hcell
    dsimp only at hcell
    by_cases hcolumn : registered.idxOf offer.1 = column
    · rw [← hcolumn]
      exact ⟨offer.1, hoffer, List.getElem?_idxOf hmem⟩
    · rw [List.getElem?_set_ne hcolumn] at hcell
      exact h column cell hcell
  · rw [place, List.idxOf?_eq_none_iff.mpr hmem]
    exact h

theorem filledOnly_foldl_place {registered : List String} {offers : List (String × Buffers)}
    (hoffers : ∀ offer ∈ offers, offer.1 ∈ asked) {row : Row}
    (h : Row.FilledOnly registered asked row) :
    Row.FilledOnly registered asked (offers.foldl (place registered) row) := by
  induction offers generalizing row with
  | nil => exact h
  | cons offer rest ih =>
    refine ih (fun o ho => hoffers o (List.mem_cons_of_mem _ ho)) ?_
    exact filledOnly_place h (hoffers offer List.mem_cons_self)

theorem filledOnly_rowOf (registered : List String) {offers : List (String × Buffers)}
    (hoffers : ∀ offer ∈ offers, offer.1 ∈ asked) :
    Row.FilledOnly registered asked (rowOf registered offers) := by
  refine filledOnly_foldl_place hoffers fun column cell hcell => ?_
  obtain ⟨-, hempty⟩ := List.mem_replicate.mp (List.mem_of_getElem? hcell)
  cases hempty

/-- a table is offered selected collections only -/
theorem mem_of_mem_offersFor {w : TableWriter} {e : Event} (hasked : asked ≠ [])
    {offer : String × Buffers} (h : offer ∈ w.offersFor asked e) : offer.1 ∈ asked := by
  have hselection : w.selection asked = asked.filter w.registered.contains :=
    if_neg fun hempty => hasked (List.isEmpty_iff.mp hempty)
  rw [offersFor] at h
  split at h
  · cases h
  · rename_i hsome
    have hselected : offer.1 ∈ w.selection asked :=
      Event.mem_of_mem_collectionsForWrite (fun hempty => hsome (List.isEmpty_iff.mpr hempty)) h
    rw [hselection] at hselected
    exact (List.mem_filter.mp hselected).1

theorem HoldsOnly.writeEvent {w : TableWriter} (h : w.HoldsOnly asked) (hasked : asked ≠ [])
    (e : Event) : (w.writeEvent e asked).value.HoldsOnly asked := by
  rw [writeEvent_value]
  intro row hrow
  rcases List.mem_cons.mp (List.mem_reverse.mp hrow) with rfl | hrow
  · exact filledOnly_rowOf w.registered fun offer => mem_of_mem_offersFor hasked
  · exact h row (List.mem_reverse.mpr hrow)

theorem HoldsOnly.mono {w : TableWriter} {more : List String} (h : w.HoldsOnly asked)
    (hmore : ∀ name ∈ asked, name ∈ more) : w.HoldsOnly more := by
  intro row hrow column cell hcell
  obtain ⟨name, hname, hcolumn⟩ := h row hrow column cell hcell
  exact ⟨name, hmore name hname, hcolumn⟩

end TableWriter

/-! ## packs -/

namespace PackWriter

/-- the sink has taken the header, a record for every event written, and then an ending; the records
list collections with the given names only -/
structure Recorded (asked : List String) (contents : List Pack.PackedEvent) (ending : List Bytes)
    (w : PackWriter) : Prop where
  octets : w.sink.octets = Pack.header
    ++ Pack.Record.encodeAll w.compressor (contents.map fun e => (.event, Pack.Codecs.event.write e))
    ++ ending.flatten
  count : contents.length = w.eventsWritten
  listed : ∀ content ∈ contents, ∀ entry ∈ content.entries,
    ∃ name ∈ asked, w.table.nameOf? entry.index = some name

/-- every record of the pack lists collections with the given names only; what ends a pack, or a part
of it, may follow them -/
def HoldsOnly (asked : List String) (w : PackWriter) : Prop :=
  ∃ contents ending, w.Recorded asked contents ending ∧ ending <+: w.closing ++ w.checksum.toList

/-- a pack that records are still added to, with collections of the given names only -/
structure Growing (asked : List String) (w : PackWriter) : Prop where
  recorded : ∃ contents, w.Recorded asked contents []
  room : w.table.collections.length ≤ 0x100000000
  unfinished : w.checksum = none

variable {asked : List String} {w w' : PackWriter} {contents : List Pack.PackedEvent}
  {ending taken : List Bytes}

theorem Recorded.adds (h : w.Recorded asked contents ending) (hadds : w.Adds taken w') :
    w'.Recorded asked contents (ending ++ taken) where
  octets := by
    rw [hadds.compressor, hadds.octets, h.octets, List.flatten_append, List.append_assoc]
  count := h.count.trans hadds.eventsWritten.symm
  listed := by
    rw [hadds.table]
    exact h.listed

/-! ### records that are added -/

theorem HoldsOnly.mono {more : List String} (h : w.HoldsOnly asked)
    (hmore : ∀ name ∈ asked, name ∈ more) : w.HoldsOnly more := by
  obtain ⟨contents, ending, hrecorded, hending⟩ := h
  refine ⟨contents, ending, ⟨hrecorded.octets, hrecorded.count, ?_⟩, hending⟩
  intro content hcontent entry hentry
  obtain ⟨name, hname, hindex⟩ := hrecorded.listed content hcontent entry hentry
  exact ⟨name, hmore name hname, hindex⟩

theorem Growing.holdsOnly (h : w.Growing asked) : w.HoldsOnly asked := by
  obtain ⟨contents, hrecorded⟩ := h.recorded
  exact ⟨contents, [], hrecorded, List.nil_prefix⟩

/-- more names are numbered -/
theorem Growing.withCollections (h : w.Growing asked) {collections : List String}
    (hbefore : w.table.collections <+: collections) (hroom : collections.length ≤ 0x100000000) :
    (w.withCollections collections).Growing asked := by
  obtain ⟨contents, hrecorded⟩ := h.recorded
  refine ⟨⟨contents, hrecorded.octets, hrecorded.count, ?_⟩, hroom, h.unfinished⟩
  intro content hcontent entry hentry
  obtain ⟨name, hname, hindex⟩ := hrecorded.listed content hcontent entry hentry
  exact ⟨name, hname, Pack.PackedTable.nameOf?_of_isPrefix hbefore hindex⟩

theorem Growing.adds_nil (h : w.Growing asked) (hadds : w.Adds [] w') : w'.Growing asked := by
  obtain ⟨contents, hrecorded⟩ := h.recorded
  refine ⟨⟨contents, hrecorded.adds hadds⟩, ?_, hadds.checksum.trans h.unfinished⟩
  rw [hadds.table]
  exact h.room

/-- one more record, if the sink takes it -/
theorem Growing.writePacked (h : w.Growing asked) {content : Pack.PackedEvent}
    (hlisted : ∀ entry ∈ content.entries, ∃ name ∈ asked, w.table.nameOf? entry.index = some name) :
    (w.writePacked content).2.Growing asked := by
  rcases hpacked : w.writePacked content with ⟨result, w'⟩
  cases result with
  | error e => exact h.adds_nil (adds_of_writePacked_error hpacked)
  | ok _ =>
    obtain ⟨contents, hrecorded⟩ := h.recorded
    rw [writePacked_ok hpacked]
    refine ⟨⟨contents ++ [content], ?_, ?_, ?_⟩, h.room, h.unfinished⟩
    · have hoctets := octets_emitted w ([content].map (eventRecord w.compressor))
      refine hoctets.trans ?_
      show _ = Pack.header ++ Pack.Record.encodeAll w.compressor _ ++ _
      rw [hrecorded.octets, flatten_eventRecords, List.map_append, Pack.Record.encodeAll_append,
        List.flatten_nil, List.append_nil, List.append_nil, List.append_assoc]
    · rw [List.length_append, hrecorded.count]
      rfl
    · intro other hother
      rcases List.mem_append.mp hother with hother | hother
      · exact hrecorded.listed other hother
      · rw [List.mem_singleton.mp hother]
        exact hlisted

/-- the entries of payloads stand for the names of these payloads -/
theorem listed_entriesOf {t : Pack.PackedTable} (hroom : t.collections.length ≤ 0x100000000)
    {payloads : List (String × Buffers)} (hasked : ∀ payload ∈ payloads, payload.1 ∈ asked)
    (hnumbered : ∀ payload ∈ payloads, payload.1 ∈ t.collections) :
    ∀ entry ∈ t.entriesOf payloads, ∃ name ∈ asked, t.nameOf? entry.index = some name := by
  intro entry hentry
  obtain ⟨payload, hpayload, rfl⟩ := List.mem_map.mp hentry
  exact ⟨payload.1, hasked payload hpayload,
    Pack.PackedTable.nameOf?_indexOf hroom (hnumbered payload hpayload)⟩

/-- **A pack that is given an event with some names selected lists no others**, whether it takes the
event or not. -/
theorem Growing.writeEvent (h : w.Growing asked) (hasked : asked ≠ []) (e : Event) :
    (w.writeEvent e asked).value.2.Growing asked := by
  obtain ⟨collections, hgrown, hbefore, hroom⟩ :=
    w.indexAll_grows (e.collectionsForWrite asked).value
  have hnumbered := h.withCollections hbefore (hroom h.room)
  rw [PackWriter.writeEvent]
  split
  · exact h
  · dsimp only
    split
    · rename_i w₁ hindex
      rw [hindex] at hgrown
      obtain rfl : w₁ = w.withCollections collections := hgrown
      exact hnumbered
    · rename_i entries w₁ hindex
      rw [hindex] at hgrown
      obtain rfl : w₁ = w.withCollections collections := hgrown
      obtain ⟨hnames, rfl⟩ := indexAll_ok hindex
      have hmem : ∀ payload ∈ (e.collectionsForWrite asked).value,
          payload.1 ∈ (w.withCollections collections).table.collections := by
        intro payload hpayload
        rw [hnames]
        exact TableReader.mem_addNames.mpr (.inr (List.mem_map_of_mem hpayload))
      have hlisted := listed_entriesOf hnumbered.room
        (fun _ => Event.mem_of_mem_collectionsForWrite hasked) hmem
      have hwritten : ((w.withCollections collections).writePacked
          ⟨(w.withCollections collections).table.entriesOf
            (e.collectionsForWrite asked).value⟩).2.Growing asked := hnumbered.writePacked hlisted
      split
      all_goals
        rename_i hpacked
        rw [hpacked] at hwritten
        exact hwritten

/-! ### the end of a pack -/

theorem Growing.writeMetadata (h : w.Growing asked) (metadata : Metadata) :
    (w.writeMetadata metadata).2.Growing asked := by
  obtain ⟨contents, hrecorded⟩ := h.recorded
  rw [PackWriter.writeMetadata]
  split
  · exact h
  · exact ⟨⟨contents, hrecorded.octets, hrecorded.count, hrecorded.listed⟩, h.room, h.unfinished⟩

/-- **A pack that is finished has no more records than before**, and neither has one that could not be
finished. -/
theorem Growing.finishPack (h : w.Growing asked) : w.finishPack.2.HoldsOnly asked := by
  obtain ⟨contents, hrecorded⟩ := h.recorded
  rw [PackWriter.finishPack, h.unfinished]
  dsimp only
  split
  · rename_i w₁ hclosing
    obtain ⟨taken, hbefore, hadds⟩ := adds_of_emitAll_error hclosing
    refine ⟨contents, taken, hrecorded.adds hadds, ?_⟩
    rw [closing_adds hadds]
    exact hbefore.trans (List.prefix_append _ _)
  · rename_i w₁ hclosing
    have hadds : w.Adds w.closing w₁ := emitAll_ok hclosing ▸ adds_emitted w w.closing
    have hended := hrecorded.adds hadds
    have hsame := closing_adds hadds
    rw [Sink.write]
    by_cases hfail : w₁.sink.failAt = some (w₁.sink.attempts + 1)
    · rw [if_pos hfail]
      refine ⟨contents, w.closing, ⟨hended.octets, hended.count, hended.listed⟩, ?_⟩
      rw [← hsame]
      exact List.prefix_append _ _
    · rw [if_neg hfail]
      refine ⟨contents, w.closing ++ [Checksum.Blake3.hash w₁.hashed],
        ⟨?_, hended.count, hended.listed⟩, ?_⟩
      · show (_ :: w₁.sink.newest).reverse.flatten = _
        rw [List.reverse_cons, List.flatten_append, List.flatten_append, ← List.append_assoc]
        exact congrArg (· ++ _) hended.octets
      · rw [← hsame]
        exact List.prefix_rfl

theorem Growing.finish (h : w.Growing asked) : w.finish.2.HoldsOnly asked := by
  have hfinished := h.finishPack
  rw [PackWriter.finish]
  split
  all_goals
    rename_i hpack
    rw [hpack] at hfinished
    exact hfinished

end PackWriter

/-! ## writers of either kind -/

namespace Writer

/-- no row and no record has a collection whose name is not one of the given -/
def HoldsOnly (asked : List String) : Writer → Prop
  | table w _ => w.HoldsOnly asked
  | pack w => w.HoldsOnly asked

/-- a writer that events are still written to, with collections of the given names only -/
def Growing (asked : List String) : Writer → Prop
  | table w _ => w.HoldsOnly asked
  | pack w => w.Growing asked

/-- a writer that has been given no event yet -/
def Unwritten : Writer → Prop
  | table w _ => w.newestRows = []
  | pack w => w.Holds [] ∧ w.eventsWritten = 0 ∧ w.table.collections.length ≤ 0x100000000

variable {asked : List String} {w : Writer}

theorem unwritten_table (name : String) (canSave : Bool) :
    (table (.new name) canSave).Unwritten := rfl

theorem unwritten_pack {name : String} {failAt : Option Nat} {z : Zstd.Compressor} {w : PackWriter}
    (h : PackWriter.new name failAt z = .ok w) : (pack w).Unwritten := by
  obtain ⟨hholds, htable, -⟩ := PackWriter.holds_new h
  refine ⟨hholds, ?_, ?_⟩
  · rw [PackWriter.new] at h
    split at h
    · rename_i w' hemit
      cases h
      rw [PackWriter.emit_ok hemit]
      rfl
    · cases h
  · rw [htable]
    exact Nat.zero_le _

theorem HoldsOnly.mono {more : List String} (h : w.HoldsOnly asked)
    (hmore : ∀ name ∈ asked, name ∈ more) : w.HoldsOnly more := by
  cases w with
  | table w canSave => exact TableWriter.HoldsOnly.mono h hmore
  | pack w => exact PackWriter.HoldsOnly.mono h hmore

namespace Growing

theorem holdsOnly (h : w.Growing asked) : w.HoldsOnly asked := by
  cases w with
  | table w canSave => exact h
  | pack w => exact PackWriter.Growing.holdsOnly h

theorem writeEvent (h : w.Growing asked) (hasked : asked ≠ []) (e : Event) :
    (w.writeEvent e asked).value.2.Growing asked := by
  cases w with
  | table w canSave => exact TableWriter.HoldsOnly.writeEvent h hasked e
  | pack w => exact PackWriter.Growing.writeEvent h hasked e

theorem writeMetadata (h : w.Growing asked) (metadata : Metadata) :
    (w.writeMetadata metadata).2.Growing asked := by
  cases w with
  | table w canSave => exact h
  | pack w => exact PackWriter.Growing.writeMetadata h metadata

theorem finish (h : w.Growing asked) : w.finish.2.HoldsOnly asked := by
  cases w with
  | table w canSave => exact h
  | pack w => exact PackWriter.Growing.finish h

end Growing

theorem growing_writeToAll (hasked : asked ≠ []) {writers : List Writer}
    (h : ∀ w ∈ writers, w.Growing asked) (e : Event) :
    ∀ w ∈ (writeToAll asked writers e).1.2, w.Growing asked := by
  induction writers generalizing e with
  | nil => exact h
  | cons first rest ih =>
    have hfirst := (h first List.mem_cons_self).writeEvent hasked e
    have hothers : ∀ w ∈ rest, w.Growing asked := fun w hw => h w (List.mem_cons_of_mem _ hw)
    have hrest := ih hothers (first.writeEvent e asked).event
    rw [writeToAll]
    dsimp only
    split
    all_goals
      rename_i hvalue
      rw [hvalue] at hfirst
      intro w hw
      rcases List.mem_cons.mp hw with rfl | hw
      · exact hfirst
    · exact hothers w hw
    · exact hrest w hw

end Writer

end EventMerge
