import EventMerge.Proofs.Pack.Numbering
import EventMerge.Proofs.Pack.Opening

/-!
# Packs of many calls

A pack writer may be called in any order: for an identity table, an event, an event that is packed
already, or texts about collections.  What the calls leave behind is a function of their list, and the
finished pack is opened with exactly that.

* `PackCall`                  a call of a writer;
* `PackWriter.performAll`     one call after the other;
* `PackWriter.took`, `PackWriter.perform_ok`  what a call that succeeds leaves behind;
* `PackWriter.Took`           what a writer holds of many calls;
* `PackReader.Reports`        a reader that gives back what the calls said;
* `PackReader.reports_of_performAll`  the reader of the finished pack does.
-/

namespace EventMerge

open Pack
open TableReader (addNames distinct)

/-! ## calls -/

/-- a call of a pack writer -/
inductive PackCall where
  | identityTable (t : IdentityTable)
  | event (e : Event) (names : List String)
  | packed (content : PackedEvent)
  | metadata (m : Metadata)

namespace PackCall

/-- the names that a call numbers, in the order in which they come up -/
def names : PackCall → List String
  | identityTable t => t.names
  | event e names => (e.collectionsForWrite names).value.map Prod.fst
  | _ => []

def isEvent : PackCall → Bool
  | event _ _ | packed _ => true
  | _ => false

/-- the event that a call adds, its names numbered by a table -/
def content? (t : PackedTable) : PackCall → Option PackedEvent
  | event e names => some (PackWriter.contentOf t names e)
  | packed content => some content
  | _ => none

def table? : PackCall → Option IdentityTable
  | identityTable t => some t
  | _ => none

def texts? : PackCall → Option Metadata
  | metadata m => some m
  | _ => none

theorem isSome_content? (t : PackedTable) (call : PackCall) :
    (call.content? t).isSome = call.isEvent := by
  cases call <;> rfl

/-- names that come up later leave an event as it is -/
theorem content?_of_isPrefix {t t' : PackedTable} (h : t.collections <+: t'.collections)
    {call : PackCall} (hnames : ∀ name ∈ call.names, name ∈ t.collections) :
    call.content? t' = call.content? t := by
  cases call with
  | event e names =>
    have hentries := PackedTable.entriesOf_of_isPrefix h (e.collectionsForWrite names).value
      fun payload hpayload => hnames payload.1 (List.mem_map_of_mem hpayload)
    rw [content?, content?, PackWriter.contentOf, PackWriter.contentOf, hentries]
  | identityTable t => rfl
  | packed content => rfl
  | metadata m => rfl

end PackCall

namespace PackWriter

def perform (w : PackWriter) : PackCall → Except StoreError Unit × PackWriter
  | .identityTable t => w.writeIdentityTable t
  | .event e names => (w.writeEvent e names).value
  | .packed content => ((w.writePacked content).1.mapError .ofSink, (w.writePacked content).2)
  | .metadata m => w.writeMetadata m

/-- performs one call after the other, until one fails -/
def performAll : List PackCall → PackWriter → Except StoreError Unit × PackWriter
  | [], w => (.ok (), w)
  | call :: rest, w =>
    match w.perform call with
    | (.ok (), w) => performAll rest w
    | (.error e, w) => (.error e, w)

/-! ## what one call leaves behind -/

/-- the names and the identity table after a call -/
def tableAfter (w : PackWriter) (call : PackCall) : PackedTable :=
  ⟨addNames w.table.collections call.names, call.table?.or w.table.sources⟩

/-- the record of an event -/
def eventRecord (z : Zstd.Compressor) (content : PackedEvent) : Bytes :=
  Pack.Record.encode z .event (Codecs.event.write content)

/-- the writer after a call that succeeds -/
def took (w : PackWriter) (call : PackCall) : PackWriter :=
  { (w.emitted ((call.content? (w.tableAfter call)).toList.map (eventRecord w.compressor))).withTable
      (w.tableAfter call) with
    metadata := w.metadata.union (call.texts?.getD .empty)
    eventsWritten := w.eventsWritten + call.isEvent.toNat }

theorem writePacked_ok {w w' : PackWriter} {content : PackedEvent}
    (h : w.writePacked content = (.ok (), w')) :
    w' = { w.emitted [eventRecord w.compressor content] with
      eventsWritten := w.eventsWritten + 1 } := by
  rw [writePacked] at h
  split at h
  · cases h
  · split at h
    · rename_i w₁ hemit
      cases h
      rw [emit_ok hemit]
      rfl
    · cases h

theorem writeEvent_inv {w w' : PackWriter} {e : Event} {names : List String}
    (h : (w.writeEvent e names).value = (.ok (), w')) : w' = w.took (.event e names) := by
  rw [writeEvent] at h
  split at h
  · cases h
  · dsimp only at h
    split at h
    · cases h
    · rename_i entries w₁ hindexed
      obtain ⟨rfl, rfl⟩ := indexAll_ok hindexed
      split at h
      · rename_i w₂ hpacked
        cases h
        exact writePacked_ok hpacked
      · cases h

theorem perform_ok {w w' : PackWriter} {call : PackCall} (h : w.perform call = (.ok (), w')) :
    w' = w.took call := by
  cases call with
  | identityTable t =>
    rw [perform, writeIdentityTable] at h
    split at h
    · cases h
    · rename_i w₁ hindexed
      cases h
      rw [(indexNames_ok hindexed).1]
      rfl
  | event e names => exact writeEvent_inv h
  | packed content =>
    rw [perform] at h
    rcases hpacked : w.writePacked content with ⟨result, w₁⟩
    rw [hpacked] at h
    cases result with
    | error e => cases h
    | ok _ =>
      cases h
      have hsame := (w.emitted [eventRecord w.compressor content]).withTable_self
      exact (writePacked_ok hpacked).trans
        (congrArg (fun w' : PackWriter => { w' with eventsWritten := w.eventsWritten + 1 }) hsame.symm)
  | metadata m =>
    rw [perform, writeMetadata] at h
    split at h
    · cases h
    · cases h
      have hsame := (w.emitted []).withTable_self
      exact congrArg (fun w' : PackWriter => { w' with metadata := w.metadata.union m }) hsame.symm

/-! ## what many calls leave behind -/

/-- what a writer holds of its calls: their events under their final numbers, their names in the
order in which they came up, the last identity table, and of two texts about a name the later -/
structure Took (w : PackWriter) (calls : List PackCall) : Prop where
  holds : w.Holds (calls.filterMap (PackCall.content? w.table))
  collections : w.table.collections = distinct (calls.flatMap PackCall.names)
  sources : w.table.sources = (calls.filterMap PackCall.table?).getLast?
  metadata : ∀ name, w.metadata.get? name
    = (calls.filterMap PackCall.texts?).reverse.findSome? fun texts => texts.get? name
  events : w.eventsWritten = calls.countP PackCall.isEvent
  sound : w.sink.failAt = none

theorem flatten_eventRecords (z : Zstd.Compressor) (contents : List PackedEvent) :
    (contents.map (eventRecord z)).flatten
      = Record.encodeAll z (contents.map fun e => (.event, Codecs.event.write e)) := by
  rw [Record.encodeAll, List.flatMap_map, List.flatMap_def]
  rfl

theorem Holds.emitted {w : PackWriter} {contents : List PackedEvent} (hw : w.Holds contents)
    (more : List PackedEvent) :
    (w.emitted (more.map (eventRecord w.compressor))).Holds (contents ++ more) where
  octets := by
    show _ = Pack.header ++ Record.encodeAll w.compressor _
    rw [octets_emitted, hw.octets, flatten_eventRecords, List.map_append, Record.encodeAll_append,
      List.append_assoc]
  hashed := by rw [hashed_emitted, octets_emitted, hw.hashed]
  unfinished := hw.unfinished

theorem filterMap_concat {α β : Type} (f : α → Option β) (l : List α) (a : α) :
    (l ++ [a]).filterMap f = l.filterMap f ++ (f a).toList := by
  rw [List.filterMap_append, List.filterMap_cons]
  cases f a <;> rfl

theorem took_new {name : String} {z : Zstd.Compressor} {w : PackWriter}
    (h : PackWriter.new name none z = .ok w) : w.Took [] := by
  cases h
  exact ⟨⟨rfl, rfl, rfl⟩, rfl, rfl, fun _ => rfl, rfl, rfl⟩

theorem Took.next {w : PackWriter} {calls : List PackCall} (h : w.Took calls) (call : PackCall) :
    (w.took call).Took (calls ++ [call]) where
  holds := by
    have hprefix : w.table.collections <+: (w.tableAfter call).collections :=
      TableReader.isPrefix_addNames _ _
    have hearlier : calls.filterMap (PackCall.content? (w.tableAfter call))
        = calls.filterMap (PackCall.content? w.table) := by
      refine List.filterMap_congr fun earlier hearlier => ?_
      refine PackCall.content?_of_isPrefix hprefix fun name hname => ?_
      rw [h.collections, TableReader.distinct_eq_addNames, TableReader.mem_addNames]
      exact .inr (List.mem_flatMap_of_mem hearlier hname)
    have hholds := h.holds.emitted (call.content? (w.tableAfter call)).toList
    have hall : (calls ++ [call]).filterMap (PackCall.content? (w.took call).table)
        = calls.filterMap (PackCall.content? w.table)
          ++ (call.content? (w.tableAfter call)).toList := by
      rw [filterMap_concat, ← hearlier]
      rfl
    rw [hall]
    exact ⟨hholds.octets, hholds.hashed, hholds.unfinished⟩
  collections := by
    show addNames w.table.collections call.names = _
    rw [h.collections, TableReader.distinct_eq_addNames, TableReader.distinct_eq_addNames,
      ← TableReader.addNames_append, List.flatMap_append, List.flatMap_singleton]
  sources := by
    show call.table?.or w.table.sources = _
    rw [h.sources, filterMap_concat]
    cases call.table? with
    | none => rw [Option.none_or, Option.toList_none, List.append_nil]
    | some t => rw [Option.some_or, Option.toList_some, List.getLast?_concat]
  metadata name := by
    show (w.metadata.union (call.texts?.getD .empty)).get? name = _
    rw [NameMap.get?_union, h.metadata, filterMap_concat]
    cases call.texts? with
    | none => rw [Option.getD_none, NameMap.get?_empty, Option.none_or, Option.toList_none,
        List.append_nil]
    | some texts =>
      rw [Option.getD_some, Option.toList_some, List.reverse_concat, List.findSome?_cons]
      cases texts.get? name <;> rfl
  events := by
    show w.eventsWritten + call.isEvent.toNat = _
    rw [h.events, List.countP_append, List.countP_singleton]
    cases call.isEvent <;> rfl
  sound := h.sound

theorem Took.performAll {w w' : PackWriter} {calls more : List PackCall} (h : w.Took calls)
    (hmore : PackWriter.performAll more w = (.ok (), w')) : w'.Took (calls ++ more) := by
  induction more generalizing w calls with
  | nil =>
    cases hmore
    rwa [List.append_nil]
  | cons call rest ih =>
    rw [PackWriter.performAll] at hmore
    split at hmore
    · rename_i w₁ hfirst
      have hnext := h.next call
      rw [← perform_ok hfirst] at hnext
      have hrest := ih hnext hmore
      rwa [List.append_assoc] at hrest
    · cases hmore

/-! ## the end of a pack -/

theorem write_of_sound {sink : Sink} (h : sink.failAt = none) (bytes : Bytes) :
    sink.write bytes
      = (true, { sink with attempts := sink.attempts + 1, newest := bytes :: sink.newest }) := by
  have hworks : ¬ sink.failAt = some (sink.attempts + 1) := by
    intro hfail
    rw [h] at hfail
    cases hfail
  rw [Sink.write, if_neg hworks]

theorem emit_of_sound {w : PackWriter} (h : w.sink.failAt = none) (bytes : Bytes) :
    w.emit bytes = (.ok (), w.emitted [bytes]) := by
  rw [emit, write_of_sound h]
  rfl

theorem emitAll_of_sound {w : PackWriter} (h : w.sink.failAt = none) (pieces : List Bytes) :
    w.emitAll pieces = (.ok (), w.emitted pieces) := by
  have hok : (w.emitAll pieces).1 = .ok () := by
    induction pieces generalizing w with
    | nil => rfl
    | cons bytes rest ih =>
      rw [emitAll, emit_of_sound h]
      exact ih h
  rcases hall : w.emitAll pieces with ⟨result, w'⟩
  rw [hall] at hok
  cases hok
  rw [emitAll_ok hall]

theorem finishPack_of_sound {w : PackWriter} (hopen : w.checksum = none)
    (h : w.sink.failAt = none) :
    ∃ checksum done, w.finishPack = (.ok checksum, done) ∧ done.table = w.table
      ∧ done.eventsWritten = w.eventsWritten := by
  have hsound : (w.emitted w.closing).sink.failAt = none := h
  rw [finishPack, hopen]
  dsimp only
  rw [emitAll_of_sound h]
  dsimp only
  rw [write_of_sound hsound]
  exact ⟨_, _, rfl, rfl, rfl⟩

end PackWriter

/-! ## reading the pack -/

namespace PackReader

/-- the reader gives back what the calls said -/
structure Reports (r : PackReader) (calls : List PackCall) (checksum : Bytes) : Prop where
  eventCount : r.eventCount = calls.countP PackCall.isEvent
  readEvent : ∀ n content, (calls.filterMap (PackCall.content? r.table))[n]? = some content →
    r.readEvent n = .ok content
  collections : r.collections = distinct (calls.flatMap PackCall.names)
  sources : r.table.sources = (calls.filterMap PackCall.table?).getLast?
  metadata : ∀ name, r.metadata.get? name
    = (calls.filterMap PackCall.texts?).reverse.findSome? fun texts => texts.get? name
  checksum : r.checksum = checksum

theorem readEvent_written {w : PackWriter} {contents : List PackedEvent} (checksum : Bytes)
    (hshort : ∀ e ∈ contents, (Codecs.event.write e).length < Binary.Codec.limit) {n : Nat}
    {content : PackedEvent} (h : contents[n]? = some content) :
    (written w contents checksum).readEvent n = .ok content := by
  have hdecode := Record.map_decode_row w.compressor Codecs.faithful_event .event headerLength hshort
  have hplace : ((written w contents checksum).events[n]?).map
      (fun record => record.decode Codecs.event) = some (.ok content) := by
    rw [← List.getElem?_map]
    show ((Record.row w.compressor headerLength _).map _)[n]? = _
    rw [hdecode, List.getElem?_map, h]
    rfl
  obtain ⟨record, hrecord, hcontent⟩ := Option.map_eq_some_iff.mp hplace
  rw [readEvent, hrecord]
  exact hcontent

theorem eventCount_written (w : PackWriter) {contents : List PackedEvent} (checksum : Bytes)
    (hshort : ∀ e ∈ contents, (Codecs.event.write e).length < Binary.Codec.limit) :
    (written w contents checksum).eventCount = contents.length := by
  have hdecode := Record.map_decode_row w.compressor Codecs.faithful_event .event headerLength hshort
  have hlength := congrArg List.length hdecode
  rwa [List.length_map, List.length_map] at hlength

theorem reports_written {w : PackWriter} {calls : List PackCall} (h : w.Took calls)
    (checksum : Bytes)
    (hshort : ∀ e ∈ calls.filterMap (PackCall.content? w.table),
      (Codecs.event.write e).length < Binary.Codec.limit) :
    (written w (calls.filterMap (PackCall.content? w.table)) checksum).Reports calls checksum where
  eventCount := by
    rw [eventCount_written w checksum hshort, List.length_filterMap_eq_countP]
    simp only [PackCall.isSome_content?]
  readEvent _ _ hcontent := readEvent_written checksum hshort hcontent
  collections := h.collections
  sources := h.sources
  metadata := h.metadata
  checksum := rfl

/-- **Whatever a writer is called for, in whatever order, its pack can be finished, and the reader of
the finished pack gives back what the calls said**, whatever the records were compressed with. -/
theorem reports_of_performAll {name : String} {z : Zstd.Compressor} {w₀ w : PackWriter}
    {calls : List PackCall} (hnew : PackWriter.new name none z = .ok w₀)
    (hcalls : PackWriter.performAll calls w₀ = (.ok (), w)) :
    ∃ checksum done, w.finishPack = (.ok checksum, done)
      ∧ (done.sink.octets.length < 0x10000000000000000 →
        ∃ r, ofBytes done.sink.octets = .ok r ∧ r.Reports calls checksum
          ∧ r.collections = done.collections ∧ r.eventCount = done.eventsWritten) := by
  have htook : w.Took calls := (PackWriter.took_new hnew).performAll hcalls
  obtain ⟨checksum, done, hfinish, htable, hevents⟩ :=
    PackWriter.finishPack_of_sound htook.holds.unfinished htook.sound
  refine ⟨checksum, done, hfinish, fun hlength => ?_⟩
  obtain ⟨hopened, hshort⟩ := ofBytes_written htook.holds hfinish hlength
  have hreports := reports_written htook checksum hshort
  refine ⟨_, hopened, hreports, ?_, ?_⟩
  · rw [PackWriter.collections, htable]
    rfl
  · rw [hreports.eventCount, hevents, htook.events]

/-- calls of every kind, of which the second texts replace the first -/
def mixedCalls : List PackCall :=
  [.metadata (.ofList [("hits", "old")]), .packed ⟨[⟨⟨0⟩, .complete [1] [] [] 1⟩]⟩,
    .identityTable ⟨[(⟨0⟩, .ofList [("hits", ⟨0⟩)])]⟩,
    .event
      { kind := .lazy, cache := .ofList [("notes", ⟨.ofBuffers (.complete [2] [] [] 1), .runtime⟩)] }
      [],
    .metadata (.ofList [("hits", "new")])]

def mixedPack : PackWriter :=
  (PackWriter.performAll mixedCalls
    { name := "mixed"
      sink := { newest := [Pack.header], attempts := 1 }
      newestHashed := [Pack.header] }).2

theorem reports_of_performAll_mixed :
    ∃ checksum done r, mixedPack.finishPack = (.ok checksum, done)
      ∧ ofBytes done.sink.octets = .ok r ∧ r.Reports mixedCalls checksum
      ∧ r.eventCount = 2 ∧ r.collections = ["hits", "notes"]
      ∧ r.readEvent 1 = .ok ⟨[⟨⟨1⟩, .complete [2] [] [] 1⟩]⟩
      ∧ r.metadata.get? "hits" = some "new" := by
  have hnew : PackWriter.new "mixed" none = .ok
      { name := "mixed"
        sink := { newest := [Pack.header], attempts := 1 }
        newestHashed := [Pack.header] } := rfl
  have hcalls : PackWriter.performAll mixedCalls
      { name := "mixed"
        sink := { newest := [Pack.header], attempts := 1 }
        newestHashed := [Pack.header] } = (.ok (), mixedPack) := rfl
  obtain ⟨checksum, done, hfinish, hreports⟩ := reports_of_performAll hnew hcalls
  have hlength : done.sink.octets.length < 0x10000000000000000 := by
    have hholds := ((PackWriter.took_new hnew).performAll hcalls).holds
    have hshort : mixedPack.sink.octets.length + mixedPack.closing.flatten.length < 1000 := by
      decide +kernel
    rw [PackWriter.length_finishPack hholds.unfinished hfinish]
    omega
  obtain ⟨r, hopened, hreports, -, -⟩ := hreports hlength
  have hcollections : r.table.collections = ["hits", "notes"] := hreports.collections
  have hcontent : (mixedCalls.filterMap (PackCall.content? r.table))[1]?
      = some ⟨[⟨⟨1⟩, .complete [2] [] [] 1⟩]⟩ := by
    show some (⟨[⟨r.table.indexOf "notes", .complete [2] [] [] 1⟩]⟩ : PackedEvent) = _
    rw [PackedTable.indexOf, hcollections]
    rfl
  exact ⟨checksum, done, r, hfinish, hopened, hreports, hreports.eventCount, hcollections,
    hreports.readEvent 1 _ hcontent, hreports.metadata "hits"⟩

end PackReader

end EventMerge
