import EventMerge.Proofs.Pack.Calls
import EventMerge.Proofs.Store.Rereading
import Mathlib.Data.List.Forall2

/-!
# The names and the numbers of a pack stay in step

A pack writer hands out its numbers while events stream out, and the list of names is written last.
However often it is called, and whichever of its calls fail, the list has no name twice, the map of
numbers is its inverse, and both only grow.  So every record that has been put out stays readable, and
a reader of the finished pack finds each payload under the name it was written under.

* `PackCall.ListedAs`            the record of a call, each payload under the number of its name;
* `PackWriter.performEach`       calls that are made whether the ones before them fail or not;
* `PackWriter.writtenEvents`     the calls among them that have put out the record of an event;
* `PackWriter.InStep`            what is true of a writer after such calls;
* `PackWriter.InStep.perform`    one more call;
* `PackReader.FindsAgain`        a reader that finds each payload under its name;
* `PackReader.findsAgain_of_performEach`  the reader of a finished pack does.
-/

namespace EventMerge

open Pack
open TableReader (addNames)

/-! ## lists of names and maps of numbers -/

namespace Pack.PackedTable

variable {t t' : PackedTable} {name : String} {index : LocalIndex}

theorem nameOf?_eq_some_iff (hnodup : t.collections.Nodup)
    (hroom : t.collections.length ≤ 0x100000000) :
    t.nameOf? index = some name ↔ name ∈ t.collections ∧ t.indexOf name = index := by
  constructor
  · intro hname
    obtain ⟨hplace, rfl⟩ := List.getElem?_eq_some_iff.mp hname
    refine ⟨List.getElem_mem hplace, ?_⟩
    rw [indexOf, hnodup.idxOf_getElem, LocalIndex.toNat, UInt32.ofNat_toNat]
  · rintro ⟨hmem, rfl⟩
    exact nameOf?_indexOf hroom hmem

/-- the map has every name of the table, under the number that stands for it, and nothing else -/
def Inverts (numbers : NameMap LocalIndex) (t : PackedTable) : Prop :=
  ∀ name index, numbers.get? name = some index ↔ t.nameOf? index = some name

theorem inverts_of_get? (hnodup : t.collections.Nodup)
    (hroom : t.collections.length ≤ 0x100000000) {numbers : NameMap LocalIndex}
    (h : ∀ name, numbers.get? name
      = if name ∈ t.collections then some (t.indexOf name) else none) :
    Inverts numbers t := by
  intro name index
  rw [h, nameOf?_eq_some_iff hnodup hroom]
  split
  · rename_i hmem
    rw [Option.some_inj, and_iff_right hmem]
  · rename_i hmem
    exact ⟨nofun, fun hname => absurd hname.1 hmem⟩

end Pack.PackedTable

/-! ## the record of a call -/

namespace PackCall

/-- the record of a call: each payload of an event is under a number that stands for its name, and
what is packed already is taken as it is -/
def ListedAs (t : PackedTable) : PackCall → PackedEvent → Prop
  | event e names, content =>
    content.entries.map (fun entry => (t.nameOf? entry.index, entry.buffers))
      = (e.collectionsForWrite names).value.map fun payload => (some payload.1, payload.2)
  | packed given, content => content = given
  | _, _ => False

/-- names that are added later leave the record of a call readable -/
theorem ListedAs.mono {t t' : PackedTable} (hfront : t.collections <+: t'.collections)
    {call : PackCall} {content : PackedEvent} (h : call.ListedAs t content) :
    call.ListedAs t' content := by
  cases call with
  | event e names =>
    rw [ListedAs] at h ⊢
    rw [← h]
    refine List.map_congr_left fun entry hentry => ?_
    have hlisted : (t.nameOf? entry.index, entry.buffers)
        ∈ content.entries.map fun entry => (t.nameOf? entry.index, entry.buffers) :=
      List.mem_map_of_mem hentry
    rw [h] at hlisted
    obtain ⟨payload, -, hpayload⟩ := List.mem_map.mp hlisted
    have hname : t.nameOf? entry.index = some payload.1 := (congrArg Prod.fst hpayload).symm
    rw [hname, PackedTable.nameOf?_of_isPrefix hfront hname]
  | packed given => exact h
  | identityTable table => exact h
  | metadata texts => exact h

theorem listedAs_content? {t : PackedTable} (hroom : t.collections.length ≤ 0x100000000)
    {call : PackCall} {content : PackedEvent} (hcontent : call.content? t = some content)
    (hnames : ∀ name ∈ call.names, name ∈ t.collections) : call.ListedAs t content := by
  cases call with
  | event e names =>
    obtain rfl := Option.some.inj hcontent
    rw [ListedAs, PackWriter.contentOf, PackedTable.entriesOf, List.map_map]
    refine List.map_congr_left fun payload hpayload => ?_
    have hmem := hnames payload.1 (List.mem_map_of_mem hpayload)
    exact Prod.ext (PackedTable.nameOf?_indexOf hroom hmem) rfl
  | packed given => exact (Option.some.inj hcontent).symm
  | identityTable table => cases hcontent
  | metadata texts => cases hcontent

end PackCall

/-! ## calls, some of which may fail -/

namespace PackWriter

variable {w w' : PackWriter} {events : List PackCall}

/-- makes each call, whether those before it have failed or not -/
def performEach (w : PackWriter) : List PackCall → PackWriter
  | [] => w
  | call :: rest => (w.perform call).2.performEach rest

/-- the call, if it puts out the record of an event -/
def writtenEvent (w : PackWriter) (call : PackCall) : List PackCall :=
  if (w.perform call).1.isOk && call.isEvent then [call] else []

/-- the calls that have put out the record of an event, in their order -/
def writtenEvents (w : PackWriter) : List PackCall → List PackCall
  | [] => []
  | call :: rest => w.writtenEvent call ++ (w.perform call).2.writtenEvents rest

theorem performEach_append (w : PackWriter) (first second : List PackCall) :
    w.performEach (first ++ second) = (w.performEach first).performEach second := by
  induction first generalizing w with
  | nil => rfl
  | cons call rest ih => exact ih (w.perform call).2

/-- of the names of a call the first ones are listed, all of them unless there are too many; a call that
fails leaves nothing else behind -/
theorem perform_lists (w : PackWriter) (call : PackCall) :
    ∃ numbered, numbered <+: call.names
      ∧ (w.perform call).2.table.collections = addNames w.table.collections numbered
      ∧ (w.table.collections.length ≤ 0x100000000 →
          (addNames w.table.collections numbered).length ≤ 0x100000000)
      ∧ ((w.perform call).1.isOk = false →
          (w.withCollections (addNames w.table.collections numbered)).Adds [] (w.perform call).2) := by
  have hnothing : (w.withCollections (addNames w.table.collections [])).Adds [] w := by
    rw [TableReader.addNames_nil, withCollections_self]
    exact Adds.refl w
  cases call with
  | identityTable table =>
    obtain ⟨numbered, hfront, hlists, hroom⟩ := w.indexNames_lists table.names
    rw [perform, writeIdentityTable]
    split
    all_goals
      rename_i hnames
      rw [hnames] at hlists
      obtain rfl := hlists
    · exact ⟨numbered, hfront, rfl, hroom, fun _ => Adds.refl _⟩
    · exact ⟨numbered, hfront, rfl, hroom, fun hfailed => by cases hfailed⟩
  | event e names =>
    rw [perform, writeEvent]
    split
    · exact ⟨[], List.nil_prefix, rfl, id, fun _ => hnothing⟩
    · obtain ⟨numbered, hfront, hlists, hroom⟩ :=
        w.indexNames_lists ((e.collectionsForWrite names).value.map Prod.fst)
      refine ⟨numbered, hfront, ?_⟩
      rw [← indexAll_snd] at hlists
      dsimp only
      split
      · rename_i hindexed
        rw [hindexed] at hlists
        obtain rfl := hlists
        exact ⟨rfl, hroom, fun _ => Adds.refl _⟩
      · rename_i entries w₁ hindexed
        rw [hindexed] at hlists
        obtain rfl := hlists
        split
        · rename_i w₂ hpacked
          rw [writePacked_ok hpacked]
          exact ⟨rfl, hroom, fun hfailed => by cases hfailed⟩
        · rename_i hpacked
          have hadds := adds_of_writePacked_error hpacked
          exact ⟨congrArg PackedTable.collections hadds.table, hroom, fun _ => hadds⟩
  | packed content =>
    rw [perform]
    rcases hpacked : w.writePacked content with ⟨result, w'⟩
    cases result with
    | ok _ =>
      rw [writePacked_ok hpacked]
      exact ⟨[], List.nil_prefix, rfl, id, fun hfailed => by cases hfailed⟩
    | error e =>
      have hadds := adds_of_writePacked_error hpacked
      refine ⟨[], List.nil_prefix, congrArg PackedTable.collections hadds.table, id, fun _ => ?_⟩
      rw [TableReader.addNames_nil, withCollections_self]
      exact hadds
  | metadata texts =>
    rw [perform, writeMetadata]
    split
    · exact ⟨[], List.nil_prefix, rfl, id, fun _ => hnothing⟩
    · exact ⟨[], List.nil_prefix, rfl, id, fun hfailed => by cases hfailed⟩

/-! ## what stays true of a writer -/

/-- the names are listed once, the sink has taken a record for each of the events, and every record
can be read with the names as they are now -/
structure InStep (w : PackWriter) (events : List PackCall) : Prop where
  nodup : w.table.collections.Nodup
  room : w.table.collections.length ≤ 0x100000000
  unfinished : w.checksum = none
  recorded : ∃ contents, List.Forall₂ (PackCall.ListedAs w.table) events contents
    ∧ w.sink.octets = Pack.header
      ++ Record.encodeAll w.compressor (contents.map fun e => (.event, Codecs.event.write e))
  hashed : w.sink.failAt = none → w.hashed = w.sink.octets

namespace InStep

/-- **The map of numbers is the inverse of the list of names.** -/
theorem inverts (h : w.InStep events) : PackedTable.Inverts w.indices w.table :=
  PackedTable.inverts_of_get? h.nodup h.room w.get?_indices

theorem new {name : String} {failAt : Option Nat} {z : Zstd.Compressor}
    (h : PackWriter.new name failAt z = .ok w) : w.InStep [] := by
  obtain ⟨hholds, htable, -⟩ := holds_new h
  refine ⟨?_, ?_, hholds.unfinished, ⟨[], .nil, hholds.octets⟩, fun _ => hholds.hashed⟩
  · rw [htable]
    exact List.nodup_nil
  · rw [htable]
    exact Nat.zero_le _

/-- more names -/
theorem withTable (h : w.InStep events) {t : PackedTable} (hnodup : t.collections.Nodup)
    (hroom : t.collections.length ≤ 0x100000000) (hfront : w.table.collections <+: t.collections) :
    (w.withTable t).InStep events := by
  obtain ⟨contents, hlisted, hoctets⟩ := h.recorded
  exact ⟨hnodup, hroom, h.unfinished,
    ⟨contents, hlisted.imp fun _ _ => PackCall.ListedAs.mono hfront, hoctets⟩, h.hashed⟩

/-- more octets that are the records of more events -/
theorem adds (h : w.InStep events) {more : List PackCall} {contents : List PackedEvent}
    (hmore : List.Forall₂ (PackCall.ListedAs w.table) more contents)
    (hadds : w.Adds (contents.map (eventRecord w.compressor)) w') : w'.InStep (events ++ more) := by
  obtain ⟨before, hlisted, hoctets⟩ := h.recorded
  refine ⟨?_, ?_, hadds.checksum.trans h.unfinished, ⟨before ++ contents, ?_, ?_⟩, fun hsound => ?_⟩
  · rw [hadds.table]
    exact h.nodup
  · rw [hadds.table]
    exact h.room
  · rw [hadds.table]
    exact List.rel_append hlisted hmore
  · rw [hadds.compressor, hadds.octets, hoctets, flatten_eventRecords, List.map_append,
      Record.encodeAll_append, List.append_assoc]
  · have hsound' : w.sink.failAt = none := hadds.failAt ▸ hsound
    rw [hadds.hashed hsound', hadds.octets, h.hashed hsound']

/-- **One more call keeps the names and the numbers in step**, whether it fails or not. -/
theorem perform (h : w.InStep events) (call : PackCall) :
    (w.perform call).2.InStep (events ++ w.writtenEvent call) := by
  obtain ⟨numbered, -, hlists, hroom, hfailed⟩ := w.perform_lists call
  have hnodup := TableReader.nodup_addNames h.nodup numbered
  have hfront := TableReader.isPrefix_addNames w.table.collections numbered
  rw [writtenEvent]
  rcases hperform : w.perform call with ⟨result, w'⟩
  rw [hperform] at hlists hfailed
  cases result with
  | error e =>
    have hnames : (w.withCollections (addNames w.table.collections numbered)).InStep events :=
      h.withTable hnodup (hroom h.room) hfront
    exact hnames.adds .nil (hfailed rfl)
  | ok _ =>
    have htook := perform_ok hperform
    have htable : w'.table = w.tableAfter call := htook ▸ rfl
    rw [← hlists, htable] at hroom hnodup hfront
    have hnames := h.withTable hnodup (hroom h.room) hfront
    have hcalled : List.Forall₂ (PackCall.ListedAs (w.tableAfter call))
        (if call.isEvent then [call] else []) (call.content? (w.tableAfter call)).toList := by
      rw [← PackCall.isSome_content? (w.tableAfter call) call]
      cases hcontent : call.content? (w.tableAfter call) with
      | none => exact .nil
      | some content =>
        refine .cons (PackCall.listedAs_content? (hroom h.room) hcontent fun name hname => ?_) .nil
        exact TableReader.mem_addNames.mpr (.inr hname)
    obtain ⟨hnodup, hroom, hunfinished, hrecorded, hhashed⟩ :=
      hnames.adds hcalled (adds_emitted _ _)
    rw [htook]
    exact ⟨hnodup, hroom, hunfinished, hrecorded, hhashed⟩

/-- **Names and numbers stay in step over any calls**, whichever of them fail. -/
theorem performEach (h : w.InStep events) (calls : List PackCall) :
    (w.performEach calls).InStep (events ++ w.writtenEvents calls) := by
  induction calls generalizing w events with
  | nil =>
    rw [writtenEvents, List.append_nil]
    exact h
  | cons call rest ih =>
    rw [writtenEvents, ← List.append_assoc]
    exact ih (h.perform call)

end InStep

theorem isPrefix_performEach (w : PackWriter) (calls : List PackCall) :
    w.table.collections <+: (w.performEach calls).table.collections := by
  induction calls generalizing w with
  | nil => exact List.prefix_rfl
  | cons call rest ih =>
    obtain ⟨numbered, -, hlists, -, -⟩ := w.perform_lists call
    have hfirst := TableReader.isPrefix_addNames w.table.collections numbered
    rw [← hlists] at hfirst
    exact hfirst.trans (ih (w.perform call).2)

theorem get?_performEach (h : w.InStep events) (calls : List PackCall) {name : String}
    {index : LocalIndex} (hnumber : w.indices.get? name = some index) :
    (w.performEach calls).indices.get? name = some index := by
  rw [h.inverts] at hnumber
  rw [(h.performEach calls).inverts]
  exact PackedTable.nameOf?_of_isPrefix (w.isPrefix_performEach calls) hnumber

theorem failAt_new {name : String} {failAt : Option Nat} {z : Zstd.Compressor}
    (h : PackWriter.new name failAt z = .ok w) : w.sink.failAt = failAt := by
  rw [PackWriter.new] at h
  split at h
  · rename_i w' hemit
    cases h
    rw [emit_ok hemit]
    rfl
  · cases h

theorem failAt_perform (w : PackWriter) (call : PackCall) :
    (w.perform call).2.sink.failAt = w.sink.failAt := by
  obtain ⟨numbered, -, -, -, hfailed⟩ := w.perform_lists call
  rcases hperform : w.perform call with ⟨result, w'⟩
  rw [hperform] at hfailed
  cases result with
  | error e => exact (hfailed rfl).failAt
  | ok _ =>
    rw [perform_ok hperform]
    rfl

theorem failAt_performEach (w : PackWriter) (calls : List PackCall) :
    (w.performEach calls).sink.failAt = w.sink.failAt := by
  induction calls generalizing w with
  | nil => rfl
  | cons call rest ih => exact (ih (w.perform call).2).trans (w.failAt_perform call)

end PackWriter

/-! ## reading the pack -/

namespace PackReader

/-- the reader gives back the record of each event, which has every payload under the name it was
written under, and the map of its numbers is the inverse of its list of names -/
structure FindsAgain (r : PackReader) (events : List PackCall) : Prop where
  eventCount : r.eventCount = events.length
  readEvent : ∀ n call, events[n]? = some call →
    ∃ content, r.readEvent n = .ok content ∧ call.ListedAs r.table content
  entries : PackedTable.Inverts r.entries r.table

theorem findsAgain_written {w : PackWriter} {events : List PackCall} {contents : List PackedEvent}
    (h : w.InStep events) (hlisted : List.Forall₂ (PackCall.ListedAs w.table) events contents)
    (checksum : Bytes) (hshort : ∀ e ∈ contents, (Codecs.event.write e).length < Binary.Codec.limit) :
    (written w contents checksum).FindsAgain events where
  eventCount := (eventCount_written w checksum hshort).trans hlisted.length_eq.symm
  readEvent n call hcall := by
    obtain ⟨hplace, rfl⟩ := List.getElem?_eq_some_iff.mp hcall
    have hplace' : n < contents.length := hlisted.length_eq ▸ hplace
    exact ⟨contents[n], readEvent_written checksum hshort (List.getElem?_eq_getElem hplace'),
      hlisted.get hplace hplace'⟩
  entries := PackedTable.inverts_of_get? h.nodup h.room (Feed.get?_indexed h.nodup)

/-- **No collection of a pack is read back under another name.**  Whatever a writer is called for, and
whichever of the calls fail, its list of names and its map of numbers are inverse to each other, no
number changes, and each payload that was put out is under the number of its name.  A reader of the
finished pack finds it under that name, whatever the records were compressed with; there is one if the
sink never fails. -/
theorem findsAgain_of_performEach {name : String} {failAt : Option Nat} {z : Zstd.Compressor}
    {w₀ : PackWriter} (hnew : PackWriter.new name failAt z = .ok w₀) (calls : List PackCall) :
    (w₀.performEach calls).InStep (w₀.writtenEvents calls)
      ∧ PackedTable.Inverts (w₀.performEach calls).indices (w₀.performEach calls).table
      ∧ (∀ later name index, (w₀.performEach calls).indices.get? name = some index →
          (w₀.performEach (calls ++ later)).indices.get? name = some index)
      ∧ (∀ checksum done, (w₀.performEach calls).finishPack = (.ok checksum, done) →
          done.sink.octets.length < 0x10000000000000000 →
          (∀ r, ofBytes done.sink.octets = .ok r → r.FindsAgain (w₀.writtenEvents calls))
            ∧ (failAt = none → (ofBytes done.sink.octets).isOk = true))
      ∧ (failAt = none → (w₀.performEach calls).finishPack.1.isOk = true) := by
  have hstep : (w₀.performEach calls).InStep (w₀.writtenEvents calls) :=
    (PackWriter.InStep.new hnew).performEach calls
  have hsound : failAt = none → (w₀.performEach calls).sink.failAt = none := by
    intro hnone
    rw [w₀.failAt_performEach, PackWriter.failAt_new hnew, hnone]
  refine ⟨hstep, hstep.inverts, fun later name index hnumber => ?_,
    fun checksum done hfinish hlength => ?_, fun hnone => ?_⟩
  · rw [PackWriter.performEach_append]
    exact PackWriter.get?_performEach hstep later hnumber
  · obtain ⟨contents, hlisted, hoctets⟩ := hstep.recorded
    obtain ⟨hdone, hchecksum⟩ := PackWriter.finishPack_octets hstep.unfinished hfinish
    rw [hoctets, PackWriter.append_closing] at hdone
    obtain ⟨haccepted, hopened, hshort⟩ :=
      ofBytes_octets hdone (hchecksum ▸ Checksum.Blake3.length_hash _) hlength
    refine ⟨fun r hr => ?_, fun hnone => ?_⟩
    · rw [haccepted r hr]
      exact findsAgain_written hstep hlisted checksum hshort
    · -- the checksum covers what the sink has taken
      rw [hstep.hashed (hsound hnone), hoctets, PackWriter.append_closing] at hchecksum
      rw [hopened hchecksum]
      rfl
  · obtain ⟨checksum, done, hfinish, -⟩ :=
      PackWriter.finishPack_of_sound hstep.unfinished (hsound hnone)
    rw [hfinish]
    rfl

/-- an event with a payload for each of the names -/
def eventOf (names : List String) : Event :=
  { kind := .lazy
    cache := .ofList (names.map fun name => (name, ⟨.ofBuffers (.complete [2] [] [] 1), .runtime⟩)) }

/-- calls that bring up names in another order than before, and new ones in between -/
def reorderedCalls : List PackCall :=
  [.event (eventOf ["hits", "tracks"]) [],
    .identityTable ⟨[(⟨0⟩, .ofList [("hits", ⟨0⟩), ("notes", ⟨1⟩)])]⟩,
    .event (eventOf ["tracks", "notes"]) ["notes", "cells", "tracks", "notes"],
    .metadata (.ofList [("hits", "old")])]

def reorderedStart : PackWriter :=
  { name := "pack"
    sink := { newest := [Pack.header], attempts := 1 }
    newestHashed := [Pack.header] }

theorem findsAgain_of_performEach_reordered :
    ∃ checksum done r, (reorderedStart.performEach reorderedCalls).finishPack = (.ok checksum, done)
      ∧ ofBytes done.sink.octets = .ok r
      ∧ r.FindsAgain [.event (eventOf ["hits", "tracks"]) [],
          .event (eventOf ["tracks", "notes"]) ["notes", "cells", "tracks", "notes"]]
      ∧ (reorderedStart.performEach reorderedCalls).collections = ["hits", "tracks", "notes"]
      ∧ (reorderedStart.performEach reorderedCalls).indices.get? "notes" = some ⟨2⟩ := by
  have hnew : PackWriter.new "pack" none = .ok reorderedStart := rfl
  obtain ⟨hstep, hinverts, -, hopened, hfinish⟩ := findsAgain_of_performEach hnew reorderedCalls
  have hcollections : (reorderedStart.performEach reorderedCalls).collections
      = ["hits", "tracks", "notes"] := by decide +kernel
  have hnotes : (reorderedStart.performEach reorderedCalls).table.nameOf? ⟨2⟩ = some "notes" := by
    rw [PackedTable.nameOf?]
    exact congrArg (fun names => names[2]?) hcollections
  rcases hpack : (reorderedStart.performEach reorderedCalls).finishPack with ⟨result, done⟩
  rw [hpack] at hfinish
  cases result with
  | error e => cases hfinish rfl
  | ok checksum =>
    have hlength : done.sink.octets.length < 0x10000000000000000 := by
      have hshort : (reorderedStart.performEach reorderedCalls).sink.octets.length
          + (reorderedStart.performEach reorderedCalls).closing.flatten.length < 1000 := by
        decide +kernel
      rw [PackWriter.length_finishPack hstep.unfinished hpack]
      omega
    obtain ⟨hagain, haccepted⟩ := hopened checksum done hpack hlength
    cases hread : ofBytes done.sink.octets with
    | error e =>
      rw [hread] at haccepted
      cases haccepted rfl
    | ok r =>
      exact ⟨checksum, done, r, rfl, hread, hagain r hread, hcollections,
        (hinverts "notes" ⟨2⟩).mpr hnotes⟩

end PackReader

end EventMerge
