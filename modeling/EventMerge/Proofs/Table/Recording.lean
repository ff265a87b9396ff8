import EventMerge.Proofs.Event.Requests
import EventMerge.Proofs.Run.Sinks
import EventMerge.Proofs.Table.Serving

/-!
# What a table keeps

Columns are added while rows are written, and a row keeps its meaning: read back from the document, a
row gives for the name of a column what its event offered, if the name was registered by then and
selected, and an error otherwise.

* `Event.Reached`            an event as it comes about;
* `Event.offering?`          what an event offers for a name;
* `TableCall`, `TableWriter.perform`, `TableWriter.performAll`  what can be asked of a writer;
* `TableWriter.getElem?_rows`  the row of an event among those of the whole table;
* `TableWriter.recorded?`    what a call was given for a name;
* `TableWriter.cell_rowOf`   what its row has in the column that the name ends up with;
* `TableWriter.document_recorded`  what is read back from the document.
-/

namespace EventMerge

open NameMap (lookup)
open TableReader (addNames)

/-! ## events -/

namespace Event

/-- An event as it comes about: new, or after requests, where what is put in was made by the
operations on collections; and whatever its parameters are set to. -/
inductive Reached : Event → Prop
  | fresh (kind : EventKind) (policy : PutPolicy) : Reached (fresh kind policy)
  | perform {e : Event} (request : Request) (hbuilt : ∀ name c, request = .put name c → c.Built) :
      Reached e → Reached (e.perform request).2
  | parameters {e : Event} (parameters : Parameters) : Reached e → Reached { e with parameters }

theorem Reached.records {e : Event} (h : e.Reached) : ∃ ledger, e.Records ledger := by
  induction h with
  | fresh kind policy => exact ⟨_, records_fresh kind policy⟩
  | perform request hbuilt _ ih =>
    obtain ⟨ledger, hledger⟩ := ih
    exact ⟨_, hledger.perform request hbuilt⟩
  | parameters parameters _ ih =>
    obtain ⟨ledger, hledger⟩ := ih
    exact ⟨ledger, ⟨hledger.follows.given, hledger.follows.held, hledger.follows.spent,
      hledger.follows.decoded, hledger.follows.complete⟩, hledger.puts, hledger.built⟩

/-- what an event offers for a name when it is asked for this name alone -/
def offering? (e : Event) (name : String) : Option Buffers :=
  lookup name (e.collectionsForWrite [name]).value

theorem Follows.offering?_eq {e : Event} {raw : Option RawData} (h : e.Follows raw)
    (name : String) : e.offering? name = e.offer? raw name := by
  rw [offering?, (h.lookup_collectionsForWrite [name] name).1, offered?,
    if_pos (.inr List.mem_cons_self)]

theorem Records.isValid_of_offering? {e : Event} {ledger : Ledger} (h : e.Records ledger)
    {name : String} {buffers : Buffers} (hoffering : e.offering? name = some buffers) :
    buffers.isValid = true := by
  rw [h.follows.offering?_eq, h.offer?_eq] at hoffering
  exact Ledger.isValid_of_payload? hoffering

end Event

/-! ## calls -/

/-- what can be asked of a writer of tables -/
inductive TableCall where
  | register (name : String)
  | identityTable (t : IdentityTable)
  | event (e : Event) (names : List String)
  | metadata (m : Metadata)

namespace TableCall

/-- the names that a call registers -/
def names : TableCall → List String
  | register name => [name]
  | identityTable t => t.names
  | event _ _ => []
  | metadata _ => []

def isEvent : TableCall → Bool
  | event _ _ => true
  | _ => false

end TableCall

namespace TableWriter

/-- the writer after a call -/
def perform (w : TableWriter) : TableCall → TableWriter
  | .register name => w.register name
  | .identityTable t => w.writeIdentityTable t
  | .event e names => (w.writeEvent e names).value
  | .metadata m => w.writeMetadata m

/-- the writer after calls -/
def performAll (calls : List TableCall) (w : TableWriter) : TableWriter := calls.foldl perform w

theorem performAll_append (first second : List TableCall) (w : TableWriter) :
    performAll (first ++ second) w = performAll second (performAll first w) := List.foldl_append

/-- the row that a call adds -/
def rowOf? (w : TableWriter) : TableCall → Option Row
  | .event e names => some (rowOf w.registered (w.offersFor names e))
  | _ => none

theorem registered_perform (w : TableWriter) (call : TableCall) :
    (w.perform call).registered = addNames w.registered call.names := by
  cases call with
  | register name => rfl
  | identityTable t =>
    show (t.names.foldl register w).registered = _
    rw [foldl_register]
    rfl
  | event e names =>
    rw [perform, writeEvent_value]
    rfl
  | metadata m => rfl

theorem rows_perform (w : TableWriter) (call : TableCall) :
    (w.perform call).rows = w.rows ++ (w.rowOf? call).toList := by
  cases call with
  | register name => exact (List.append_nil _).symm
  | identityTable t =>
    show (t.names.foldl register w).rows = _
    rw [foldl_register]
    exact (List.append_nil _).symm
  | event e names =>
    rw [perform, writeEvent_value]
    exact List.reverse_cons
  | metadata m => exact (List.append_nil _).symm

theorem registered_performAll (calls : List TableCall) (w : TableWriter) :
    (performAll calls w).registered = addNames w.registered (calls.flatMap TableCall.names) := by
  induction calls generalizing w with
  | nil => rfl
  | cons call rest ih =>
    rw [performAll, List.foldl_cons, ← performAll, ih, registered_perform, List.flatMap_cons,
      TableReader.addNames_append]

theorem isPrefix_rows_performAll (calls : List TableCall) (w : TableWriter) :
    w.rows <+: (performAll calls w).rows := by
  induction calls generalizing w with
  | nil => exact List.prefix_rfl
  | cons call rest ih =>
    refine List.IsPrefix.trans ?_ (ih (w.perform call))
    rw [rows_perform]
    exact List.prefix_append _ _

theorem length_rows_performAll (calls : List TableCall) (w : TableWriter) :
    (performAll calls w).rows.length = w.rows.length + calls.countP TableCall.isEvent := by
  induction calls generalizing w with
  | nil => rfl
  | cons call rest ih =>
    have hadded : (w.rowOf? call).toList.length = call.isEvent.toNat := by
      cases call <;> rfl
    rw [performAll, List.foldl_cons, ← performAll, ih, rows_perform, List.length_append, hadded,
      List.countP_cons, Nat.add_assoc, Nat.add_comm (Bool.toNat _)]
    cases call.isEvent <;> rfl

/-- **The row of an event stays where it was added**, behind those of the events before it. -/
theorem getElem?_rows (before behind : List TableCall) (e : Event) (names : List String)
    (w : TableWriter) :
    (performAll (before ++ .event e names :: behind) w).rows[w.rows.length
        + before.countP TableCall.isEvent]?
      = some (rowOf (performAll before w).registered ((performAll before w).offersFor names e)) := by
  have hadded := (performAll before w).rows_perform (.event e names)
  obtain ⟨more, hmore⟩ :=
    isPrefix_rows_performAll behind ((performAll before w).perform (.event e names))
  have hrows : (performAll (before ++ .event e names :: behind) w).rows
      = (performAll before w).rows ++ rowOf (performAll before w).registered
          ((performAll before w).offersFor names e) :: more := by
    rw [performAll_append]
    show (performAll behind ((performAll before w).perform (.event e names))).rows = _
    rw [← hmore, hadded, List.append_assoc]
    rfl
  rw [hrows, ← length_rows_performAll, List.getElem?_append_right (Nat.le_refl _), Nat.sub_self]
  rfl

/-- no row has more cells than there are columns -/
def Fits (w : TableWriter) : Prop := ∀ row ∈ w.rows, row.length ≤ w.registered.length

theorem Fits.perform {w : TableWriter} (h : w.Fits) (call : TableCall) : (w.perform call).Fits := by
  have hcolumns : w.registered.length ≤ (w.perform call).registered.length := by
    rw [registered_perform]
    exact (TableReader.isPrefix_addNames _ _).length_le
  intro row hrow
  rw [rows_perform] at hrow
  rcases List.mem_append.mp hrow with hrow | hrow
  · exact Nat.le_trans (h row hrow) hcolumns
  · cases call with
    | event e names =>
      rw [List.mem_singleton.mp hrow, rowOf, length_foldl_place, List.length_replicate]
      exact hcolumns
    | register name => cases hrow
    | identityTable t => cases hrow
    | metadata m => cases hrow

theorem Fits.performAll {w : TableWriter} (h : w.Fits) (calls : List TableCall) :
    (performAll calls w).Fits := by
  induction calls generalizing w with
  | nil => exact h
  | cons call rest ih => exact ih (h.perform call)

/-! ## what is in a column -/

/-- what a call was given for a name: what its event offers, if the name was registered by the calls
before and is among the selected names -/
def recorded? (before : List TableCall) (e : Event) (names : List String) (name : String) :
    Option Buffers :=
  if name ∈ before.flatMap TableCall.names ∧ (names = [] ∨ name ∈ names) then e.offering? name
  else none

end TableWriter

/-- what is read under an index where a payload was stored, or none -/
def Row.stored (payload : Option Buffers) (index : LocalIndex) : Except DecodeError Buffers :=
  match payload with
  | some buffers => .ok buffers
  | none => .error (.notStored index)

/-- under the index of a column, a row gives what it has in the column -/
theorem Row.decode_eq_inColumn {row : Row} {column : Nat} (h : column < 0x100000000) :
    row.decode ⟨UInt32.ofNat column⟩ = row.inColumn column ⟨UInt32.ofNat column⟩ := by
  have hcell : row.cell? ⟨UInt32.ofNat column⟩ = row[column]?.join := by
    rw [cell?, LocalIndex.toNat_ofNat h]
  rw [decode, hcell]
  rfl

/-- a cell gives back the payload it was made of, all of whose fields were set -/
theorem Row.inColumn_eq_stored {row : Row} {column : Nat} {payload : Option Buffers}
    (h : row[column]?.join = payload.map Cell.ofBuffers)
    (hvalid : ∀ buffers, payload = some buffers → buffers.isValid = true) (index : LocalIndex) :
    row.inColumn column index = stored payload index := by
  rw [inColumn, h]
  cases payload with
  | none => rfl
  | some buffers => exact congrArg Except.ok (Cell.toBuffers_ofBuffers (hvalid buffers rfl))

namespace TableWriter

/-- **A row keeps its meaning while columns are added.**  In the column that a name ends up with, it
has what its call was given for the name. -/
theorem cell_rowOf {before : List TableCall} {w : TableWriter}
    (hregistered : ∀ name, name ∈ w.registered ↔ name ∈ before.flatMap TableCall.names) {e : Event}
    {raw : Option RawData} (he : e.Follows raw) (names : List String) {columns : List String}
    (hcolumns : w.registered <+: columns) (name : String) :
    (rowOf w.registered (w.offersFor names e))[columns.idxOf name]?.join
      = (recorded? before e names name).map Cell.ofBuffers := by
  obtain ⟨more, rfl⟩ := hcolumns
  rw [recorded?]
  by_cases hname : name ∈ w.registered
  · have hcalls := (hregistered name).mp hname
    rw [List.idxOf_append_of_mem hname, getElem?_rowOf hname, lookup_offersFor he w names hname,
      Event.offered?, ← he.offering?_eq]
    simp only [hcalls, true_and, List.isEmpty_iff]
    rfl
  · have hbehind : (rowOf w.registered (w.offersFor names e)).length
        ≤ (w.registered ++ more).idxOf name := by
      rw [rowOf, length_foldl_place, List.length_replicate, List.idxOf_append_of_notMem hname]
      exact Nat.le_add_right _ _
    rw [List.getElem?_eq_none hbehind, if_neg fun h => hname ((hregistered name).mpr h.1)]
    rfl

theorem isValid_of_recorded? {before : List TableCall} {e : Event} {ledger : Ledger}
    (h : e.Records ledger) {names : List String} {name : String} {buffers : Buffers}
    (hrecorded : recorded? before e names name = some buffers) : buffers.isValid = true := by
  rw [recorded?] at hrecorded
  split at hrecorded
  · exact h.isValid_of_offering? hrecorded
  · cases hrecorded

/-- where none of the selected names is a column, a row has no cell -/
theorem rowOf_of_unregistered {w : TableWriter} {names : List String} (hnames : names ≠ [])
    (h : ∀ name ∈ names, name ∉ w.registered) (e : Event) :
    rowOf w.registered (w.offersFor names e) = List.replicate w.registered.length none := by
  have hnone : w.selection names = [] := by
    rw [selection, if_neg fun hempty => hnames (List.isEmpty_iff.mp hempty),
      List.filter_eq_nil_iff]
    exact fun name hname hmem => h name hname (List.contains_iff_mem.mp hmem)
  rw [offersFor, hnone]
  rfl

/-- columns without repetition are numbered in their order -/
theorem entries_document (source : String) {w : TableWriter} (hnodup : w.registered.Nodup)
    {name : String} (hname : name ∈ w.registered) :
    (TableReader.ofDocument source w.document).entries.get? name
      = some ⟨UInt32.ofNat (w.registered.idxOf name)⟩ := by
  show (Feed.indexed (TableReader.distinct w.registered)).get? name = _
  rw [TableReader.distinct_of_nodup hnodup, Feed.get?_indexed hnodup, if_pos hname]

/-- **What a table keeps is read back.**  Whatever was asked of a new writer, the document has the
registered names as its columns, each once, and a row for each event, none of them longer than the
columns.  Its reader hands out the rows in their order.  Under the index of a column, the row of an
event gives what the event offered for the name, if the name was registered by then and is among the
names of the call, where none stand for all; and otherwise an error.  A call of which no name was
registered leaves a row without any cell. -/
theorem document_recorded {label : String} {calls : List TableCall} {w : TableWriter}
    (hw : performAll calls (new label) = w)
    (hreached : ∀ e names, .event e names ∈ calls → e.Reached) (source : String) :
    w.document.collections = TableReader.distinct (calls.flatMap TableCall.names)
      ∧ w.document.rows.length = calls.countP TableCall.isEvent
      ∧ (∀ row ∈ w.document.rows, row.length ≤ w.document.collections.length)
      ∧ (∀ row, ((TableReader.ofDocument source w.document).feed source).decoder (.row row)
          = row.decode)
      ∧ ∀ before e names behind, calls = before ++ .event e names :: behind →
          ∃ row, w.document.rows[before.countP TableCall.isEvent]? = some row
            ∧ ((TableReader.ofDocument source w.document).feed source).script[before.countP
                TableCall.isEvent]? = some (.event (.row row))
            ∧ (∀ name ∈ w.document.collections, ∀ index,
                row.inColumn (w.document.collections.idxOf name) index
                    = Row.stored (recorded? before e names name) index
                  ∧ (LocalIndex.ofPosition (w.document.collections.idxOf name) = .ok index →
                      (TableReader.ofDocument source w.document).entries.get? name = some index
                        ∧ row.decode index = Row.stored (recorded? before e names name) index))
            ∧ (names ≠ [] → (∀ name ∈ names, name ∉ before.flatMap TableCall.names) →
                ∀ cell ∈ row, cell = none) := by
  have hcolumns : ∀ calls, (performAll calls (new label)).registered
      = TableReader.distinct (calls.flatMap TableCall.names) := fun calls =>
    registered_performAll calls (new label)
  have hmem : ∀ calls name, name ∈ (performAll calls (new label)).registered
      ↔ name ∈ calls.flatMap TableCall.names := by
    intro calls name
    rw [hcolumns, TableReader.distinct_eq_addNames, TableReader.mem_addNames]
    exact ⟨fun h => h.resolve_left List.not_mem_nil, .inr⟩
  have hlength := length_rows_performAll calls (new label)
  have hfits : (new label).Fits := fun _ => (nomatch ·)
  subst hw
  refine ⟨hcolumns calls, hlength.trans (Nat.zero_add _), hfits.performAll calls,
    TableReader.decoder_feed source _, fun before e names behind hcalls => ?_⟩
  obtain ⟨ledger, hledger⟩ :=
    (hreached e names (hcalls ▸ List.mem_append_right _ List.mem_cons_self)).records
  have hrow := getElem?_rows before behind e names (new label)
  rw [← hcalls, show (new label).rows.length = 0 from rfl, Nat.zero_add] at hrow
  refine ⟨_, hrow, ?_, fun name hname index => ?_, fun hnames hnone cell hcell => ?_⟩
  · show ((performAll calls (new label)).rows.map fun row => Pull.event (.row row))[_]? = _
    rw [List.getElem?_map, hrow]
    rfl
  · have hnodup : (performAll calls (new label)).registered.Nodup := by
      rw [hcolumns]
      exact TableReader.nodup_addNames List.nodup_nil _
    have hprefix : (performAll before (new label)).registered
        <+: (performAll calls (new label)).registered := by
      rw [hcalls, performAll_append, registered_performAll (_ :: behind)]
      exact TableReader.isPrefix_addNames _ _
    have hcolumn := Row.inColumn_eq_stored
      (cell_rowOf (hmem before) hledger.follows names hprefix name)
      (fun buffers hbuffers => isValid_of_recorded? hledger hbuffers) index
    refine ⟨hcolumn, fun hindex => ?_⟩
    obtain ⟨hroom, rfl⟩ := LocalIndex.ofPosition_eq_ok_iff.mp hindex
    exact ⟨entries_document source hnodup hname, (Row.decode_eq_inColumn hroom).trans hcolumn⟩
  · rw [rowOf_of_unregistered hnames fun name hname hmem' => hnone name hname ((hmem _ _).mp hmem')]
      at hcell
    exact List.eq_of_mem_replicate hcell

/-- an event with a collection that is decoded and one that was put in -/
def notedEvent : Event :=
  let fed := ((Event.fresh .lazy .replace).perform (.setRaw Event.partlyReadable)).2
  (fed.perform (.put "notes" {})).2

theorem reached_notedEvent : notedEvent.Reached := by
  refine .perform _ (fun name c hput => ?_) (.perform _ (fun name c hput => nomatch hput)
    (.fresh .lazy .replace))
  cases hput
  exact .new

/-- a column that is added between two events -/
def growingCalls : List TableCall :=
  [.register "hits", .event notedEvent [], .register "notes", .register "hits",
    .event notedEvent ["notes", "tracks"], .event notedEvent ["tracks"]]

/-- the first row has nothing in the column that was added later, the second only what was selected,
and the third, for which no column was selected, nothing -/
theorem document_recorded_growing :
    ∃ w : TableWriter, performAll growingCalls (new "rows") = w
      ∧ w.document.collections = ["hits", "notes"]
      ∧ (∃ row, w.document.rows[0]? = some row
        ∧ row.decode ⟨0⟩ = .ok (.complete [1, 2] [] [] 1)
        ∧ row.decode ⟨1⟩ = .error (.notStored ⟨1⟩))
      ∧ (∃ row, w.document.rows[1]? = some row
        ∧ row.decode ⟨0⟩ = .error (.notStored ⟨0⟩)
        ∧ row.decode ⟨1⟩ = .ok (.complete [] [] [] 1))
      ∧ ∃ row, w.document.rows[2]? = some row ∧ ∀ cell ∈ row, cell = none := by
  have hreached : ∀ e names, .event e names ∈ growingCalls → e.Reached := by
    intro e names hmem
    simp only [growingCalls, List.mem_cons, reduceCtorEq, TableCall.event.injEq, List.not_mem_nil,
      or_false, false_or] at hmem
    rcases hmem with ⟨rfl, -⟩ | ⟨rfl, -⟩ | ⟨rfl, -⟩ <;> exact reached_notedEvent
  obtain ⟨hcolumns, -, -, -, hrows⟩ := document_recorded (w := performAll growingCalls (new "rows"))
    rfl hreached "table"
  obtain ⟨first, hfirst, -, hcells, -⟩ := hrows [.register "hits"] _ _ _ rfl
  obtain ⟨second, hsecond, -, hcells', -⟩ :=
    hrows [.register "hits", .event notedEvent [], .register "notes", .register "hits"] _ _ _ rfl
  obtain ⟨third, hthird, -, -, hnone⟩ := hrows
    [.register "hits", .event notedEvent [], .register "notes", .register "hits",
      .event notedEvent ["notes", "tracks"]] _ _ _ rfl
  have hhits : "hits" ∈ (performAll growingCalls (new "rows")).document.collections := by decide
  have hnotes : "notes" ∈ (performAll growingCalls (new "rows")).document.collections := by decide
  refine ⟨_, rfl, hcolumns, ⟨first, hfirst, ?_, ?_⟩, ⟨second, hsecond, ?_, ?_⟩, third, hthird,
    hnone (by decide) (by decide)⟩
  · exact ((hcells _ hhits ⟨0⟩).2 rfl).2
  · exact ((hcells _ hnotes ⟨1⟩).2 rfl).2
  · exact ((hcells' _ hhits ⟨0⟩).2 rfl).2
  · exact ((hcells' _ hnotes ⟨1⟩).2 rfl).2

end TableWriter

end EventMerge
