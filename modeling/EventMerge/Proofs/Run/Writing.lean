import EventMerge.Proofs.Event.Writing
import EventMerge.Proofs.Pack.Numbering
import EventMerge.Run.Writer

/-!
# What writers take of events

Once all names are numbered, a writer adds to what it holds one row or record for each event, which
depends on the event alone; and whether it takes the event depends on the number of events only.

* `Event.Within`           an event that offers nothing but known names;
* `Writer.add`, `Writer.addAll`  the writer with events added;
* `Writer.HasRoom`         the writer will take one more event after some others;
* `Writer.writeToAll_ok`, `Writer.hasRoom_of_writeToAll`  events are written if and only if all writers
                           have room;
* `Writer.SameUpToOrder`   two writers hold the same rows or records, in any order;
* `Writer.addAll_perm`     the order of the events does not matter otherwise.
-/

namespace EventMerge

/-! ## events with known names -/

namespace Event

/-- an event that offers nothing but known names -/
structure Within (e : Event) (raw : Option RawData) (known : List String) : Prop where
  follows : e.Follows raw
  known : ∀ name, (e.offer? raw name).isSome = true → name ∈ known

namespace Within

variable {e : Event} {raw : Option RawData} {known : List String}

theorem mem_of_payload (h : e.Within raw known) {names : List String}
    {payload : String × Buffers} (hmem : payload ∈ (e.collectionsForWrite names).value) :
    payload.1 ∈ known := by
  rw [h.follows.collectionsForWrite_value] at hmem
  obtain ⟨name, -, hname⟩ := List.mem_filterMap.mp hmem
  obtain ⟨buffers, hbuffers, rfl⟩ := Option.map_eq_some_iff.mp hname
  exact h.known name (Option.isSome_iff_exists.mpr ⟨buffers, hbuffers⟩)

theorem collectionsForWrite (h : e.Within raw known) (names : List String) :
    (e.collectionsForWrite names).event.Within raw known :=
  ⟨h.follows.collectionsForWrite names, fun name hname =>
    h.known name (by rwa [e.offer?_collectionsForWrite] at hname)⟩

end Within

end Event

/-! ## tables -/

namespace TableWriter

def offersFor (w : TableWriter) (names : List String) (e : Event) : List (String × Buffers) :=
  if (w.selection names).isEmpty then [] else (e.collectionsForWrite (w.selection names)).value

def addEvent (w : TableWriter) (names : List String) (e : Event) : TableWriter :=
  { w with newestRows := rowOf w.registered (w.offersFor names e) :: w.newestRows }

/-- two tables with the same columns and the same rows in any order -/
structure SameRows (w w' : TableWriter) : Prop where
  name : w.name = w'.name
  registered : w.registered = w'.registered
  rows : w.newestRows.Perm w'.newestRows
  metadata : w.metadata = w'.metadata
  identityTable : w.identityTable = w'.identityTable

theorem writeEvent_value (w : TableWriter) (names : List String) (e : Event) :
    (w.writeEvent e names).value = w.addEvent names e := by
  rw [writeEvent, addEvent, offersFor]
  dsimp only
  split <;> rfl

end TableWriter

/-! ## packs -/

namespace PackWriter

def recordOf (w : PackWriter) (names : List String) (e : Event) : Bytes :=
  Pack.Record.encode w.compressor .event
    (Pack.Codecs.event.write ⟨w.table.entriesOf (e.collectionsForWrite names).value⟩)

def addEvent (w : PackWriter) (names : List String) (e : Event) : PackWriter :=
  { w with
    sink := {
      w.sink with
      newest := w.recordOf names e :: w.sink.newest
      attempts := w.sink.attempts + 1 }
    newestHashed := w.recordOf names e :: w.newestHashed
    eventsWritten := w.eventsWritten + 1 }

/-- the pack will take one more event after `k` others -/
def HasRoom (w : PackWriter) (k : Nat) : Prop :=
  w.isFinished = false ∧ w.sink.failAt ≠ some (w.sink.attempts + k + 1)

/-- two packs with the same numbered names and the same records in any order -/
structure SameRecords (w w' : PackWriter) : Prop where
  name : w.name = w'.name
  compressor : w.compressor = w'.compressor
  table : w.table = w'.table
  records : w.sink.newest.Perm w'.sink.newest
  hashed : w.newestHashed.Perm w'.newestHashed
  attempts : w.sink.attempts = w'.sink.attempts
  failAt : w.sink.failAt = w'.sink.failAt
  metadata : w.metadata = w'.metadata
  eventsWritten : w.eventsWritten = w'.eventsWritten
  checksum : w.checksum = w'.checksum

theorem hasRoom_addEvent {w : PackWriter} {names : List String} {e : Event} {k : Nat} :
    (w.addEvent names e).HasRoom k ↔ w.HasRoom (k + 1) := by
  rw [HasRoom, HasRoom]
  show w.isFinished = false ∧ w.sink.failAt ≠ some (w.sink.attempts + 1 + k + 1) ↔ _
  rw [Nat.add_assoc w.sink.attempts 1 k, Nat.add_comm 1 k]

variable {w : PackWriter} {names : List String} {e : Event} {raw : Option RawData}

theorem writeEvent_ok (he : e.Within raw w.table.collections) (h : w.HasRoom 0) :
    (w.writeEvent e names).value = (.ok (), w.addEvent names e) := by
  obtain ⟨hopen, hfail⟩ := h
  have hnumbered : ∀ payload ∈ (e.collectionsForWrite names).value,
      payload.1 ∈ w.table.collections := fun _ => he.mem_of_payload
  have hindex := indexAll_of_mem hnumbered
  rw [writeEvent, if_neg (by rw [hopen]; exact Bool.false_ne_true)]
  dsimp only
  rw [hindex]
  dsimp only
  rw [writePacked, if_neg (by rw [hopen]; exact Bool.false_ne_true), emit, Sink.write, if_neg hfail]
  rfl

theorem hasRoom_of_writeEvent (he : e.Within raw w.table.collections)
    (h : (w.writeEvent e names).value.1 = .ok ()) : w.HasRoom 0 := by
  have hnumbered : ∀ payload ∈ (e.collectionsForWrite names).value,
      payload.1 ∈ w.table.collections := fun _ => he.mem_of_payload
  have hindex := indexAll_of_mem hnumbered
  rw [writeEvent] at h
  split at h
  · cases h
  · rename_i hopen
    dsimp only at h
    rw [hindex] at h
    dsimp only at h
    rw [writePacked, if_neg hopen, emit, Sink.write] at h
    refine ⟨Bool.not_eq_true _ ▸ hopen, fun hfail => ?_⟩
    rw [if_pos hfail] at h
    cases h

end PackWriter

/-! ## writers of either kind -/

namespace Writer

def add (names : List String) : Writer → Event → Writer
  | table w canSave, e => table (w.addEvent names e) canSave
  | pack w, e => pack (w.addEvent names e)

def addAll (names : List String) (w : Writer) (events : List Event) : Writer :=
  events.foldl (add names) w

/-- the writer will take one more event after `k` others -/
def HasRoom (k : Nat) : Writer → Prop
  | table _ _ => True
  | pack w => w.HasRoom k

/-- all known names are numbered -/
def Knows (known : List String) : Writer → Prop
  | table _ _ => True
  | pack w => ∀ name ∈ known, name ∈ w.table.collections

theorem addAll_nil (names : List String) (w : Writer) : w.addAll names [] = w := rfl
theorem addAll_cons (names : List String) (w : Writer) (e : Event) (events : List Event) :
    w.addAll names (e :: events) = (w.add names e).addAll names events := rfl

theorem addAll_append (names : List String) (w : Writer) (first second : List Event) :
    w.addAll names (first ++ second) = (w.addAll names first).addAll names second := by
  rw [addAll, addAll, addAll, List.foldl_append]

theorem hasRoom_add {names : List String} {w : Writer} {e : Event} {k : Nat} :
    (w.add names e).HasRoom k ↔ w.HasRoom (k + 1) := by
  cases w with
  | table w canSave => exact Iff.rfl
  | pack w => exact PackWriter.hasRoom_addEvent

theorem hasRoom_addAll {names : List String} {w : Writer} {events : List Event} {k : Nat} :
    (w.addAll names events).HasRoom k ↔ w.HasRoom (k + events.length) := by
  induction events generalizing w with
  | nil => exact Iff.rfl
  | cons e rest ih => rw [addAll_cons, ih, hasRoom_add, List.length_cons, Nat.add_assoc]

theorem Knows.add {known names : List String} {w : Writer} (h : w.Knows known) (e : Event) :
    (w.add names e).Knows known := by
  cases w with
  | table w canSave => trivial
  | pack w => exact h

theorem Knows.addAll {known names : List String} {w : Writer} (h : w.Knows known)
    (events : List Event) : (w.addAll names events).Knows known := by
  induction events generalizing w with
  | nil => exact h
  | cons e rest ih => exact ih (h.add e)

section

variable {w : Writer} {known names : List String} {e : Event} {raw : Option RawData}

theorem within_of_knows {w : PackWriter} (hw : (pack w).Knows known) (he : e.Within raw known) :
    e.Within raw w.table.collections := ⟨he.follows, fun name h => hw name (he.known name h)⟩

theorem writeEvent_ok (hw : w.Knows known) (he : e.Within raw known) (h : w.HasRoom 0) :
    (w.writeEvent e names).value = (.ok (), w.add names e) := by
  cases w with
  | table w canSave =>
    show (Except.ok (), table (w.writeEvent e names).value canSave) = _
    rw [TableWriter.writeEvent_value]
    rfl
  | pack w =>
    show ((w.writeEvent e names).value.1, pack (w.writeEvent e names).value.2) = _
    rw [PackWriter.writeEvent_ok (within_of_knows hw he) h]
    rfl

theorem hasRoom_of_writeEvent (hw : w.Knows known) (he : e.Within raw known)
    (h : (w.writeEvent e names).value.1 = .ok ()) : w.HasRoom 0 := by
  cases w with
  | table w canSave => trivial
  | pack w => exact PackWriter.hasRoom_of_writeEvent (within_of_knows hw he) h

theorem writeEvent_event (w : Writer) (names : List String) (e : Event) :
    (w.writeEvent e names).event = e
      ∨ ∃ asked, (w.writeEvent e names).event = (e.collectionsForWrite asked).event := by
  cases w with
  | table w canSave =>
    show (w.writeEvent e names).event = e ∨ ∃ asked, (w.writeEvent e names).event = _
    rw [TableWriter.writeEvent]
    dsimp only
    split
    · exact .inl rfl
    · exact .inr ⟨_, rfl⟩
  | pack w =>
    show (w.writeEvent e names).event = e ∨ ∃ asked, (w.writeEvent e names).event = _
    rw [PackWriter.writeEvent]
    split
    · exact .inl rfl
    · exact .inr ⟨_, rfl⟩

theorem add_congr (w : Writer) (names : List String) {e e' : Event}
    (h : ∀ asked, (e'.collectionsForWrite asked).value = (e.collectionsForWrite asked).value) :
    w.add names e' = w.add names e := by
  cases w with
  | table w canSave =>
    rw [add, add, TableWriter.addEvent, TableWriter.addEvent, TableWriter.offersFor,
      TableWriter.offersFor, h]
  | pack w =>
    rw [add, add, PackWriter.addEvent, PackWriter.addEvent, PackWriter.recordOf,
      PackWriter.recordOf, h]

/-! ## one writer after the other -/

theorem follows_writeEvent (he : e.Follows raw) (w : Writer) (names : List String) :
    (w.writeEvent e names).event.Follows raw := by
  rcases w.writeEvent_event names e with heq | ⟨asked, heq⟩
  · rwa [heq]
  · rw [heq]
    exact he.collectionsForWrite asked

theorem offers_writeEvent (he : e.Follows raw) (w : Writer) (names asked : List String) :
    ((w.writeEvent e names).event.collectionsForWrite asked).value
      = (e.collectionsForWrite asked).value := by
  rcases w.writeEvent_event names e with heq | ⟨earlier, heq⟩
  · rw [heq]
  · rw [heq]
    exact he.collectionsForWrite_again earlier asked

theorem putPolicy_writeEvent (w : Writer) (names : List String) (e : Event) :
    (w.writeEvent e names).event.putPolicy = e.putPolicy := by
  rcases w.writeEvent_event names e with heq | ⟨asked, heq⟩
  · rw [heq]
  · rw [heq]
    exact e.putPolicy_collectionsForWrite asked

theorem within_writeEvent (he : e.Within raw known) (w : Writer) (names : List String) :
    (w.writeEvent e names).event.Within raw known := by
  rcases w.writeEvent_event names e with heq | ⟨asked, heq⟩
  · rwa [heq]
  · rw [heq]
    exact he.collectionsForWrite asked

theorem putPolicy_writeToAll (names : List String) (writers : List Writer) (e : Event) :
    (writeToAll names writers e).2.putPolicy = e.putPolicy := by
  induction writers generalizing e with
  | nil => rfl
  | cons w rest ih =>
    rw [writeToAll]
    dsimp only
    split
    · exact w.putPolicy_writeEvent names e
    · exact (ih _).trans (w.putPolicy_writeEvent names e)

theorem writeToAll_ok (names : List String) {writers : List Writer} (hw : ∀ w ∈ writers, w.Knows known)
    (he : e.Within raw known) (h : ∀ w ∈ writers, w.HasRoom 0) :
    (writeToAll names writers e).1 = (.ok (), writers.map fun w => w.add names e) := by
  induction writers generalizing e with
  | nil => rfl
  | cons w rest ih =>
    -- the others are given the event as the first writer leaves it
    have hrest := ih (fun w' hmem => hw w' (List.mem_cons_of_mem _ hmem))
      (within_writeEvent he w names)
      (fun w' hmem => h w' (List.mem_cons_of_mem _ hmem))
    rw [writeToAll]
    dsimp only
    rw [writeEvent_ok (hw w List.mem_cons_self) he (h w List.mem_cons_self)]
    dsimp only
    obtain ⟨hresult, hwriters⟩ := Prod.ext_iff.mp hrest
    rw [hresult, hwriters, List.map_cons]
    simp only [add_congr _ names (offers_writeEvent he.follows w names)]

theorem hasRoom_of_writeToAll {writers : List Writer} (hw : ∀ w ∈ writers, w.Knows known)
    (he : e.Within raw known) (h : (writeToAll names writers e).1.1 = .ok ()) :
    ∀ w ∈ writers, w.HasRoom 0 := by
  induction writers generalizing e with
  | nil => exact fun _ hmem => nomatch hmem
  | cons w rest ih =>
    rw [writeToAll] at h
    dsimp only at h
    split at h
    · cases h
    · rename_i w' hvalue
      intro v hmem
      rcases List.mem_cons.mp hmem with rfl | hmem
      · exact hasRoom_of_writeEvent (hw v List.mem_cons_self) he (congrArg Prod.fst hvalue)
      · exact ih (fun w'' hmem => hw w'' (List.mem_cons_of_mem _ hmem))
          (within_writeEvent he w names) h v hmem

end

/-! ## the order of events -/

/-- two writers that hold the same rows or the same records, in any order, and agree otherwise -/
def SameUpToOrder : Writer → Writer → Prop
  | table w canSave, table w' canSave' => w.SameRows w' ∧ canSave = canSave'
  | pack w, pack w' => w.SameRecords w'
  | _, _ => False

theorem addAll_table (names : List String) (w : TableWriter) (canSave : Bool) (events : List Event) :
    (table w canSave).addAll names events
      = table
          { w with
            newestRows := (events.map fun e =>
              TableWriter.rowOf w.registered (w.offersFor names e)).reverse ++ w.newestRows }
          canSave := by
  induction events generalizing w with
  | nil => rfl
  | cons e rest ih =>
    rw [addAll_cons, add, ih, List.map_cons, List.reverse_cons, List.append_assoc]
    rfl

theorem addAll_pack (names : List String) (w : PackWriter) (events : List Event) :
    (pack w).addAll names events
      = pack
          { w with
            sink := {
              w.sink with
              newest := (events.map (w.recordOf names)).reverse ++ w.sink.newest
              attempts := w.sink.attempts + events.length }
            newestHashed := (events.map (w.recordOf names)).reverse ++ w.newestHashed
            eventsWritten := w.eventsWritten + events.length } := by
  induction events generalizing w with
  | nil => rfl
  | cons e rest ih =>
    rw [addAll_cons, add, ih, List.map_cons, List.reverse_cons, List.append_assoc,
      List.append_assoc, List.length_cons, Nat.add_comm rest.length 1, ← Nat.add_assoc,
      ← Nat.add_assoc]
    rfl

/-- **The order in which events are written matters for the order of rows and records only.** -/
theorem addAll_perm {events events' : List Event} (h : events.Perm events') (names : List String)
    (w : Writer) : SameUpToOrder (w.addAll names events) (w.addAll names events') := by
  have hperm : ∀ {α : Type} (f : Event → α) (earlier : List α),
      ((events.map f).reverse ++ earlier).Perm ((events'.map f).reverse ++ earlier) :=
    fun f earlier => ((List.reverse_perm _).trans
      ((h.map f).trans (List.reverse_perm _).symm)).append_right earlier
  cases w with
  | table w canSave =>
    rw [addAll_table, addAll_table]
    exact ⟨⟨rfl, rfl, hperm _ _, rfl, rfl⟩, rfl⟩
  | pack w =>
    rw [addAll_pack, addAll_pack, h.length_eq]
    exact ⟨rfl, rfl, rfl, hperm _ _, hperm _ _, rfl, rfl, rfl, rfl, rfl⟩

end Writer

end EventMerge
