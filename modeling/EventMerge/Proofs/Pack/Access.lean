import EventMerge.Proofs.Pack.Opening
import Mathlib.Data.List.Forall2

/-!
# Reading a pack in any order

The events of a pack are read one after the other, through handles that unpack their record when they
are first asked for something and remember the outcome, or by their number, unpacked anew every time.
The reader can be started over, and handles be asked for any collection at any time.  In whatever order
this is done, a handle answers what is found in the event of its number.

* `PackRequest`, `PackReply`    what can be asked of a reader and its handles, and what they answer;
* `PackSession`                 a reader and the handles that were drawn from it;
* `PackSession.after`           one request after the other;
* `Drawn`                       the number of each handle since the reader was last started over;
* `PackHandle.Of`               a handle of the event at a place, whatever it remembers;
* `PackSession.Reads`           what is true of a reader and its handles at any time;
* `PackSession.Reads.perform`   one more request keeps it;
* `PackSession.reads_directly`  what is answered after any requests.
-/

namespace EventMerge

open Pack

/-! ## requests -/

/-- what can be asked of the reader of a pack and of the handles that were drawn from it -/
inductive PackRequest where
  | next
  | rewind
  | readEvent (n : Nat)
  /-- asks the handle that was drawn as the `k`-th of all for the collection of an index -/
  | decode (k : Nat) (index : LocalIndex)

inductive PackReply where
  /-- whether there was a handle to be drawn -/
  | drawn (given : Bool)
  | rewound
  | event (result : Except PackError PackedEvent)
  /-- nothing if no such handle was drawn -/
  | decoded (result : Option (Except DecodeError Buffers))

/-- a reader and the handles that were drawn from it, the first one first -/
structure PackSession where
  reader : PackReader
  handles : List PackHandle := []

/-- how many handles were drawn since the reader was last started over, and for each of all handles how
many had been drawn before it since then -/
structure Drawn where
  count : Nat := 0
  places : List Nat := []

def Drawn.note (d : Drawn) : PackRequest → PackReply → Drawn
  | .next, .drawn true => ⟨d.count + 1, d.places ++ [d.count]⟩
  | .rewind, _ => { d with count := 0 }
  | _, _ => d

namespace PackSession

/-- the answer to a request, and the reader and the handles afterwards -/
def perform (s : PackSession) : PackRequest → PackReply × PackSession
  | .next =>
    match s.reader.next with
    | (some handle, reader) => (.drawn true, ⟨reader, s.handles ++ [handle]⟩)
    | (none, reader) => (.drawn false, ⟨reader, s.handles⟩)
  | .rewind => (.rewound, { s with reader := s.reader.rewind })
  | .readEvent n => (.event (s.reader.readEvent n), s)
  | .decode k index =>
    match s.handles[k]? with
    | some handle =>
      (.decoded (some (handle.decode index).1),
        { s with handles := s.handles.set k (handle.decode index).2 })
    | none => (.decoded none, s)

/-- the reader and the handles after requests -/
def after : List PackRequest → PackSession → PackSession
  | [], s => s
  | request :: rest, s => after rest (s.perform request).2

/-- the handles that are drawn by requests, beside those that were drawn before -/
def drawn : List PackRequest → PackSession → Drawn → Drawn
  | [], _, d => d
  | request :: rest, s, d => drawn rest (s.perform request).2 (d.note request (s.perform request).1)

end PackSession

/-! ## the handle of an event -/

/-- a handle of the event at a place, which remembers nothing or what unpacking the event gives -/
structure PackHandle.Of (r : PackReader) (place : Nat) (handle : PackHandle) : Prop where
  record : r.events[place]? = some handle.record
  unpacked : ∀ result, handle.unpacked = some result → r.readEvent place = result

theorem Pack.Record.decode_ne_outOfRange {α : Type} (codec : Binary.Codec α) (record : Pack.Record)
    (k : Nat) : record.decode codec ≠ .error (.eventOutOfRange k) := by
  intro h
  rw [Pack.Record.decode, Pack.Record.content] at h
  cases hraw : Zstd.decode? record.packed with
  | none =>
    rw [hraw] at h
    cases h
  | some raw =>
    simp only [hraw] at h
    split at h
    · rename_i hcontent
      split at hcontent <;> cases hcontent
      cases h
    · split at h <;> cases h

namespace PackReader

variable {r : PackReader} {place : Nat}

theorem readEvent_of_record {record : Pack.Record} (h : r.events[place]? = some record) :
    r.readEvent place = record.decode Codecs.event := by
  rw [readEvent, h]

theorem lt_eventCount_of_record {record : Pack.Record} (h : r.events[place]? = some record) :
    place < r.eventCount := (List.getElem?_eq_some_iff.mp h).1

theorem readEvent_ne_outOfRange (h : place < r.eventCount) (k : Nat) :
    r.readEvent place ≠ .error (.eventOutOfRange k) := by
  rw [readEvent_of_record (List.getElem?_eq_getElem h)]
  exact Pack.Record.decode_ne_outOfRange _ _ k

end PackReader

namespace PackHandle.Of

variable {r : PackReader} {place : Nat} {handle : PackHandle}

theorem new {record : Pack.Record} (h : r.events[place]? = some record) :
    PackHandle.Of r place { record } := ⟨h, fun _ hresult => nomatch hresult⟩

/-- unpacking gives what is read directly, the first time and every other time -/
theorem unpack_fst (h : handle.Of r place) : handle.unpack.1 = r.readEvent place := by
  unfold PackHandle.unpack
  cases hunpacked : handle.unpacked with
  | none => exact (PackReader.readEvent_of_record h.record).symm
  | some result => exact (h.unpacked result hunpacked).symm

theorem unpack_snd (h : handle.Of r place) : handle.unpack.2.Of r place := by
  unfold PackHandle.unpack
  cases hunpacked : handle.unpacked with
  | none =>
    refine ⟨h.record, ?_⟩
    intro result hresult
    rw [← Option.some.inj hresult]
    exact PackReader.readEvent_of_record h.record
  | some result => exact h

theorem decode_fst (h : handle.Of r place) (index : LocalIndex) :
    (handle.decode index).1 = PackHandle.pick index (r.readEvent place) :=
  congrArg (PackHandle.pick index) h.unpack_fst

theorem decode_snd (h : handle.Of r place) (index : LocalIndex) :
    (handle.decode index).2.Of r place := h.unpack_snd

end PackHandle.Of

/-! ## what a handle answers -/

namespace PackHandle

variable {index : LocalIndex} {result : Except PackError PackedEvent}

theorem pick_eq_ok_iff {buffers : Buffers} :
    pick index result = .ok buffers
      ↔ ∃ event, result = .ok event
        ∧ (event.entries.find? fun entry => entry.index = index).map PackedEntry.buffers
          = some buffers := by
  cases result with
  | error cause => exact ⟨nofun, fun ⟨_, hevent, _⟩ => nomatch hevent⟩
  | ok event =>
    simp only [pick, PackedEvent.get?, Except.ok.injEq, exists_eq_left']
    cases (event.entries.find? fun entry => entry.index = index).map PackedEntry.buffers with
    | none => exact ⟨nofun, nofun⟩
    | some found => rw [Except.ok.injEq, Option.some_inj]

theorem pick_eq_notStored_iff :
    pick index result = .error (.notStored index)
      ↔ ∃ event, result = .ok event ∧ ∀ entry ∈ event.entries, entry.index ≠ index := by
  cases result with
  | error cause => exact ⟨nofun, fun ⟨_, hevent, _⟩ => nomatch hevent⟩
  | ok event =>
    have hmissing : event.get? index = none ↔ ∀ entry ∈ event.entries, entry.index ≠ index := by
      rw [PackedEvent.get?, Option.map_eq_none_iff, List.find?_eq_none]
      simp only [decide_eq_true_eq]
    simp only [Except.ok.injEq, exists_eq_left', ← hmissing, pick]
    cases event.get? index with
    | none => exact ⟨fun _ => rfl, fun _ => rfl⟩
    | some found => exact ⟨nofun, nofun⟩

theorem pick_eq_unreadable_iff {cause : PackError} :
    pick index result = .error (.unreadable index cause) ↔ result = .error cause := by
  cases result with
  | error other => simp [pick]
  | ok event =>
    rw [pick]
    cases event.get? index with
    | none => exact ⟨nofun, nofun⟩
    | some found => exact ⟨nofun, nofun⟩

/-- why there is no payload: what the reading of the event has failed with, if it has -/
def reason : Except PackError PackedEvent → String
  | .error cause => cause.message
  | .ok _ => "collection not stored in this event"

theorem message_of_pick {e : DecodeError} (h : pick index result = .error e) :
    e.message = "failed to decode local index " ++ index.text ++ ": " ++ reason result := by
  cases result with
  | error cause =>
    cases h
    rfl
  | ok event =>
    rw [pick] at h
    split at h
    · cases h
    · cases h
      have hwords : ": collection not stored in this event"
          = ": " ++ "collection not stored in this event" := by simp
      exact (congrArg ("failed to decode local index " ++ index.text ++ ·) hwords).trans
        String.append_assoc.symm

end PackHandle

/-! ## a reader and its handles -/

namespace PackSession

variable {r : PackReader} {s : PackSession} {d : Drawn}

/-- The reader is where the number of handles since it was last started over says, which is no more
than there are events, and every handle is of the event of its number. -/
structure Reads (s : PackSession) (r : PackReader) (d : Drawn) : Prop where
  reader : s.reader = { r with cursor := d.count }
  count_le : d.count ≤ r.eventCount
  handles : List.Forall₂ (PackHandle.Of r) d.places s.handles

namespace Reads

theorem start (h : r.cursor = 0) : Reads ⟨r, []⟩ r {} := by
  refine ⟨?_, Nat.zero_le _, .nil⟩
  show r = { r with cursor := 0 }
  rw [← h]

theorem readEvent (h : s.Reads r d) (n : Nat) : s.reader.readEvent n = r.readEvent n := by
  rw [h.reader]
  rfl

/-- a handle is drawn as long as there are events -/
theorem next_cases (h : s.Reads r d) :
    d.count = r.eventCount ∧ s.perform .next = (.drawn false, s)
      ∨ ∃ record, r.events[d.count]? = some record
        ∧ s.perform .next
          = (.drawn true, ⟨{ r with cursor := d.count + 1 }, s.handles ++ [⟨record, none⟩]⟩) := by
  have hcursor : s.reader.events[s.reader.cursor]? = r.events[d.count]? := by
    rw [h.reader]
  cases hrecord : r.events[d.count]? with
  | none =>
    have hlast : r.eventCount ≤ d.count := List.getElem?_eq_none_iff.mp hrecord
    refine .inl ⟨Nat.le_antisymm h.count_le hlast, ?_⟩
    rw [perform, PackReader.next, hcursor, hrecord]
  | some record =>
    refine .inr ⟨record, rfl, ?_⟩
    rw [perform, PackReader.next, hcursor, hrecord, h.reader]

/-- what the handle of a number answers -/
theorem handle_of_place (h : s.Reads r d) {k place : Nat} (hplace : d.places[k]? = some place) :
    ∃ handle, s.handles[k]? = some handle ∧ handle.Of r place := by
  obtain ⟨hk, rfl⟩ := List.getElem?_eq_some_iff.mp hplace
  have hk' : k < s.handles.length := h.handles.length_eq ▸ hk
  exact ⟨s.handles[k], List.getElem?_eq_getElem hk', h.handles.get hk hk'⟩

/-- the records of the handles -/
theorem records_eq (h : s.Reads r d) :
    (s.handles.map fun handle => some handle.record)
      = d.places.map fun place => r.events[place]? := by
  have hhandles := h.handles
  generalize d.places = places, s.handles = handles at hhandles
  induction hhandles with
  | nil => rfl
  | cons hof _ ih => rw [List.map_cons, List.map_cons, ih, hof.record]

theorem decode (h : s.Reads r d) (k : Nat) (index : LocalIndex) :
    (s.perform (.decode k index)).2.Reads r d := by
  rw [perform]
  cases hhandle : s.handles[k]? with
  | none => exact h
  | some handle =>
    refine ⟨h.reader, h.count_le, ?_⟩
    show List.Forall₂ (PackHandle.Of r) d.places (s.handles.set k (handle.decode index).2)
    obtain ⟨hk, rfl⟩ := List.getElem?_eq_some_iff.mp hhandle
    rw [List.forall₂_iff_get]
    have hlength : d.places.length = s.handles.length := h.handles.length_eq
    refine ⟨by rw [List.length_set, hlength], ?_⟩
    intro i hi hi'
    have hi'' : i < s.handles.length := hlength ▸ hi
    have hof : s.handles[i].Of r d.places[i] := h.handles.get hi hi''
    show (s.handles.set k _)[i].Of r d.places[i]
    rw [List.getElem_set]
    split
    · rename_i hsame
      subst hsame
      exact hof.decode_snd index
    · exact hof

/-- **One more request keeps every handle with the event of its number.** -/
theorem perform (h : s.Reads r d) (request : PackRequest) :
    (s.perform request).2.Reads r (d.note request (s.perform request).1) := by
  cases request with
  | next =>
    rcases h.next_cases with ⟨-, hlast⟩ | ⟨record, hrecord, hgiven⟩
    · rw [hlast]
      exact h
    · rw [hgiven]
      exact ⟨rfl, PackReader.lt_eventCount_of_record hrecord,
        List.rel_append h.handles (.cons (.new hrecord) .nil)⟩
  | rewind =>
    refine ⟨?_, Nat.zero_le _, h.handles⟩
    show s.reader.rewind = { r with cursor := 0 }
    rw [h.reader]
    rfl
  | readEvent n => exact h
  | decode k index => exact h.decode k index

theorem after (h : s.Reads r d) (requests : List PackRequest) :
    (PackSession.after requests s).Reads r (drawn requests s d) := by
  induction requests generalizing s d with
  | nil => exact h
  | cons request rest ih => exact ih (h.perform request)

end Reads

end PackSession

/-! ## packs that are opened -/

namespace PackReader

theorem cursor_addRecord {r r' : PackReader} {record : Pack.Record}
    (h : r.addRecord record = .ok r') : r'.cursor = r.cursor := by
  rw [addRecord] at h
  split at h
  · cases h
    rfl
  · split at h
    · cases h
      rfl
    · cases h
  · split at h
    · cases h
      rfl
    · cases h

theorem cursor_addRecords {records : List Pack.Record} {r r' : PackReader}
    (h : r.addRecords records = .ok r') : r'.cursor = r.cursor := by
  induction records generalizing r with
  | nil =>
    cases h
    rfl
  | cons record rest ih =>
    rw [addRecords] at h
    split at h
    · rename_i hfirst
      exact (ih h).trans (cursor_addRecord hfirst)
    · cases h

/-- a pack that is opened is read from its first event on -/
theorem cursor_ofBytes {data : Bytes} {r : PackReader} (h : ofBytes data = .ok r) :
    r.cursor = 0 := by
  rw [ofBytes] at h
  split at h
  · cases h
  · split at h
    · cases h
    · exact cursor_addRecords h

/-- a pack with the right checksum is opened if all its records are taken -/
theorem ofBytes_records {z : Zstd.Compressor} {contents : List (RecordKind × Bytes)} {octets : Bytes}
    (hoctets : octets = Pack.header ++ Record.encodeAll z contents ++ Pack.trailerMagic)
    (hlength : octets.length < 0x10000000000000000) :
    ofBytes (octets ++ Checksum.Blake3.hash octets)
      = addRecords { checksum := Checksum.Blake3.hash octets }
        (Record.row z headerLength contents) := by
  have hbody : (Record.encodeAll z contents).length < 0x10000000000000000 := by
    rw [hoctets, List.length_append, List.length_append] at hlength
    omega
  have hlayout := layout_eq (Record.encodeAll z contents) (Checksum.Blake3.length_hash octets)
  rw [← hoctets, if_neg fun hne => hne rfl] at hlayout
  rw [ofBytes, hlayout]
  dsimp only
  rw [Record.split_encodeAll z headerLength hbody]

/-- a pack of events only, whether they can be unpacked or not -/
theorem ofBytes_events {z : Zstd.Compressor} {contents : List Bytes} {octets : Bytes}
    (hoctets : octets = Pack.header
      ++ Record.encodeAll z (contents.map fun content => (.event, content)) ++ Pack.trailerMagic)
    (hlength : octets.length < 0x10000000000000000) :
    ofBytes (octets ++ Checksum.Blake3.hash octets) = .ok {
      events := Record.row z headerLength (contents.map fun content => (.event, content))
      checksum := Checksum.Blake3.hash octets } := by
  have hkinds : ∀ record ∈ Record.row z headerLength
      (contents.map fun content => (RecordKind.event, content)), record.kind = .event := by
    apply Record.kind_of_mem_row
    intro c hc
    obtain ⟨content, -, rfl⟩ := List.mem_map.mp hc
    rfl
  rw [ofBytes_records hoctets hlength]
  exact addRecords_events _ hkinds

end PackReader

namespace PackSession

/-- **Whatever is asked of a pack, and in whatever order, its handles agree with reading directly.**
After any requests a handle can be drawn exactly if fewer than all events were drawn since the reader
was last started over; an event that is read by its number is what it was at first; and each handle is
of the event of its own number.  Asked for an index it gives the payload of the first entry of that
index, if the event can be read and has one; says that none is stored, if the event can be read and has
none; and otherwise gives the error of reading the event. -/
theorem reads_directly {data : Bytes} {r : PackReader} (hopen : PackReader.ofBytes data = .ok r)
    {requests : List PackRequest} {s : PackSession} (hs : after requests ⟨r, []⟩ = s)
    {d : Drawn} (hd : drawn requests ⟨r, []⟩ {} = d) :
    d.count ≤ r.eventCount
      ∧ (s.perform .next).1 = .drawn (decide (d.count < r.eventCount))
      ∧ (∀ n, (s.perform (.readEvent n)).1 = .event (r.readEvent n))
      ∧ (s.handles.map fun handle => some handle.record)
        = d.places.map (fun place => r.events[place]?)
      ∧ ∀ k place, d.places[k]? = some place → place < r.eventCount ∧ ∀ index, ∃ result,
          (s.perform (.decode k index)).1 = .decoded (some result)
            ∧ (∀ buffers, result = .ok buffers ↔ ∃ event, r.readEvent place = .ok event
              ∧ (event.entries.find? fun entry => entry.index = index).map PackedEntry.buffers
                = some buffers)
            ∧ (result = .error (.notStored index) ↔ ∃ event, r.readEvent place = .ok event
              ∧ ∀ entry ∈ event.entries, entry.index ≠ index)
            ∧ (∀ cause, result = .error (.unreadable index cause)
              ↔ r.readEvent place = .error cause)
            ∧ ∀ e, result = .error e → e.message = "failed to decode local index " ++ index.text
              ++ ": " ++ PackHandle.reason (r.readEvent place) := by
  have h : s.Reads r d := by
    rw [← hs, ← hd]
    exact (Reads.start (PackReader.cursor_ofBytes hopen)).after requests
  refine ⟨h.count_le, ?_, ?_, ?_, ?_⟩
  · rcases h.next_cases with ⟨hall, hlast⟩ | ⟨record, hrecord, hgiven⟩
    · rw [hlast, decide_eq_false (by omega)]
    · rw [hgiven, decide_eq_true (PackReader.lt_eventCount_of_record hrecord)]
  · intro n
    exact congrArg PackReply.event (h.readEvent n)
  · exact h.records_eq
  · intro k place hplace
    obtain ⟨handle, hhandle, hof⟩ := h.handle_of_place hplace
    refine ⟨PackReader.lt_eventCount_of_record hof.record, ?_⟩
    intro index
    refine ⟨PackHandle.pick index (r.readEvent place), ?_, ?_, ?_, ?_, ?_⟩
    · rw [perform, hhandle]
      exact congrArg (fun result => PackReply.decoded (some result)) (hof.decode_fst index)
    · intro buffers
      exact PackHandle.pick_eq_ok_iff
    · exact PackHandle.pick_eq_notStored_iff
    · intro cause
      exact PackHandle.pick_eq_unreadable_iff
    · intro e he
      exact PackHandle.message_of_pick he

/-- an event with two entries of one index -/
def repeated : PackedEvent :=
  ⟨[⟨⟨5⟩, .complete [1] [] [] 1⟩, ⟨⟨5⟩, .complete [2] [] [] 1⟩, ⟨⟨9⟩, .complete [3] [] [] 1⟩]⟩

/-- that event and one that cannot be unpacked, and what is in front of the checksum of their pack -/
def brokenContents : List Bytes := [Codecs.event.write repeated, []]

def brokenOctets : Bytes :=
  Pack.header ++ Record.encodeAll .stored (brokenContents.map fun content => (.event, content))
    ++ Pack.trailerMagic

/-- the second event is asked for something before the reader is started over -/
def brokenRequests : List PackRequest :=
  [.next, .next, .decode 1 ⟨5⟩, .rewind, .decode 0 ⟨7⟩, .next, .decode 2 ⟨7⟩]

theorem reads_directly_broken :
    ∃ r, PackReader.ofBytes (brokenOctets ++ Checksum.Blake3.hash brokenOctets) = .ok r
      ∧ ((after brokenRequests ⟨r, []⟩).perform (.decode 2 ⟨5⟩)).1
        = .decoded (some (.ok (.complete [1] [] [] 1)))
      ∧ ((after brokenRequests ⟨r, []⟩).perform (.decode 0 ⟨7⟩)).1
        = .decoded (some (.error (.notStored ⟨7⟩)))
      ∧ ((after brokenRequests ⟨r, []⟩).perform (.decode 1 ⟨5⟩)).1
        = .decoded (some (.error (.unreadable ⟨5⟩ .serialization)))
      ∧ ((after brokenRequests ⟨r, []⟩).perform .next).1 = .drawn true := by
  have hlength : brokenOctets.length < 0x10000000000000000 := by
    have hshort : brokenOctets.length < 1000 := by decide +kernel
    omega
  have hshort : (Codecs.event.write repeated).length < Binary.Codec.limit := by decide +kernel
  have hopen := @PackReader.ofBytes_events .stored brokenContents brokenOctets rfl hlength
  have hreadable := Record.decode_made .stored Codecs.faithful_event headerLength .event hshort
  have hunreadable : ∀ offset,
      (Record.made .stored offset .event []).decode Codecs.event = .error .serialization := by
    intro offset
    rw [Record.decode, Record.content_made .stored offset .event (by decide)]
    rfl
  obtain ⟨-, hnext, -, -, hdecode⟩ := @reads_directly _ _ hopen brokenRequests _ rfl _ rfl
  obtain ⟨-, hafresh⟩ := hdecode 2 0 rfl
  obtain ⟨-, hbefore⟩ := hdecode 0 0 rfl
  obtain ⟨-, hbroken⟩ := hdecode 1 1 rfl
  refine ⟨_, hopen, ?_, ?_, ?_, hnext⟩
  · obtain ⟨result, hanswer, hfound, -⟩ := hafresh ⟨5⟩
    rw [hanswer, (hfound (.complete [1] [] [] 1)).mpr ⟨repeated, hreadable, rfl⟩]
  · obtain ⟨result, hanswer, -, hmissing, -⟩ := hbefore ⟨7⟩
    rw [hanswer, hmissing.mpr ⟨repeated, hreadable, by decide⟩]
  · obtain ⟨result, hanswer, -, -, hfailed, -⟩ := hbroken ⟨5⟩
    rw [hanswer, (hfailed .serialization).mpr (hunreadable _)]

end PackSession

end EventMerge
