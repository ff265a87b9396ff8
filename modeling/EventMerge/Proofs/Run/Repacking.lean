import EventMerge.Proofs.Pack.Access
import EventMerge.Proofs.Run.Alone
import EventMerge.Proofs.Run.Restoring
import Mathlib.Data.List.Nodup

/-!
# Packs that are written again

A pack that was opened is the only source of a run in order with nothing configured, and the run writes
one new pack.  The names are sorted then, and numbered anew; every event keeps its valid payloads under
their names, and nothing else.  A name that the old table repeats has one index, an index that an event
repeats has one payload, and an event that cannot be unpacked becomes one without payloads.  So a pack
from elsewhere is tidied up by the first copy, and a copy of the copy changes nothing any more.

* `PackReader.Offers`, `PackReader.Stores`  what is decoded from a pack, and what is listed in it;
* `PackReader.tidied`         an event as it is written again;
* `PackReader.Tidies`         a pack beside the one it was made from;
* `PackReader.copy?`          the octets of the new pack;
* `PackReader.copy?_tidies`   it can be opened, and is made from the old one;
* `PackReader.Tidies.again`   a copy of a copy;
* `PackReader.copy_faithful`  both together.
-/

namespace EventMerge

open Pack

/-! ## what a pack has for a name -/

namespace PackReader

variable {p q : PackReader} {place : Nat} {name : String} {buffers : Buffers}

/-- the decoder of a pack gives a valid payload for a name, in the event at a place -/
def Offers (r : PackReader) (place : Nat) (name : String) (buffers : Buffers) : Prop :=
  ∃ record index, r.events[place]? = some record ∧ r.entries.get? name = some index
    ∧ (PackHandle.decode { record } index).1 = .ok buffers ∧ buffers.isValid = true

/-- the event at a place lists a payload under the index of a name -/
def Stores (r : PackReader) (place : Nat) (name : String) (buffers : Buffers) : Prop :=
  ∃ event, r.readEvent place = .ok event
    ∧ ∃ entry ∈ event.entries, r.nameOf? entry.index = some name ∧ entry.buffers = buffers

/-- the valid payload that the decoder of a pack gives for a name, in the event at a place -/
def offer? (r : PackReader) (place : Nat) (name : String) : Option Buffers :=
  (r.entries.get? name).bind fun index =>
    (PackHandle.pick index (r.readEvent place)).toOption.filter Buffers.isValid

theorem offer?_eq_some_iff : p.offer? place name = some buffers ↔ p.Offers place name buffers := by
  have hpicked : ∀ index, (PackHandle.pick index (p.readEvent place)).toOption = some buffers
      ↔ PackHandle.pick index (p.readEvent place) = .ok buffers := by
    intro index
    cases PackHandle.pick index (p.readEvent place) with
    | error e => exact ⟨nofun, nofun⟩
    | ok found => simp [Except.toOption]
  simp only [offer?, Option.bind_eq_some_iff, Option.filter_eq_some_iff, hpicked]
  constructor
  · rintro ⟨index, hindex, hpick, hvalid⟩
    obtain ⟨event, hevent, -⟩ := PackHandle.pick_eq_ok_iff.mp hpick
    cases hrecord : p.events[place]? with
    | none =>
      rw [readEvent, hrecord] at hevent
      cases hevent
    | some record =>
      rw [readEvent_of_record hrecord] at hpick
      exact ⟨record, index, hrecord, hindex, hpick, hvalid⟩
  · rintro ⟨record, index, hrecord, hindex, hdecode, hvalid⟩
    refine ⟨index, hindex, ?_, hvalid⟩
    rw [readEvent_of_record hrecord]
    exact hdecode

/-- what a store reads in the event of a record is what the pack offers there -/
theorem readable?_eq_offer? (label : String) {record : Pack.Record}
    (h : p.events[place]? = some record) (name : String) :
    (Store.rawOf label p.entries decoder (handleOf record)).readable? name = p.offer? place name := by
  have hdecode : ∀ index, decoder (handleOf record) index
      = PackHandle.pick index (p.readEvent place) := by
    intro index
    rw [readEvent_of_record h, decoder_handleOf]
  rw [RawData.readable?, Store.resolve?_rawOf, offer?]
  cases p.entries.get? name with
  | none => rfl
  | some index =>
    rw [Option.map_some, hdecode, Option.bind_some]
    cases PackHandle.pick index (p.readEvent place) with
    | error e => rfl
    | ok found => exact (Option.filter_some).symm

/-- the payloads that a pack offers in the event at a place, by name -/
def payloads (r : PackReader) (place : Nat) : List (String × Buffers) :=
  r.entries.keys.filterMap fun name => (r.offer? place name).map fun buffers => (name, buffers)

/-- the names of a pack, once each and in order -/
def names (r : PackReader) : PackedTable := ⟨r.entries.keys, none⟩

/-- the event at a place as it is written again -/
def tidied (r : PackReader) (place : Nat) : PackedEvent := ⟨r.names.entriesOf (r.payloads place)⟩

/-- a pack beside the one that it was made from: the names are sorted, and every event is written again
in their order -/
structure Tidies (q p : PackReader) : Prop where
  collections : q.collections = p.entries.keys
  eventCount : q.eventCount = p.eventCount
  readEvent : ∀ place < p.eventCount, q.readEvent place = .ok (p.tidied place)

/-! ## writing a pack again -/

/-- the octets of the pack that a run in order, with nothing configured, writes from this pack alone -/
def copy? (r : PackReader) (z : Zstd.Compressor) (label target : String) : Option Bytes :=
  match PackWriter.new target none z with
  | .error _ => none
  | .ok w =>
    match Run.conduct {} [r.feed label] [.pack w] with
    | ⟨.ok _, [.pack done], _⟩ => some done.sink.octets
    | _ => none

theorem feed_eq (hcursor : p.cursor = 0) (label : String) :
    p.feed label = ⟨label, p.entries, decoder, (p.events.map handleOf).map .event⟩ := by
  rw [feed, hcursor, List.drop_zero, List.map_map]
  rfl

theorem copy?_of_size_gt (h : ¬ p.entries.size ≤ 0x100000000) (z : Zstd.Compressor)
    (label target : String) : p.copy? z label target = none := by
  obtain ⟨w, hnew⟩ : ∃ w, PackWriter.new target none z = .ok w := ⟨_, rfl⟩
  obtain ⟨-, htable, -⟩ := PackWriter.holds_new hnew
  obtain ⟨f, writers, hrun⟩ := (Run.new_alone (p.feed label) htable).2 h
  rw [copy?, hnew]
  dsimp only
  rw [Run.conduct, hrun]

/-- **A pack is written again**, if there are numbers for its names. -/
theorem copy?_tidies (hcursor : p.cursor = 0) (h : p.entries.size ≤ 0x100000000)
    (z : Zstd.Compressor) (label target : String) :
    ∃ octets, p.copy? z label target = some octets
      ∧ (octets.length < 0x10000000000000000 → ∃ q, ofBytes octets = .ok q ∧ q.Tidies p) := by
  obtain ⟨w, hnew⟩ : ∃ w, PackWriter.new target none z = .ok w := ⟨_, rfl⟩
  obtain ⟨summary, told, done, checksum, hrun, hholds, htable, hfinish⟩ :=
    Run.conduct_alone hnew label h decoder (p.events.map handleOf)
  rw [← feed_eq hcursor label] at hrun
  refine ⟨done.sink.octets, ?_, fun hlength => ?_⟩
  · rw [copy?, hnew]
    dsimp only
    rw [hrun]
  · obtain ⟨hopened, hshort⟩ := ofBytes_written hholds hfinish hlength
    have hcount := eventCount_written told checksum hshort
    rw [List.length_map, List.length_map] at hcount
    refine ⟨_, hopened, congrArg PackedTable.collections htable, hcount, fun place hplace => ?_⟩
    refine readEvent_written checksum hshort ?_
    have hrecord : p.events[place]? = some p.events[place] := List.getElem?_eq_getElem hplace
    rw [List.getElem?_map, List.getElem?_map, hrecord]
    simp only [Option.map_some, readable?_eq_offer? label hrecord]
    rfl

/-! ## what becomes of a pack -/

theorem mem_keys_of_offer? (h : p.offer? place name = some buffers) : name ∈ p.entries.keys := by
  obtain ⟨-, index, -, hindex, -⟩ := offer?_eq_some_iff.mp h
  exact NameMap.contains_iff_mem_keys.mp (NameMap.contains_eq_true_iff.mpr ⟨index, hindex⟩)

theorem mem_payloads : (name, buffers) ∈ p.payloads place ↔ p.offer? place name = some buffers := by
  rw [payloads, List.mem_filterMap]
  constructor
  · rintro ⟨other, -, hother⟩
    obtain ⟨found, hfound, hpair⟩ := Option.map_eq_some_iff.mp hother
    cases hpair
    exact hfound
  · intro hoffer
    exact ⟨name, mem_keys_of_offer? hoffer, by rw [hoffer]; rfl⟩

theorem lookup_payloads (p : PackReader) (place : Nat) (name : String) :
    NameMap.lookup name (p.payloads place) = p.offer? place name := by
  rw [payloads, NameMap.lookup_filterMap]
  split
  · rfl
  · rename_i hname
    cases hoffer : p.offer? place name with
    | none => rfl
    | some found => exact absurd (mem_keys_of_offer? hoffer) hname

theorem listed_payloads (p : PackReader) (place : Nat) :
    ∀ payload ∈ p.payloads place, payload.1 ∈ p.names.collections := fun _ hpayload =>
  mem_keys_of_offer? (mem_payloads.mp hpayload)

theorem readEvent_of_ge (h : p.eventCount ≤ place) :
    p.readEvent place = .error (.eventOutOfRange place) := by
  rw [readEvent, List.getElem?_eq_none h]

section

variable (hroom : p.entries.size ≤ 0x100000000)

include hroom

theorem length_names : p.names.collections.length ≤ 0x100000000 := by
  have hlength : p.names.collections.length = p.entries.size := List.length_map _
  rw [hlength]
  exact hroom

/-- an event that is written again has one payload under an index -/
theorem nodup_tidied (place : Nat) : ((p.tidied place).entries.map PackedEntry.index).Nodup := by
  have hnames : (p.payloads place).map Prod.fst
      = p.entries.keys.filter fun name => (p.offer? place name).isSome := by
    rw [payloads, List.map_filterMap, ← List.filterMap_eq_filter]
    refine List.filterMap_congr fun name _ => ?_
    cases hoffer : p.offer? place name <;> simp [Option.guard, hoffer]
  have hnodup : ((p.payloads place).map Prod.fst).Nodup := by
    rw [hnames]
    exact (NameMap.nodup_of_sorted p.entries.sorted_keys).filter _
  have hindices : (p.tidied place).entries.map PackedEntry.index
      = ((p.payloads place).map Prod.fst).map p.names.indexOf := by
    rw [tidied, PackedTable.entriesOf, List.map_map, List.map_map]
    rfl
  rw [hindices]
  refine List.Nodup.map_on ?_ hnodup
  intro name hname other hother hsame
  obtain ⟨payload, hpayload, rfl⟩ := List.mem_map.mp hname
  obtain ⟨payload', hpayload', rfl⟩ := List.mem_map.mp hother
  exact (PackedTable.indexOf_inj (length_names hroom) (p.listed_payloads place payload hpayload)
    (p.listed_payloads place payload' hpayload')).mp hsame

end

namespace Tidies

variable (h : q.Tidies p)

include h

theorem sorted : q.collections.Pairwise (· < ·) := h.collections ▸ p.entries.sorted_keys

theorem mem_collections : name ∈ q.collections ↔ name ∈ p.collections := by
  rw [h.collections]
  exact Feed.mem_keys_indexed

theorem keys_eq : q.entries.keys = p.entries.keys := (Feed.keys_indexed h.sorted).trans h.collections

theorem size_eq : q.entries.size = p.entries.size := by
  have hlength := congrArg List.length h.keys_eq
  exact (List.length_map _).symm.trans (hlength.trans (List.length_map _))

theorem nameOf?_eq (index : LocalIndex) : q.nameOf? index = p.names.nameOf? index := by
  have hcollections : q.table.collections = p.names.collections := h.collections
  rw [nameOf?, PackedTable.nameOf?, PackedTable.nameOf?, hcollections]

variable (hroom : p.entries.size ≤ 0x100000000)

include hroom

/-- an event lists for a name what it offered before -/
theorem stores_iff : q.Stores place name buffers ↔ p.Offers place name buffers := by
  by_cases hplace : place < p.eventCount
  · have hevent := h.readEvent place hplace
    rw [← offer?_eq_some_iff, ← mem_payloads]
    constructor
    · rintro ⟨event, hread, entry, hentry, hname, rfl⟩
      rw [hevent] at hread
      cases hread
      obtain ⟨payload, hpayload, rfl⟩ := List.mem_map.mp hentry
      have hlisted := p.listed_payloads place payload hpayload
      rw [h.nameOf?_eq, PackedTable.nameOf?_indexOf (length_names hroom) hlisted] at hname
      cases hname
      exact hpayload
    · intro hpayload
      have hlisted := p.listed_payloads place _ hpayload
      refine ⟨p.tidied place, hevent, _, List.mem_map_of_mem hpayload, ?_, rfl⟩
      rw [h.nameOf?_eq]
      exact PackedTable.nameOf?_indexOf (length_names hroom) hlisted
  · constructor
    · rintro ⟨event, hread, -⟩
      rw [readEvent_of_ge (h.eventCount ▸ Nat.le_of_not_lt hplace)] at hread
      cases hread
    · rintro ⟨record, -, hrecord, -⟩
      exact absurd (lt_eventCount_of_record hrecord) hplace

/-- the event of a copy offers what it lists -/
theorem offer?_eq (hplace : place < p.eventCount) (name : String) :
    q.offer? place name = p.offer? place name := by
  have hindex : q.entries.get? name
      = if name ∈ q.collections then some (p.names.indexOf name) else none := by
    rw [entries, Feed.get?_indexed (NameMap.nodup_of_sorted h.sorted), h.collections]
    rfl
  rw [offer?, hindex, h.readEvent place hplace]
  by_cases hname : name ∈ q.collections
  · have hlisted : name ∈ p.names.collections := by
      rw [h.collections] at hname
      exact hname
    have hget := PackedTable.get?_entriesOf (length_names hroom) (p.listed_payloads place) hlisted
    rw [lookup_payloads] at hget
    rw [if_pos hname, Option.bind_some, PackHandle.pick, tidied, hget]
    cases hoffer : p.offer? place name with
    | none => rfl
    | some found =>
      obtain ⟨-, -, -, -, -, hvalid⟩ := offer?_eq_some_iff.mp hoffer
      exact (Option.filter_some).trans (if_pos hvalid)
  · rw [if_neg hname, Option.bind_none]
    cases hoffer : p.offer? place name with
    | none => rfl
    | some found => exact absurd (h.collections ▸ mem_keys_of_offer? hoffer) hname

/-- what is written of a copy is what the copy was made of -/
theorem tidied_eq (hplace : place < p.eventCount) : q.tidied place = p.tidied place := by
  have hpayloads : q.payloads place = p.payloads place := by
    simp only [payloads, h.keys_eq, h.offer?_eq hroom hplace]
  rw [tidied, tidied, hpayloads, names, names, h.keys_eq]

/-- **A copy of a copy is like the copy.** -/
theorem again {q' : PackReader} (h' : q'.Tidies q) :
    q'.collections = q.collections ∧ q'.eventCount = q.eventCount
      ∧ ∀ place, q'.readEvent place = q.readEvent place := by
  refine ⟨h'.collections.trans (h.keys_eq.trans h.collections.symm), h'.eventCount, fun place => ?_⟩
  by_cases hplace : place < p.eventCount
  · rw [h'.readEvent place (h.eventCount ▸ hplace), h.readEvent place hplace,
      h.tidied_eq hroom hplace]
  · have hlast : q.eventCount ≤ place := h.eventCount ▸ Nat.le_of_not_lt hplace
    rw [readEvent_of_ge hlast, readEvent_of_ge (h'.eventCount ▸ hlast)]

end Tidies

/-- **Writing a pack again keeps what it has, and doing so twice changes nothing more.**  A run in
order from a pack that was opened into a new one succeeds exactly if there are numbers for all names of
the pack.  If its octets can be counted with 64 bits, the new pack has as many events; each of them
lists under a name what the old pack decodes for the name and nothing else, if this is valid, each name
at most once; and its names are those of the old pack, sorted.  Written once more, in the same way, the
new pack has the same names, and event by event the same entries.  None of this depends on what the
records of the new packs are compressed with. -/
theorem copy_faithful {data : Bytes} (hopen : ofBytes data = .ok p) (z : Zstd.Compressor)
    (label target : String) :
    ((p.copy? z label target).isSome = true ↔ p.entries.size ≤ 0x100000000)
      ∧ ∀ octets, p.copy? z label target = some octets → octets.length < 0x10000000000000000 →
        ∃ q, ofBytes octets = .ok q ∧ q.eventCount = p.eventCount
          ∧ (∀ place name buffers, q.Stores place name buffers ↔ p.Offers place name buffers)
          ∧ (∀ place < q.eventCount, ∃ event, q.readEvent place = .ok event
            ∧ (event.entries.map PackedEntry.index).Nodup
            ∧ ∀ entry ∈ event.entries, ∃ name, q.nameOf? entry.index = some name)
          ∧ q.collections.Pairwise (· < ·) ∧ (∀ name, name ∈ q.collections ↔ name ∈ p.collections)
          ∧ ∀ z' label' target', ∃ octets', q.copy? z' label' target' = some octets'
            ∧ (octets'.length < 0x10000000000000000 → ∃ q', ofBytes octets' = .ok q'
              ∧ q'.collections = q.collections ∧ q'.eventCount = q.eventCount
              ∧ ∀ place, q'.readEvent place = q.readEvent place) := by
  have hcursor : p.cursor = 0 := cursor_ofBytes hopen
  have hwritten : (p.copy? z label target).isSome = true ↔ p.entries.size ≤ 0x100000000 := by
    constructor
    · intro hsome
      by_contra hover
      rw [copy?_of_size_gt hover] at hsome
      cases hsome
    · intro hroom
      obtain ⟨octets, hcopy, -⟩ := copy?_tidies hcursor hroom z label target
      rw [hcopy]
      rfl
  refine ⟨hwritten, fun octets hoctets hlength => ?_⟩
  have hroom : p.entries.size ≤ 0x100000000 := hwritten.mp (by rw [hoctets]; rfl)
  obtain ⟨copied, hcopied, hopens⟩ := copy?_tidies hcursor hroom z label target
  obtain rfl : octets = copied := Option.some.inj (hoctets.symm.trans hcopied)
  obtain ⟨q, hq, hfirst⟩ := hopens hlength
  refine ⟨q, hq, hfirst.eventCount, fun _ _ _ => hfirst.stores_iff hroom, fun place hplace => ?_,
    hfirst.sorted, fun _ => hfirst.mem_collections, fun z' label' target' => ?_⟩
  · have hevent := hfirst.readEvent place (hfirst.eventCount ▸ hplace)
    refine ⟨p.tidied place, hevent, nodup_tidied hroom place, fun entry hentry => ?_⟩
    obtain ⟨payload, hpayload, rfl⟩ := List.mem_map.mp hentry
    refine ⟨payload.1, ?_⟩
    rw [hfirst.nameOf?_eq]
    exact PackedTable.nameOf?_indexOf (length_names hroom) (p.listed_payloads place payload hpayload)
  · have hroom' : q.entries.size ≤ 0x100000000 := hfirst.size_eq ▸ hroom
    obtain ⟨octets', hcopy', hopens'⟩ := copy?_tidies (cursor_ofBytes hq) hroom' z' label' target'
    refine ⟨octets', hcopy', fun hlength' => ?_⟩
    obtain ⟨q', hq', hsecond⟩ := hopens' hlength'
    exact ⟨q', hq', hfirst.again hroom hsecond⟩

/-- an event of a pack from elsewhere, which repeats an index, has one that stands for no name, and
has a payload without its fields -/
def foreignEvent : PackedEvent :=
  ⟨[⟨⟨2⟩, .complete [1] [] [] 1⟩, ⟨⟨2⟩, .complete [2] [] [] 1⟩, ⟨⟨1⟩, .unset⟩,
    ⟨⟨9⟩, .complete [3] [] [] 1⟩]⟩

/-- that event and one that cannot be unpacked -/
def foreignEvents : List (RecordKind × Bytes) :=
  [(.event, Codecs.event.write foreignEvent), (.event, [])]

/-- a table that repeats a name -/
def foreignTable : PackedTable := ⟨["b", "a", "b"], none⟩

def foreignOctets : Bytes :=
  Pack.header
    ++ Record.encodeAll .stored (foreignEvents ++ [(.idTable, Codecs.table.write foreignTable)])
    ++ Pack.trailerMagic

def foreign : PackReader :=
  { events := Record.row .stored headerLength foreignEvents
    table := foreignTable
    checksum := Checksum.Blake3.hash foreignOctets }

theorem ofBytes_foreign :
    ofBytes (foreignOctets ++ Checksum.Blake3.hash foreignOctets) = .ok foreign := by
  have hlength : foreignOctets.length < 0x10000000000000000 := by
    have hshort : foreignOctets.length < 1000 := by decide +kernel
    omega
  have hkinds : ∀ record ∈ Record.row .stored headerLength foreignEvents, record.kind = .event :=
    Record.kind_of_mem_row _ (by simp [foreignEvents])
  have htable : (Codecs.table.write foreignTable).length < Binary.Codec.limit := by decide +kernel
  have hopened := @ofBytes_records .stored
    (foreignEvents ++ [(.idTable, Codecs.table.write foreignTable)]) foreignOctets rfl hlength
  rw [hopened, Record.row_append, addRecords_append, addRecords_events _ hkinds]
  dsimp only
  rw [Record.row, addRecords, addRecord_table _ _ _ htable]
  rfl

theorem copy_faithful_foreign :
    ∃ octets q, ofBytes (foreignOctets ++ Checksum.Blake3.hash foreignOctets) = .ok foreign
      ∧ foreign.copy? .stored "foreign" "tidy" = some octets ∧ ofBytes octets = .ok q
      ∧ q.eventCount = 2 ∧ q.collections = ["a", "b"]
      ∧ q.Stores 0 "b" (.complete [1] [] [] 1) ∧ (∀ buffers, ¬ q.Stores 0 "a" buffers)
      ∧ (∀ buffers, ¬ q.Stores 1 "b" buffers) ∧ (q.copy? .stored "tidy" "again").isSome = true := by
  have hsame : ∀ name, name ∈ foreign.collections ↔ name ∈ ["a", "b"] := by
    intro name
    show name ∈ ["b", "a", "b"] ↔ name ∈ ["a", "b"]
    simp only [List.mem_cons, List.not_mem_nil, or_false]
    tauto
  obtain ⟨-, hcopies⟩ := copy_faithful ofBytes_foreign .stored "foreign" "tidy"
  have hshort : (foreign.copy? .stored "foreign" "tidy").any (fun octets => octets.length < 1000)
      = true := by decide +kernel
  have hfirst : foreign.offer? 0 "b" = some (.complete [1] [] [] 1) := by decide +kernel
  have hinvalid : foreign.offer? 0 "a" = none := by decide +kernel
  have hbroken : foreign.offer? 1 "b" = none := by decide +kernel
  cases hcopy : foreign.copy? .stored "foreign" "tidy" with
  | none =>
    rw [hcopy] at hshort
    cases hshort
  | some octets =>
    rw [hcopy] at hshort
    have hlength : octets.length < 1000 := of_decide_eq_true hshort
    obtain ⟨q, hq, hcount, hstores, -, hsorted, hnames, hagain⟩ :=
      hcopies octets hcopy (by omega)
    obtain ⟨octets', hcopy', -⟩ := hagain .stored "tidy" "again"
    refine ⟨octets, q, ofBytes_foreign, rfl, hq, hcount, ?_, ?_, ?_, ?_, ?_⟩
    · exact NameMap.eq_of_sorted hsorted (by decide) fun name => (hnames name).trans (hsame name)
    · exact (hstores _ _ _).mpr (offer?_eq_some_iff.mp hfirst)
    · intro buffers hstored
      rw [hstores, ← offer?_eq_some_iff, hinvalid] at hstored
      cases hstored
    · intro buffers hstored
      rw [hstores, ← offer?_eq_some_iff, hbroken] at hstored
      cases hstored
    · rw [hcopy']
      rfl

end PackReader

end EventMerge
