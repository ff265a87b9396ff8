import EventMerge.Pack.Writer
import EventMerge.Proofs.Pack.Records

/-!
# Opening a pack that was written

What a writer has emitted is what its checksum covers, so that a finished pack passes the check; its
records are then split, and the tables among them decoded.

* `PackWriter.Holds`            a writer whose sink has taken the header and the records of events;
* `PackWriter.Adds`             a writer whose sink has taken more octets;
* `PackWriter.finishPack_ok`    what a finished pack consists of;
* `Pack.layout_eq`              the parts of a pack;
* `PackReader.ofBytes_octets`   what is accepted of the octets of a pack;
* `PackReader.ofBytes_written`  a finished pack is opened as it was written;
* `PackReader.ofBytes_finished` what a store is fed from it.
-/

namespace EventMerge

open Pack

/-! ## the checksum -/

namespace Checksum.Blake3

theorem length_compress (chaining message : Array UInt32) (counter : Nat)
    (blockLength flags : UInt32) : (compress chaining message counter blockLength flags).size = 8 := by
  rw [compress, Array.size_map, Array.size_range]

theorem length_hash (bytes : Bytes) : (hash bytes).length = 32 := by
  have hwords : ∀ words : List UInt32,
      (words.flatMap fun w => Bytes.ofNatLE 4 w.toNat).length = 4 * words.length := by
    intro words
    induction words with
    | nil => rfl
    | cons w rest ih =>
      rw [List.flatMap_cons, List.length_append, Bytes.length_ofNatLE, ih, List.length_cons]
      omega
  rw [hash, Node.rootHash, hwords, Array.length_toList, length_compress]

end Checksum.Blake3

/-! ## writing -/

namespace PackWriter

/-- the sink has taken the header and the records of events, and nothing else -/
structure Holds (w : PackWriter) (contents : List PackedEvent) : Prop where
  octets : w.sink.octets = Pack.header
    ++ Record.encodeAll w.compressor (contents.map fun e => (.event, Codecs.event.write e))
  hashed : w.hashed = w.sink.octets
  unfinished : w.checksum = none

def emitted (w : PackWriter) (pieces : List Bytes) : PackWriter :=
  { w with
    sink := {
      w.sink with
      newest := pieces.reverse ++ w.sink.newest
      attempts := w.sink.attempts + pieces.length }
    newestHashed := pieces.reverse ++ w.newestHashed }

theorem octets_emitted (w : PackWriter) (pieces : List Bytes) :
    (w.emitted pieces).sink.octets = w.sink.octets ++ pieces.flatten := by
  rw [emitted, Sink.octets, Sink.octets, List.reverse_append, List.reverse_reverse,
    List.flatten_append]

theorem hashed_emitted (w : PackWriter) (pieces : List Bytes) :
    (w.emitted pieces).hashed = w.hashed ++ pieces.flatten := by
  rw [emitted, hashed, hashed, List.reverse_append, List.reverse_reverse, List.flatten_append]

theorem emit_ok {w w' : PackWriter} {bytes : Bytes} (h : w.emit bytes = (.ok (), w')) :
    w' = w.emitted [bytes] := by
  rw [emit, Sink.write] at h
  by_cases hfail : w.sink.failAt = some (w.sink.attempts + 1)
  · rw [if_pos hfail] at h
    cases h
  · rw [if_neg hfail] at h
    cases h
    rfl

theorem emitAll_ok {w w' : PackWriter} {pieces : List Bytes} (h : w.emitAll pieces = (.ok (), w')) :
    w' = w.emitted pieces := by
  induction pieces generalizing w with
  | nil =>
    cases h
    rfl
  | cons bytes rest ih =>
    rw [emitAll] at h
    split at h
    · rename_i w₁ hfirst
      rw [ih h, emit_ok hfirst, emitted, emitted, emitted, List.length_cons, List.reverse_cons]
      simp [Nat.add_right_comm, Nat.add_comm rest.length 1, ← Nat.add_assoc]
    · cases h

/-- the sink of a writer has taken more octets; all that its pack consists of otherwise is the same.
A sink that never fails has taken all that the checksum covers. -/
structure Adds (w : PackWriter) (taken : List Bytes) (w' : PackWriter) : Prop where
  compressor : w'.compressor = w.compressor
  octets : w'.sink.octets = w.sink.octets ++ taken.flatten
  failAt : w'.sink.failAt = w.sink.failAt
  hashed : w.sink.failAt = none → w'.hashed = w.hashed ++ taken.flatten
  table : w'.table = w.table
  metadata : w'.metadata = w.metadata
  eventsWritten : w'.eventsWritten = w.eventsWritten
  checksum : w'.checksum = w.checksum

section

variable {w w' : PackWriter} {taken : List Bytes}

theorem Adds.refl (w : PackWriter) : w.Adds [] w := by
  have hsame : ∀ octets : Bytes, octets = octets ++ ([] : List Bytes).flatten := fun octets => by
    rw [List.flatten_nil, List.append_nil]
  exact ⟨rfl, hsame _, rfl, fun _ => hsame _, rfl, rfl, rfl, rfl⟩

theorem Adds.trans {w₁ : PackWriter} {more : List Bytes} (h : w.Adds taken w₁)
    (h' : w₁.Adds more w') : w.Adds (taken ++ more) w' where
  compressor := h'.compressor.trans h.compressor
  octets := by rw [h'.octets, h.octets, List.flatten_append, List.append_assoc]
  failAt := h'.failAt.trans h.failAt
  hashed hsound := by
    rw [h'.hashed (h.failAt.trans hsound), h.hashed hsound, List.flatten_append, List.append_assoc]
  table := h'.table.trans h.table
  metadata := h'.metadata.trans h.metadata
  eventsWritten := h'.eventsWritten.trans h.eventsWritten
  checksum := h'.checksum.trans h.checksum

theorem adds_emitted (w : PackWriter) (pieces : List Bytes) : w.Adds pieces (w.emitted pieces) :=
  ⟨rfl, octets_emitted w pieces, rfl, fun _ => hashed_emitted w pieces, rfl, rfl, rfl, rfl⟩

theorem adds_of_emit_error {bytes : Bytes} {e : PackError} (h : w.emit bytes = (.error e, w')) :
    w.Adds [] w' := by
  rw [emit, Sink.write] at h
  by_cases hfail : w.sink.failAt = some (w.sink.attempts + 1)
  · rw [if_pos hfail] at h
    cases h
    refine ⟨rfl, (Adds.refl w).octets, rfl, fun hsound => ?_, rfl, rfl, rfl, rfl⟩
    rw [hfail] at hsound
    cases hsound
  · rw [if_neg hfail] at h
    cases h

theorem adds_of_writePacked_error {content : PackedEvent} {e : PackError}
    (h : w.writePacked content = (.error e, w')) : w.Adds [] w' := by
  rw [writePacked] at h
  split at h
  · cases h
    exact Adds.refl w
  · split at h
    · cases h
    · rename_i hemit
      cases h
      exact adds_of_emit_error hemit

/-- of octets that are put out piece by piece the sink takes the first ones, until one is refused -/
theorem adds_of_emitAll_error {pieces : List Bytes} {e : PackError}
    (h : w.emitAll pieces = (.error e, w')) : ∃ taken, taken <+: pieces ∧ w.Adds taken w' := by
  induction pieces generalizing w with
  | nil => cases h
  | cons bytes rest ih =>
    rw [emitAll] at h
    split at h
    · rename_i w₁ hfirst
      rw [emit_ok hfirst] at h
      obtain ⟨taken, hbefore, hadds⟩ := ih h
      exact ⟨bytes :: taken, (List.prefix_cons_inj bytes).mpr hbefore,
        (adds_emitted w [bytes]).trans hadds⟩
    · rename_i hfirst
      cases h
      exact ⟨[], List.nil_prefix, adds_of_emit_error hfirst⟩

theorem closing_adds (h : w.Adds taken w') : w'.closing = w.closing := by
  rw [closing, closing, h.compressor, h.table, h.metadata]

end

theorem holds_new {name : String} {failAt : Option Nat} {z : Zstd.Compressor} {w : PackWriter}
    (h : PackWriter.new name failAt z = .ok w) : w.Holds [] ∧ w.table = {} ∧ w.metadata = .empty := by
  rw [PackWriter.new] at h
  split at h
  · rename_i w' hemit
    cases h
    rw [emit_ok hemit]
    exact ⟨⟨rfl, rfl, rfl⟩, rfl, rfl⟩
  · cases h

/-- what ends a pack, whatever its sink has taken before -/
theorem finishPack_octets {w w' : PackWriter} {checksum : Bytes} (hopen : w.checksum = none)
    (h : w.finishPack = (.ok checksum, w')) :
    w'.sink.octets = w.sink.octets ++ w.closing.flatten ++ checksum
      ∧ checksum = Checksum.Blake3.hash (w.hashed ++ w.closing.flatten) := by
  rw [finishPack, hopen] at h
  dsimp only at h
  split at h
  · cases h
  · rename_i w₁ hclosing
    replace hclosing := emitAll_ok hclosing
    rw [Sink.write] at h
    by_cases hfail : w₁.sink.failAt = some (w₁.sink.attempts + 1)
    · rw [if_pos hfail] at h
      cases h
    · rw [if_neg hfail] at h
      cases h
      rw [← octets_emitted, ← hashed_emitted, ← hclosing]
      refine ⟨?_, rfl⟩
      show (Checksum.Blake3.hash _ :: w₁.sink.newest).reverse.flatten = _
      rw [List.reverse_cons, List.flatten_append, List.flatten_singleton]
      rfl

theorem append_closing (w : PackWriter) (contents : List PackedEvent) :
    Pack.header ++ Record.encodeAll w.compressor (contents.map fun e => (.event, Codecs.event.write e))
        ++ w.closing.flatten
      = Pack.header
        ++ Record.encodeAll w.compressor (contents.map (fun e => (.event, Codecs.event.write e))
          ++ [(.idTable, Codecs.table.write w.table), (.metadata, Codecs.metadata.write w.metadata)])
        ++ Pack.trailerMagic := by
  simp [closing, Record.encodeAll]

/-- what a finished pack consists of -/
theorem finishPack_ok {w w' : PackWriter} {contents : List PackedEvent} {checksum : Bytes}
    (hw : w.Holds contents) (h : w.finishPack = (.ok checksum, w')) :
    w'.sink.octets = Pack.header
        ++ Record.encodeAll w.compressor (contents.map (fun e => (.event, Codecs.event.write e))
          ++ [(.idTable, Codecs.table.write w.table), (.metadata, Codecs.metadata.write w.metadata)])
        ++ Pack.trailerMagic ++ checksum
      ∧ checksum = Checksum.Blake3.hash (Pack.header
        ++ Record.encodeAll w.compressor (contents.map (fun e => (.event, Codecs.event.write e))
          ++ [(.idTable, Codecs.table.write w.table), (.metadata, Codecs.metadata.write w.metadata)])
        ++ Pack.trailerMagic) := by
  obtain ⟨hoctets, hchecksum⟩ := finishPack_octets hw.unfinished h
  rw [hw.hashed, hw.octets, append_closing] at hchecksum
  rw [hw.octets, append_closing] at hoctets
  exact ⟨hoctets, hchecksum⟩

theorem length_finishPack {w w' : PackWriter} {checksum : Bytes} (hopen : w.checksum = none)
    (h : w.finishPack = (.ok checksum, w')) :
    w'.sink.octets.length = w.sink.octets.length + w.closing.flatten.length + 32 := by
  obtain ⟨hoctets, hchecksum⟩ := finishPack_octets hopen h
  have hlength : checksum.length = 32 := hchecksum ▸ Checksum.Blake3.length_hash _
  rw [hoctets, List.length_append, List.length_append, hlength]

end PackWriter

/-! ## opening -/

namespace Pack

theorem length_magic : magic.length = 4 := rfl
theorem length_trailerMagic : trailerMagic.length = 4 := rfl

theorem length_header : header.length = headerLength := rfl

/-- **The parts of a pack**, if its checksum is right. -/
theorem layout_eq (body : Bytes) {checksum : Bytes} (hchecksum : checksum.length = checksumLength) :
    layout (header ++ body ++ trailerMagic ++ checksum)
      = if Checksum.Blake3.hash (header ++ body ++ trailerMagic) ≠ checksum
        then .error .checksumMismatch else .ok ⟨body, checksum⟩ := by
  have hheader : headerLength = 8 := rfl
  have htrailer : trailerLength = 4 + checksumLength := rfl
  have hlength : (header ++ body ++ trailerMagic ++ checksum).length
      = headerLength + body.length + 4 + checksumLength := by
    simp only [List.length_append, length_header, length_trailerMagic, hchecksum]
  have htrailerAt : headerLength + body.length + 4 + checksumLength - trailerLength
      = (header ++ body).length := by
    rw [List.length_append, length_header]
    omega
  have hchecksumAt : headerLength + body.length + 4 + checksumLength - checksumLength
      = (header ++ body ++ trailerMagic).length := by
    simp only [List.length_append, length_header, length_trailerMagic]
    omega
  have hdata : header ++ body ++ trailerMagic ++ checksum
      = magic ++ (Bytes.ofNatBE versionWidth version ++ (body ++ trailerMagic ++ checksum)) := by
    simp only [header, List.append_assoc]
  have hmagic : (header ++ body ++ trailerMagic ++ checksum).take 4 = magic := by
    rw [hdata, List.take_left' length_magic]
  have hversion : Bytes.toNatBE (((header ++ body ++ trailerMagic ++ checksum).drop 4).take
      versionWidth) = version := by
    rw [hdata, List.drop_left' length_magic, List.take_left' (Bytes.length_ofNatBE _ _)]
    rfl
  have hbefore : (header ++ body ++ trailerMagic ++ checksum).take (header ++ body).length
      = header ++ body := by
    rw [List.append_assoc _ trailerMagic, List.take_left]
  have hend : ((header ++ body ++ trailerMagic ++ checksum).drop (header ++ body).length).take 4
      = trailerMagic := by
    rw [List.append_assoc _ trailerMagic, List.drop_left, List.take_left' length_trailerMagic]
  unfold layout
  dsimp only
  rw [hlength, if_neg (by omega), hmagic, if_neg (fun hne => hne rfl), hversion,
    if_neg (fun hne => hne rfl), htrailerAt, hend, if_neg (fun hne => hne rfl), hchecksumAt,
    List.take_left, List.drop_left, hbefore, List.drop_left' length_header]

end Pack

namespace PackReader

theorem addRecords_append (r : PackReader) (first second : List Pack.Record) :
    r.addRecords (first ++ second)
      = match r.addRecords first with
        | .ok r => r.addRecords second
        | .error e => .error e := by
  induction first generalizing r with
  | nil => rfl
  | cons record rest ih =>
    rw [List.cons_append, addRecords, addRecords]
    cases r.addRecord record with
    | error e => rfl
    | ok r => exact ih r

theorem addRecords_events (r : PackReader) {records : List Pack.Record}
    (h : ∀ record ∈ records, record.kind = .event) :
    r.addRecords records = .ok { r with events := r.events ++ records } := by
  induction records generalizing r with
  | nil => simp [addRecords]
  | cons record rest ih =>
    have hkind := h record List.mem_cons_self
    rw [addRecords, addRecord, hkind]
    dsimp only
    rw [ih _ fun record' hmem => h record' (List.mem_cons_of_mem _ hmem)]
    simp

theorem addRecord_table (r : PackReader) (z : Zstd.Compressor) (offset : Nat) {t : PackedTable}
    (h : (Codecs.table.write t).length < Binary.Codec.limit) :
    r.addRecord (Record.made z offset .idTable (Codecs.table.write t)) = .ok { r with table := t } := by
  have hkind : (Record.made z offset .idTable (Codecs.table.write t)).kind = .idTable := rfl
  rw [addRecord, hkind]
  dsimp only
  rw [Record.decode_made z Codecs.faithful_table _ _ h]

theorem addRecord_metadata (r : PackReader) (z : Zstd.Compressor) (offset : Nat) {m : Metadata}
    (h : (Codecs.metadata.write m).length < Binary.Codec.limit) :
    r.addRecord (Record.made z offset .metadata (Codecs.metadata.write m))
      = .ok { r with metadata := r.metadata.union m } := by
  have hkind : (Record.made z offset .metadata (Codecs.metadata.write m)).kind = .metadata := rfl
  rw [addRecord, hkind]
  dsimp only
  rw [Record.decode_made z Codecs.faithful_metadata _ _ h]

/-- the reader of what a writer holds -/
def written (w : PackWriter) (contents : List PackedEvent) (checksum : Bytes) : PackReader :=
  { events := Record.row w.compressor headerLength
      (contents.map fun e => (.event, Codecs.event.write e))
    table := w.table
    metadata := w.metadata
    checksum }

/-- **The octets of a pack are opened with the table, the texts and the events that they were made
of**, if their checksum is right, and no event is too long to be counted. -/
theorem ofBytes_octets {w : PackWriter} {contents : List PackedEvent} {octets checksum : Bytes}
    (hoctets : octets = Pack.header
      ++ Record.encodeAll w.compressor (contents.map (fun e => (.event, Codecs.event.write e))
        ++ [(.idTable, Codecs.table.write w.table), (.metadata, Codecs.metadata.write w.metadata)])
      ++ Pack.trailerMagic ++ checksum)
    (hchecksum : checksum.length = checksumLength) (hlength : octets.length < 0x10000000000000000) :
    (∀ r, ofBytes octets = .ok r → r = written w contents checksum)
      ∧ (checksum = Checksum.Blake3.hash (Pack.header
          ++ Record.encodeAll w.compressor (contents.map (fun e => (.event, Codecs.event.write e))
            ++ [(.idTable, Codecs.table.write w.table),
              (.metadata, Codecs.metadata.write w.metadata)])
          ++ Pack.trailerMagic) →
        ofBytes octets = .ok (written w contents checksum))
      ∧ ∀ e ∈ contents, (Codecs.event.write e).length < Binary.Codec.limit := by
  rw [written]
  generalize hevents : contents.map (fun e => (RecordKind.event, Codecs.event.write e)) = events
    at hoctets ⊢
  generalize hclosing : [(RecordKind.idTable, Codecs.table.write w.table),
    (RecordKind.metadata, Codecs.metadata.write w.metadata)] = closing at hoctets ⊢
  have hbody : (Record.encodeAll w.compressor (events ++ closing)).length < 0x10000000000000000 := by
    rw [hoctets] at hlength
    simp only [List.length_append] at hlength
    omega
  -- no part is too long to be counted, so every count in it can be read back
  have hshort : ∀ c ∈ events ++ closing, c.2.length < Binary.Codec.limit := fun c hc =>
    Record.counted_of_mem w.compressor hc hbody
  have htable : (Codecs.table.write w.table).length < Binary.Codec.limit :=
    hshort (RecordKind.idTable, Codecs.table.write w.table) (by rw [← hclosing]; simp)
  have hmetadata : (Codecs.metadata.write w.metadata).length < Binary.Codec.limit :=
    hshort (RecordKind.metadata, Codecs.metadata.write w.metadata) (by rw [← hclosing]; simp)
  have hkinds : ∀ record ∈ Record.row w.compressor headerLength events, record.kind = .event := by
    refine Record.kind_of_mem_row w.compressor fun c hc => ?_
    rw [← hevents] at hc
    obtain ⟨e, -, rfl⟩ := List.mem_map.mp hc
    rfl
  have hopened : ofBytes octets
      = if Checksum.Blake3.hash (Pack.header ++ Record.encodeAll w.compressor (events ++ closing)
          ++ Pack.trailerMagic) ≠ checksum
        then .error .checksumMismatch
        else .ok {
          events := Record.row w.compressor headerLength events
          table := w.table
          metadata := w.metadata
          checksum } := by
    rw [ofBytes, hoctets, layout_eq _ hchecksum]
    by_cases hsame : Checksum.Blake3.hash (Pack.header
      ++ Record.encodeAll w.compressor (events ++ closing) ++ Pack.trailerMagic) ≠ checksum
    · rw [if_pos hsame, if_pos hsame]
    · rw [if_neg hsame, if_neg hsame]
      dsimp only
      rw [Record.split_encodeAll w.compressor headerLength hbody]
      dsimp only
      rw [Record.row_append, addRecords_append, addRecords_events _ hkinds, ← hclosing]
      dsimp only
      rw [Record.row, addRecords, addRecord_table _ _ _ htable]
      dsimp only
      rw [Record.row, addRecords, addRecord_metadata _ _ _ hmetadata]
      dsimp only
      rw [Record.row, addRecords, NameMap.empty_union, List.nil_append]
  refine ⟨fun r hr => ?_, fun hsame => ?_, fun e he => ?_⟩
  · rw [hopened] at hr
    split at hr
    · cases hr
    · exact (Except.ok.inj hr).symm
  · rw [hopened, ← hsame, if_neg (fun hne => hne rfl)]
  · refine hshort (RecordKind.event, Codecs.event.write e) (List.mem_append_left _ ?_)
    rw [← hevents]
    exact List.mem_map_of_mem he

/-- **A finished pack is opened with the table, the texts and the events it was written with**, and
no event is too long to be counted. -/
theorem ofBytes_written {w w' : PackWriter} {contents : List PackedEvent} {checksum : Bytes}
    (hw : w.Holds contents) (h : w.finishPack = (.ok checksum, w'))
    (hlength : w'.sink.octets.length < 0x10000000000000000) :
    ofBytes w'.sink.octets = .ok (written w contents checksum)
      ∧ ∀ e ∈ contents, (Codecs.event.write e).length < Binary.Codec.limit := by
  obtain ⟨hoctets, hchecksum⟩ := PackWriter.finishPack_ok hw h
  obtain ⟨-, hopened, hshort⟩ :=
    ofBytes_octets hoctets (hchecksum ▸ Checksum.Blake3.length_hash _) hlength
  exact ⟨hopened hchecksum, hshort⟩

/-- the handle of an event that a writer holds -/
def handleFor (content : PackedEvent) : Handle := .packed ⟨fun _ => .ok content⟩

theorem decoder_handleFor (content : PackedEvent) (index : LocalIndex) :
    decoder (handleFor content) index = PackHandle.pick index (.ok content) := rfl

/-- **A store is fed from a finished pack what was written to it.** -/
theorem ofBytes_finished {w w' : PackWriter} {contents : List PackedEvent} {checksum : Bytes}
    (hw : w.Holds contents) (h : w.finishPack = (.ok checksum, w'))
    (hlength : w'.sink.octets.length < 0x10000000000000000) (label : String) :
    ∃ r, ofBytes w'.sink.octets = .ok r ∧ r.table = w.table ∧ r.metadata = w.metadata
      ∧ r.feed label = ⟨label, Feed.indexed w.table.collections, decoder,
          contents.map fun content => .event (handleFor content)⟩ := by
  obtain ⟨hopened, hcontents⟩ := ofBytes_written hw h hlength
  have hdecode := Record.map_decode_row w.compressor Codecs.faithful_event .event headerLength hcontents
  have hscript : contents.map (fun content => Pull.event (handleFor content))
      = (contents.map Except.ok).map fun result => Pull.event (.packed ⟨fun _ => result⟩) := by
    rw [List.map_map]
    rfl
  refine ⟨_, hopened, rfl, rfl, ?_⟩
  rw [hscript, ← hdecode, List.map_map]
  rfl

end PackReader

end EventMerge
