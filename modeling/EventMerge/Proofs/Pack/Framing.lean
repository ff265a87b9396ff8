import EventMerge.Proofs.Pack.Records

/-!
# Splitting octets into records

A byte string is split into records exactly if it consists of frames, one behind the other and with
nothing in between.  Otherwise the error names the first place where no frame starts, and all in
front of that place are frames.

* `Frame.Spelling`          the octets of a frame, whose lengths can be written in several ways;
* `Frame.read_eq_ok_iff`    a frame is read exactly if its octets are in front;
* `Tiles`, `recordsAt`      a byte string of frames, and its records;
* `Record.split_tiles`      splitting goes through the frames in front;
* `exists_tiles`            every byte string is frames up to the place where none starts;
* `Record.split_exact`      what is split, and where the error is otherwise.
-/

namespace EventMerge

namespace Bytes

theorem ofNatLE_toNatLE (bytes : Bytes) : ofNatLE bytes.length (toNatLE bytes) = bytes := by
  induction bytes with
  | nil => rfl
  | cons b rest ih =>
    have hb : b.toNat < 256 := b.toNat_lt
    have hrest : (b.toNat + 256 * toNatLE rest) / 256 = toNatLE rest := by omega
    have hfirst : UInt8.ofNat (b.toNat + 256 * toNatLE rest) = b := by
      refine UInt8.toNat_inj.mp ?_
      rw [UInt8.toNat_ofNat']
      omega
    rw [List.length_cons, toNatLE_cons, ofNatLE_succ, hrest, hfirst, ih]

theorem ofNatBE_toNatBE (bytes : Bytes) : ofNatBE bytes.length (toNatBE bytes) = bytes := by
  rw [ofNatBE, toNatBE, ← List.length_reverse, ofNatLE_toNatLE, List.reverse_reverse]

end Bytes

namespace Pack

/-! ## frames -/

namespace Frame

/-- The octets of a frame: the tag of its kind, two numbers that are read as the length of its
content and the length of its payload, the check of the payload as a number of four octets, and the
payload. -/
def Spelling (f : Frame) (octets : Bytes) : Prop :=
  ∃ rawLength packedLength check : Bytes,
    octets = f.kind.tag :: (rawLength ++ (packedLength ++ (check ++ f.packed)))
      ∧ Varint.decode? rawLength = some (f.rawLength, [])
      ∧ Varint.decode? packedLength = some (f.packed.length, [])
      ∧ check.length = crcWidth ∧ Bytes.toNatBE check = (Checksum.Crc32.hash f.packed).toNat

theorem eq_crc_iff {check packed : Bytes} (h : check.length = crcWidth) :
    check = crc packed ↔ Bytes.toNatBE check = (Checksum.Crc32.hash packed).toNat := by
  constructor
  · rintro rfl
    rw [crc, Bytes.toNatBE_ofNatBE]
    exact Nat.mod_eq_of_lt (Checksum.Crc32.hash packed).toNat_lt
  · intro hnumber
    rw [crc, ← hnumber, ← h, Bytes.ofNatBE_toNatBE]

theorem readBody_eq_ok_iff {kind : RecordKind} {rawLength packedLength : Nat} {bytes rest : Bytes}
    {f : Frame} :
    readBody kind rawLength packedLength bytes = .ok (f, rest)
      ↔ ∃ check packed, bytes = check ++ (packed ++ rest) ∧ f = ⟨kind, rawLength, packed⟩
        ∧ packed.length = packedLength ∧ check.length = crcWidth ∧ check = crc packed := by
  constructor
  · intro h
    unfold readBody at h
    dsimp only at h
    split at h
    · cases h
    · rename_i hcheck
      split at h
      · cases h
      · rename_i hpacked
        split at h
        · cases h
        · rename_i hcrc
          cases h
          refine ⟨bytes.take crcWidth, (bytes.drop crcWidth).take packedLength, ?_, rfl, ?_, ?_,
            (Decidable.not_not.mp hcrc).symm⟩
          · rw [List.take_append_drop, List.take_append_drop]
          · rw [List.length_take]
            omega
          · rw [List.length_take]
            omega
  · rintro ⟨check, packed, rfl, rfl, rfl, -, rfl⟩
    exact readBody_encode kind rawLength packed rest

/-- **A frame is read exactly if its octets are in front**, and what is behind them is left. -/
theorem read_eq_ok_iff {bytes rest : Bytes} {f : Frame} :
    read bytes = .ok (f, rest) ↔ ∃ octets, bytes = octets ++ rest ∧ f.Spelling octets := by
  constructor
  · intro h
    cases bytes with
    | nil => cases h
    | cons tag tail =>
      rw [read] at h
      split at h
      · cases h
      · rename_i kind hkind
        split at h
        · cases h
        · rename_i hraw
          split at h
          · cases h
          · rename_i hpacked
            obtain ⟨check, packed, rfl, rfl, rfl, hwidth, hcheck⟩ := readBody_eq_ok_iff.mp h
            obtain ⟨packedLength, rfl, hpackedLength⟩ := Varint.decode?_eq_some_iff.mp hpacked
            obtain ⟨rawLength, rfl, hrawLength⟩ := Varint.decode?_eq_some_iff.mp hraw
            refine ⟨tag :: (rawLength ++ (packedLength ++ (check ++ packed))), ?_, rawLength,
              packedLength, check, ?_, hrawLength, hpackedLength, hwidth,
              (eq_crc_iff hwidth).mp hcheck⟩
            · simp only [List.cons_append, List.append_assoc]
            · rw [RecordKind.tag_of_ofTag? hkind]
  · rintro ⟨octets, rfl, rawLength, packedLength, check, rfl, hraw, hpacked, hwidth, hcheck⟩
    have hbytes : f.kind.tag :: (rawLength ++ (packedLength ++ (check ++ f.packed))) ++ rest
        = f.kind.tag :: (rawLength ++ (packedLength ++ (check ++ (f.packed ++ rest)))) := by
      simp only [List.cons_append, List.append_assoc]
    rw [hbytes, read, RecordKind.ofTag?_tag]
    dsimp only
    rw [Varint.decode?_eq_some_iff.mpr ⟨rawLength, rfl, hraw⟩]
    dsimp only
    rw [Varint.decode?_eq_some_iff.mpr ⟨packedLength, rfl, hpacked⟩]
    exact readBody_eq_ok_iff.mpr
      ⟨check, f.packed, rfl, rfl, rfl, hwidth, (eq_crc_iff hwidth).mpr hcheck⟩

theorem spelling_encode {f : Frame} (hraw : f.rawLength < 0x10000000000000000)
    (hpacked : f.packed.length < 0x10000000000000000) : f.Spelling f.encode := by
  obtain ⟨octets, hoctets, hspelling⟩ := read_eq_ok_iff.mp (read_encode hraw hpacked [])
  rw [List.append_nil, List.append_nil] at hoctets
  rwa [hoctets]

theorem Spelling.ne_nil {f : Frame} {octets : Bytes} (h : f.Spelling octets) : octets ≠ [] := by
  obtain ⟨rawLength, packedLength, check, rfl, -⟩ := h
  exact List.cons_ne_nil _ _

/-- no frame starts a byte string -/
def Unframed (octets : Bytes) : Prop :=
  ∀ (f : Frame) (first rest : Bytes), octets = first ++ rest → ¬ f.Spelling first

theorem unframed_of_error {octets : Bytes} {e : FrameError} (h : read octets = .error e) :
    Unframed octets := by
  intro f first rest hoctets hfirst
  rw [read_eq_ok_iff.mpr ⟨first, hoctets, hfirst⟩] at h
  cases h

theorem ne_emptyRecord_of_readBody {kind : RecordKind} {rawLength packedLength : Nat}
    {bytes : Bytes} {e : FrameError} (h : readBody kind rawLength packedLength bytes = .error e) :
    e ≠ .malformed .emptyRecord := by
  rintro rfl
  unfold readBody at h
  dsimp only at h
  split at h
  · cases h
  · split at h
    · cases h
    · split at h
      · cases h
      · cases h

/-- only nothing at all is an empty record -/
theorem ne_emptyRecord_of_read {octets : Bytes} {e : FrameError} (hoctets : octets ≠ [])
    (h : read octets = .error e) : e ≠ .malformed .emptyRecord := by
  rintro rfl
  cases octets with
  | nil => exact hoctets rfl
  | cons tag tail =>
    rw [read] at h
    split at h
    · cases h
    · split at h
      · cases h
      · split at h
        · cases h
        · exact ne_emptyRecord_of_readBody h rfl

end Frame

/-! ## rows of frames -/

/-- a byte string consists of frames, each with its octets, one behind the other -/
def Tiles (parts : List (Frame × Bytes)) (octets : Bytes) : Prop :=
  (∀ part ∈ parts, part.1.Spelling part.2) ∧ octets = parts.flatMap Prod.snd

/-- the records of frames of which the first starts at an offset, each under the offset behind all
that is in front of it -/
def recordsAt (offset : Nat) (parts : List (Frame × Bytes)) : List Record :=
  parts.mapIdx fun i part =>
    .ofFrame (offset + ((parts.take i).flatMap Prod.snd).length) part.1

theorem tiles_nil : Tiles [] [] := ⟨fun _ => (nomatch ·), rfl⟩

theorem Tiles.cons {f : Frame} {first octets : Bytes} {parts : List (Frame × Bytes)}
    (hfirst : f.Spelling first) (h : Tiles parts octets) :
    Tiles ((f, first) :: parts) (first ++ octets) := by
  obtain ⟨hparts, rfl⟩ := h
  exact ⟨List.forall_mem_cons.mpr ⟨hfirst, hparts⟩, rfl⟩

theorem tiles_encode {frames : List Frame} (h : ∀ f ∈ frames,
    f.rawLength < 0x10000000000000000 ∧ f.packed.length < 0x10000000000000000) :
    Tiles (frames.map fun f => (f, f.encode)) (frames.flatMap Frame.encode) := by
  refine ⟨fun part hpart => ?_, by rw [List.flatMap_map]⟩
  obtain ⟨f, hf, rfl⟩ := List.mem_map.mp hpart
  exact Frame.spelling_encode (h f hf).1 (h f hf).2

theorem recordsAt_cons (offset : Nat) (f : Frame) (first : Bytes) (parts : List (Frame × Bytes)) :
    recordsAt offset ((f, first) :: parts)
      = .ofFrame offset f :: recordsAt (offset + first.length) parts := by
  rw [recordsAt, List.mapIdx_cons, recordsAt]
  congr 2
  funext i part
  rw [List.take_succ_cons, List.flatMap_cons, List.length_append, Nat.add_assoc]

namespace Record

theorem split_nil (offset : Nat) : split offset [] = .ok [] := by
  rw [split]
  rfl

theorem split_of_error {offset : Nat} {bytes : Bytes} {e : FrameError} (hbytes : bytes ≠ [])
    (h : Frame.read bytes = .error e) : split offset bytes = .error (e.toPackError offset) := by
  rw [split, if_neg fun hempty => hbytes (List.isEmpty_iff.mp hempty)]
  split
  · rename_i e' herror
    rw [h] at herror
    cases herror
    rfl
  · rename_i hok
    rw [h] at hok
    cases hok

theorem split_of_frame {f : Frame} {first : Bytes} (h : f.Spelling first) (offset : Nat)
    (rest : Bytes) :
    split offset (first ++ rest)
      = (split (offset + first.length) rest).map (ofFrame offset f :: ·) := by
  have hread : Frame.read (first ++ rest) = .ok (f, rest) :=
    Frame.read_eq_ok_iff.mpr ⟨first, rfl, h⟩
  have hnonempty : first ++ rest ≠ [] := fun hnil => h.ne_nil (List.append_eq_nil_iff.mp hnil).1
  rw [split, if_neg fun hempty => hnonempty (List.isEmpty_iff.mp hempty)]
  split
  · rename_i herror
    rw [hread] at herror
    cases herror
  · rename_i hok
    rw [hread] at hok
    cases hok
    have hwidth : (first ++ rest).length - rest.length = first.length := by
      rw [List.length_append, Nat.add_sub_cancel]
    rw [hwidth]
    cases split (offset + first.length) rest <;> rfl

/-- **Splitting goes through the frames in front**, and on with what is behind them. -/
theorem split_tiles {parts : List (Frame × Bytes)} {front : Bytes} (h : Tiles parts front)
    (offset : Nat) (rest : Bytes) :
    split offset (front ++ rest)
      = (split (offset + front.length) rest).map (recordsAt offset parts ++ ·) := by
  obtain ⟨hparts, rfl⟩ := h
  induction parts generalizing offset with
  | nil =>
    show split offset rest = (split offset rest).map ([] ++ ·)
    cases split offset rest <;> rfl
  | cons part parts ih =>
    obtain ⟨f, first⟩ := part
    obtain ⟨hfirst, hothers⟩ := List.forall_mem_cons.mp hparts
    rw [List.flatMap_cons, List.append_assoc, split_of_frame hfirst, ih _ hothers,
      List.length_append, Nat.add_assoc, recordsAt_cons]
    cases split (offset + (first.length + (parts.flatMap Prod.snd).length)) rest <;> rfl

end Record

/-- **Every byte string is frames up to its end, or up to a place where no frame starts.** -/
theorem exists_tiles (bytes : Bytes) :
    ∃ parts front rest, Tiles parts front ∧ bytes = front ++ rest
      ∧ (rest = [] ∨ rest ≠ [] ∧ ∃ e, Frame.read rest = .error e) := by
  -- on the length, as a frame takes at least one octet
  induction hlength : bytes.length using Nat.strongRecOn generalizing bytes with
  | ind length ih =>
    rcases Decidable.em (bytes = []) with rfl | hbytes
    · exact ⟨[], [], [], tiles_nil, rfl, .inl rfl⟩
    · cases hread : Frame.read bytes with
      | error e => exact ⟨[], [], bytes, tiles_nil, rfl, .inr ⟨hbytes, e, hread⟩⟩
      | ok result =>
        obtain ⟨f, tail⟩ := result
        have hshorter := Frame.length_read hread
        obtain ⟨first, rfl, hfirst⟩ := Frame.read_eq_ok_iff.mp hread
        obtain ⟨parts, front, rest, hparts, rfl, hend⟩ := ih _ (hlength ▸ hshorter) tail rfl
        exact ⟨(f, first) :: parts, first ++ front, rest, hparts.cons hfirst,
          (List.append_assoc ..).symm, hend⟩

namespace Record

/-- **Splitting is exact.**  The records of a byte string are those of the frames it consists of, and
it is split only if it consists of frames.  Otherwise the error is about the octets behind the frames
in front, under the offset where these end, and it is never that of an empty record.  Frames that are
written, whose lengths can be counted with 64 bits, are split again.  Every offset that is named is at
most `offset + body.length`, so it is the machine word of a reader while that is below `2 ^ 64`. -/
theorem split_exact (offset : Nat) (body : Bytes) :
    (∀ records, split offset body = .ok records
        ↔ ∃ parts, Tiles parts body ∧ records = recordsAt offset parts)
      ∧ (∀ error, split offset body = .error error
        ↔ ∃ parts front rest fault, Tiles parts front ∧ body = front ++ rest ∧ rest ≠ []
          ∧ Frame.Unframed rest ∧ Frame.read rest = .error fault
          ∧ fault ≠ .malformed .emptyRecord
          ∧ error = fault.toPackError (offset + front.length))
      ∧ ∀ frames : List Frame, (∀ f ∈ frames, f.rawLength < 0x10000000000000000
            ∧ f.packed.length < 0x10000000000000000) →
          split offset (frames.flatMap Frame.encode)
            = .ok (recordsAt offset (frames.map fun f => (f, f.encode))) := by
  have hframes : ∀ {parts octets}, Tiles parts octets →
      split offset octets = .ok (recordsAt offset parts) := by
    intro parts octets hparts
    have hsplit := split_tiles hparts offset []
    rw [split_nil, List.append_nil] at hsplit
    rw [hsplit]
    exact congrArg Except.ok (List.append_nil _)
  have hstops : ∀ {parts front rest fault}, Tiles parts front → rest ≠ [] →
      Frame.read rest = .error fault →
      split offset (front ++ rest) = .error (fault.toPackError (offset + front.length)) := by
    intro parts front rest fault hparts hrest hfault
    rw [split_tiles hparts, split_of_error hrest hfault]
    rfl
  obtain ⟨parts, front, rest, hparts, rfl, hend⟩ := exists_tiles body
  refine ⟨fun records => ⟨fun hok => ?_, ?_⟩, fun error => ⟨fun herror => ?_, ?_⟩,
    fun frames hlengths => hframes (tiles_encode hlengths)⟩
  · rcases hend with rfl | ⟨hrest, fault, hfault⟩
    · rw [List.append_nil] at hok ⊢
      rw [hframes hparts] at hok
      exact ⟨parts, hparts, (Except.ok.inj hok).symm⟩
    · rw [hstops hparts hrest hfault] at hok
      cases hok
  · rintro ⟨whole, hwhole, rfl⟩
    exact hframes hwhole
  · rcases hend with rfl | ⟨hrest, fault, hfault⟩
    · rw [List.append_nil, hframes hparts] at herror
      cases herror
    · rw [hstops hparts hrest hfault] at herror
      exact ⟨parts, front, rest, fault, hparts, rfl, hrest, Frame.unframed_of_error hfault, hfault,
        Frame.ne_emptyRecord_of_read hrest hfault, (Except.error.inj herror).symm⟩
  · rintro ⟨_, front', rest', fault, hparts', hbody, hrest, -, hfault, -, rfl⟩
    rw [hbody]
    exact hstops hparts' hrest hfault

/-- two frames, of which the second has no payload -/
def pairFrames : List Frame := [⟨.event, 5, [1, 2, 3]⟩, ⟨.metadata, 0, []⟩]

/-- two frames are split under their offsets; with a tag of no kind behind them the error is about
the octet behind the second -/
theorem split_exact_pair :
    split 8 (pairFrames.flatMap Frame.encode)
        = .ok [⟨.event, 8, 5, [1, 2, 3]⟩, ⟨.metadata, 18, 0, []⟩]
      ∧ split 8 (pairFrames.flatMap Frame.encode ++ [9, 0])
        = .error (.corruptRecord 25 (.unknownKind 9)) := by
  have hlengths : ∀ f ∈ pairFrames, f.rawLength < 0x10000000000000000
      ∧ f.packed.length < 0x10000000000000000 := by
    decide
  obtain ⟨-, -, hframes⟩ := split_exact 8 []
  obtain ⟨-, hstops, -⟩ := split_exact 8 (pairFrames.flatMap Frame.encode ++ [9, 0])
  have hrecords : recordsAt 8 (pairFrames.map fun f => (f, f.encode))
      = [⟨.event, 8, 5, [1, 2, 3]⟩, ⟨.metadata, 18, 0, []⟩] := by
    decide +kernel
  have hrest : Frame.read [9, 0] = .error (.malformed (.unknownKind 9)) := rfl
  refine ⟨(hframes pairFrames hlengths).trans (congrArg Except.ok hrecords), (hstops _).mpr ?_⟩
  exact ⟨_, _, [9, 0], _, tiles_encode hlengths, rfl, by decide, Frame.unframed_of_error hrest,
    hrest, by decide, by decide +kernel⟩

end Record

end Pack

end EventMerge
