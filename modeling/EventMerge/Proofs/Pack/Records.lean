import EventMerge.Pack.Event
import EventMerge.Proofs.Binary.Codec
import EventMerge.Proofs.Pack.Varint

/-!
# Records of a pack, written and read back

A record that is written is read back from the start of a byte string, with what follows it; so rows
of records are split again into the records they were made of, and each gives back its content.

* `Frame.read_encode`       one frame;
* `Record.split_encodeAll`  a row of records;
* `Record.decode_made`      the value that a record was made of;
* `Codecs.faithful_event`, `Codecs.faithful_table`, `Codecs.faithful_metadata`.
-/

namespace EventMerge.Pack

open Binary (Codec)

/-! ## frames -/

namespace Frame

theorem length_crc (packed : Bytes) : (crc packed).length = crcWidth := Bytes.length_ofNatBE _ _

theorem readBody_encode (kind : RecordKind) (rawLength : Nat) (packed rest : Bytes) :
    readBody kind rawLength packed.length (crc packed ++ (packed ++ rest))
      = .ok (⟨kind, rawLength, packed⟩, rest) := by
  have hdrop : (crc packed ++ (packed ++ rest)).drop crcWidth = packed ++ rest := by
    rw [← length_crc packed, List.drop_left]
  have htake : (crc packed ++ (packed ++ rest)).take crcWidth = crc packed := by
    rw [← length_crc packed, List.take_left]
  have hlong : ¬ (crc packed ++ (packed ++ rest)).length < crcWidth := by
    rw [List.length_append, length_crc]
    omega
  have hbody : ¬ (packed ++ rest).length < packed.length := by
    rw [List.length_append]
    omega
  unfold readBody
  dsimp only
  rw [hdrop, htake, if_neg hlong, if_neg hbody, List.take_left, List.drop_left, if_neg fun h => h rfl]

/-- **A frame is read back from the start of a byte string.** -/
theorem read_encode {f : Frame} (hraw : f.rawLength < 0x10000000000000000)
    (hpacked : f.packed.length < 0x10000000000000000) (rest : Bytes) :
    read (encode f ++ rest) = .ok (f, rest) := by
  have hencode : encode f ++ rest = f.kind.tag :: (Varint.encode f.rawLength
      ++ (Varint.encode f.packed.length ++ (crc f.packed ++ (f.packed ++ rest)))) := by
    simp [encode, List.append_assoc]
  rw [hencode, read, RecordKind.ofTag?_tag]
  dsimp only
  rw [Varint.decode?_encode hraw]
  dsimp only
  rw [Varint.decode?_encode hpacked]
  exact readBody_encode f.kind f.rawLength f.packed rest

theorem length_packed_le (f : Frame) : f.packed.length ≤ (encode f).length := by
  rw [encode, List.length_append]
  omega

end Frame

/-! ## records -/

namespace Record

variable (z : Zstd.Compressor)

/-- the record of a kind with a content, as it is read back from an offset -/
def made (offset : Nat) (kind : RecordKind) (content : Bytes) : Record :=
  ⟨kind, offset, content.length, z.compress content⟩

/-- the records of contents that follow each other from an offset on -/
def row (offset : Nat) : List (RecordKind × Bytes) → List Record
  | [] => []
  | (kind, content) :: rest =>
    made z offset kind content :: row (offset + (encode z kind content).length) rest

theorem content_made (offset : Nat) (kind : RecordKind) {bytes : Bytes}
    (h : bytes.length < 0x10000000000000000) : (made z offset kind bytes).content = .ok bytes := by
  have hpacked : Zstd.decode? (made z offset kind bytes).packed = some bytes :=
    z.decode?_compress bytes h
  rw [content, hpacked]
  exact if_pos rfl

theorem decode_made {α : Type} {codec : Codec α} (hcodec : codec.Faithful) (offset : Nat)
    (kind : RecordKind) {a : α} (h : (codec.write a).length < Codec.limit) :
    (made z offset kind (codec.write a)).decode codec = .ok a := by
  rw [decode, content_made z offset kind h]
  dsimp only
  rw [hcodec.decode? h]

/-- the content of a record whose octets can be counted can be counted itself -/
theorem counted_content {kind : RecordKind} {content : Bytes}
    (h : (encode z kind content).length < 0x10000000000000000) :
    content.length < 0x10000000000000000 :=
  z.counted content
    (Nat.lt_of_le_of_lt (Frame.length_packed_le ⟨kind, content.length, z.compress content⟩) h)

/-- the octets of records, one after the other -/
def encodeAll (contents : List (RecordKind × Bytes)) : Bytes :=
  contents.flatMap fun c => encode z c.1 c.2

/-- **Records that follow each other are split again.** -/
theorem split_encodeAll (offset : Nat) {contents : List (RecordKind × Bytes)}
    (h : (encodeAll z contents).length < 0x10000000000000000) :
    split offset (encodeAll z contents) = .ok (row z offset contents) := by
  induction contents generalizing offset with
  | nil =>
    rw [split]
    rfl
  | cons first rest ih =>
    obtain ⟨kind, content⟩ := first
    have hall : encodeAll z ((kind, content) :: rest)
        = encode z kind content ++ encodeAll z rest := rfl
    rw [hall, List.length_append] at h
    have hfirst : (encode z kind content).length < 0x10000000000000000 := by omega
    have hpacked := Frame.length_packed_le ⟨kind, content.length, z.compress content⟩
    have hframe := Frame.read_encode (f := ⟨kind, content.length, z.compress content⟩)
      (counted_content z hfirst) (Nat.lt_of_le_of_lt hpacked hfirst) (encodeAll z rest)
    have hnonempty : (encodeAll z ((kind, content) :: rest)).isEmpty = false := rfl
    rw [split, hnonempty, if_neg Bool.false_ne_true, hall]
    split
    · rename_i e herror
      rw [encode, hframe] at herror
      cases herror
    · rename_i f after hok
      rw [encode, hframe] at hok
      cases hok
      have hwidth : (encode z kind content ++ encodeAll z rest).length - (encodeAll z rest).length
          = (encode z kind content).length := by
        rw [List.length_append, Nat.add_sub_cancel]
      rw [hwidth, ih _ (by omega)]
      rfl

theorem encodeAll_append (first second : List (RecordKind × Bytes)) :
    encodeAll z (first ++ second) = encodeAll z first ++ encodeAll z second := List.flatMap_append

theorem row_append (offset : Nat) (first second : List (RecordKind × Bytes)) :
    row z offset (first ++ second)
      = row z offset first ++ row z (offset + (encodeAll z first).length) second := by
  induction first generalizing offset with
  | nil => rfl
  | cons c rest ih =>
    obtain ⟨kind, content⟩ := c
    have hall : encodeAll z ((kind, content) :: rest)
        = encode z kind content ++ encodeAll z rest := rfl
    rw [List.cons_append, row, row, ih, hall, List.length_append, Nat.add_assoc]
    rfl

theorem counted_of_mem {contents : List (RecordKind × Bytes)} {c : RecordKind × Bytes}
    (hmem : c ∈ contents) (h : (encodeAll z contents).length < 0x10000000000000000) :
    c.2.length < 0x10000000000000000 := by
  obtain ⟨before, after, rfl⟩ := List.append_of_mem hmem
  have hall : encodeAll z (c :: after) = encode z c.1 c.2 ++ encodeAll z after := rfl
  rw [encodeAll_append, hall, List.length_append, List.length_append] at h
  have hencoded : (encode z c.1 c.2).length < 0x10000000000000000 := by omega
  exact counted_content z hencoded

theorem kind_of_mem_row {offset : Nat} {contents : List (RecordKind × Bytes)} {kind : RecordKind}
    (h : ∀ c ∈ contents, c.1 = kind) : ∀ record ∈ row z offset contents, record.kind = kind := by
  induction contents generalizing offset with
  | nil => exact fun _ hmem => nomatch hmem
  | cons c rest ih =>
    intro record hmem
    rcases List.mem_cons.mp hmem with rfl | hmem
    · exact h c List.mem_cons_self
    · exact ih (fun c' hc' => h c' (List.mem_cons_of_mem _ hc')) record hmem

theorem map_decode_row {α : Type} {codec : Codec α} (hcodec : codec.Faithful) (kind : RecordKind)
    (offset : Nat) {values : List α} (h : ∀ a ∈ values, (codec.write a).length < Codec.limit) :
    (row z offset (values.map fun a => (kind, codec.write a))).map (decode codec)
      = values.map .ok := by
  induction values generalizing offset with
  | nil => rfl
  | cons a rest ih =>
    rw [List.map_cons, row, List.map_cons, decode_made z hcodec _ _ (h a List.mem_cons_self),
      ih _ fun a' hmem => h a' (List.mem_cons_of_mem _ hmem), List.map_cons]

end Record

/-! ## what the records hold -/

namespace Codecs

theorem faithful_word : word.Faithful where
  read n rest h := by
    have hread : (Codec.number 4).read? ((Codec.number 4).write n.toNat ++ rest)
        = some (n.toNat, rest) := Codec.read?_write_number n.toNat_lt rest
    rw [word, Codec.read?_via, Codec.write_via, hread, Option.map_some, UInt32.ofNat_toNat]
  pos n := by
    rw [word, Codec.write_via, Codec.Faithful.length_write_number]
    decide

theorem faithful_index : index.Faithful := faithful_word.via fun _ => rfl

theorem faithful_source : source.Faithful := faithful_word.via fun _ => rfl

theorem faithful_member : member.Faithful :=
  (Codec.Faithful.text.pair Codec.Faithful.octets).via fun _ => rfl

theorem faithful_buffers : buffers.Faithful :=
  (Codec.Faithful.octets.option.pair (Codec.Faithful.octets.list.option.pair
    (faithful_member.list.option.pair faithful_word.option))).via fun _ => rfl

theorem faithful_event : event.Faithful :=
  ((faithful_index.pair faithful_buffers).via fun _ => rfl : entry.Faithful).list.via fun _ => rfl

theorem faithful_identityTable : identityTable.Faithful :=
  (faithful_source.pair faithful_index.map).list.via fun _ => rfl

theorem faithful_table : table.Faithful :=
  (Codec.Faithful.text.list.pair faithful_identityTable.option).via fun _ => rfl

theorem faithful_metadata : metadata.Faithful := Codec.Faithful.text.map

end Codecs

end EventMerge.Pack
