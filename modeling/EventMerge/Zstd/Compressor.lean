import EventMerge.Zstd.Frame

/-!
# Compressors

A pack can be read again whatever has compressed it, as long as the decoder gives the contents back.
The frames of `Zstd.encode`, whose blocks are kept as they are, are one such compressor.

* `Zstd.Progress.append_append`  octets that are taken one after the other;
* `Zstd.blocks?_rawBlocks`       the blocks that are written give their content back;
* `Zstd.decode?_encode`          so does a whole frame;
* `Zstd.Compressor`              what a writer may compress its records with;
* `Zstd.Compressor.stored`       the one that keeps contents as they are;
* `Zstd.Compressor.ofInverse`    any function that the decoder inverts.
-/

namespace EventMerge.Zstd

/-! ## output -/

theorem toList_foldl_push (octets : Bytes) (output : Array UInt8) :
    (octets.foldl Array.push output).toList = output.toList ++ octets := by
  induction octets generalizing output with
  | nil => exact (List.append_nil _).symm
  | cons b rest ih =>
    rw [List.foldl_cons, ih, Array.toList_push, List.append_assoc]
    rfl

namespace Progress

theorem append_append (p : Progress) (a b : Bytes) :
    (p.append a).append b = p.append (a ++ b) := by
  rw [append, append, append, List.foldl_append]

theorem output_append (octets : Bytes) :
    (append {} octets).window.output.toList = octets :=
  toList_foldl_push octets #[]

end Progress

/-! ## blocks -/

/-- the header of the frames that are written -/
def plainHeader : Header := ⟨Header.maxBlock, none, false⟩

theorem read?_rawHeader (isLast : Bool) {size : Nat} (h : size ≤ Header.maxBlock) (rest : Bytes) :
    Block.read? (rawHeader isLast size ++ rest) = some (⟨isLast, .raw, size⟩, rest) := by
  have hmax : Header.maxBlock = 131072 := rfl
  have hlength : (rawHeader isLast size).length = 3 := Bytes.length_ofNatLE 3 _
  have htake : (rawHeader isLast size ++ rest).take 3 = rawHeader isLast size := by
    rw [← hlength, List.take_left]
  have hdrop : (rawHeader isLast size ++ rest).drop 3 = rest := by
    rw [← hlength, List.drop_left]
  have hshort : ¬ (rawHeader isLast size ++ rest).length < 3 := by
    rw [List.length_append, hlength]
    omega
  rw [Block.read?, if_neg hshort, htake, hdrop, rawHeader, Bytes.toNatLE_ofNatLE]
  have hpow : Nat.pow 256 3 = 16777216 := rfl
  dsimp only
  rw [hpow]
  cases isLast with
  | true =>
    have hn : (8 * size + 1) % 16777216 = 8 * size + 1 := Nat.mod_eq_of_lt (by omega)
    have hkind : (8 * size + 1) / 2 % 4 = 0 := by omega
    have hsize : (8 * size + 1) / 8 = size := by omega
    have hlast : (8 * size + 1) % 2 = 1 := by omega
    rw [if_pos rfl, hn, hkind, hsize, hlast]
    rfl
  | false =>
    have hn : (8 * size + 0) % 16777216 = 8 * size := Nat.mod_eq_of_lt (by omega)
    have hkind : 8 * size / 2 % 4 = 0 := by omega
    have hsize : 8 * size / 8 = size := by omega
    have hlast : 8 * size % 2 = 0 := by omega
    rw [if_neg Bool.false_ne_true, hn, hkind, hsize, hlast]
    rfl

theorem blocks?_raw (isLast : Bool) (p : Progress) {octets : Bytes}
    (h : octets.length ≤ Header.maxBlock) (rest : Bytes) :
    blocks? plainHeader p (rawHeader isLast octets.length ++ octets ++ rest)
      = if isLast then some (p.append octets, rest)
        else blocks? plainHeader (p.append octets) rest := by
  have hread := read?_rawHeader isLast h (octets ++ rest)
  rw [← List.append_assoc] at hread
  rw [blocks?]
  split
  · rename_i hnone
    rw [hread] at hnone
    cases hnone
  · rename_i b after hsome
    rw [hread] at hsome
    cases hsome
    have hfits : Block.fits plainHeader ⟨isLast, .raw, octets.length⟩ = true := decide_eq_true h
    have hwidth : Block.width ⟨isLast, .raw, octets.length⟩ = octets.length := rfl
    have hroom : ¬ ((!Block.fits plainHeader ⟨isLast, .raw, octets.length⟩) = true
        ∨ (octets ++ rest).length < Block.width ⟨isLast, .raw, octets.length⟩) := by
      rw [hfits, hwidth, List.length_append]
      simp
    rw [if_neg hroom, hwidth, List.take_left, List.drop_left]
    cases isLast <;> rfl

theorem blocks?_rawBlocks (p : Progress) (bytes rest : Bytes) :
    blocks? plainHeader p (rawBlocks bytes ++ rest) = some (p.append bytes, rest) := by
  fun_induction rawBlocks bytes generalizing p with
  | case1 bytes h => exact blocks?_raw true p h rest
  | case2 bytes h ih =>
    have hlength : (bytes.take Header.maxBlock).length = Header.maxBlock := by
      rw [List.length_take]
      omega
    have hblock := blocks?_raw false p (Nat.le_of_eq hlength)
      (rawBlocks (bytes.drop Header.maxBlock) ++ rest)
    rw [hlength] at hblock
    rw [List.append_assoc _ _ rest, hblock, if_neg Bool.false_ne_true, ih, Progress.append_append,
      List.take_append_drop]

/-! ## frames -/

theorem read?_plainHeader (rest : Bytes) :
    Header.read? (0 :: windowDescriptor :: rest) = some (plainHeader, rest) := by
  have hdictionary : Header.dictionaryWidth 0 = 0 := rfl
  have hcontent : Header.contentWidth 0 = 0 := rfl
  have hwindow : Header.windowOf 56 = 131072 := rfl
  simp [Header.read?, hdictionary, hcontent, hwindow, Bytes.toNatLE, plainHeader,
    windowDescriptor, Header.maxBlock, Header.maxWindowLog, Header.maxWindow]

/-- **A frame that is written gives its content back.** -/
theorem decode?_encode (bytes : Bytes) : decode? (encode bytes) = some bytes := by
  have hframe : frame? (encode bytes) = some (bytes, []) := by
    show content? (0 :: windowDescriptor :: rawBlocks bytes) = _
    have hblocks := blocks?_rawBlocks {} bytes []
    rw [List.append_nil] at hblocks
    rw [content?, read?_plainHeader]
    dsimp only
    rw [hblocks]
    show some ((Progress.append {} bytes).window.output.toList, ([] : Bytes)) = _
    rw [Progress.output_append]
  have hne : (encode bytes).isEmpty = false := rfl
  have hlength : (encode bytes).length = ((encode bytes).length - 1) + 1 := rfl
  rw [decode?, hne, if_neg Bool.false_ne_true, hlength]
  cases hencode : encode bytes with
  | nil => rw [hencode] at hne; cases hne
  | cons b rest =>
    rw [frames?, ← hencode, hframe]
    show (frames? _ []).map _ = _
    rw [frames?, Option.map_some, List.append_nil]
    exact fun h => nomatch h

theorem length_le_length_encode (bytes : Bytes) : bytes.length ≤ (encode bytes).length := by
  have hblocks : bytes.length ≤ (rawBlocks bytes).length := by
    fun_induction rawBlocks bytes with
    | case1 bytes h => rw [List.length_append]; omega
    | case2 bytes h ih =>
      rw [List.length_drop] at ih
      rw [List.length_append, List.length_append, List.length_take]
      omega
  rw [encode, List.length_append]
  omega

/-! ## compressors -/

/-- what compresses the records of a pack.  Of a content that is held in memory, the length can be
counted with 64 bits; only such a content need be given back, and only such a content is taken to a
length that can be counted.  A compressed content may well be shorter than the content. -/
structure Compressor where
  compress : Bytes → Bytes
  decode?_compress : ∀ content : Bytes, content.length < 0x10000000000000000 →
    decode? (compress content) = some content
  counted : ∀ content : Bytes, (compress content).length < 0x10000000000000000 →
    content.length < 0x10000000000000000

namespace Compressor

/-- contents are kept as they are -/
def stored : Compressor where
  compress := encode
  decode?_compress content _ := decode?_encode content
  counted content h := Nat.lt_of_le_of_lt (length_le_length_encode content) h

/-- any function that the decoder inverts, on the contents whose length can be counted -/
def ofInverse (compress : Bytes → Bytes)
    (h : ∀ content : Bytes, content.length < 0x10000000000000000 →
      decode? (compress content) = some content) : Compressor where
  compress content :=
    if content.length < 0x10000000000000000 then compress content else encode content
  decode?_compress content hcounted := by
    rw [if_pos hcounted]
    exact h content hcounted
  counted content hlength := by
    split at hlength
    · assumption
    · -- the content is kept as it is, so its frame is not shorter
      exact Nat.lt_of_le_of_lt (length_le_length_encode content) hlength

theorem compress_ofInverse {compress : Bytes → Bytes}
    {h : ∀ content : Bytes, content.length < 0x10000000000000000 →
      decode? (compress content) = some content}
    {content : Bytes} (hcounted : content.length < 0x10000000000000000) :
    (ofInverse compress h).compress content = compress content := if_pos hcounted

end Compressor

end EventMerge.Zstd
