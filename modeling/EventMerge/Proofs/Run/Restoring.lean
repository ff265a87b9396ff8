import EventMerge.Proofs.Pack.Numbering
import EventMerge.Proofs.Pack.Opening
import EventMerge.Proofs.Run.Writing
import EventMerge.Proofs.Store.Rereading
import EventMerge.Proofs.Table.Document
import Mathlib.Data.List.Induction

/-!
# What is read back of one event

A record of a pack lists the payloads that were written under the numbers of their names; a row of a
table has a place for every column.  Either way a name is decoded to the payload that was written for
it, and to a collection without content if there was none.

* `Collection.restored`             the collection of a payload that was written, or of none;
* `PackReader.ofDecoding_handleFor` what a record gives for a numbered name;
* `TableWriter.getElem?_rowOf`      what is in the column of a name;
* `TableWriter.ofDecoding_rowOf`    what a row gives for it.
-/

namespace EventMerge

open NameMap (lookup lookup_cons lookup_append)

namespace Collection

/-- the collection of a payload that was written, or of none -/
def restored (written : Option Buffers) : Collection := .ofBuffers (written.getD .unset)

/-- it is valid if and only if there was a payload, which then is its own -/
theorem restored_iff {written : Option Buffers} (h : ∀ b ∈ written, b.isValid = true)
    (buffers : Buffers) :
    ((restored written).valid = true ∧ (restored written).buffers = buffers)
      ↔ written = some buffers := by
  cases written with
  | none =>
    constructor
    · rintro ⟨hvalid, -⟩
      cases hvalid
    · intro hnone
      cases hnone
  | some b =>
    constructor
    · rintro ⟨-, rfl⟩
      rfl
    · intro hsome
      cases hsome
      exact ⟨h _ rfl, rfl⟩

end Collection

theorem LocalIndex.ofNat_inj {i j : Nat} (hi : i < 0x100000000) (hj : j < 0x100000000) :
    (⟨UInt32.ofNat i⟩ : LocalIndex) = ⟨UInt32.ofNat j⟩ ↔ i = j := by
  constructor
  · intro h
    rw [← LocalIndex.toNat_ofNat hi, h, LocalIndex.toNat_ofNat hj]
  · intro h
    rw [h]

/-! ## records -/

namespace Pack.PackedTable

theorem indexOf_inj {t : PackedTable} (hroom : t.collections.length ≤ 0x100000000)
    {name other : String} (hname : name ∈ t.collections) (hother : other ∈ t.collections) :
    t.indexOf name = t.indexOf other ↔ name = other := by
  have h := List.idxOf_lt_length_of_mem hname
  have h' := List.idxOf_lt_length_of_mem hother
  rw [indexOf, indexOf, LocalIndex.ofNat_inj (by omega) (by omega), List.idxOf_inj hname]

theorem get?_entriesOf {t : PackedTable} (hroom : t.collections.length ≤ 0x100000000)
    {payloads : List (String × Buffers)} (h : ∀ payload ∈ payloads, payload.1 ∈ t.collections)
    {name : String} (hname : name ∈ t.collections) :
    (PackedEvent.mk (t.entriesOf payloads)).get? (t.indexOf name) = lookup name payloads := by
  induction payloads with
  | nil => rfl
  | cons payload rest ih =>
    obtain ⟨other, buffers⟩ := payload
    have hother : other ∈ t.collections := h (other, buffers) List.mem_cons_self
    have hrest := ih fun p hp => h p (List.mem_cons_of_mem _ hp)
    have hcons : t.entriesOf ((other, buffers) :: rest)
        = ⟨t.indexOf other, buffers⟩ :: t.entriesOf rest := rfl
    rw [PackedEvent.get?] at hrest ⊢
    rw [lookup_cons, hcons, List.find?_cons]
    by_cases hsame : name = other
    · subst hsame
      simp
    · have hindex : ¬ t.indexOf other = t.indexOf name := fun heq =>
        hsame ((indexOf_inj hroom hother hname).mp heq).symm
      rw [if_neg hsame, decide_eq_false hindex]
      exact hrest

end Pack.PackedTable

/-- **A record gives for a numbered name what was written for it.** -/
theorem PackReader.ofDecoding_handleFor {t : Pack.PackedTable}
    (hroom : t.collections.length ≤ 0x100000000) {payloads : List (String × Buffers)}
    (h : ∀ payload ∈ payloads, payload.1 ∈ t.collections) {name : String}
    (hname : name ∈ t.collections) :
    Cache.ofDecoding (decoder (handleFor ⟨t.entriesOf payloads⟩) (t.indexOf name))
      = .restored (lookup name payloads) := by
  rw [decoder_handleFor, PackHandle.pick, Pack.PackedTable.get?_entriesOf hroom h hname]
  cases lookup name payloads <;> rfl

/-! ## rows -/

namespace TableWriter

variable {registered : List String}

theorem length_place (row : Row) (offer : String × Buffers) :
    (place registered row offer).length = row.length := by
  rw [place]
  split
  · exact List.length_set
  · rfl

theorem length_foldl_place (offers : List (String × Buffers)) (row : Row) :
    (offers.foldl (place registered) row).length = row.length := by
  induction offers generalizing row with
  | nil => rfl
  | cons offer rest ih => rw [List.foldl_cons, ih, length_place]

theorem getElem?_place {row : Row} (hlength : row.length = registered.length) {name : String}
    (hname : name ∈ registered) (offer : String × Buffers) :
    (place registered row offer)[registered.idxOf name]?
      = if name = offer.1 then some (some (.ofBuffers offer.2))
        else row[registered.idxOf name]? := by
  have hcolumn := List.idxOf_lt_length_of_mem hname
  rw [place]
  by_cases hmem : offer.1 ∈ registered
  · rw [TableReader.idxOf?_of_mem hmem]
    dsimp only
    by_cases hsame : name = offer.1
    · rw [if_pos hsame, ← hsame, List.getElem?_set_self (by omega)]
    · have hne : registered.idxOf offer.1 ≠ registered.idxOf name := fun heq =>
        hsame ((List.idxOf_inj hmem).mp heq).symm
      rw [if_neg hsame, List.getElem?_set_ne hne]
  · have hne : name ≠ offer.1 := fun heq => hmem (heq ▸ hname)
    rw [List.idxOf?_eq_none_iff.mpr hmem, if_neg hne]

/-- **The column of a name holds the last payload that was offered for it.** -/
theorem getElem?_rowOf {name : String} (hname : name ∈ registered)
    (offers : List (String × Buffers)) :
    (rowOf registered offers)[registered.idxOf name]?
      = some ((lookup name offers.reverse).map Cell.ofBuffers) := by
  have hcolumn := List.idxOf_lt_length_of_mem hname
  rw [rowOf]
  -- from the end, as the last payload of a name stays
  induction offers using List.reverseRecOn with
  | nil => simp [NameMap.lookup_nil, hcolumn]
  | append_singleton offers offer ih =>
    have hlength : (offers.foldl (place registered)
        (List.replicate registered.length none)).length = registered.length := by
      rw [length_foldl_place, List.length_replicate]
    rw [List.foldl_append, List.foldl_cons, List.foldl_nil, getElem?_place hlength hname, ih,
      List.reverse_append, List.reverse_singleton, List.singleton_append, lookup_cons]
    split <;> rfl

/-- **A row gives for the name of a column what was written for it.** -/
theorem ofDecoding_rowOf (hroom : registered.length ≤ 0x100000000) {name : String}
    (hname : name ∈ registered) {offers : List (String × Buffers)}
    (h : ∀ b ∈ lookup name offers.reverse, b.isValid = true) :
    Cache.ofDecoding ((rowOf registered offers).decode
        ⟨UInt32.ofNat (registered.idxOf name)⟩)
      = .restored (lookup name offers.reverse) := by
  have hcolumn := List.idxOf_lt_length_of_mem hname
  have hcell : (rowOf registered offers).cell? ⟨UInt32.ofNat (registered.idxOf name)⟩
      = (lookup name offers.reverse).map Cell.ofBuffers := by
    rw [Row.cell?, LocalIndex.toNat_ofNat (by omega), getElem?_rowOf hname]
    rfl
  rw [Row.decode, hcell]
  cases hlookup : lookup name offers.reverse with
  | none => rfl
  | some b =>
    show Collection.ofBuffers (Cell.ofBuffers b).toBuffers = _
    rw [Cell.toBuffers_ofBuffers (h b hlookup)]
    rfl

end TableWriter

end EventMerge
