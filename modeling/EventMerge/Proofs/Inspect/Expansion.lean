import EventMerge.Proofs.Inspect.Grammar

/-!
# How many positions a selection is expanded to

The positions of a selection are put into a list, and only then are they compared with the events that
the file has.  A list of items holds as many positions as the text has items at most.  A range holds
whatever its two ends say, also if the file is much shorter.

* `Selection.leading`, `Selection.expanded`  the positions that are put into a list;
* `Selection.itemCount`                      the items of a text;
* `Selection.expanded_of_ofText`             a text that can be read is expanded as a whole;
* `Selection.length_expanded_le_iff`         the expansion against the file and the items.
-/

namespace EventMerge.Selection

open Text (trim splitChars splitFirst? splitOn Blank Padded)

/-! ## expansion -/

/-- the positions in front of the first item that is none -/
def leading : List String → List Nat
  | [] => []
  | item :: rest =>
    match position item with
    | .error _ => []
    | .ok n => n :: leading rest

/-- the positions that are put into a list for a text without blanks around it -/
def expandedTrimmed (count : Nat) (text : String) : List Nat :=
  match splitFirst? ':' text.toList with
  | some (first, last) =>
    match rangeBetween count text (String.ofList first) (String.ofList last) with
    | .ok s => s.positions
    | .error _ => []
  | none => leading (splitOn ',' text)

/-- the positions that are put into a list, whether they are given then or the text is refused -/
def expanded (count : Nat) : Option String → List Nat
  | none => (range 0 count).positions
  | some text =>
    if (trim text).isEmpty then (range 0 count).positions else expandedTrimmed count (trim text)

/-- the items between the commas of a text -/
def itemCount : Option String → Nat
  | none => 0
  | some text => (splitChars ',' text.toList).length

/-! ## the lists of items -/

theorem leading_of_positionList {items : List String} {positions : List Nat}
    (h : positionList items = .ok positions) : leading items = positions := by
  induction items generalizing positions with
  | nil =>
    cases h
    rfl
  | cons item rest ih =>
    rw [positionList] at h
    split at h
    · cases h
    · rename_i n hn
      split at h
      · cases h
      · rename_i others hothers
        cases h
        simp only [leading, hn, ih hothers]

theorem length_leading_le (items : List String) : (leading items).length ≤ items.length := by
  induction items with
  | nil => exact Nat.le_refl 0
  | cons item rest ih =>
    rw [leading]
    split
    · exact Nat.zero_le _
    · exact Nat.succ_le_succ ih

theorem length_splitOn_trim (text : String) :
    (splitOn ',' (trim text)).length = itemCount (some text) := by
  have hparts := Text.padded_splitChars (c := ',') (by decide) (Text.padded_trimChars text.toList)
  rw [splitOn, List.length_map, trim, String.toList_ofList, itemCount, hparts.length_eq]

/-! ## ranges -/

theorem Bound.comma_not_mem {default n : Nat} {text : List Char} (h : Bound default text n) :
    ',' ∉ text := by
  have hcomma : Text.isBlank ',' = false := by decide
  rcases h with ⟨hblank, -⟩ | ⟨number, hpadded, hspells, -⟩
  · exact hblank.not_mem hcomma
  · rw [hpadded.mem_iff hcomma]
    exact fun hmem => hspells.forall_mem (p := (· ≠ ',')) (by decide) (by decide) ',' hmem rfl

/-- the text of a range is one item -/
theorem itemCount_of_range {text : String} {first last : List Char} {start stop count : Nat}
    (htext : text.toList = first ++ ':' :: last) (hstart : Bound 0 first start)
    (hstop : Bound count last stop) : itemCount (some text) = 1 := by
  have hcomma : ',' ∉ text.toList := by
    rw [htext, List.mem_append, List.mem_cons]
    rintro (hfirst | hcolon | hlast)
    · exact hstart.comma_not_mem hfirst
    · exact absurd hcolon (by decide)
    · exact hstop.comma_not_mem hlast
  rw [itemCount, Text.splitChars_of_not_mem hcomma, List.length_singleton]

/-! ## the bound -/

variable {count : Nat} {text : Option String} {s : Selection}

theorem expandedTrimmed_of_ok {core : String} (h : ofTrimmed count core = .ok s) :
    expandedTrimmed count core = s.positions := by
  rw [ofTrimmed] at h
  rw [expandedTrimmed]
  cases hdivided : splitFirst? ':' core.toList with
  | some parts =>
    simp only [hdivided] at h ⊢
    simp only [h]
  | none =>
    simp only [hdivided] at h ⊢
    split at h
    · rename_i positions hpositions
      cases h
      exact leading_of_positionList hpositions
    · cases h

theorem length_expandedTrimmed_of_error {core : String} {f : Failure}
    (h : ofTrimmed count core = .error f) :
    (expandedTrimmed count core).length ≤ (splitOn ',' core).length := by
  rw [ofTrimmed] at h
  rw [expandedTrimmed]
  cases hdivided : splitFirst? ':' core.toList with
  | some parts =>
    simp only [hdivided] at h ⊢
    simp only [h]
    exact Nat.zero_le _
  | none => exact length_leading_le _

/-- a text that can be read is expanded as a whole -/
theorem expanded_of_ofText (h : ofText count text = .ok s) : expanded count text = s.positions := by
  cases text with
  | none =>
    cases h
    rfl
  | some text =>
    rw [ofText] at h
    rw [expanded]
    split at h
    · rename_i hblank
      cases h
      rw [if_pos hblank]
    · rename_i hblank
      rw [if_neg hblank, expandedTrimmed_of_ok h]

/-- what is refused as it is read has not been expanded past its items -/
theorem length_expanded_of_error {f : Failure} (h : ofText count text = .error f) :
    (expanded count text).length ≤ itemCount text := by
  cases text with
  | none => cases h
  | some text =>
    rw [ofText] at h
    rw [expanded]
    split at h
    · cases h
    · rename_i hblank
      rw [if_neg hblank, ← length_splitOn_trim]
      exact length_expandedTrimmed_of_error h

theorem length_expanded_of_reads (h : Reads count text s) :
    (expanded count text).length = s.size := by
  rw [expanded_of_ofText (ofText_eq_ok_iff.mpr h), length_positions]

/-- a list of items is never expanded past its items -/
theorem length_of_reads_list {positions : List Nat} (h : Reads count text (.list positions)) :
    positions.length = itemCount text := by
  cases h with
  | list hseparated _ hpositions =>
    rw [itemCount, Text.splitChars_eq_iff.mpr hseparated, hpositions.length_eq]

theorem length_expanded_le_iff :
    (expanded count text).length ≤ max count (itemCount text) ↔
      ∀ start stop, Reads count text (.range start stop) → stop - start ≤ max count 1 := by
  constructor
  · intro hle start stop h
    rw [length_expanded_of_reads h, size] at hle
    cases h with
    | absent => omega
    | blank _ => omega
    | range htext _ hstart hstop _ =>
      rwa [itemCount_of_range htext hstart hstop] at hle
  · intro hranges
    cases hread : ofText count text with
    | error f => exact Nat.le_trans (length_expanded_of_error hread) (Nat.le_max_right _ _)
    | ok s =>
      have hs := ofText_eq_ok_iff.mp hread
      rw [length_expanded_of_reads hs]
      cases s with
      | list positions => exact Nat.le_trans (length_of_reads_list hs).le (Nat.le_max_right _ _)
      | range start stop =>
        have hlength := hranges start stop hs
        rw [size]
        cases hs with
        | absent => exact Nat.le_max_left _ _
        | blank _ => exact Nat.le_max_left _ _
        | range htext _ hstart hstop _ => rwa [itemCount_of_range htext hstart hstop]

/-- what a file can answer keeps to the bound -/
theorem Reads.size_le (h : Reads count text s) (hwithin : s.Within count) :
    s.size ≤ max count (itemCount text) := by
  cases s with
  | range start stop =>
    rw [size]
    rcases hwithin with rfl | hstop <;> omega
  | list positions =>
    rw [size, length_of_reads_list h]
    exact Nat.le_max_right _ _

theorem resolve_of_range_beyond {start stop : Nat} (h : Reads count text (.range start stop))
    (hrange : start < stop) (hcount : count < stop) :
    resolve count text =
      if sizeLimit < stop - start then .error ⟨[], .memory⟩
      else .error (.refuse ("entry " ++ Text.Decimal.ofNat (max start count)
        ++ " out of range, the file has " ++ Text.Decimal.ofNat count ++ " events")) := by
  have hbeyond : (range start stop).beyond? count = some (max start count) :=
    if_pos (Nat.max_lt.mpr ⟨hrange, hcount⟩)
  rcases resolve_of_reads h with ⟨hsize, hmemory⟩ | ⟨-, hwithin, -⟩ | ⟨hsize, -, n, hn, hrefuse⟩
  · rw [size] at hsize
    rw [if_pos hsize, hmemory]
  · rcases hwithin with heq | hstop <;> omega
  · rw [size] at hsize
    rw [if_neg (Nat.not_lt.mpr hsize), hrefuse, ← Option.some.inj (hbeyond.symm.trans hn)]

/-- **The expansion against the file and the items.**  No more positions are put into a list than the
file has events or the text has items, whichever is more, but for one kind of text: a range that is
longer than that.  Whatever is given keeps to the bound, so such a range is always refused; but it is
expanded first, and if the list is too long to be made then this is what comes of it, in place of the
refusal that names the first position that the file does not have. -/
theorem expanded_bounded (count : Nat) (text : Option String) :
    ((expanded count text).length ≤ max count (itemCount text) ↔
      ∀ start stop, Reads count text (.range start stop) → stop - start ≤ max count 1) ∧
    (∀ l, resolve count text = .ok l →
      expanded count text = l ∧ l.length ≤ max count (itemCount text)) ∧
    (∀ start stop, Reads count text (.range start stop) → start < stop → count < stop →
      resolve count text =
        if sizeLimit < stop - start then .error ⟨[], .memory⟩
        else .error (.refuse ("entry " ++ Text.Decimal.ofNat (max start count)
          ++ " out of range, the file has " ++ Text.Decimal.ofNat count ++ " events"))) := by
  refine ⟨length_expanded_le_iff, fun l h => ?_, fun start stop => resolve_of_range_beyond⟩
  obtain ⟨s, hs, -, hwithin, rfl⟩ := resolve_eq_ok_iff.mp h
  refine ⟨expanded_of_ofText (ofText_eq_ok_iff.mpr hs), ?_⟩
  rw [length_positions]
  exact hs.size_le hwithin

/-- a range of three events, of which the last is the first that the file does not have -/
theorem expanded_bounded_range :
    (expanded 3 (some "1:4")).length ≤ max 3 (itemCount (some "1:4")) ∧
    resolve 3 (some "1:4") = .error (.refuse "entry 3 out of range, the file has 3 events") ∧
    expanded 3 (some "1:3") = [1, 2] := by
  have hread : Reads 3 (some "1:4") (.range 1 4) := ofText_eq_ok_iff.mp (by decide +kernel)
  obtain ⟨hbound, -, hbeyond⟩ := expanded_bounded 3 (some "1:4")
  refine ⟨hbound.mpr ?_, (hbeyond 1 4 hread (by decide) (by decide)).trans (by decide +kernel),
    ((expanded_bounded 3 (some "1:3")).2.1 [1, 2] (by decide +kernel)).1⟩
  intro start stop h
  cases hread.unique h
  decide

/-- a range of a few characters that is expanded past every limit in front of the refusal -/
theorem expanded_unbounded :
    ¬ (expanded 3 (some "0:18446744073709551615")).length
        ≤ max 3 (itemCount (some "0:18446744073709551615")) ∧
    resolve 3 (some "0:18446744073709551615") = .error ⟨[], .memory⟩ := by
  have hread : Reads 3 (some "0:18446744073709551615") (.range 0 18446744073709551615) :=
    ofText_eq_ok_iff.mp (by decide +kernel)
  refine ⟨fun hle => ?_, resolve_eq_memory_iff.mpr ⟨_, hread, by decide⟩⟩
  have hlength := length_expanded_le_iff.mp hle _ _ hread
  omega

end EventMerge.Selection
