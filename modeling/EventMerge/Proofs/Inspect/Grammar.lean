import EventMerge.Inspect.Selection
import EventMerge.Proofs.Pack.Access
import EventMerge.Proofs.Text.Decimal

/-!
# What a selection means

The grammar of selections is stated on the text as it was given, with the blanks in it, and without any
of the steps that reading takes.

* `Selection.Item`, `Selection.Bound`  what stands for a position, and for one end of a range;
* `Selection.Reads`                    the selection that a text stands for;
* `Selection.Within`                   the selections that a file can answer;
* `Selection.ofText_eq_ok_iff`         reading follows the grammar;
* `Selection.resolve_grammar`          what the positions of a text in a file are.
-/

namespace EventMerge.Selection

open Text (trim trimChars splitChars splitFirst? Blank Padded Separated)
open Text.Decimal (Spells limit64)

/-! ## the grammar -/

/-- a number with blanks around it -/
def Item (text : List Char) (n : Nat) : Prop :=
  ∃ number, Padded text number ∧ Spells number n ∧ n ≤ limit64

/-- one end of a range; nothing but blanks stands for `default` -/
def Bound (default : Nat) (text : List Char) (n : Nat) : Prop :=
  Blank text ∧ n = default ∨ Item text n

/-- what is selected of a file of `count` events -/
inductive Reads (count : Nat) : Option String → Selection → Prop
  | absent : Reads count none (.range 0 count)
  | blank {text : String} (htext : Blank text.toList) : Reads count (some text) (.range 0 count)
  | range {text : String} {first last : List Char} {start stop : Nat}
      (htext : text.toList = first ++ ':' :: last) (hfirst : ':' ∉ first)
      (hstart : Bound 0 first start) (hstop : Bound count last stop) (hle : start ≤ stop) :
      Reads count (some text) (.range start stop)
  | list {text : String} {items : List (List Char)} {positions : List Nat}
      (hitems : Separated ',' items text.toList) (hcolon : ':' ∉ text.toList)
      (hpositions : List.Forall₂ Item items positions) :
      Reads count (some text) (.list positions)

/-- what a file of `count` events can answer -/
def Within (count : Nat) : Selection → Prop
  | .range start stop => start = stop ∨ stop ≤ count
  | .list positions => ∀ n ∈ positions, n < count

/-! ## numbers -/

theorem solid_of_spells {number : List Char} {n : Nat} (h : Spells number n) :
    ∀ c ∈ number, Text.isBlank c = false := h.forall_mem (by decide) (by decide)

theorem item_iff {text : List Char} {n : Nat} :
    Item text n ↔ Spells (trimChars text) n ∧ n ≤ limit64 := by
  constructor
  · rintro ⟨number, hpadded, hspells, hle⟩
    rw [(Text.trimChars_eq_iff (solid_of_spells hspells)).mpr hpadded]
    exact ⟨hspells, hle⟩
  · rintro ⟨hspells, hle⟩
    exact ⟨trimChars text, Text.padded_trimChars text, hspells, hle⟩

theorem item_of_padded {text core : List Char} {n : Nat} (h : Padded text core) :
    Item text n ↔ Item core n := by
  rw [item_iff, item_iff, Text.trimChars_of_padded h]

theorem bound_of_padded {default : Nat} {text core : List Char} {n : Nat} (h : Padded text core) :
    Bound default text n ↔ Bound default core n := by
  rw [Bound, Bound, item_of_padded h, ← Text.trimChars_eq_nil_iff, ← Text.trimChars_eq_nil_iff,
    Text.trimChars_of_padded h]

theorem items_of_padded {texts cores : List (List Char)} {positions : List Nat}
    (h : List.Forall₂ Padded texts cores) :
    List.Forall₂ Item texts positions ↔ List.Forall₂ Item cores positions := by
  induction h generalizing positions with
  | nil => exact Iff.rfl
  | cons hfirst _ ih =>
    rw [List.forall₂_cons_left_iff, List.forall₂_cons_left_iff]
    simp only [item_of_padded hfirst, ih]

theorem Item.not_blank {text : List Char} {n : Nat} (h : Item text n) : ¬ Blank text := by
  intro hblank
  obtain ⟨⟨number, hne, -, htext⟩, -⟩ := item_iff.mp h
  rw [Text.trimChars_of_blank hblank] at htext
  rcases htext with rfl | htext
  · exact hne rfl
  · cases htext

theorem parse_eq_ok_iff {text : String} {n : Nat} :
    Text.Decimal.parse limit64 (trim text) = .ok n ↔ Item text.toList n := by
  rw [Text.Decimal.parse, trim, String.toList_ofList, Text.Decimal.parseChars_eq_ok_iff, item_iff]

theorem isEmpty_trim_iff {text : String} : (trim text).isEmpty = true ↔ Blank text.toList := by
  rw [String.isEmpty_iff, ← Text.trimChars_eq_nil_iff, trim, String.ofList_eq_empty_iff]

theorem position_eq_ok_iff {text : String} {n : Nat} :
    position text = .ok n ↔ Item text.toList n := by
  rw [position, ← parse_eq_ok_iff]
  split
  · rename_i h
    rw [h, Except.ok.injEq, Except.ok.injEq]
  · rename_i h
    rw [h]
    exact ⟨(nomatch ·), (nomatch ·)⟩

theorem bound_eq_ok_iff {default : Nat} {text : String} {n : Nat} :
    bound default text = .ok n ↔ Bound default text.toList n := by
  rw [bound, Bound]
  split
  · rename_i hblank
    rw [isEmpty_trim_iff] at hblank
    rw [or_iff_left fun h : Item text.toList n => h.not_blank hblank, and_iff_right hblank,
      Except.ok.injEq, eq_comm]
  · rename_i hblank
    rw [isEmpty_trim_iff] at hblank
    rw [or_iff_right fun h => hblank h.1, ← parse_eq_ok_iff]
    split
    · rename_i h
      rw [h, Except.ok.injEq, Except.ok.injEq]
    · rename_i h
      rw [h]
      exact ⟨(nomatch ·), (nomatch ·)⟩

theorem positionList_eq_ok_iff {items : List (List Char)} {positions : List Nat} :
    positionList (items.map String.ofList) = .ok positions ↔ List.Forall₂ Item items positions := by
  induction items generalizing positions with
  | nil => rw [List.map_nil, positionList, List.forall₂_nil_left_iff, Except.ok.injEq, eq_comm]
  | cons item rest ih =>
    rw [List.map_cons, positionList, List.forall₂_cons_left_iff]
    constructor
    · intro h
      split at h
      · cases h
      · rename_i n hn
        split at h
        · cases h
        · rename_i others hothers
          cases h
          rw [position_eq_ok_iff, String.toList_ofList] at hn
          exact ⟨n, others, hn, ih.mp hothers, rfl⟩
    · rintro ⟨n, others, hn, hothers, rfl⟩
      have hposition : position (String.ofList item) = .ok n :=
        position_eq_ok_iff.mpr (by rwa [String.toList_ofList])
      simp only [hposition, ih.mpr hothers]

/-! ## whole selections -/

variable {count : Nat}

theorem rangeBetween_eq_ok_iff {whole first last : String} {s : Selection} :
    rangeBetween count whole first last = .ok s ↔
      ∃ start stop, Bound 0 first.toList start ∧ Bound count last.toList stop ∧ start ≤ stop
        ∧ s = .range start stop := by
  simp only [← bound_eq_ok_iff]
  rw [rangeBetween]
  constructor
  · intro h
    split at h
    · cases h
    · rename_i start hstart
      split at h
      · cases h
      · rename_i stop hstop
        split at h
        · cases h
        · rename_i hle
          exact ⟨start, stop, hstart, hstop, Nat.not_lt.mp hle, (Except.ok.inj h).symm⟩
  · rintro ⟨start, stop, hstart, hstop, hle, rfl⟩
    simp only [hstart, hstop, if_neg (Nat.not_lt.mpr hle)]

/-- blanks stand for every event, and for nothing else -/
theorem Reads.of_blank {text : String} {s : Selection} (h : Reads count (some text) s)
    (hblank : Blank text.toList) : s = .range 0 count := by
  cases h with
  | blank _ => rfl
  | range htext _ _ _ _ =>
    exact absurd (htext ▸ List.mem_append_cons_self) (hblank.not_mem (c := ':') (by decide))
  | list hseparated _ hpositions =>
    rw [← Text.splitChars_eq_iff.mpr hseparated,
      Text.splitChars_of_not_mem (hblank.not_mem (c := ',') (by decide))] at hpositions
    obtain ⟨n, _, hitem, -, -⟩ := List.forall₂_cons_left_iff.mp hpositions
    exact absurd hblank hitem.not_blank

/-- reading the text without the blanks around it follows the grammar of the whole text -/
theorem ofTrimmed_eq_ok_iff {text core : String} {s : Selection}
    (hpadded : Padded text.toList core.toList) (hblank : ¬ Blank text.toList) :
    ofTrimmed count core = .ok s ↔ Reads count (some text) s := by
  have hcolon : Text.isBlank ':' = false := by decide
  have hcomma : Text.isBlank ',' = false := by decide
  rw [ofTrimmed]
  split
  · rename_i first last hfirst
    obtain ⟨hcore, hnot⟩ := Text.splitFirst?_eq_some_iff.mp hfirst
    obtain ⟨before, behind, htext, hbefore, hpadfirst, hpadlast⟩ := hpadded.divided hcolon hcore hnot
    rw [rangeBetween_eq_ok_iff, String.toList_ofList, String.toList_ofList]
    simp only [← bound_of_padded hpadfirst, ← bound_of_padded hpadlast]
    constructor
    · rintro ⟨start, stop, hstart, hstop, hle, rfl⟩
      exact .range htext hbefore hstart hstop hle
    · intro h
      cases h with
      | blank h => exact absurd h hblank
      | range htext' hbefore' hstart hstop hle =>
        -- the first colon is where it is, so the two divisions of the text are one
        have hdivided := Text.splitFirst?_eq_some_iff.mpr ⟨htext, hbefore⟩
        rw [Text.splitFirst?_eq_some_iff.mpr ⟨htext', hbefore'⟩] at hdivided
        cases hdivided
        exact ⟨_, _, hstart, hstop, hle, rfl⟩
      | list _ hnone _ => exact absurd (htext ▸ List.mem_append_cons_self) hnone
  · rename_i hnone
    rw [Text.splitFirst?_eq_none, ← hpadded.mem_iff hcolon] at hnone
    have hitems : ∀ positions, positionList (Text.splitOn ',' core) = .ok positions ↔
        List.Forall₂ Item (splitChars ',' text.toList) positions := fun positions => by
      rw [Text.splitOn, positionList_eq_ok_iff, items_of_padded (Text.padded_splitChars hcomma hpadded)]
    constructor
    · intro h
      split at h
      · rename_i positions hpositions
        cases h
        exact .list (Text.splitChars_eq_iff.mp rfl) hnone ((hitems positions).mp hpositions)
      · cases h
    · intro h
      cases h with
      | blank h => exact absurd h hblank
      | range htext _ _ _ _ => exact absurd (htext ▸ List.mem_append_cons_self) hnone
      | @list _ _ positions hseparated _ hpositions =>
        rw [← Text.splitChars_eq_iff.mpr hseparated] at hpositions
        rw [(hitems positions).mpr hpositions]

/-- **Reading follows the grammar.** -/
theorem ofText_eq_ok_iff {text : Option String} {s : Selection} :
    ofText count text = .ok s ↔ Reads count text s := by
  cases text with
  | none =>
    rw [ofText, Except.ok.injEq]
    constructor
    · rintro rfl
      exact .absent
    · rintro ⟨⟩
      rfl
  | some text =>
    rw [ofText]
    split
    · rename_i hblank
      rw [isEmpty_trim_iff] at hblank
      rw [Except.ok.injEq]
      constructor
      · rintro rfl
        exact .blank hblank
      · exact fun h => (h.of_blank hblank).symm
    · rename_i hblank
      rw [isEmpty_trim_iff] at hblank
      refine ofTrimmed_eq_ok_iff ?_ hblank
      rw [trim, String.toList_ofList]
      exact Text.padded_trimChars text.toList

/-! ## refusals -/

section

variable {f : Failure}

theorem position_cause {text : String} (h : position text = .error f) : f.cause ≠ .memory := by
  rw [position] at h
  split at h
  · cases h
  · cases h
    nofun

theorem positionList_cause {texts : List String} (h : positionList texts = .error f) :
    f.cause ≠ .memory := by
  induction texts with
  | nil => cases h
  | cons text rest ih =>
    rw [positionList] at h
    split at h
    · rename_i hposition
      cases h
      exact position_cause hposition
    · split at h
      · rename_i hrest
        cases h
        exact ih hrest
      · cases h

theorem bound_cause {default : Nat} {text : String} (h : bound default text = .error f) :
    f.cause ≠ .memory := by
  rw [bound] at h
  split at h
  · cases h
  · split at h
    · cases h
    · cases h
      nofun

theorem rangeBetween_cause {whole first last : String}
    (h : rangeBetween count whole first last = .error f) : f.cause ≠ .memory := by
  rw [rangeBetween] at h
  split at h
  · rename_i hstart
    cases h
    exact bound_cause hstart
  · split at h
    · rename_i hstop
      cases h
      exact bound_cause hstop
    · split at h
      · cases h
        nofun
      · cases h

/-- no text is too long to be read; only the list of its positions can be too long to be made -/
theorem ofText_cause {text : Option String} (h : ofText count text = .error f) :
    f.cause ≠ .memory := by
  cases text with
  | none => cases h
  | some text =>
    rw [ofText] at h
    split at h
    · cases h
    · rw [ofTrimmed] at h
      split at h
      · exact rangeBetween_cause h
      · split at h
        · cases h
        · rename_i hlist
          cases h
          exact positionList_cause hlist

end

/-! ## positions in a file -/

variable {text : Option String} {s : Selection}

theorem Reads.unique {t : Selection} (hs : Reads count text s) (ht : Reads count text t) : s = t :=
  Except.ok.inj ((ofText_eq_ok_iff.mpr hs).symm.trans (ofText_eq_ok_iff.mpr ht))

theorem Reads.beyond?_eq_none_iff (h : Reads count text s) :
    s.beyond? count = none ↔ s.Within count := by
  have hrange : ∀ {start stop : Nat}, start ≤ stop →
      ((Selection.range start stop).beyond? count = none ↔
        (Selection.range start stop).Within count) := by
    intro start stop hle
    rw [beyond?_range_eq_none, Within]
    omega
  cases h with
  | absent => exact hrange (Nat.zero_le count)
  | blank _ => exact hrange (Nat.zero_le count)
  | range _ _ _ _ hle => exact hrange hle
  | list _ _ _ => exact beyond?_list_eq_none

theorem Within.lt (h : s.Within count) : ∀ n ∈ s.positions, n < count := by
  cases s with
  | range start stop =>
    intro n hn
    obtain ⟨hle, hlt⟩ := List.mem_range'_1.mp hn
    rcases h with rfl | hstop <;> omega
  | list positions => exact h

/-- what comes of a text that is read as `s` -/
theorem resolve_of_reads (h : Reads count text s) :
    (sizeLimit < s.size ∧ resolve count text = .error ⟨[], .memory⟩) ∨
    (s.size ≤ sizeLimit ∧ s.Within count ∧ resolve count text = .ok s.positions) ∨
    (s.size ≤ sizeLimit ∧ ¬ s.Within count ∧ ∃ n, s.beyond? count = some n ∧
      resolve count text = .error (.refuse ("entry " ++ Text.Decimal.ofNat n
        ++ " out of range, the file has " ++ Text.Decimal.ofNat count ++ " events"))) := by
  rw [← h.beyond?_eq_none_iff]
  simp only [resolve, ofText_eq_ok_iff.mpr h]
  by_cases hsize : sizeLimit < s.size
  · exact .inl ⟨hsize, if_pos hsize⟩
  · simp only [if_neg hsize]
    cases hbeyond : s.beyond? count with
    | none => exact .inr (.inl ⟨Nat.not_lt.mp hsize, rfl, rfl⟩)
    | some n => exact .inr (.inr ⟨Nat.not_lt.mp hsize, nofun, n, rfl, rfl⟩)

/-- the list is too long to be made if and only if the text stands for too many positions -/
theorem resolve_eq_memory_iff :
    resolve count text = .error ⟨[], .memory⟩ ↔ ∃ s, Reads count text s ∧ sizeLimit < s.size := by
  constructor
  · intro h
    cases hread : ofText count text with
    | error f =>
      rw [resolve, hread] at h
      exact absurd (congrArg Failure.cause (Except.error.inj h)) (ofText_cause hread)
    | ok s =>
      have hs := ofText_eq_ok_iff.mp hread
      refine ⟨s, hs, ?_⟩
      rcases resolve_of_reads hs with ⟨hsize, -⟩ | ⟨-, -, hok⟩ | ⟨-, -, n, -, hrefuse⟩
      · exact hsize
      · rw [hok] at h
        cases h
      · rw [hrefuse] at h
        cases h
  · rintro ⟨s, hs, hsize⟩
    rcases resolve_of_reads hs with ⟨-, hmemory⟩ | ⟨hle, -⟩ | ⟨hle, -⟩
    · exact hmemory
    · omega
    · omega

theorem resolve_eq_ok_iff {l : List Nat} :
    resolve count text = .ok l ↔
      ∃ s, Reads count text s ∧ s.size ≤ sizeLimit ∧ s.Within count ∧ s.positions = l := by
  constructor
  · intro h
    cases hread : ofText count text with
    | error f =>
      rw [resolve, hread] at h
      cases h
    | ok s =>
      have hs := ofText_eq_ok_iff.mp hread
      rcases resolve_of_reads hs with ⟨-, hmemory⟩ | ⟨hsize, hwithin, hok⟩ | ⟨-, -, n, -, hrefuse⟩
      · rw [hmemory] at h
        cases h
      · exact ⟨s, hs, hsize, hwithin, Except.ok.inj (hok.symm.trans h)⟩
      · rw [hrefuse] at h
        cases h
  · rintro ⟨s, hs, hle, hwithin, rfl⟩
    rcases resolve_of_reads hs with ⟨hsize, -⟩ | ⟨-, -, hok⟩ | ⟨-, hnot, -⟩
    · omega
    · exact hok
    · exact absurd hwithin hnot

/-- **What the positions of a text in a file are.**  The list is too long to be made if and only if the
text stands for too many positions.  Otherwise the positions are those of the selection that the text
stands for by the grammar, if the file has them, and every other text is refused; so the file has every
position that is given. -/
theorem resolve_grammar (count : Nat) (text : Option String) :
    (resolve count text = .error ⟨[], .memory⟩ ↔ ∃ s, Reads count text s ∧ sizeLimit < s.size) ∧
    (resolve count text ≠ .error ⟨[], .memory⟩ →
      (∀ l, resolve count text = .ok l ↔ ∃ s, Reads count text s ∧ s.Within count ∧ s.positions = l) ∧
      ((∀ s, Reads count text s → ¬ s.Within count) → ∃ f, resolve count text = .error f) ∧
      (∀ l, resolve count text = .ok l → (∀ n ∈ l, n < count) ∧
        ∀ r : PackReader, r.eventCount = count → ∀ n ∈ l, ∀ k,
          r.readEvent n ≠ .error (.eventOutOfRange k))) := by
  refine ⟨resolve_eq_memory_iff, fun hreturns => ⟨fun l => ?_, fun hnone => ?_, fun l hl => ?_⟩⟩
  · rw [resolve_eq_ok_iff]
    constructor
    · rintro ⟨s, hs, -, hwithin, hl⟩
      exact ⟨s, hs, hwithin, hl⟩
    · rintro ⟨s, hs, hwithin, hl⟩
      have hsize : s.size ≤ sizeLimit :=
        Nat.not_lt.mp fun hlong => hreturns (resolve_eq_memory_iff.mpr ⟨s, hs, hlong⟩)
      exact ⟨s, hs, hsize, hwithin, hl⟩
  · cases hresolve : resolve count text with
    | error f => exact ⟨f, rfl⟩
    | ok l =>
      obtain ⟨s, hs, -, hwithin, -⟩ := resolve_eq_ok_iff.mp hresolve
      exact absurd hwithin (hnone s hs)
  · obtain ⟨s, -, -, hwithin, rfl⟩ := resolve_eq_ok_iff.mp hl
    refine ⟨hwithin.lt, fun r hr n hn k => ?_⟩
    exact PackReader.readEvent_ne_outOfRange (hr ▸ hwithin.lt n hn) k

/-- three items of which one has a plus sign, one a zero in front and one blanks around it, and a range
that ends behind the last event -/
theorem resolve_grammar_items :
    (resolve 4 (some " 3 ,+2,02") ≠ .error ⟨[], .memory⟩ ∧
      (∃ s, Reads 4 (some " 3 ,+2,02") s ∧ s.Within 4 ∧ s.positions = [3, 2, 2]) ∧
      ∀ n ∈ [3, 2, 2], n < 4) ∧
    (resolve 4 (some "1:9") ≠ .error ⟨[], .memory⟩ ∧
      (∀ s, Reads 4 (some "1:9") s → ¬ s.Within 4) ∧ ∃ f, resolve 4 (some "1:9") = .error f) := by
  have hitems : resolve 4 (some " 3 ,+2,02") = .ok [3, 2, 2] := by decide +kernel
  have hreturns : resolve 4 (some " 3 ,+2,02") ≠ .error ⟨[], .memory⟩ := by
    rw [hitems]
    nofun
  have hrange : resolve 4 (some "1:9") ≠ .error ⟨[], .memory⟩ := by decide +kernel
  have hread : ofText 4 (some "1:9") = .ok (.range 1 9) := by decide +kernel
  have hbeyond : ∀ s, Reads 4 (some "1:9") s → ¬ s.Within 4 := by
    intro s hs
    rw [hs.unique (ofText_eq_ok_iff.mp hread)]
    rintro (h | h) <;> omega
  have hgrammar := (resolve_grammar 4 (some " 3 ,+2,02")).2 hreturns
  exact ⟨⟨hreturns, (hgrammar.1 _).mp hitems, (hgrammar.2.2 _ hitems).1⟩,
    hrange, hbeyond, ((resolve_grammar 4 (some "1:9")).2 hrange).2.1 hbeyond⟩

/-- an empty range may stand anywhere -/
example : resolve 4 (some "7: 7") = .ok [] := by decide +kernel

end EventMerge.Selection
