import EventMerge.Proofs.Text.Blank
import EventMerge.Text.Decimal
import Mathlib.Data.Nat.Digits.Defs

/-!
# What is an unsigned number in decimal notation

* `Text.Decimal.Digits`                a text of digits, and the number that they make;
* `Text.Decimal.Spells`                a text that is an unsigned number;
* `Text.Decimal.digits_eq_ok_iff`      reading on after a number, digit by digit;
* `Text.Decimal.parseChars_eq_ok_iff`  reading accepts these texts, up to the limit, and no other.
-/

namespace EventMerge.Text.Decimal

/-- a text of digits, the most significant one first -/
def Digits (text : List Char) (n : Nat) : Prop :=
  ∃ digits : List Nat, (∀ d ∈ digits, d < 10) ∧ text = digits.map Nat.digitChar
    ∧ Nat.ofDigits 10 digits.reverse = n

/-- at least one digit, perhaps behind a plus sign -/
def Spells (text : List Char) (n : Nat) : Prop :=
  ∃ number, number ≠ [] ∧ Digits number n ∧ (text = number ∨ text = '+' :: number)

/-! ## digits -/

theorem digit?_eq_some_iff {c : Char} {d : Nat} :
    digit? c = some d ↔ d < 10 ∧ c = Nat.digitChar d := by
  have hrange : ('0' ≤ c ∧ c ≤ '9') ↔ 48 ≤ c.toNat ∧ c.toNat ≤ 57 := Iff.rfl
  rw [digit?]
  constructor
  · intro h
    split at h
    · rename_i hdigit
      obtain ⟨hlow, hhigh⟩ := hrange.mp hdigit
      have hd : c.toNat - 48 = d := Option.some.inj h
      have hlt : d < 10 := by omega
      have hchar := Nat.toNat_digitChar_of_lt_ten hlt
      exact ⟨hlt, Char.toNat_inj.mp (by omega)⟩
    · cases h
  · rintro ⟨hlt, rfl⟩
    have hchar := Nat.toNat_digitChar_of_lt_ten hlt
    rw [if_pos (hrange.mpr (by omega)), hchar, Nat.add_sub_cancel_left]

/-- the number that digits make behind those of `value` -/
def continued (value : Nat) (digits : List Nat) : Nat := digits.foldl (fun v d => v * 10 + d) value

theorem le_continued (value : Nat) (digits : List Nat) : value ≤ continued value digits := by
  induction digits generalizing value with
  | nil => exact Nat.le_refl value
  | cons d rest ih => exact Nat.le_trans (by omega) (ih (value * 10 + d))

theorem ofDigits_reverse (digits : List Nat) :
    Nat.ofDigits 10 digits.reverse = continued 0 digits := by
  rw [Nat.ofDigits_eq_foldr, List.foldr_reverse, continued]
  congr 1
  funext v d
  rw [Nat.cast_id, Nat.add_comm, Nat.mul_comm]

/-- **Reading on after a number.** -/
theorem digits_eq_ok_iff {limit value n : Nat} {text : List Char} (hvalue : value ≤ limit) :
    digits limit value text = .ok n ↔
      ∃ ds : List Nat, (∀ d ∈ ds, d < 10) ∧ text = ds.map Nat.digitChar ∧ continued value ds = n
        ∧ n ≤ limit := by
  induction text generalizing value with
  | nil =>
    constructor
    · intro h
      cases h
      exact ⟨[], nofun, rfl, rfl, hvalue⟩
    · rintro ⟨ds, -, hds, rfl, -⟩
      rw [List.map_eq_nil_iff.mp hds.symm]
      rfl
  | cons c rest ih =>
    rw [digits]
    constructor
    · intro h
      split at h
      · cases h
      · rename_i d hd
        split at h
        · cases h
        · rename_i hle
          obtain ⟨hlt, hc⟩ := digit?_eq_some_iff.mp hd
          obtain ⟨ds, hds, hrest, hn, hlimit⟩ := (ih (Nat.not_lt.mp hle)).mp h
          exact ⟨d :: ds, List.forall_mem_cons.mpr ⟨hlt, hds⟩, by rw [hc, hrest, List.map_cons],
            hn, hlimit⟩
    · rintro ⟨ds, hds, htext, hn, hlimit⟩
      cases ds with
      | nil => cases htext
      | cons d ds =>
        obtain ⟨hlt, hds⟩ := List.forall_mem_cons.mp hds
        obtain ⟨hc, hrest⟩ := List.cons.inj htext
        have hd : digit? c = some d := digit?_eq_some_iff.mpr ⟨hlt, hc⟩
        -- a number only grows with its digits, so none of those on the way is past the limit
        have hle : value * 10 + d ≤ limit :=
          Nat.le_trans (le_continued (value * 10 + d) ds) (by rw [← hn] at hlimit; exact hlimit)
        simp only [hd, if_neg (Nat.not_lt.mpr hle)]
        exact (ih hle).mpr ⟨ds, hds, hrest, hn, hlimit⟩

theorem digits_zero_eq_ok_iff {limit n : Nat} {text : List Char} :
    digits limit 0 text = .ok n ↔ Digits text n ∧ n ≤ limit := by
  rw [digits_eq_ok_iff (Nat.zero_le limit)]
  constructor
  · rintro ⟨ds, hds, htext, hn, hlimit⟩
    exact ⟨⟨ds, hds, htext, (ofDigits_reverse ds).trans hn⟩, hlimit⟩
  · rintro ⟨⟨ds, hds, htext, hn⟩, hlimit⟩
    exact ⟨ds, hds, htext, (ofDigits_reverse ds).symm.trans hn, hlimit⟩

/-! ## numbers -/

/-- what is true of the digits and of the plus sign is true of each character of a number -/
theorem Spells.forall_mem {text : List Char} {n : Nat} (h : Spells text n) {p : Char → Prop}
    (hplus : p '+') (hdigit : ∀ d < 10, p (Nat.digitChar d)) : ∀ c ∈ text, p c := by
  obtain ⟨number, -, ⟨ds, hds, rfl, -⟩, htext⟩ := h
  have hnumber : ∀ c ∈ ds.map Nat.digitChar, p c :=
    List.forall_mem_map.mpr fun d hd => hdigit d (hds d hd)
  rcases htext with rfl | rfl
  · exact hnumber
  · exact List.forall_mem_cons.mpr ⟨hplus, hnumber⟩

theorem spells_plus_iff {rest : List Char} {n : Nat} :
    Spells ('+' :: rest) n ↔ rest ≠ [] ∧ Digits rest n := by
  constructor
  · rintro ⟨number, hne, hdigits, rfl | htext⟩
    · obtain ⟨ds, hds, htext, -⟩ := hdigits
      cases ds with
      | nil => cases htext
      | cons d ds =>
        have hplus : ∀ d < 10, '+' ≠ Nat.digitChar d := by decide
        exact absurd (List.cons.inj htext).1 (hplus d (hds d List.mem_cons_self))
    · cases htext
      exact ⟨hne, hdigits⟩
  · rintro ⟨hne, hdigits⟩
    exact ⟨rest, hne, hdigits, .inr rfl⟩

theorem spells_iff_of_unsigned {text : List Char} {n : Nat} (h : ∀ rest, text ≠ '+' :: rest) :
    Spells text n ↔ text ≠ [] ∧ Digits text n := by
  constructor
  · rintro ⟨number, hne, hdigits, rfl | rfl⟩
    · exact ⟨hne, hdigits⟩
    · exact absurd rfl (h number)
  · rintro ⟨hne, hdigits⟩
    exact ⟨text, hne, hdigits, .inl rfl⟩

/-- **Reading accepts what is an unsigned number up to the limit, and nothing else.** -/
theorem parseChars_eq_ok_iff {limit n : Nat} {text : List Char} :
    parseChars limit text = .ok n ↔ Spells text n ∧ n ≤ limit := by
  fun_cases parseChars limit text with
  | case1 =>
    rw [spells_iff_of_unsigned fun _ => (List.cons_ne_nil _ _).symm]
    exact ⟨(nomatch ·), fun h => absurd rfl h.1.1⟩
  | case2 =>
    rw [spells_plus_iff]
    exact ⟨(nomatch ·), fun h => absurd rfl h.1.1⟩
  | case3 rest hne =>
    rw [spells_plus_iff, digits_zero_eq_ok_iff, and_iff_right hne]
  | case4 _ hempty _ hunsigned =>
    rw [spells_iff_of_unsigned hunsigned, digits_zero_eq_ok_iff,
      and_iff_right hempty]

end EventMerge.Text.Decimal
