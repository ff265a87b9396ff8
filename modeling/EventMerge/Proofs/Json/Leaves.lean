import EventMerge.Json.Record
import Mathlib.Data.List.Basic
import Mathlib.Data.List.TakeWhile
import Mathlib.Tactic.SplitIfs

/-!
# Numbers and strings of a document, written and read back

* `Numeral.ofToken?_ofNat`, `Numeral.ofToken?_minus`  digits are a numeral, also after a minus sign;
* `Numeral.IsToken`          what is written for a number;
* `integer?_ofInt`           it has the value of the number;
* `Parser.string?_ofOctets`  the octets that are written between quotes do not close them;
* `Literal.text?_ofText`     and stand for the text.
-/

namespace EventMerge.Json

open Text

/-! ## digits -/

theorem isDigit_digit {n : Nat} (h : n < 10) : Ascii.isDigit (UInt8.ofNat (0x30 + n)) = true := by
  have hall : ∀ n < 10, Ascii.isDigit (UInt8.ofNat (0x30 + n)) = true := by decide
  exact hall n h

theorem isDigit_ofNat (n : Nat) : ∀ b ∈ Ascii.ofNat n, Ascii.isDigit b = true := by
  fun_induction Ascii.ofNat n with
  | case1 n h =>
    intro b hb
    rw [List.mem_singleton] at hb
    rw [hb]
    exact isDigit_digit h
  | case2 n h ih =>
    intro b hb
    rcases List.mem_append.mp hb with hb | hb
    · exact ih b hb
    · rw [List.mem_singleton] at hb
      rw [hb]
      exact isDigit_digit (Nat.mod_lt n (by decide))

theorem ofNat_ne_nil (n : Nat) : Ascii.ofNat n ≠ [] := by
  unfold Ascii.ofNat
  split <;> simp

theorem head?_ofNat {n : Nat} (h : 0 < n) : (Ascii.ofNat n).head? ≠ some 0x30 := by
  fun_induction Ascii.ofNat n with
  | case1 n hn =>
    have hall : ∀ n < 10, 0 < n → UInt8.ofNat (0x30 + n) ≠ 0x30 := by decide
    intro hhead
    exact hall n hn h (Option.some.inj hhead)
  | case2 n hn ih =>
    rw [List.head?_append_of_ne_nil _ (ofNat_ne_nil (n / 10))]
    exact ih (by omega)

theorem isDigit_ne {b c : UInt8} (hb : Ascii.isDigit b = true) (hc : Ascii.isDigit c = false) :
    b ≠ c := by
  intro h
  rw [h, hc] at hb
  cases hb

namespace Numeral

theorem splitAt?_of_all {p : UInt8 → Bool} {text : Bytes} (h : ∀ b ∈ text, p b = false) :
    splitAt? p text = (text, none) := by
  have htake : (text.takeWhile fun b => !p b) = text :=
    List.takeWhile_eq_self_iff.mpr fun b hb => by rw [h b hb]; rfl
  have hdrop : (text.dropWhile fun b => !p b) = [] :=
    List.dropWhile_eq_nil_iff.mpr fun b hb => by rw [h b hb]; rfl
  rw [splitAt?, htake, hdrop]

theorem whole?_ofNat (n : Nat) : whole? (Ascii.ofNat n) = some (Ascii.ofNat n) := by
  have hdigits : digits? (Ascii.ofNat n) = some (Ascii.ofNat n) := by
    have hne : (Ascii.ofNat n).isEmpty = false := List.isEmpty_eq_false_iff.mpr (ofNat_ne_nil n)
    have hall : (Ascii.ofNat n).all Ascii.isDigit = true := List.all_eq_true.mpr (isDigit_ofNat n)
    rw [digits?, hne, hall]
    rfl
  have hzero : ¬ ((Ascii.ofNat n).head? = some 0x30 ∧ 1 < (Ascii.ofNat n).length) := by
    rintro ⟨hhead, hlength⟩
    by_cases hn : 0 < n
    · exact head?_ofNat hn hhead
    · have : n = 0 := by omega
      rw [this, Ascii.ofNat] at hlength
      exact absurd hlength (by decide)
  rw [whole?, if_neg hzero, hdigits]

theorem splitAt?_ofNat {p : UInt8 → Bool} (h : ∀ b, p b = true → Ascii.isDigit b = false) (n : Nat) :
    splitAt? p (Ascii.ofNat n) = (Ascii.ofNat n, none) := by
  refine splitAt?_of_all fun b hb => ?_
  cases hp : p b with
  | false => rfl
  | true => exact absurd rfl (isDigit_ne (isDigit_ofNat n b hb) (h b hp))

theorem splitExponent_ofNat (n : Nat) :
    splitAt? (fun b => b = 0x65 || b = 0x45) (Ascii.ofNat n) = (Ascii.ofNat n, none) := by
  refine splitAt?_ofNat (fun b hb => ?_) n
  simp only [Bool.or_eq_true, decide_eq_true_eq] at hb
  rcases hb with rfl | rfl <;> rfl

theorem splitPoint_ofNat (n : Nat) :
    splitAt? (fun b => b = 0x2E) (Ascii.ofNat n) = (Ascii.ofNat n, none) := by
  refine splitAt?_ofNat (fun b hb => ?_) n
  rw [of_decide_eq_true hb]
  rfl

/-- **The digits of a number are a numeral without sign, fraction and exponent.** -/
theorem ofToken?_ofNat (n : Nat) :
    ofToken? (Ascii.ofNat n) = some ⟨false, Ascii.ofNat n, none, none⟩ := by
  have hdigit := isDigit_ofNat n
  have hexponent := splitExponent_ofNat n
  have hfraction := splitPoint_ofNat n
  have hwhole := whole?_ofNat n
  cases htext : Ascii.ofNat n with
  | nil => exact absurd htext (ofNat_ne_nil n)
  | cons b rest =>
    rw [htext] at hexponent hfraction hwhole hdigit
    have hminus : b ≠ 0x2D := isDigit_ne (hdigit b List.mem_cons_self) rfl
    unfold ofToken?
    split
    rename_i negative unsigned hsign
    split at hsign
    · rename_i heq
      exact absurd (List.cons.inj heq).1 hminus
    · cases hsign
      rw [hexponent]
      dsimp only
      rw [hfraction]
      dsimp only
      rw [hwhole]
      rfl

theorem ofToken?_minus (n : Nat) :
    ofToken? (0x2D :: Ascii.ofNat n) = some ⟨true, Ascii.ofNat n, none, none⟩ := by
  unfold ofToken?
  split
  rename_i negative unsigned hsign
  split at hsign
  · rename_i rest heq
    obtain ⟨-, rfl⟩ := List.cons.inj heq
    cases hsign
    rw [splitExponent_ofNat]
    dsimp only
    rw [splitPoint_ofNat]
    dsimp only
    rw [whole?_ofNat]
    rfl
  · rename_i hother
    exact absurd rfl (hother (Ascii.ofNat n))

theorem isTokenByte_ofNat (n : Nat) : ∀ b ∈ Ascii.ofNat n, isTokenByte b = true := by
  intro b hb
  rw [isTokenByte, isDigit_ofNat n b hb]
  rfl

/-- the octets are a number, which shows in the first of them -/
structure IsToken (token : Bytes) : Prop where
  starts : ∃ b rest, token = b :: rest ∧ (Ascii.isDigit b = true ∨ b = 0x2D)
  octets : ∀ b ∈ token, isTokenByte b = true
  numeral : (ofToken? token).isSome = true

theorem isToken_ofNat (n : Nat) : IsToken (Ascii.ofNat n) := by
  refine ⟨?_, isTokenByte_ofNat n, by rw [ofToken?_ofNat]; rfl⟩
  have hdigit := isDigit_ofNat n
  cases htext : Ascii.ofNat n with
  | nil => exact absurd htext (ofNat_ne_nil n)
  | cons b rest => exact ⟨b, rest, rfl, .inl (hdigit b (htext ▸ List.mem_cons_self))⟩

theorem isToken_minus (n : Nat) : IsToken (0x2D :: Ascii.ofNat n) := by
  refine ⟨⟨0x2D, _, rfl, .inr rfl⟩, fun b hb => ?_, by rw [ofToken?_minus]; rfl⟩
  rcases List.mem_cons.mp hb with rfl | hb
  · rfl
  · exact isTokenByte_ofNat n b hb

end Numeral

/-- what is written for a whole number within the bounds is read as the number -/
theorem integer?_ofInt {low high n : Int} (hlow : low ≤ n) (hhigh : n ≤ high) :
    integer? low high (Tree.ofInt n) = some n := by
  have hbounds : low ≤ n ∧ n ≤ high := ⟨hlow, hhigh⟩
  cases n with
  | ofNat n =>
    have hvalue : (Numeral.ofToken? (Ascii.ofNat n)).bind Numeral.integer? = some (Int.ofNat n) := by
      rw [Numeral.ofToken?_ofNat, Option.bind_some]
      show some ((Ascii.digitsValue (Ascii.ofNat n) : Nat) : Int) = _
      rw [Ascii.digitsValue_ofNat]
      rfl
    rw [Tree.ofInt, Tree.ofNat, integer?, hvalue]
    exact if_pos hbounds
  | negSucc n =>
    have hvalue : (Numeral.ofToken? (0x2D :: Ascii.ofNat (n + 1))).bind Numeral.integer?
        = some (Int.negSucc n) := by
      rw [Numeral.ofToken?_minus, Option.bind_some]
      show (if Ascii.digitsValue (Ascii.ofNat (n + 1)) = 0 then none
        else some (-((Ascii.digitsValue (Ascii.ofNat (n + 1)) : Nat) : Int))) = _
      rw [Ascii.digitsValue_ofNat, if_neg (Nat.succ_ne_zero n)]
      rfl
    rw [Tree.ofInt, integer?, hvalue]
    exact if_pos hbounds

theorem natural?_ofNat {n high : Nat} (h : n ≤ high) : natural? high (Tree.ofNat n) = some n := by
  have hvalue : integer? 0 high (Tree.ofInt (Int.ofNat n)) = some (Int.ofNat n) :=
    integer?_ofInt (Int.natCast_nonneg n) (Int.ofNat_le.mpr h)
  show (integer? 0 high (Tree.ofInt (Int.ofNat n))).map Int.toNat = some n
  rw [hvalue]
  rfl

theorem octet?_ofNat (b : UInt8) : octet? (Tree.ofNat b.toNat) = some b := by
  have hb := b.toNat_lt
  rw [octet?, natural?_ofNat (by omega), Option.map_some, UInt8.ofNat_toNat]

/-! ## strings -/

namespace Parser

theorem string?_plain {c : UInt8} (hquote : c ≠ Ascii.quoteMark) (hescape : c ≠ Ascii.backslash)
    {text raw after : Bytes} (h : string? text = some (raw, after)) :
    string? (c :: text) = some (c :: raw, after) := by
  rw [string?]
  · rw [h]
  · exact hquote
  · intro _ _ heq _
    exact hescape heq

theorem string?_escape (c : UInt8) {text raw after : Bytes} (h : string? text = some (raw, after)) :
    string? (Ascii.backslash :: c :: text) = some (Ascii.backslash :: c :: raw, after) := by
  have hstep := string?.eq_3 c text
  rw [h] at hstep
  exact hstep

end Parser

namespace Literal

/-- an octet below 128 is written as it is, or as an escape, which has a backslash in front -/
inductive Written (b : UInt8) : Bytes → Piece → Prop
  | escaped (letter : UInt8) (hletter : letter ≠ Ascii.letterU) (hb : escape? letter = some b) :
      Written b [Ascii.backslash, letter] (.escaped b)
  | unit (c d : UInt8) (hunit : unit? 0x30 0x30 c d = some b.toNat) (hcontrol : b.toNat < 0x20)
      (hc : c ≠ Ascii.quoteMark ∧ c ≠ Ascii.backslash ∧ Ascii.isControl c = false)
      (hd : d ≠ Ascii.quoteMark ∧ d ≠ Ascii.backslash ∧ Ascii.isControl d = false) :
      Written b [Ascii.backslash, Ascii.letterU, 0x30, 0x30, c, d] (.unit b.toNat)
  | plain (hquote : b ≠ Ascii.quoteMark) (hescape : b ≠ Ascii.backslash)
      (hcontrol : Ascii.isControl b = false) : Written b [b] (.octet b)

theorem written_ofOctet (b : UInt8) : ∃ piece, Written b (ofOctet b) piece := by
  have hdigits : ∀ n < 32, unit? 0x30 0x30 (Ascii.hexDigit (n / 16)) (Ascii.hexDigit (n % 16)) = some n := by
    decide
  have hplain : ∀ n < 16, Ascii.hexDigit n ≠ Ascii.quoteMark ∧ Ascii.hexDigit n ≠ Ascii.backslash
      ∧ Ascii.isControl (Ascii.hexDigit n) = false := by decide
  unfold ofOctet
  split_ifs with hself hbackspace hfeed hline hreturn htab hcontrol
  · refine ⟨_, .escaped b ?_ ?_⟩
    · rcases hself with rfl | rfl <;> decide
    · rcases hself with rfl | rfl <;> rfl
  · exact ⟨_, .escaped 0x62 (by decide) (hbackspace ▸ rfl)⟩
  · exact ⟨_, .escaped 0x66 (by decide) (hfeed ▸ rfl)⟩
  · exact ⟨_, .escaped 0x6E (by decide) (hline ▸ rfl)⟩
  · exact ⟨_, .escaped 0x72 (by decide) (hreturn ▸ rfl)⟩
  · exact ⟨_, .escaped 0x74 (by decide) (htab ▸ rfl)⟩
  · have hb : b.toNat < 32 := of_decide_eq_true hcontrol
    exact ⟨_, .unit _ _ (hdigits _ hb) hb (hplain _ (by omega)) (hplain _ (by omega))⟩
  · rw [not_or] at hself
    exact ⟨_, .plain hself.1 hself.2 (Bool.not_eq_true _ ▸ hcontrol)⟩

theorem isControl_of_escape? {letter b : UInt8} (h : escape? letter = some b) :
    Ascii.isControl letter = false := by
  unfold escape? at h
  split_ifs at h with hself hbackspace hfeed hline hreturn htab
  · rcases hself with rfl | rfl | rfl <;> rfl
  · rw [hbackspace]; rfl
  · rw [hfeed]; rfl
  · rw [hline]; rfl
  · rw [hreturn]; rfl
  · rw [htab]; rfl

namespace Written

variable {b : UInt8} {raw : Bytes} {piece : Piece}

theorem string? (h : Written b raw piece) {text rest after : Bytes}
    (htext : Parser.string? text = some (rest, after)) :
    Parser.string? (raw ++ text) = some (raw ++ rest, after) := by
  cases h with
  | escaped letter => exact Parser.string?_escape letter htext
  | unit c d hunit hcontrol hc hd =>
    have hzero : (0x30 : UInt8) ≠ Ascii.quoteMark ∧ (0x30 : UInt8) ≠ Ascii.backslash := by decide
    exact Parser.string?_escape _ (Parser.string?_plain hzero.1 hzero.2
      (Parser.string?_plain hzero.1 hzero.2 (Parser.string?_plain hc.1 hc.2.1
        (Parser.string?_plain hd.1 hd.2.1 htext))))
  | plain hquote hescape => exact Parser.string?_plain hquote hescape htext

theorem pieces? (h : Written b raw piece) {text : Bytes} {pieces : List Piece}
    (htext : Literal.pieces? text = some pieces) :
    Literal.pieces? (raw ++ text) = some (piece :: pieces) := by
  cases h with
  | escaped letter hletter hb =>
    have hother : ∀ a b c d : UInt8, ∀ rest : Bytes, letter = Ascii.letterU →
        text = a :: b :: c :: d :: rest → False := fun _ _ _ _ _ heq _ => hletter heq
    have hstep := Literal.pieces?.eq_4 letter text hother
    rw [hb, htext] at hstep
    exact hstep
  | unit c d hunit =>
    have hstep := Literal.pieces?.eq_2 0x30 0x30 c d text
    rw [hunit, htext] at hstep
    exact hstep
  | plain hquote hescape =>
    show Literal.pieces? (b :: text) = _
    rw [Literal.pieces?]
    · rw [htext]
      rfl
    · intro _ _ _ _ _ heq _
      exact hescape heq
    · intro heq _
      exact hescape heq
    · intro _ _ heq _
      exact hescape heq

theorem isPlain (h : Written b raw piece) (text : Bytes) :
    Literal.isPlain (raw ++ text) = Literal.isPlain text := by
  have hall : raw.all (fun c => !Ascii.isControl c) = true := by
    cases h with
    | escaped letter _ hb =>
      simp [isControl_of_escape? hb]
      decide
    | unit c d _ _ hc hd =>
      simp [hc.2.2, hd.2.2]
      decide
    | plain _ _ hcontrol => simp [hcontrol]
  rw [Literal.isPlain, List.all_append, hall]
  rfl

end Written

/-! ## units that are no surrogates -/

theorem isSurrogate_of_lt {n : Nat} (h : n < 0xD800) :
    isLeading n = false ∧ isTrailing n = false := by
  simp [isLeading, isTrailing]
  omega

theorem join_unit {n : Nat} (h : n < 0xD800) (pieces : List Piece) :
    join (.unit n :: pieces) = codeOctets n ++ join pieces := by
  have hleading := (isSurrogate_of_lt h).1
  cases pieces with
  | nil => rfl
  | cons next rest =>
    cases next with
    | octet b => rfl
    | escaped b => rfl
    | unit m => rw [join, hleading, Bool.false_and, if_neg Bool.false_ne_true]

theorem isPaired_unit {n : Nat} (h : n < 0xD800) (pieces : List Piece) :
    isPaired (.unit n :: pieces) = isPaired pieces := by
  obtain ⟨hleading, htrailing⟩ := isSurrogate_of_lt h
  cases pieces with
  | nil => simp [isPaired, hleading, htrailing]
  | cons next rest =>
    cases next with
    | octet b => simp [isPaired, hleading, htrailing]
    | escaped b => simp [isPaired, hleading, htrailing]
    | unit m => rw [isPaired, hleading, htrailing]; simp

namespace Written

variable {b : UInt8} {raw : Bytes} {piece : Piece}

theorem join (h : Written b raw piece) (pieces : List Piece) :
    Literal.join (piece :: pieces) = b :: Literal.join pieces := by
  cases h with
  | escaped => rfl
  | unit _ _ _ hcontrol =>
    rw [join_unit (by omega), codeOctets, if_pos (by omega), UInt8.ofNat_toNat]
    rfl
  | plain => rfl

theorem isPaired (h : Written b raw piece) (pieces : List Piece) :
    Literal.isPaired (piece :: pieces) = Literal.isPaired pieces := by
  cases h with
  | escaped => rfl
  | unit _ _ _ hcontrol => exact isPaired_unit (by omega) pieces
  | plain => rfl

end Written

theorem string?_ofOctets (octets after : Bytes) :
    Parser.string? (ofOctets octets ++ Ascii.quoteMark :: after) = some (ofOctets octets, after) := by
  induction octets with
  | nil => rfl
  | cons b rest ih =>
    obtain ⟨piece, hpiece⟩ := written_ofOctet b
    rw [ofOctets_cons, List.append_assoc]
    exact hpiece.string? ih

theorem pieces?_ofOctets (octets : Bytes) :
    ∃ pieces, Literal.pieces? (ofOctets octets) = some pieces ∧ Literal.join pieces = octets
      ∧ Literal.isPaired pieces = true ∧ Literal.isPlain (ofOctets octets) = true := by
  induction octets with
  | nil => exact ⟨[], rfl, rfl, rfl, rfl⟩
  | cons b rest ih =>
    obtain ⟨piece, hpiece⟩ := written_ofOctet b
    obtain ⟨pieces, hpieces, hjoin, hpaired, hplain⟩ := ih
    rw [ofOctets_cons]
    refine ⟨piece :: pieces, hpiece.pieces? hpieces, ?_, ?_, ?_⟩
    · rw [hpiece.join, hjoin]
    · rw [hpiece.isPaired, hpaired]
    · rw [hpiece.isPlain, hplain]

/-- **What is written for a text is read as the text.** -/
theorem text?_ofText (text : String) : text? (ofText text) = some text := by
  obtain ⟨pieces, hpieces, hjoin, hpaired, hplain⟩ := pieces?_ofOctets (Bytes.ofText text)
  rw [text?, ofText, hpieces]
  dsimp only
  rw [hplain, hpaired, hjoin, Bytes.toText?_ofText]
  rfl

end Literal

end EventMerge.Json
