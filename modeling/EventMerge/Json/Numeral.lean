import EventMerge.Bytes
import EventMerge.Number.Binary
import EventMerge.Text.Ascii

/-!
# JSON numbers

* `Numeral`            the parts of a number: sign, digits, fraction, exponent;
* `Numeral.ofToken?`   the parts of a text, if it is a number;
* `Numeral.integer?`   the value of a number without fraction and exponent;
* `Numeral.single?`    the single-precision value of a number.

A number that is not whole, or does not fit into 64 bits, is read in three rounded steps: the
leading digits that fit into 64 bits, a power of ten, and the product or quotient of the two in
double precision.
-/

namespace EventMerge.Json

open Text Number

structure Numeral where
  negative : Bool
  whole : List UInt8
  fraction : Option (List UInt8)
  exponent : Option (Bool × List UInt8)
  deriving DecidableEq

namespace Numeral

def isTokenByte (b : UInt8) : Bool :=
  Ascii.isDigit b || b = 0x2B || b = 0x2D || b = 0x2E || b = 0x45 || b = 0x65

def digits? (text : Bytes) : Option (List UInt8) :=
  if !text.isEmpty && text.all Ascii.isDigit then some text else none

def whole? (text : Bytes) : Option (List UInt8) :=
  if text.head? = some 0x30 ∧ 1 < text.length then none else digits? text

def exponent? (text : Bytes) : Option (Bool × List UInt8) :=
  match text with
  | 0x2D :: digits => (digits? digits).map (true, ·)
  | 0x2B :: digits => (digits? digits).map (false, ·)
  | digits => (digits? digits).map (false, ·)

/-- the text before and after the first octet that satisfies `p`, which belongs to neither -/
def splitAt? (p : UInt8 → Bool) (text : Bytes) : Bytes × Option Bytes :=
  let before := text.takeWhile fun b => !p b
  match text.dropWhile fun b => !p b with
  | [] => (before, none)
  | _ :: after => (before, some after)

/-- a part that may be missing but must be well formed if it is there -/
def part? {α : Type} (read : Bytes → Option α) : Option Bytes → Option (Option α)
  | none => some none
  | some text => (read text).map some

def ofToken? (token : Bytes) : Option Numeral :=
  let (negative, unsigned) :=
    match token with
    | 0x2D :: rest => (true, rest)
    | rest => (false, rest)
  let (mantissa, exponentText) := splitAt? (fun b => b = 0x65 || b = 0x45) unsigned
  let (wholeText, fractionText) := splitAt? (fun b => b = 0x2E) mantissa
  match whole? wholeText, part? digits? fractionText, part? exponent? exponentText with
  | some whole, some fraction, some exponent => some ⟨negative, whole, fraction, exponent⟩
  | _, _, _ => none

/-- the value of a number without fraction and exponent; a negative zero is none -/
def integer? (n : Numeral) : Option Int :=
  match n.fraction, n.exponent with
  | none, none =>
    let value := Ascii.digitsValue n.whole
    if n.negative then (if value = 0 then none else some (-(value : Int))) else some value
  | _, _ => none

/-! ## approximate values -/

/-- digits read while the number fits into 64 bits, and those that are left over -/
def fitting : Nat → List UInt8 → Nat × List UInt8
  | value, [] => (value, [])
  | value, b :: rest =>
    let next := 10 * value + (b.toNat - 0x30)
    if 0x10000000000000000 ≤ next then (value, b :: rest) else fitting next rest

/-- the leading digits and the power of ten they are taken with -/
def significand (n : Numeral) : Nat × Int :=
  let (leading, dropped) := fitting 0 n.whole
  let fraction := n.fraction.getD []
  let (value, unread) := fitting leading fraction
  (value, (dropped.length : Int) - (fraction.length - unread.length : Nat))

def powerOfTen (exponent : Nat) : Magnitude := double.ofRatio (Nat.pow 10 exponent) 1

def greatestPower : Nat := 308

theorem greatestPower_pos : 0 < greatestPower := Nat.lt_of_sub_eq_succ rfl

/-- `m` divided by `10 ^ 308` as often as it takes to bring the exponent `-k` above `-309` -/
def scaleDown (m : Magnitude) (k : Nat) : Magnitude :=
  if greatestPower < k then
    if m.isZero then m else scaleDown (m.div double (powerOfTen greatestPower)) (k - greatestPower)
  else m.div double (powerOfTen k)
termination_by k
decreasing_by exact Nat.sub_lt (Nat.zero_lt_of_lt ‹_›) greatestPower_pos

/-- the product with a power of ten; `none` when it is too large -/
def timesPower? (value : Nat) (exponent : Int) : Option Magnitude :=
  let m := double.ofRatio value 1
  if exponent < 0 then some (scaleDown m (-exponent).toNat)
  else if (greatestPower : Int) < exponent then (if m.isZero then some m else none)
  else
    match m.mul double (powerOfTen exponent.toNat) with
    | .infinite => none
    | product => some product

/-- the magnitude in double precision.  Exponents beyond 31 bits are not told apart: they give
zero, or no number at all. -/
def magnitude? (n : Numeral) : Option Magnitude :=
  let (value, scale) := n.significand
  match n.exponent with
  | none => timesPower? value scale
  | some (down, digits) =>
    let exponent := Ascii.digitsValue digits
    if 0x80000000 ≤ exponent then
      if value = 0 ∨ down = true then some (.finite 0 double.minExponent) else none
    else timesPower? value (if down then scale - exponent else scale + exponent)

/-- the single-precision magnitude: whole numbers of 64 bits are rounded once, others twice -/
def single? (n : Numeral) : Option Magnitude :=
  let value := Ascii.digitsValue n.whole
  let fits := if n.negative then value ≤ 0x8000000000000000 else value < 0x10000000000000000
  if n.fraction.isNone ∧ n.exponent.isNone ∧ fits then some (single.ofRatio value 1)
  else n.magnitude?.map (Magnitude.toFormat single)

end Numeral

end EventMerge.Json
