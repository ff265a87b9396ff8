/-!
# Binary floating-point magnitudes

A magnitude is a whole number times a power of two.  A format bounds the significand to `precision`
bits and the exponent from below and above; a ratio is rounded to the nearest magnitude of a format,
a tie going to the even significand.

* `Format.ofRatio`    the magnitude nearest to a quotient;
* `Format.encode`     its bit pattern, without the sign;
* `Format.decode`     the magnitude of a bit pattern;
* `Real.ofRatio`      the same with a sign.
-/

namespace EventMerge.Number

/-- a non-negative number: `significand * 2 ^ exponent`, or infinity -/
inductive Magnitude where
  | finite (significand : Nat) (exponent : Int)
  | infinite
  deriving DecidableEq

/-- a binary format: the significand has `precision` bits, the exponent lies between
`minExponent` and `maxExponent` -/
structure Format where
  precision : Nat
  minExponent : Int
  maxExponent : Int
  deriving DecidableEq

def single : Format := ⟨24, -149, 104⟩

def double : Format := ⟨53, -1074, 971⟩

def scaled (num den : Nat) (shift : Int) : Nat × Nat :=
  if 0 ≤ shift then (num * Nat.pow 2 shift.toNat, den) else (num, den * Nat.pow 2 (-shift).toNat)

/-- the whole number nearest to `num / den`, a tie going to the even one -/
def divEven (num den : Nat) : Nat :=
  let quotient := num / den
  let twice := 2 * (num % den)
  if den < twice then quotient + 1
  else if twice = den then quotient + quotient % 2
  else quotient

namespace Format

/-- the exponent at which the quotient has a significand of full precision, or the least one.
The difference of the bit lengths is at most one too large, which the second test mends. -/
def exponentOf (f : Format) (num den : Nat) : Int :=
  let guess : Int := (num.log2 : Int) - den.log2 - (f.precision - 1 : Nat)
  let (n, d) := scaled num den (-guess)
  let exact := if n < d * Nat.pow 2 (f.precision - 1) then guess - 1 else guess
  max exact f.minExponent

/-- a significand that rounding carried to one bit too many gives that bit to the exponent -/
def normalize (f : Format) (significand : Nat) (exponent : Int) : Magnitude :=
  let (significand, exponent) :=
    if significand = Nat.pow 2 f.precision then (Nat.pow 2 (f.precision - 1), exponent + 1)
    else (significand, exponent)
  if f.maxExponent < exponent then .infinite else .finite significand exponent

def ofRatio (f : Format) (num den : Nat) : Magnitude :=
  if num = 0 then .finite 0 f.minExponent
  else
    let exponent := f.exponentOf num den
    let (n, d) := scaled num den (-exponent)
    f.normalize (divEven n d) exponent

/-- the bit pattern of a magnitude of the format: the biased exponent above the significand
without its leading bit -/
def encode (f : Format) : Magnitude → Nat
  | .infinite => (f.maxExponent - f.minExponent + 2).toNat * Nat.pow 2 (f.precision - 1)
  | .finite significand exponent =>
    if significand < Nat.pow 2 (f.precision - 1) then significand
    else (exponent - f.minExponent).toNat * Nat.pow 2 (f.precision - 1) + significand

/-- the magnitude of a bit pattern without sign; `none` for a pattern that is not a number -/
def decode (f : Format) (bits : Nat) : Option Magnitude :=
  let biased := bits / Nat.pow 2 (f.precision - 1)
  let fraction := bits % Nat.pow 2 (f.precision - 1)
  if (f.maxExponent - f.minExponent + 2).toNat ≤ biased then
    if fraction = 0 then some .infinite else none
  else if biased = 0 then some (.finite fraction f.minExponent)
  else some (.finite (fraction + Nat.pow 2 (f.precision - 1)) (f.minExponent + (biased - 1 : Nat)))

end Format

/-! ## arithmetic on magnitudes -/

namespace Magnitude

def ratio? : Magnitude → Option (Nat × Nat)
  | finite significand exponent => some (scaled significand 1 exponent)
  | infinite => none

def isZero : Magnitude → Bool
  | finite significand _ => significand = 0
  | infinite => false

def mul (f : Format) (a b : Magnitude) : Magnitude :=
  match a.ratio?, b.ratio? with
  | some (an, ad), some (bn, bd) => f.ofRatio (an * bn) (ad * bd)
  | _, _ => .infinite

def div (f : Format) (a b : Magnitude) : Magnitude :=
  match a.ratio?, b.ratio? with
  | some (an, ad), some (bn, bd) => f.ofRatio (an * bd) (ad * bn)
  | _, _ => .infinite

def toFormat (f : Format) (a : Magnitude) : Magnitude :=
  match a.ratio? with
  | some (num, den) => f.ofRatio num den
  | none => .infinite

end Magnitude

end EventMerge.Number
