import EventMerge.Number.Layout

/-!
# Reading a double-precision number

An optional sign, then digits with at most one point among them and an optional exponent; or one of
the words `inf`, `infinity` and `nan`, in any case of letters.  At least one digit stands before the
exponent, on either side of the point.

* `Double`             a number of double precision, or none;
* `Double.parse?`      reads a text;
* `Double.text`        its shortest positional text;
* `Double.isFraction`  between zero and one, both included.
-/

namespace EventMerge.Number

inductive Double where
  | nan
  | number (negative : Bool) (magnitude : Magnitude)
  deriving DecidableEq

namespace Double

def isDigit (c : Char) : Bool := '0' ≤ c && c ≤ '9'

def digitsValue (digits : List Char) : Nat :=
  digits.foldl (fun value c => 10 * value + (c.toNat - 48)) 0

/-- exponents are read to five digits and one more: no number of double precision needs them -/
def exponentValue (digits : List Char) : Nat :=
  digits.foldl (fun value c => if value < 0x10000 then 10 * value + (c.toNat - 48) else value) 0

def exponent? : List Char → Option Int
  | [] => some 0
  | c :: rest =>
    if c = 'e' ∨ c = 'E' then
      let (negative, digits) :=
        match rest with
        | '-' :: digits => (true, digits)
        | '+' :: digits => (false, digits)
        | digits => (false, digits)
      if digits.isEmpty || !digits.all isDigit then none
      else if negative then some (-(exponentValue digits : Int)) else some (exponentValue digits)
    else none

def splitDigits (text : List Char) : List Char × List Char × List Char :=
  let whole := text.takeWhile isDigit
  match text.dropWhile isDigit with
  | '.' :: rest => (whole, rest.takeWhile isDigit, rest.dropWhile isDigit)
  | rest => (whole, [], rest)

def unsigned? (text : List Char) : Option Magnitude :=
  let (whole, fraction, rest) := splitDigits text
  if whole.isEmpty && fraction.isEmpty then none
  else (exponent? rest).map fun exponent =>
    let (num, den) := DecimalNumber.ratio
      ⟨digitsValue (whole ++ fraction), exponent - (fraction.length : Nat)⟩
    double.ofRatio num den

def word? (negative : Bool) (text : List Char) : Option Double :=
  let word := text.map Char.toLower
  if word = "nan".toList then some nan
  else if word = "inf".toList ∨ word = "infinity".toList then some (number negative .infinite)
  else none

def parse? (text : String) : Option Double :=
  let (negative, rest) :=
    match text.toList with
    | '-' :: rest => (true, rest)
    | '+' :: rest => (false, rest)
    | rest => (false, rest)
  match unsigned? rest with
  | some magnitude => some (number negative magnitude)
  | none => word? negative rest

def text : Double → String
  | nan => "NaN"
  | number negative magnitude => plainText double negative magnitude

def zero : Double := number false (double.ofRatio 0 1)

def one : Magnitude := double.ofRatio 1 1

/-- the number lies between zero and one, both included; patterns of magnitudes are in the order
of their values -/
def isFraction : Double → Bool
  | nan => false
  | number negative magnitude =>
    if negative then magnitude.isZero else double.encode magnitude ≤ double.encode one

def isPositive : Double → Bool
  | nan => false
  | number negative magnitude => !negative && !magnitude.isZero

def scaledFloor (scale : Nat) : Double → Nat
  | nan => 0
  | number _ magnitude =>
    match magnitude.ratio? with
    | some (num, den) => num * scale / den
    | none => 0

end Double

end EventMerge.Number
