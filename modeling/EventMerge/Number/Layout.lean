import EventMerge.Number.Shortest
import EventMerge.Text.Decimal

/-!
# Writing decimals

* `positional`      digits with a point among them, as many zeros as it takes;
* `Layout`          where positional notation ends, and whether a whole number keeps its point;
* `Layout.write`    the text of a decimal in a layout.
-/

namespace EventMerge.Number

def digitChars (n : Nat) : List Char := Nat.toDigits 10 n

/-- digits with the point after the first `point` of them; `none` stands for no fraction at all -/
def positional (wholeSuffix : String) (d : DecimalNumber) : String :=
  let digits := digitChars d.digits
  let point : Int := digits.length + d.exponent
  if 0 ≤ d.exponent then
    String.ofList (digits ++ List.replicate d.exponent.toNat '0') ++ wholeSuffix
  else if 0 < point then
    String.ofList (digits.take point.toNat ++ '.' :: digits.drop point.toNat)
  else
    String.ofList ('0' :: '.' :: List.replicate (-point).toNat '0' ++ digits)

def scientific (d : DecimalNumber) : String :=
  let digits := digitChars d.digits
  let lead : Int := digits.length + d.exponent - 1
  let fraction := if digits.length ≤ 1 then [] else '.' :: digits.drop 1
  String.ofList (digits.take 1 ++ fraction) ++ (if lead < 0 then "e" else "e+")
    ++ Text.Decimal.ofInt lead

structure Layout where
  /-- the least exponent of the leading digit that is written positionally -/
  minLead : Int
  maxLead : Int
  wholeSuffix : String

namespace Layout

def write (l : Layout) (d : DecimalNumber) : String :=
  let lead : Int := (digitChars d.digits).length + d.exponent - 1
  if d.digits = 0 ∨ (l.minLead ≤ lead ∧ lead ≤ l.maxLead) then positional l.wholeSuffix d
  else scientific d

end Layout

def plainText (f : Format) (negative : Bool) : Magnitude → String
  | .infinite => if negative then "-inf" else "inf"
  | .finite significand exponent =>
    (if negative then "-" else "") ++ positional "" (shortest f significand exponent)

end EventMerge.Number
