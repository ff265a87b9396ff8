import EventMerge.Number.Binary

/-!
# The shortest decimal that reads back

Among the decimals that round to a given magnitude the shortest are taken, of those the nearest, and
of two equally near ones the even.  Grids of one, two, … digits are tried in turn: if a point of a
grid rounds to the magnitude, so does one of the two neighbours of the magnitude on that grid.

* `Interval`   the numbers that round to a magnitude;
* `shortest`   digits and decimal exponent of the shortest decimal in it.
-/

namespace EventMerge.Number

structure DecimalNumber where
  digits : Nat
  exponent : Int
  deriving DecidableEq

namespace DecimalNumber

def ratio (d : DecimalNumber) : Nat × Nat :=
  if 0 ≤ d.exponent then (d.digits * Nat.pow 10 d.exponent.toNat, 1)
  else (d.digits, Nat.pow 10 (-d.exponent).toNat)

def stripZeros : Nat → DecimalNumber → DecimalNumber
  | 0, d => d
  | fuel + 1, d =>
    if d.digits ≠ 0 ∧ d.digits % 10 = 0 then stripZeros fuel ⟨d.digits / 10, d.exponent + 1⟩ else d

end DecimalNumber

/-- the numbers that round to a magnitude, in units of a quarter of its last place: between `low`
and `high`, the ends included when the significand is even -/
structure Interval where
  low : Nat
  high : Nat
  closed : Bool
  deriving DecidableEq

namespace Interval

/-- the interval of a significand; below a power of two the spacing is halved -/
def ofSignificand (f : Format) (significand : Nat) (exponent : Int) : Interval :=
  let narrow := significand = Nat.pow 2 (f.precision - 1) ∧ f.minExponent < exponent
  ⟨4 * significand - (if narrow then 1 else 2), 4 * significand + 2, significand % 2 = 0⟩

def contains (i : Interval) (num den : Nat) : Bool :=
  if i.closed then i.low * den ≤ num && num ≤ i.high * den
  else i.low * den < num && num < i.high * den

end Interval

def perPower (num den : Nat) (k : Int) : Nat × Nat :=
  if 0 ≤ k then (num, den * Nat.pow 10 k.toNat) else (num * Nat.pow 10 (-k).toNat, den)

/-- the exponent of the leading digit of `num / den`, found from the bit lengths and corrected -/
def leadingExponent (num den : Nat) : Int :=
  let bits : Int := (num.log2 : Int) - den.log2
  let guess : Int := bits * 30103 / 100000 - 1
  let reaches (k : Int) : Bool :=
    let (n, d) := perPower num den k
    d ≤ n
  if reaches (guess + 2) then guess + 2 else if reaches (guess + 1) then guess + 1 else guess

/-- the neighbour on the grid of `10 ^ k` that lies in the interval, the nearer if both do -/
def onGrid? (i : Interval) (num den : Nat) (exponent : Int) (k : Int) : Option Nat :=
  let (n, d) := perPower num den k
  let below := n / d
  let rest := n % d
  let inside (digits : Nat) : Bool :=
    -- `digits * 10 ^ k` in quarters of `2 ^ exponent`
    let (dn, dd) := DecimalNumber.ratio ⟨digits, k⟩
    let (qn, qd) := scaled (4 * dn) dd (-exponent)
    i.contains qn qd
  match inside below, inside (below + 1) with
  | true, true =>
    if 2 * rest < d then some below
    else if d < 2 * rest then some (below + 1)
    else some (below + below % 2)
  | true, false => some below
  | false, true => some (below + 1)
  | false, false => none

def searchGrids (i : Interval) (num den : Nat) (exponent lead : Int) : Nat → Nat → DecimalNumber
  | _, 0 => ⟨0, 0⟩
  | count, fuel + 1 =>
    let k := lead - (count - 1 : Nat)
    match onGrid? i num den exponent k with
    | some digits => ⟨digits, k⟩
    | none => searchGrids i num den exponent lead (count + 1) fuel

/-- seventeen digits tell all magnitudes of double precision apart -/
def maxDigits : Nat := 17

/-- the shortest decimal that rounds to `significand * 2 ^ exponent` -/
def shortest (f : Format) (significand : Nat) (exponent : Int) : DecimalNumber :=
  if significand = 0 then ⟨0, 0⟩
  else
    let (num, den) := scaled significand 1 exponent
    let interval := Interval.ofSignificand f significand exponent
    (searchGrids interval num den exponent (leadingExponent num den) 1 maxDigits).stripZeros
      (maxDigits + 1)

end EventMerge.Number
