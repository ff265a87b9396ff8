import EventMerge.Number.Literal

/-!
# TOML numbers, dates and truth values

A scalar that is not a string is a run of letters, digits and a few signs, which is then told apart by
its form.

* `Scalar.ofToken?`  the scalar of such a run;
* `DateTime.text`    the normal form of a date, a time, or both.
-/

namespace EventMerge.Toml

open Number.Double (isDigit digitsValue)

inductive Scalar where
  | string (text : String)
  | integer (value : Int)
  | float
  | boolean (value : Bool)
  /-- the normal form of a date or time -/
  | dateTime (text : String)
  deriving DecidableEq

/-! ## numbers -/

/-- digits, any two of them with at most one underscore between -/
def isGrouped (digit : Char → Bool) : List Char → Bool
  | [] => false
  | [c] => digit c
  | c :: '_' :: rest => digit c && isGrouped digit rest
  | c :: rest => digit c && isGrouped digit rest

def isWhole (text : List Char) : Bool :=
  isGrouped isDigit text && (text.length = 1 || text.head? ≠ some '0')

def ungroup (text : List Char) : List Char := text.filter (· ≠ '_')

def splitSign : List Char → Bool × List Char
  | '-' :: rest => (true, rest)
  | '+' :: rest => (false, rest)
  | text => (false, text)

def digitIn? (base : Nat) (c : Char) : Option Nat :=
  let n := c.toNat
  let value :=
    if isDigit c then n - 48
    else if 97 ≤ n ∧ n ≤ 102 then n - 87
    else if 65 ≤ n ∧ n ≤ 70 then n - 55
    else base
  if value < base then some value else none

def inBase? (base : Nat) (text : List Char) : Option Nat :=
  if isGrouped (fun c => (digitIn? base c).isSome) text then
    some ((ungroup text).foldl (fun value c => value * base + (digitIn? base c).getD 0) 0)
  else none

def inRange? (value : Int) : Option Int :=
  if -0x8000000000000000 ≤ value ∧ value < 0x8000000000000000 then some value else none

def integer? (text : List Char) : Option Int :=
  match text with
  | '0' :: 'x' :: digits => (inBase? 16 digits).bind fun n => inRange? n
  | '0' :: 'o' :: digits => (inBase? 8 digits).bind fun n => inRange? n
  | '0' :: 'b' :: digits => (inBase? 2 digits).bind fun n => inRange? n
  | text =>
    let (negative, digits) := splitSign text
    if isWhole digits then
      let value : Int := digitsValue (ungroup digits)
      inRange? (if negative then -value else value)
    else none

def splitAt? (p : Char → Bool) (text : List Char) : List Char × Option (List Char) :=
  match text.dropWhile fun c => !p c with
  | [] => (text, none)
  | _ :: after => (text.takeWhile fun c => !p c, some after)

/-- a part that may be missing but must be well formed if it is there -/
def partHolds (test : List Char → Bool) : Option (List Char) → Bool
  | none => true
  | some text => test text

/-- a number with a fraction or an exponent that is not beyond double precision, or one of the words
for what is not a finite number -/
def isFloat (text : List Char) : Bool :=
  let (negative, unsigned) := splitSign text
  if unsigned = "inf".toList ∨ unsigned = "nan".toList then true
  else
    let (mantissa, exponent) := splitAt? (fun c => c = 'e' || c = 'E') unsigned
    let (whole, fraction) := splitAt? (· = '.') mantissa
    let isExponent (e : List Char) : Bool := isGrouped isDigit (splitSign e).2
    isWhole whole && partHolds (isGrouped isDigit) fraction && partHolds isExponent exponent
      && (fraction.isSome || exponent.isSome)
      && (negative || Number.Double.unsigned? (ungroup unsigned) != some .infinite)

/-! ## dates and times -/

namespace DateTime

/-- a number of exactly `width` digits between two bounds, and what follows it -/
def field? (width low high : Nat) (text : List Char) : Option (Nat × List Char) :=
  let digits := text.take width
  let value := digitsValue digits
  if digits.length = width ∧ digits.all isDigit ∧ low ≤ value ∧ value ≤ high then
    some (value, text.drop width)
  else none

def after? (c : Char) : List Char → Option (List Char)
  | head :: rest => if head = c then some rest else none
  | [] => none

def isLeap (year : Nat) : Bool := year % 4 = 0 && (year % 100 ≠ 0 || year % 400 = 0)

def daysIn (year month : Nat) : Nat :=
  if month = 2 then (if isLeap year then 29 else 28)
  else if month = 4 ∨ month = 6 ∨ month = 9 ∨ month = 11 then 30
  else 31

def padded (width n : Nat) : String :=
  let digits := Nat.toDigits 10 n
  String.ofList (List.replicate (width - digits.length) '0' ++ digits)

def date? (text : List Char) : Option (String × List Char) := do
  let (year, text) ← field? 4 0 9999 text
  let text ← after? '-' text
  let (month, text) ← field? 2 1 12 text
  let text ← after? '-' text
  let (day, text) ← field? 2 1 (daysIn year month) text
  some (padded 4 year ++ "-" ++ padded 2 month ++ "-" ++ padded 2 day, text)

/-- the nine digits of a fraction that count, without zeros at the end -/
def fractionText (digits : List Char) : String :=
  match ((digits.take 9).reverse.dropWhile (· = '0')).reverse with
  | [] => ""
  | digits => String.ofList ('.' :: digits)

def time? (text : List Char) : Option (String × List Char) := do
  let (hour, text) ← field? 2 0 23 text
  let text ← after? ':' text
  let (minute, text) ← field? 2 0 59 text
  let text ← after? ':' text
  let (second, text) ← field? 2 0 60 text
  let clock := padded 2 hour ++ ":" ++ padded 2 minute ++ ":" ++ padded 2 second
  match text with
  | '.' :: rest =>
    let digits := rest.takeWhile isDigit
    if digits.isEmpty then none
    else some (clock ++ fractionText digits, rest.dropWhile isDigit)
  | rest => some (clock, rest)

/-- the offset from universal time, which may be missing -/
def offset? (text : List Char) : Option String :=
  match text with
  | [] => some ""
  | ['Z'] | ['z'] => some "Z"
  | sign :: rest =>
    if sign = '+' ∨ sign = '-' then do
      let (hour, rest) ← field? 2 0 23 rest
      let rest ← after? ':' rest
      let (minute, rest) ← field? 2 0 59 rest
      if rest.isEmpty then
        let mark := if sign = '-' ∧ (hour, minute) ≠ (0, 0) then "-" else "+"
        some (mark ++ padded 2 hour ++ ":" ++ padded 2 minute)
      else none
    else none

/-- the normal form of a date, a time, or both with or without an offset -/
def text? (token : List Char) : Option String :=
  match date? token with
  | some (date, []) => some date
  | some (date, mark :: rest) =>
    if mark = 'T' ∨ mark = 't' ∨ mark = ' ' then do
      let (time, rest) ← time? rest
      let offset ← offset? rest
      some (date ++ "T" ++ time ++ offset)
    else none
  | none =>
    match time? token with
    | some (time, []) => some time
    | _ => none

end DateTime

/-! ## all scalars but strings -/

def Scalar.ofToken? (token : List Char) : Option Scalar :=
  if token = "true".toList then some (.boolean true)
  else if token = "false".toList then some (.boolean false)
  else
    match DateTime.text? token with
    | some text => some (.dateTime text)
    | none => if isFloat token then some .float else (integer? token).map .integer

end EventMerge.Toml
