/-!
# Whole numbers in decimal notation

* `Decimal.parse`  reads an unsigned number: an optional plus sign, then digits, at most `limit`;
* `NumberError`    the three ways in which a text is none.
-/

namespace EventMerge.Text

inductive NumberError where
  | empty
  | invalidDigit
  | tooLarge
  deriving DecidableEq

namespace NumberError

def message : NumberError → String
  | .empty => "cannot parse integer from empty string"
  | .invalidDigit => "invalid digit found in string"
  | .tooLarge => "number too large to fit in target type"

end NumberError

namespace Decimal

def digit? (c : Char) : Option Nat :=
  if '0' ≤ c ∧ c ≤ '9' then some (c.toNat - 48) else none

/-- reads on after the number `value`; the first digit past the limit ends the reading -/
def digits (limit : Nat) : Nat → List Char → Except NumberError Nat
  | value, [] => .ok value
  | value, c :: rest =>
    match digit? c with
    | none => .error .invalidDigit
    | some d =>
      if limit < value * 10 + d then .error .tooLarge else digits limit (value * 10 + d) rest

/-- an optional plus sign, then at least one digit -/
def parseChars (limit : Nat) : List Char → Except NumberError Nat
  | [] => .error .empty
  | ['+'] => .error .invalidDigit
  | '+' :: rest => digits limit 0 rest
  | text => digits limit 0 text

def parse (limit : Nat) (text : String) : Except NumberError Nat := parseChars limit text.toList

def limit64 : Nat := 0x10000000000000000 - 1

def ofInt (n : Int) : String := toString n

def ofNat (n : Nat) : String := toString n

end Decimal

end EventMerge.Text
