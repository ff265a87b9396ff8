import EventMerge.Bytes
import EventMerge.Text.Ascii

/-!
# JSON strings

The octets between the quotes of a string stand for a text or for octets.  An escape gives one octet,
or one unit of sixteen bits; a leading surrogate and a trailing one next to it are a single
character.

* `Literal.text?`        what a string says as text: valid UTF-8, no raw control characters, and
                         every surrogate part of a pair;
* `Literal.octets?`      what it says as octets: anything goes, an unpaired surrogate is written in
                         the three octets of its code point;
* `Literal.isSkippable`  whether a reader that does not look at it accepts it;
* `Literal.ofText`       the octets that are written for a text.
-/

namespace EventMerge.Json

open Text

inductive Piece where
  | octet (b : UInt8)
  | escaped (b : UInt8)
  | unit (n : Nat)
  deriving DecidableEq

namespace Literal

/-! ## reading -/

def escape? (letter : UInt8) : Option UInt8 :=
  if letter = 0x22 ∨ letter = 0x2F ∨ letter = 0x5C then some letter
  else if letter = 0x62 then some 0x08
  else if letter = 0x66 then some 0x0C
  else if letter = 0x6E then some 0x0A
  else if letter = 0x72 then some 0x0D
  else if letter = 0x74 then some 0x09
  else none

def unit? (a b c d : UInt8) : Option Nat :=
  match Ascii.hexValue? a, Ascii.hexValue? b, Ascii.hexValue? c, Ascii.hexValue? d with
  | some a, some b, some c, some d => some (((a * 16 + b) * 16 + c) * 16 + d)
  | _, _, _, _ => none

/-- the pieces of a string; `none` if an escape is not well formed -/
def pieces? : Bytes → Option (List Piece)
  | [] => some []
  | Ascii.backslash :: Ascii.letterU :: a :: b :: c :: d :: rest =>
    match unit? a b c d, pieces? rest with
    | some n, some pieces => some (.unit n :: pieces)
    | _, _ => none
  | [Ascii.backslash] => none
  | Ascii.backslash :: letter :: rest =>
    match escape? letter, pieces? rest with
    | some b, some pieces => some (.escaped b :: pieces)
    | _, _ => none
  | b :: rest => (pieces? rest).map (.octet b :: ·)

def isLeading (n : Nat) : Bool := 0xD800 ≤ n && n < 0xDC00

def isTrailing (n : Nat) : Bool := 0xDC00 ≤ n && n < 0xE000

def pairValue (lead trail : Nat) : Nat := 0x10000 + (lead - 0xD800) * 0x400 + (trail - 0xDC00)

/-- the octets of a code point, which may be a surrogate -/
def codeOctets (n : Nat) : Bytes :=
  if n < 0x80 then [UInt8.ofNat n]
  else if n < 0x800 then [UInt8.ofNat (0xC0 + n / 64), UInt8.ofNat (0x80 + n % 64)]
  else if n < 0x10000 then
    [UInt8.ofNat (0xE0 + n / 4096), UInt8.ofNat (0x80 + n / 64 % 64), UInt8.ofNat (0x80 + n % 64)]
  else
    [UInt8.ofNat (0xF0 + n / 262144), UInt8.ofNat (0x80 + n / 4096 % 64),
      UInt8.ofNat (0x80 + n / 64 % 64), UInt8.ofNat (0x80 + n % 64)]

/-- the octets of all pieces; a unit that is no half of a pair stands for its own code point -/
def join : List Piece → Bytes
  | [] => []
  | .octet b :: rest => b :: join rest
  | .escaped b :: rest => b :: join rest
  | .unit lead :: .unit trail :: rest =>
    if isLeading lead && isTrailing trail then codeOctets (pairValue lead trail) ++ join rest
    else codeOctets lead ++ join (.unit trail :: rest)
  | .unit n :: rest => codeOctets n ++ join rest

/-- every surrogate is half of a pair -/
def isPaired : List Piece → Bool
  | [] => true
  | .unit lead :: .unit trail :: rest =>
    if isLeading lead && isTrailing trail then isPaired rest
    else !isLeading lead && !isTrailing lead && isPaired (.unit trail :: rest)
  | .unit n :: rest => !isLeading n && !isTrailing n && isPaired rest
  | _ :: rest => isPaired rest

/-- no control character stands in the string as it is -/
def isPlain (raw : Bytes) : Bool := raw.all fun b => !Ascii.isControl b

def octets? (raw : Bytes) : Option Bytes := (pieces? raw).map join

def text? (raw : Bytes) : Option String :=
  match pieces? raw with
  | some pieces => if isPlain raw && isPaired pieces then Bytes.toText? (join pieces) else none
  | none => none

/-- a reader that does not look at the string accepts it -/
def isSkippable (raw : Bytes) : Bool := (pieces? raw).isSome && isPlain raw

/-! ## writing -/

def ofOctet (b : UInt8) : Bytes :=
  if b = 0x22 ∨ b = 0x5C then [Ascii.backslash, b]
  else if b = 0x08 then [Ascii.backslash, 0x62]
  else if b = 0x0C then [Ascii.backslash, 0x66]
  else if b = 0x0A then [Ascii.backslash, 0x6E]
  else if b = 0x0D then [Ascii.backslash, 0x72]
  else if b = 0x09 then [Ascii.backslash, 0x74]
  else if Ascii.isControl b then
    [Ascii.backslash, Ascii.letterU, 0x30, 0x30, Ascii.hexDigit (b.toNat / 16),
      Ascii.hexDigit (b.toNat % 16)]
  else [b]

def ofOctets (octets : Bytes) : Bytes := octets.flatMap ofOctet

def ofText (text : String) : Bytes := ofOctets (Bytes.ofText text)

theorem ofOctets_cons (b : UInt8) (rest : Bytes) :
    ofOctets (b :: rest) = ofOctet b ++ ofOctets rest := rfl

end Literal

end EventMerge.Json
