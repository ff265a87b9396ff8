/-!
# Octets with a name

The ASCII characters that structure a document, as octets.
-/

namespace EventMerge.Text.Ascii

@[match_pattern] abbrev tab : UInt8 := 0x09
@[match_pattern] abbrev lineFeed : UInt8 := 0x0A
@[match_pattern] abbrev carriageReturn : UInt8 := 0x0D
@[match_pattern] abbrev space : UInt8 := 0x20
@[match_pattern] abbrev quoteMark : UInt8 := 0x22
@[match_pattern] abbrev comma : UInt8 := 0x2C
@[match_pattern] abbrev colon : UInt8 := 0x3A
@[match_pattern] abbrev openBracket : UInt8 := 0x5B
@[match_pattern] abbrev backslash : UInt8 := 0x5C
@[match_pattern] abbrev closeBracket : UInt8 := 0x5D
@[match_pattern] abbrev letterF : UInt8 := 0x66
@[match_pattern] abbrev letterN : UInt8 := 0x6E
@[match_pattern] abbrev letterT : UInt8 := 0x74
@[match_pattern] abbrev letterU : UInt8 := 0x75
@[match_pattern] abbrev openBrace : UInt8 := 0x7B
@[match_pattern] abbrev closeBrace : UInt8 := 0x7D

def isControl (b : UInt8) : Bool := b < 0x20

def isDigit (b : UInt8) : Bool := 0x30 ≤ b && b ≤ 0x39

def hexValue? (b : UInt8) : Option Nat :=
  if isDigit b then some (b.toNat - 0x30)
  else if 0x61 ≤ b && b ≤ 0x66 then some (b.toNat - 0x57)
  else if 0x41 ≤ b && b ≤ 0x46 then some (b.toNat - 0x37)
  else none

def hexDigit (n : Nat) : UInt8 := UInt8.ofNat (if n < 10 then 0x30 + n else 0x57 + n)

def digitsValue (digits : List UInt8) : Nat :=
  digits.foldl (fun value b => 10 * value + (b.toNat - 0x30)) 0

theorem digitsValue_append (a : List UInt8) (b : UInt8) :
    digitsValue (a ++ [b]) = 10 * digitsValue a + (b.toNat - 0x30) := by
  rw [digitsValue, List.foldl_append]
  rfl

def ofNat (n : Nat) : List UInt8 :=
  if n < 10 then [UInt8.ofNat (0x30 + n)] else ofNat (n / 10) ++ [UInt8.ofNat (0x30 + n % 10)]

theorem digitsValue_ofNat (n : Nat) : digitsValue (ofNat n) = n := by
  fun_induction ofNat n with
  | case1 n h =>
    have hbyte : (UInt8.ofNat (0x30 + n)).toNat = 0x30 + n := UInt8.toNat_ofNat_of_lt' (by rw [UInt8.size]; omega)
    rw [digitsValue, List.foldl_cons, List.foldl_nil, hbyte]
    omega
  | case2 n h ih =>
    have hbyte : (UInt8.ofNat (0x30 + n % 10)).toNat = 0x30 + n % 10 :=
      UInt8.toNat_ofNat_of_lt' (by rw [UInt8.size]; omega)
    rw [digitsValue_append, ih, hbyte]
    omega

end EventMerge.Text.Ascii
