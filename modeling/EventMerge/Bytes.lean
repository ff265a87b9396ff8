/-!
# Byte strings

A byte string is a list of octets, so that every format below is a function on lists.

* `Bytes.ofNatLE`, `Bytes.ofNatBE`  a number in a fixed count of octets;
* `Bytes.toNatLE`, `Bytes.toNatBE`  the number that octets stand for;
* `Bytes.toHex`                     two lower-case digits per octet;
* `Bytes.ofText`, `Bytes.toText?`   the UTF-8 form of a text, and back.
-/

namespace EventMerge

abbrev Bytes := List UInt8

namespace Bytes

/-! ## numbers in a fixed count of octets -/

/-- `width` octets of `n`, the least significant first; what does not fit is dropped -/
def ofNatLE : Nat → Nat → Bytes
  | 0, _ => []
  | width + 1, n => UInt8.ofNat n :: ofNatLE width (n / 256)

def toNatLE : Bytes → Nat
  | [] => 0
  | b :: rest => b.toNat + 256 * toNatLE rest

def ofNatBE (width n : Nat) : Bytes := (ofNatLE width n).reverse

def toNatBE (bytes : Bytes) : Nat := toNatLE bytes.reverse

theorem ofNatLE_zero (n : Nat) : ofNatLE 0 n = [] := rfl
theorem ofNatLE_succ (width n : Nat) :
    ofNatLE (width + 1) n = UInt8.ofNat n :: ofNatLE width (n / 256) := rfl
theorem toNatLE_nil : toNatLE [] = 0 := rfl
theorem toNatLE_cons (b : UInt8) (rest : Bytes) :
    toNatLE (b :: rest) = b.toNat + 256 * toNatLE rest := rfl

theorem length_ofNatLE (width n : Nat) : (ofNatLE width n).length = width := by
  induction width generalizing n with
  | zero => rfl
  | succ width ih => rw [ofNatLE_succ, List.length_cons, ih]

theorem length_ofNatBE (width n : Nat) : (ofNatBE width n).length = width := by
  rw [ofNatBE, List.length_reverse, length_ofNatLE]

theorem toNatLE_ofNatLE (width n : Nat) : toNatLE (ofNatLE width n) = n % Nat.pow 256 width := by
  induction width generalizing n with
  | zero =>
    rw [ofNatLE_zero, toNatLE_nil]
    exact (Nat.mod_one n).symm
  | succ width ih =>
    have hpow : Nat.pow 256 (width + 1) = 256 * Nat.pow 256 width := Nat.mul_comm _ _
    rw [ofNatLE_succ, toNatLE_cons, ih, hpow, Nat.mod_mul]
    rfl

theorem toNatBE_ofNatBE (width n : Nat) : toNatBE (ofNatBE width n) = n % Nat.pow 256 width := by
  rw [toNatBE, ofNatBE, List.reverse_reverse, toNatLE_ofNatLE]

/-! ## text forms -/

def hexDigit (n : Nat) : Char :=
  if n < 10 then Char.ofNat (48 + n) else Char.ofNat (87 + n)

def toHex (bytes : Bytes) : String :=
  String.ofList (bytes.flatMap fun b => [hexDigit (b.toNat / 16), hexDigit (b.toNat % 16)])

def ofText (text : String) : Bytes := text.toUTF8.data.toList

def toText? (bytes : Bytes) : Option String := String.fromUTF8? (ByteArray.mk bytes.toArray)

theorem toText?_ofText (text : String) : toText? (ofText text) = some text := by
  have h : ByteArray.mk (ofText text).toArray = text.toUTF8 := by
    rw [ofText, Array.toArray_toList]
  rw [toText?, h, String.toUTF8_eq_toByteArray, String.fromUTF8?, dif_pos text.isValidUTF8]
  rfl

end Bytes

end EventMerge
