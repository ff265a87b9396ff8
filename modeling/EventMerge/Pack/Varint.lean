import EventMerge.Bytes

/-!
# Numbers of variable length

A number is written in groups of seven bits, the lowest first; every octet but the last has its
highest bit set.  At most ten octets are read, and a group keeps only the bits that fall below the
sixty-fourth.

* `Varint.encode`   the octets of a number;
* `Varint.decode?`  the number at the start of a byte string and what follows it.
-/

namespace EventMerge.Pack.Varint

def encode (n : Nat) : Bytes :=
  if n < 128 then [UInt8.ofNat n] else UInt8.ofNat (128 + n % 128) :: encode (n / 128)

def maxLength : Nat := 10

/-- what the group at a position stands for -/
def group (position : Nat) (b : UInt8) : Nat := b.toNat % 128 * Nat.pow 2 (7 * position) % 0x10000000000000000

def decodeFrom? (position : Nat) : Bytes → Option (Nat × Bytes)
  | [] => none
  | b :: rest =>
    if maxLength ≤ position then none
    else if b.toNat < 128 then some (group position b, rest)
    else
      match decodeFrom? (position + 1) rest with
      | some (value, after) => some (group position b + value, after)
      | none => none

def decode? (bytes : Bytes) : Option (Nat × Bytes) := decodeFrom? 0 bytes

theorem length_decodeFrom? {position value : Nat} {bytes rest : Bytes}
    (h : decodeFrom? position bytes = some (value, rest)) : rest.length < bytes.length := by
  induction bytes generalizing position value with
  | nil => exact nomatch h
  | cons b tail ih =>
    rw [decodeFrom?] at h
    split at h
    · exact nomatch h
    · split at h
      · cases h
        exact Nat.lt_succ_self _
      · split at h
        · rename_i heq
          cases h
          exact Nat.lt_succ_of_lt (ih heq)
        · exact nomatch h

theorem length_decode? {value : Nat} {bytes rest : Bytes} (h : decode? bytes = some (value, rest)) :
    rest.length < bytes.length := length_decodeFrom? h

end EventMerge.Pack.Varint
