import EventMerge.Bytes

/-!
# Bit streams

Both kinds of stream number the bits of a byte string from its first octet, the least significant
bit of an octet first.  A backward stream is read from its end: the highest set bit of its last octet
marks where the first bit to be read lies.

* `window`          some bits at a position, zeros past the end;
* `BackwardBits`    a stream that is read towards its start;
* `BackwardBits.peek`, `BackwardBits.take?`
-/

namespace EventMerge.Zstd

/-- the number that `count` bits from the bit `low` on stand for; at most 32 bits at a time -/
def window (octets : Array UInt8) (low count : Nat) : Nat :=
  let octet (i : Nat) : Nat := (octets.getD (low / 8 + i) 0).toNat
  let value := octet 0 + 0x100 * octet 1 + 0x10000 * octet 2 + 0x1000000 * octet 3 + 0x100000000 * octet 4
  value / Nat.pow 2 (low % 8) % Nat.pow 2 count

/-- a stream of bits of which the last `left` are still to be read -/
structure BackwardBits where
  octets : Array UInt8
  left : Nat

namespace BackwardBits

/-- the stream of a byte string; the last octet holds the mark -/
def ofBytes? (bytes : Bytes) : Option BackwardBits :=
  match bytes.getLast? with
  | none => none
  | some last =>
    if last = 0 then none
    else some ⟨bytes.toArray, 8 * (bytes.length - 1) + last.toNat.log2⟩

/-- the next bits without taking them, zeros for those that are missing -/
def peek (b : BackwardBits) (count : Nat) : Nat :=
  if count ≤ b.left then window b.octets (b.left - count) count
  else window b.octets 0 b.left * Nat.pow 2 (count - b.left)

def take? (b : BackwardBits) (count : Nat) : Option (Nat × BackwardBits) :=
  if count ≤ b.left then
    some (window b.octets (b.left - count) count, { b with left := b.left - count })
  else none

def skip? (b : BackwardBits) (count : Nat) : Option BackwardBits :=
  if count ≤ b.left then some { b with left := b.left - count } else none

end BackwardBits

end EventMerge.Zstd
