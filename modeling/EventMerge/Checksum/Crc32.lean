import EventMerge.Bytes

/-!
# Cyclic redundancy check of 32 bits

The check is a left fold over the octets: the register takes an octet into its low end and is
divided by the reversed polynomial, eight bits at a time.

* `Crc32.hash`  the check of a byte string.
-/

namespace EventMerge.Checksum.Crc32

/-- the generator polynomial, its bits reversed -/
def polynomial : UInt32 := 0xEDB88320

def shift (register : UInt32) : UInt32 :=
  if register &&& 1 = 1 then (register >>> 1) ^^^ polynomial else register >>> 1

def shifts : Nat → UInt32 → UInt32
  | 0, register => register
  | count + 1, register => shifts count (shift register)

def update (register : UInt32) (b : UInt8) : UInt32 := shifts 8 (register ^^^ b.toUInt32)

/-- the check of a byte string; the register starts and ends complemented -/
def hash (bytes : Bytes) : UInt32 := bytes.foldl update 0xFFFFFFFF ^^^ 0xFFFFFFFF

end EventMerge.Checksum.Crc32
