import EventMerge.Bytes

/-!
# The XXH64 hash

Stripes of 32 octets feed four accumulators, which are then merged; what is left over is folded in
words of eight, four and one octets.

* `XxHash64.hash`  the hash of a byte string with the seed zero.
-/

namespace EventMerge.Checksum.XxHash64

def prime1 : UInt64 := 0x9E3779B185EBCA87
def prime2 : UInt64 := 0xC2B2AE3D27D4EB4F
def prime3 : UInt64 := 0x165667B19E3779F9
def prime4 : UInt64 := 0x85EBCA77C2B2AE63
def prime5 : UInt64 := 0x27D4EB2F165667C5

def rotateLeft (x count : UInt64) : UInt64 := (x <<< count) ||| (x >>> (64 - count))

def round (accumulator lane : UInt64) : UInt64 :=
  rotateLeft (accumulator + lane * prime2) 31 * prime1

def mergeRound (hash accumulator : UInt64) : UInt64 :=
  (hash ^^^ round 0 accumulator) * prime1 + prime4

def word (bytes : Bytes) : UInt64 := UInt64.ofNat (Bytes.toNatLE bytes)

structure Accumulators where
  a : UInt64
  b : UInt64
  c : UInt64
  d : UInt64

namespace Accumulators

def start : Accumulators := ⟨prime1 + prime2, prime2, 0, 0 - prime1⟩

def stripe (acc : Accumulators) (bytes : Bytes) : Accumulators :=
  ⟨round acc.a (word (bytes.take 8)), round acc.b (word ((bytes.drop 8).take 8)),
    round acc.c (word ((bytes.drop 16).take 8)), round acc.d (word ((bytes.drop 24).take 8))⟩

def merge (acc : Accumulators) : UInt64 :=
  let hash := rotateLeft acc.a 1 + rotateLeft acc.b 7 + rotateLeft acc.c 12 + rotateLeft acc.d 18
  mergeRound (mergeRound (mergeRound (mergeRound hash acc.a) acc.b) acc.c) acc.d

end Accumulators

def stripes : Nat → Accumulators → Bytes → Accumulators
  | 0, acc, _ => acc
  | count + 1, acc, bytes => stripes count (acc.stripe (bytes.take 32)) (bytes.drop 32)

def octets (hash : UInt64) (bytes : Bytes) : UInt64 :=
  bytes.foldl (fun h b => rotateLeft (h ^^^ (b.toUInt64 * prime5)) 11 * prime1) hash

def tail4 (hash : UInt64) (bytes : Bytes) : UInt64 :=
  if bytes.length < 4 then octets hash bytes
  else
    octets (rotateLeft (hash ^^^ (word (bytes.take 4) * prime1)) 23 * prime2 + prime3)
      (bytes.drop 4)

def tail8 : Nat → UInt64 → Bytes → UInt64
  | 0, hash, bytes => tail4 hash bytes
  | count + 1, hash, bytes =>
    tail8 count (rotateLeft (hash ^^^ round 0 (word (bytes.take 8))) 27 * prime1 + prime4)
      (bytes.drop 8)

/-- spreads every bit over the whole word -/
def avalanche (hash : UInt64) : UInt64 :=
  let hash := (hash ^^^ (hash >>> 33)) * prime2
  let hash := (hash ^^^ (hash >>> 29)) * prime3
  hash ^^^ (hash >>> 32)

def hash (bytes : Bytes) : UInt64 :=
  let count := bytes.length / 32
  let base := if count = 0 then prime5 else (stripes count .start bytes).merge
  let rest := bytes.drop (32 * count)
  avalanche (tail8 (rest.length / 8) (base + UInt64.ofNat bytes.length) rest)

end EventMerge.Checksum.XxHash64
