import EventMerge.Zstd.Bits

/-!
# Finite-state entropy coding

A distribution gives every symbol a share of a table whose size is a power of two; a share of `-1`
stands for less than one place.  Each place of the table names a symbol and the bits to read for the
next place.

* `Distribution.read?`  a distribution at the start of a byte string;
* `Table.ofCounts`      the decoding table of a distribution;
* `Table.single`        the table that knows one symbol only.
-/

namespace EventMerge.Zstd.Fse

structure Cell where
  symbol : Nat
  bits : Nat
  base : Nat

instance : Inhabited Cell := ⟨⟨0, 0, 0⟩⟩

/-- a decoding table of `2 ^ log` places -/
structure Table where
  log : Nat
  cells : Array Cell

namespace Table

def cell (t : Table) (state : Nat) : Cell := t.cells.getD state default

/-- the table that knows one symbol only and reads no bits -/
def single (symbol : Nat) : Table := ⟨0, #[⟨symbol, 0, 0⟩]⟩

/-- symbols of less than one place, in order; they fill the table from its end -/
def rareSymbols (counts : List Int) : List Nat :=
  (counts.zipIdx.filter fun entry => entry.1 = -1).map Prod.snd

def spreadSymbols (counts : List Int) : List Nat :=
  counts.zipIdx.flatMap fun entry => List.replicate entry.1.toNat entry.2

/-- the order in which the places before `free` are filled -/
def spreadPlaces (size free : Nat) : List Nat :=
  let step := size / 2 + size / 8 + 3
  ((List.range size).map fun k => k * step % size).filter (· < free)

def placeSymbols (log : Nat) (counts : List Int) : Array Nat :=
  let size := Nat.pow 2 log
  let rare := rareSymbols counts
  let spread := (spreadPlaces size (size - rare.length)).zip (spreadSymbols counts)
  let fromEnd := rare.zipIdx.map fun entry => (size - 1 - entry.2, entry.1)
  (spread ++ fromEnd).foldl (fun places entry => places.setIfInBounds entry.1 entry.2)
    (Array.replicate size 0)

def cellOf (log symbol visits : Nat) : Cell :=
  let bits := log - visits.log2
  ⟨symbol, bits, visits * Nat.pow 2 bits - Nat.pow 2 log⟩

/-- the decoding table of a distribution: the places of a symbol are numbered from its share on -/
def ofCounts (log : Nat) (counts : List Int) : Table :=
  let shares := (counts.map fun count => if count = -1 then 1 else count.toNat).toArray
  let (cells, _) := (placeSymbols log counts).foldl (fun (cells, visits) symbol =>
    let seen := visits.getD symbol 0
    (cells.push (cellOf log symbol seen), visits.setIfInBounds symbol (seen + 1))) (#[], shares)
  ⟨log, cells⟩

end Table

/-! ## reading distributions -/

/-- a distribution that is being read: shares so far, and one more than the places left -/
structure Counting where
  position : Nat
  remaining : Nat
  counts : List Int

namespace Counting

/-- further symbols without a share: pairs of bits, of which three says that another pair follows -/
def zeroRun (octets : Array UInt8) : (fuel position : Nat) → Nat × Nat
  | 0, position => (0, position)
  | fuel + 1, position =>
    let pair := window octets position 2
    if pair = 3 then
      let (zeros, position) := zeroRun octets fuel (position + 2)
      (zeros + 3, position)
    else (pair, position + 2)

/-- reads one share.  Small values take one bit less than large ones. -/
def share (octets : Array UInt8) (c : Counting) : Int × Nat :=
  let bits := c.remaining.log2
  let threshold := Nat.pow 2 bits
  let short := 2 * threshold - 1 - c.remaining
  let low := window octets c.position bits
  if low < short then ((low : Int) - 1, c.position + bits)
  else
    let full := window octets c.position (bits + 1)
    let count := if threshold ≤ full then full - short else full
    ((count : Int) - 1, c.position + bits + 1)

def run? (octets : Array UInt8) : (fuel : Nat) → Counting → Option Counting
  | 0, c => if c.remaining = 1 then some c else none
  | fuel + 1, c =>
    if c.remaining = 1 then some c
    else
      let (value, position) := c.share octets
      let (zeros, position) := if value = 0 then zeroRun octets 128 position else (0, position)
      if fuel ≤ zeros ∧ value = 0 then none
      else
        run? octets (fuel - zeros)
          ⟨position, c.remaining - value.natAbs,
            c.counts ++ value :: List.replicate zeros 0⟩
termination_by fuel => fuel

end Counting

/-- a distribution at the start of a byte string: the exponent of the table size, the shares and the
number of octets taken -/
def readDistribution? (maxSymbol maxLog : Nat) (bytes : Bytes) :
    Option (Nat × List Int × Nat) :=
  let octets := bytes.toArray
  let log := window octets 0 4 + 5
  if maxLog < log then none
  else
    match Counting.run? octets (maxSymbol + 1) ⟨4, Nat.pow 2 log + 1, []⟩ with
    | some c =>
      let taken := (c.position + 7) / 8
      if taken ≤ bytes.length then some (log, c.counts, taken) else none
    | none => none

end EventMerge.Zstd.Fse
