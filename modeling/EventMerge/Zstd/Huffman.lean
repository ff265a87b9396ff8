import EventMerge.Total
import EventMerge.Zstd.Fse

/-!
# Huffman coding of literals

A tree is described by the weights of its symbols; the weight of the last symbol is what the others
leave of a power of two.  A symbol of weight `w` takes `2 ^ (w - 1)` places of the decoding table.

* `Tree.read?`      a tree at the start of a byte string;
* `Tree.decode?`    a number of symbols from a stream that they use up.
-/

namespace EventMerge.Zstd.Huffman

/-- a decoding table: `2 ^ log` places, each with a symbol and the bits of its code -/
structure Tree where
  log : Nat
  places : Array (UInt8 × Nat)

/-! ## weights -/

/-- weights of four bits, two in an octet, the high half first -/
def directWeights (count : Nat) (bytes : Bytes) : List Nat :=
  (bytes.flatMap fun b => [b.toNat / 16, b.toNat % 16]).take count

def maxWeights : Nat := 255

/-- decodes weights with two states in turn, until the stream cannot feed the next step -/
def alternate (table : Fse.Table) :
    (fuel : Nat) → (current other : Nat) → BackwardBits → List Nat → Option (List Nat)
  | 0, _, _, _, _ => none
  | fuel + 1, current, other, bits, weights =>
    let cell := table.cell current
    let weights := cell.symbol :: weights
    match bits.take? cell.bits with
    | some (value, bits) => alternate table fuel other (cell.base + value) bits weights
    | none => some ((table.cell other).symbol :: weights).reverse

def codedWeights? (bytes : Bytes) : Option (List Nat) :=
  match Fse.readDistribution? maxWeights 6 bytes with
  | none => none
  | some (log, counts, taken) =>
    let table := Fse.Table.ofCounts log counts
    match BackwardBits.ofBytes? (bytes.drop taken) with
    | none => none
    | some bits =>
      match bits.take? log with
      | none => none
      | some (first, bits) =>
        match bits.take? log with
        | none => none
        | some (second, bits) => alternate table (maxWeights - 1) first second bits []

def weights? : Bytes → Option (List Nat × Nat)
  | [] => none
  | head :: rest =>
    let n := head.toNat
    if 128 ≤ n then
      let count := n - 127
      let size := (count + 1) / 2
      if rest.length < size then none else some (directWeights count (rest.take size), size + 1)
    else if rest.length < n then none
    else (codedWeights? (rest.take n)).map (·, n + 1)

/-! ## the tree -/

def maxLog : Nat := 12

def placesOf (weight : Nat) : Nat := Nat.pow 2 weight / 2

namespace Tree

def ofWeights? (weights : List Nat) : Option Tree :=
  let sum := total placesOf weights
  let log := sum.log2 + 1
  let rest := Nat.pow 2 log - sum
  if weights.any (maxLog < ·) ∨ sum = 0 ∨ maxLog < log ∨ Nat.pow 2 rest.log2 ≠ rest then none
  else
    let all := weights ++ [rest.log2 + 1]
    let ones := all.count 1
    if ones < 2 ∨ ones % 2 = 1 then none
    else
      let numbered := all.zipIdx
      let places := (List.range (log + 1)).flatMap fun weight =>
        if weight = 0 then []
        else
          (numbered.filter (·.1 = weight)).flatMap fun entry =>
            List.replicate (placesOf weight) (UInt8.ofNat entry.2, log + 1 - weight)
      some ⟨log, places.toArray⟩

def read? (bytes : Bytes) : Option (Tree × Nat) :=
  match weights? bytes with
  | none => none
  | some (weights, taken) => (ofWeights? weights).map (·, taken)

def symbols? (t : Tree) : (count : Nat) → BackwardBits → Array UInt8 →
    Option (Array UInt8 × BackwardBits)
  | 0, bits, output => some (output, bits)
  | count + 1, bits, output =>
    let (symbol, length) := t.places.getD (bits.peek t.log) (0, 0)
    match bits.skip? length with
    | some bits => symbols? t count bits (output.push symbol)
    | none => none

def decode? (t : Tree) (count : Nat) (bytes : Bytes) : Option Bytes :=
  match BackwardBits.ofBytes? bytes with
  | none => none
  | some bits =>
    match t.symbols? count bits #[] with
    | some (output, rest) => if rest.left = 0 then some output.toList else none
    | none => none

/-- decodes `count` symbols from four streams, the sizes of the first three in front of them -/
def decodeFour? (t : Tree) (count : Nat) (bytes : Bytes) : Option Bytes :=
  let size (i : Nat) : Nat := Bytes.toNatLE ((bytes.drop (2 * i)).take 2)
  let streams := bytes.drop 6
  let quarter := (count + 3) / 4
  if bytes.length < 10 ∨ streams.length < size 0 + size 1 + size 2 ∨ count < 3 * quarter then none
  else
    let second := streams.drop (size 0)
    let third := second.drop (size 1)
    match t.decode? quarter (streams.take (size 0)), t.decode? quarter (second.take (size 1)),
      t.decode? quarter (third.take (size 2)),
      t.decode? (count - 3 * quarter) (third.drop (size 2)) with
    | some a, some b, some c, some d => some (a ++ b ++ c ++ d)
    | _, _, _, _ => none

end Tree

end EventMerge.Zstd.Huffman
