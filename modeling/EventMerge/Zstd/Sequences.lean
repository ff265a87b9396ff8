import EventMerge.Zstd.Fse

/-!
# The sequences of a block

A sequence copies some literals and then a match, a run of octets that the frame already holds.
Lengths and offsets are written as codes under three finite-state tables, with extra bits.

* `Sequences.read?`     the sequences of a block and the tables for later blocks;
* `Window.execute?`     the effect of sequences on what the frame holds.
-/

namespace EventMerge.Zstd

structure Sequence where
  literals : Nat
  /-- the offset as written: one to three stand for earlier offsets -/
  offset : Nat
  length : Nat

namespace Sequences

/-! ## codes -/

/-- what a code stands for: a base and the number of extra bits -/
structure Code where
  base : Nat
  bits : Nat

/-- codes for lengths, those above the list being invalid -/
def codeTable (start : Nat) (count : Nat) (large : List (Nat × Nat)) : Array Code :=
  ((List.range count).map (fun n => Code.mk (n + start) 0)
    ++ large.map fun e => Code.mk e.1 e.2).toArray

def literalCodes : Array Code := codeTable 0 16 [
  (16, 1), (18, 1), (20, 1), (22, 1), (24, 2), (28, 2), (32, 3), (40, 3), (48, 4), (64, 6),
  (128, 7), (256, 8), (512, 9), (1024, 10), (2048, 11), (4096, 12), (8192, 13), (16384, 14),
  (32768, 15), (65536, 16)]

def matchCodes : Array Code := codeTable 3 32 [
  (35, 1), (37, 1), (39, 1), (41, 1), (43, 2), (47, 2), (51, 3), (59, 3), (67, 4), (83, 4),
  (99, 5), (131, 7), (259, 8), (515, 9), (1027, 10), (2051, 11), (4099, 12), (8195, 13),
  (16387, 14), (32771, 15), (65539, 16)]

/-- the code of an offset is the number of its extra bits -/
def offsetCode (code : Nat) : Code := ⟨Nat.pow 2 code, code⟩

def literalCounts : List Int := [
  4, 3, 2, 2, 2, 2, 2, 2, 2, 2, 2, 2, 2, 1, 1, 1, 2, 2, 2, 2, 2, 2, 2, 2, 2, 3, 2, 1, 1, 1, 1, 1,
  -1, -1, -1, -1]

def matchCounts : List Int := [
  1, 4, 3, 2, 2, 2, 2, 2, 2, 1, 1, 1, 1, 1, 1, 1, 1, 1, 1, 1, 1, 1, 1, 1, 1, 1, 1, 1, 1, 1, 1, 1,
  1, 1, 1, 1, 1, 1, 1, 1, 1, 1, 1, 1, 1, 1, -1, -1, -1, -1, -1, -1, -1]

def offsetCounts : List Int := [
  1, 1, 1, 1, 1, 1, 2, 2, 2, 1, 1, 1, 1, 1, 1, 1, 1, 1, 1, 1, 1, 1, 1, 1, -1, -1, -1, -1, -1]

/-! ## tables -/

structure Tables where
  literals : Fse.Table
  offsets : Fse.Table
  lengths : Fse.Table

structure Kind where
  maxSymbol : Nat
  maxLog : Nat
  predefined : Fse.Table

def literalKind : Kind := ⟨35, 9, .ofCounts 6 literalCounts⟩
def offsetKind : Kind := ⟨31, 8, .ofCounts 5 offsetCounts⟩
def matchKind : Kind := ⟨52, 9, .ofCounts 6 matchCounts⟩

/-- a table by its mode: predefined, of one symbol, written here, or that of the block before -/
def table? (kind : Kind) (mode : Nat) (earlier : Option Fse.Table) (bytes : Bytes) :
    Option (Fse.Table × Bytes) :=
  match mode with
  | 0 => some (kind.predefined, bytes)
  | 1 =>
    match bytes with
    | [] => none
    | b :: rest => if kind.maxSymbol < b.toNat then none else some (.single b.toNat, rest)
  | 2 =>
    (Fse.readDistribution? kind.maxSymbol kind.maxLog bytes).map fun (log, counts, taken) =>
      (.ofCounts log counts, bytes.drop taken)
  | _ => earlier.map (·, bytes)

def tables? (earlier : Option Tables) (bytes : Bytes) : Option (Tables × Bytes) :=
  match bytes with
  | [] => none
  | modes :: rest =>
    let n := modes.toNat
    if n % 4 ≠ 0 then none
    else
      match table? literalKind (n / 64) (earlier.map Tables.literals) rest with
      | none => none
      | some (literals, rest) =>
        match table? offsetKind (n / 16 % 4) (earlier.map Tables.offsets) rest with
        | none => none
        | some (offsets, rest) =>
          match table? matchKind (n / 4 % 4) (earlier.map Tables.lengths) rest with
          | none => none
          | some (lengths, rest) => some (⟨literals, offsets, lengths⟩, rest)

/-! ## decoding -/

structure State where
  literals : Nat
  offsets : Nat
  lengths : Nat
  bits : BackwardBits

def value? (code : Code) (bits : BackwardBits) : Option (Nat × BackwardBits) :=
  (bits.take? code.bits).map fun (extra, bits) => (code.base + extra, bits)

/-- the sequence that the states name: offset, match length and literal length, in this order -/
def current? (t : Tables) (s : State) : Option (Sequence × BackwardBits) :=
  match literalCodes[(t.literals.cell s.literals).symbol]?,
    matchCodes[(t.lengths.cell s.lengths).symbol]? with
  | some literalCode, some matchCode =>
    match value? (offsetCode (t.offsets.cell s.offsets).symbol) s.bits with
    | none => none
    | some (offset, bits) =>
      match value? matchCode bits with
      | none => none
      | some (length, bits) =>
        (value? literalCode bits).map fun (literals, bits) => (⟨literals, offset, length⟩, bits)
  | _, _ => none

def advance? (table : Fse.Table) (state : Nat) (bits : BackwardBits) :
    Option (Nat × BackwardBits) :=
  let cell := table.cell state
  (bits.take? cell.bits).map fun (extra, bits) => (cell.base + extra, bits)

/-- the next states: literal lengths, match lengths, offsets, in this order -/
def next? (t : Tables) (s : State) (bits : BackwardBits) : Option State :=
  match advance? t.literals s.literals bits with
  | none => none
  | some (literals, bits) =>
    match advance? t.lengths s.lengths bits with
    | none => none
    | some (lengths, bits) =>
      (advance? t.offsets s.offsets bits).map fun (offsets, bits) =>
        ⟨literals, offsets, lengths, bits⟩

/-- decodes `count` sequences that use up the stream; after the last the states stay as they are -/
def decode? (t : Tables) : (count : Nat) → State → List Sequence → Option (List Sequence)
  | 0, s, sequences => if s.bits.left = 0 then some sequences.reverse else none
  | count + 1, s, sequences =>
    match current? t s with
    | none => none
    | some (sequence, bits) =>
      if count = 0 then decode? t count { s with bits } (sequence :: sequences)
      else
        match next? t s bits with
        | none => none
        | some s => decode? t count s (sequence :: sequences)

def start? (t : Tables) (bits : BackwardBits) : Option State :=
  match bits.take? t.literals.log with
  | none => none
  | some (literals, bits) =>
    match bits.take? t.offsets.log with
    | none => none
    | some (offsets, bits) =>
      (bits.take? t.lengths.log).map fun (lengths, bits) => ⟨literals, offsets, lengths, bits⟩

def count? : Bytes → Option (Nat × Bytes)
  | [] => none
  | head :: rest =>
    let n := head.toNat
    if n < 128 then some (n, rest)
    else if n < 255 then
      match rest with
      | b :: rest => some ((n - 128) * 256 + b.toNat, rest)
      | [] => none
    else
      match rest with
      | low :: high :: rest => some (low.toNat + 256 * high.toNat + 0x7F00, rest)
      | _ => none

/-- the sequences that fill the rest of a block, and the tables for later blocks -/
def read? (earlier : Option Tables) (bytes : Bytes) :
    Option (List Sequence × Option Tables) :=
  match count? bytes with
  | none => none
  | some (0, rest) => if rest.isEmpty then some ([], earlier) else none
  | some (count, rest) =>
    match tables? earlier rest with
    | none => none
    | some (tables, rest) =>
      match (BackwardBits.ofBytes? rest).bind (start? tables) with
      | none => none
      | some state => (decode? tables count state []).map (·, some tables)

end Sequences

/-! ## execution -/

/-- what a frame holds so far, and the three offsets used last -/
structure Window where
  output : Array UInt8 := #[]
  recent : Nat × Nat × Nat := (1, 4, 8)

namespace Window

/-- appends `count` octets, each a copy of the one `offset` places before it -/
def copy (offset : Nat) : Nat → Array UInt8 → Array UInt8
  | 0, output => output
  | count + 1, output => copy offset count (output.push (output.getD (output.size - offset) 0))

/-- the offset a sequence means, and the offsets used last from then on.  Without literals the three
small values stand for the second and third of them and for one less than the first. -/
def resolve (recent : Nat × Nat × Nat) (s : Sequence) : Nat × (Nat × Nat × Nat) :=
  let (first, second, third) := recent
  if 3 < s.offset then (s.offset - 3, (s.offset - 3, first, second))
  else
    match s.offset - 1 + (if s.literals = 0 then 1 else 0) with
    | 0 => (first, recent)
    | 1 => (second, (second, first, third))
    | 2 => (third, (third, first, second))
    | _ => (first - 1, (first - 1, first, second))

def execute? : List Sequence → Bytes → Window → Option Window
  | [], literals, w => some { w with output := literals.foldl Array.push w.output }
  | s :: rest, literals, w =>
    if literals.length < s.literals then none
    else
      let output := (literals.take s.literals).foldl Array.push w.output
      let (offset, recent) := resolve w.recent s
      if offset = 0 ∨ output.size < offset then none
      else execute? rest (literals.drop s.literals) ⟨copy offset s.length output, recent⟩

end Window

end EventMerge.Zstd
