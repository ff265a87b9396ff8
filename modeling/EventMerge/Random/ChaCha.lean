import EventMerge.Bytes

/-!
# A reproducible stream of random words

A seed is spread over a key of eight words by a small congruential generator; the key drives the
ChaCha cipher with twelve rounds, whose blocks are read as words in order.

* `Random.ofSeed`    the stream of a seed;
* `Random.word`      the next word of 32 bits;
* `Random.word64`    the next two words, the low one first;
* `Random.octets`    some octets, whole words being used up;
* `Random.below3`    a number below three;
* `Random.chance`    whether a 64-bit word falls below a bound.
-/

namespace EventMerge

namespace ChaCha

/-! ## keys -/

def multiplier : UInt64 := 6364136223846793005

def increment : UInt64 := 11634580027462260723

def spread (state : UInt64) : UInt32 :=
  let mixed := (((state >>> 18) ^^^ state) >>> 27).toUInt32
  let turn := (state >>> 59).toUInt32
  (mixed >>> turn) ||| (mixed <<< ((32 - turn) &&& 31))

def seedWords : Nat → UInt64 → List UInt32
  | 0, _ => []
  | count + 1, state =>
    let state := state * multiplier + increment
    spread state :: seedWords count state

/-! ## blocks -/

def rotateLeft (x count : UInt32) : UInt32 := (x <<< count) ||| (x >>> (32 - count))

def wordAt (words : Array UInt32) (i : Nat) : UInt32 := words.getD i 0

def quarter (s : Array UInt32) (a b c d : Nat) : Array UInt32 :=
  let va := wordAt s a + wordAt s b
  let vd := rotateLeft (wordAt s d ^^^ va) 16
  let vc := wordAt s c + vd
  let vb := rotateLeft (wordAt s b ^^^ vc) 12
  let va := va + vb
  let vd := rotateLeft (vd ^^^ va) 8
  let vc := vc + vd
  let vb := rotateLeft (vb ^^^ vc) 7
  (((s.setIfInBounds a va).setIfInBounds b vb).setIfInBounds c vc).setIfInBounds d vd

/-- a round on the columns and a round on the diagonals -/
def doubleRound (s : Array UInt32) : Array UInt32 :=
  let s := quarter s 0 4 8 12
  let s := quarter s 1 5 9 13
  let s := quarter s 2 6 10 14
  let s := quarter s 3 7 11 15
  let s := quarter s 0 5 10 15
  let s := quarter s 1 6 11 12
  let s := quarter s 2 7 8 13
  quarter s 3 4 9 14

def doubleRounds : Nat → Array UInt32 → Array UInt32
  | 0, s => s
  | count + 1, s => doubleRounds count (doubleRound s)

def constants : Array UInt32 := #[0x61707865, 0x3320646E, 0x79622D32, 0x6B206574]

def block (key : Array UInt32) (counter : Nat) : List UInt32 :=
  let start := constants ++ key
    ++ #[UInt32.ofNat counter, UInt32.ofNat (counter / 0x100000000), 0, 0]
  let final := doubleRounds 6 start
  (List.range 16).map fun i => wordAt final i + wordAt start i

end ChaCha

/-- a stream of random words: the words of the current block that are left, and the next block -/
structure Random where
  key : Array UInt32
  counter : Nat := 0
  pending : List UInt32 := []

namespace Random

def ofSeed (seed : Nat) : Random :=
  { key := (ChaCha.seedWords 8 (UInt64.ofNat seed)).toArray }

def word (r : Random) : UInt32 × Random :=
  match r.pending with
  | w :: rest => (w, { r with pending := rest })
  | [] =>
    let words := ChaCha.block r.key r.counter
    (words.headD 0, { r with counter := r.counter + 1, pending := words.drop 1 })

/-- the next two words as one number, the low one first -/
def word64 (r : Random) : Nat × Random :=
  let (low, r) := r.word
  let (high, r) := r.word
  (low.toNat + 0x100000000 * high.toNat, r)

def words : (count : Nat) → Random → List UInt32 × Random
  | 0, r => ([], r)
  | count + 1, r =>
    let (w, r) := r.word
    let (rest, r) := words count r
    (w :: rest, r)

/-- `count` octets; the octets of the last word that are not needed are dropped -/
def octets (count : Nat) (r : Random) : Bytes × Random :=
  let (list, r) := words ((count + 3) / 4) r
  ((list.flatMap fun w => Bytes.ofNatLE 4 w.toNat).take count, r)

/-- three times a word is taken as a number of two digits in base `2 ^ 32`; a low digit above this
would make some answers more likely than others -/
def fairLimit : Nat := 3 * 0x40000000 - 1

/-- a number below three.  A word is unfair with probability one quarter, so the bound on the
attempts is met by no stream that could be waited for. -/
def below3From : (attempts : Nat) → Random → Nat × Random
  | 0, r => (0, r)
  | attempts + 1, r =>
    let (w, r) := r.word
    let product := 3 * w.toNat
    if product % 0x100000000 ≤ fairLimit then (product / 0x100000000, r) else below3From attempts r

def below3 (r : Random) : Nat × Random := below3From 1000 r

/-- whether the next number of 64 bits falls below a bound; above all of them nothing is drawn -/
def chance (bound : Nat) (r : Random) : Bool × Random :=
  if 0x10000000000000000 ≤ bound then (true, r)
  else
    let (n, r) := r.word64
    (n < bound, r)

end Random

end EventMerge
