import EventMerge.Bytes

/-!
# The BLAKE3 hash

The input is cut into chunks of 1024 octets.  Each chunk is folded, block by block, into a chaining
value; the chunks are the leaves of a binary tree whose left subtrees are complete, and a parent
compresses the chaining values of its two children.  The last compression carries the root flag.

* `Blake3.compress`  the compression of one block;
* `Blake3.subtree`   the last node of a run of chunks;
* `Blake3.hash`      the 32 octets of the root.
-/

set_option linter.unusedVariables false

namespace EventMerge.Checksum.Blake3

def initial : Array UInt32 := #[
  0x6A09E667, 0xBB67AE85, 0x3C6EF372, 0xA54FF53A, 0x510E527F, 0x9B05688C, 0x1F83D9AB, 0x5BE0CD19]

/-- the order in which a round takes the message words of the round before it -/
def permutation : Array Nat := #[2, 6, 3, 10, 7, 0, 4, 13, 1, 11, 12, 5, 9, 14, 15, 8]

def chunkStart : UInt32 := 1
def chunkEnd : UInt32 := 2
def parent : UInt32 := 4
def root : UInt32 := 8

def rotateRight (x count : UInt32) : UInt32 := (x >>> count) ||| (x <<< (32 - count))

def word (words : Array UInt32) (i : Nat) : UInt32 := words.getD i 0

/-- mixes two message words into four words of the state -/
def mix (state : Array UInt32) (a b c d : Nat) (x y : UInt32) : Array UInt32 :=
  let va := word state a + word state b + x
  let vd := rotateRight (word state d ^^^ va) 16
  let vc := word state c + vd
  let vb := rotateRight (word state b ^^^ vc) 12
  let va := va + vb + y
  let vd := rotateRight (vd ^^^ va) 8
  let vc := vc + vd
  let vb := rotateRight (vb ^^^ vc) 7
  (((state.setIfInBounds a va).setIfInBounds b vb).setIfInBounds c vc).setIfInBounds d vd

/-- the four columns and the four diagonals -/
def round (state message : Array UInt32) : Array UInt32 :=
  let state := mix state 0 4 8 12 (word message 0) (word message 1)
  let state := mix state 1 5 9 13 (word message 2) (word message 3)
  let state := mix state 2 6 10 14 (word message 4) (word message 5)
  let state := mix state 3 7 11 15 (word message 6) (word message 7)
  let state := mix state 0 5 10 15 (word message 8) (word message 9)
  let state := mix state 1 6 11 12 (word message 10) (word message 11)
  let state := mix state 2 7 8 13 (word message 12) (word message 13)
  mix state 3 4 9 14 (word message 14) (word message 15)

def rounds : Nat → Array UInt32 → Array UInt32 → Array UInt32
  | 0, state, _ => state
  | count + 1, state, message =>
    rounds count (round state message) (permutation.map (word message))

/-- the compression of one block; the first half of its result is the new chaining value -/
def compress (chaining message : Array UInt32) (counter : Nat) (blockLength flags : UInt32) :
    Array UInt32 :=
  let start := chaining ++ initial.extract 0 4
    ++ #[UInt32.ofNat counter, UInt32.ofNat (counter / 0x100000000), blockLength, flags]
  let final := rounds 7 start message
  (Array.range 8).map fun i => word final i ^^^ word final (i + 8)

structure Node where
  chaining : Array UInt32
  message : Array UInt32
  counter : Nat
  blockLength : UInt32
  flags : UInt32

namespace Node

def chainingValue (n : Node) : Array UInt32 :=
  compress n.chaining n.message n.counter n.blockLength n.flags

def rootHash (n : Node) : Bytes :=
  (compress n.chaining n.message 0 n.blockLength (n.flags ||| root)).toList.flatMap fun w =>
    Bytes.ofNatLE 4 w.toNat

end Node

def blockWords (block : Bytes) : Array UInt32 :=
  let octets := block.toArray
  (Array.range 16).map fun i =>
    (octets.getD (4 * i) 0).toUInt32
      ||| ((octets.getD (4 * i + 1) 0).toUInt32 <<< 8)
      ||| ((octets.getD (4 * i + 2) 0).toUInt32 <<< 16)
      ||| ((octets.getD (4 * i + 3) 0).toUInt32 <<< 24)

/-- pieces of `size` octets, the last one possibly shorter; there is always one -/
def pieces (size : Nat) (bytes : Bytes) : List Bytes :=
  if bytes.length ≤ size ∨ size = 0 then [bytes]
  else bytes.take size :: pieces size (bytes.drop size)
termination_by bytes.length
decreasing_by
  rw [List.length_drop]
  omega

/-- folds the blocks of a chunk; the last one is left uncompressed -/
def chunkNode (counter : Nat) (chaining : Array UInt32) (flags : UInt32) : List Bytes → Node
  | [] => ⟨chaining, blockWords [], counter, 0, flags ||| chunkEnd⟩
  | [block] => ⟨chaining, blockWords block, counter, UInt32.ofNat block.length, flags ||| chunkEnd⟩
  | block :: rest =>
    let next := compress chaining (blockWords block) counter (UInt32.ofNat block.length) flags
    chunkNode counter next 0 rest

def chunk (counter : Nat) (bytes : Bytes) : Node :=
  chunkNode counter initial chunkStart (pieces 64 bytes)

/-- the number of chunks in the left subtree: the greatest power of two below `count` -/
def leftCount (count : Nat) : Nat := Nat.pow 2 (count - 1).log2

theorem leftCount_pos (count : Nat) : 0 < leftCount count := Nat.two_pow_pos _

theorem leftCount_lt {count : Nat} (h : 1 < count) : leftCount count < count := by
  have hle : leftCount count ≤ count - 1 := Nat.log2_self_le (Nat.sub_ne_zero_of_lt h)
  omega

/-- the last node of a run of chunks of which the first has the number `counter` -/
def subtree (counter : Nat) (chunks : List Bytes) : Node :=
  if h : 1 < chunks.length then
    let count := leftCount chunks.length
    let left := subtree counter (chunks.take count)
    let right := subtree (counter + count) (chunks.drop count)
    ⟨initial, left.chainingValue ++ right.chainingValue, 0, 64, parent⟩
  else chunk counter (chunks.headD [])
termination_by chunks.length
decreasing_by
  · rw [List.length_take]
    have := leftCount_lt h
    omega
  · rw [List.length_drop]
    have := leftCount_pos chunks.length
    omega

def hash (bytes : Bytes) : Bytes := (subtree 0 (pieces 1024 bytes)).rootHash

end EventMerge.Checksum.Blake3
