import EventMerge.Checksum.XxHash64
import EventMerge.Zstd.Literals
import EventMerge.Zstd.Sequences

/-!
# Zstandard frames

A byte string is a row of frames, each with a header, blocks, and perhaps a check of its content;
skippable frames stand for nothing.  Blocks are kept as they are, as one octet repeated, or
compressed.

* `Zstd.decode?`  the content of a row of frames; there must be at least one;
* `Zstd.encode`   one frame whose blocks are kept as they are.
-/

set_option linter.unusedVariables false

namespace EventMerge.Zstd

/-! ## headers -/

structure Header where
  windowSize : Nat
  contentSize : Option Nat
  hasCheck : Bool
  deriving DecidableEq

namespace Header

def magic : Nat := 0xFD2FB528

def maxWindow : Nat := 0x8000000 + 1

def maxWindowLog : Nat := 31

def maxBlock : Nat := 0x20000

def pieceSize : Nat := 8192

/-- a content of this size is decoded in one piece, which needs no window -/
def fitsPiece (contentSize : Option Nat) : Bool := contentSize.any fun size => size ≤ pieceSize

def isPiece (h : Header) : Bool := fitsPiece h.contentSize

def blockLimit (h : Header) : Nat := min h.windowSize maxBlock

/-- the greatest block that is not compressed; in one piece its size does not matter -/
def plainLimit (h : Header) : Nat :=
  if h.isPiece then pieceSize else h.blockLimit

/-- the window of its descriptor: a power of two and eighths of it -/
def windowOf (descriptor : Nat) : Nat :=
  let base := Nat.pow 2 (descriptor / 8 + 10)
  base + base / 8 * (descriptor % 8)

def dictionaryWidth (flags : Nat) : Nat := if flags % 4 = 3 then 4 else flags % 4

def contentWidth (flags : Nat) : Nat :=
  let code := flags / 64
  if code = 0 then (if flags / 32 % 2 = 1 then 1 else 0) else Nat.pow 2 code

def read? : Bytes → Option (Header × Bytes)
  | [] => none
  | b :: rest =>
    let flags := b.toNat
    let isSingle := flags / 32 % 2 = 1
    let windowWidth := if isSingle then 0 else 1
    let width := windowWidth + dictionaryWidth flags + contentWidth flags
    if flags / 8 % 2 = 1 ∨ rest.length < width then none
    else
      let descriptor := Bytes.toNatLE (rest.take windowWidth)
      let rest := rest.drop windowWidth
      let dictionary := Bytes.toNatLE (rest.take (dictionaryWidth flags))
      let rest := rest.drop (dictionaryWidth flags)
      let size := Bytes.toNatLE (rest.take (contentWidth flags))
        + (if contentWidth flags = 2 then 256 else 0)
      let windowSize := if isSingle then size else windowOf descriptor
      let contentSize := if contentWidth flags = 0 then none else some size
      if dictionary ≠ 0 ∨ maxWindowLog < descriptor / 8 + 10
        ∨ (maxWindow < windowSize ∧ !fitsPiece contentSize) then none
      else
        some (⟨windowSize, contentSize, flags / 4 % 2 = 1⟩, rest.drop (contentWidth flags))

end Header

/-! ## blocks -/

structure Progress where
  window : Window := {}
  tree : Option Huffman.Tree := none
  tables : Option Sequences.Tables := none

namespace Progress

def size (p : Progress) : Nat := p.window.output.size

def append (p : Progress) (octets : Bytes) : Progress :=
  { p with window := { p.window with output := octets.foldl Array.push p.window.output } }

def compressed? (limit : Nat) (p : Progress) (bytes : Bytes) : Option Progress :=
  match Literals.read? limit p.tree bytes with
  | none => none
  | some literals =>
    match Sequences.read? p.tables literals.rest with
    | none => none
    | some (sequences, tables) =>
      match Window.execute? sequences literals.octets p.window with
      | none => none
      | some window =>
        if p.size + limit < window.output.size then none
        else some ⟨window, literals.tree, tables⟩

end Progress

inductive BlockKind where
  | raw
  | repeated
  | compressed
  deriving DecidableEq

structure Block where
  isLast : Bool
  kind : BlockKind
  size : Nat
  deriving DecidableEq

namespace Block

def kindOf? : Nat → Option BlockKind
  | 0 => some .raw
  | 1 => some .repeated
  | 2 => some .compressed
  | _ => none

def width (b : Block) : Nat := if b.kind = .repeated then 1 else b.size

def read? (bytes : Bytes) : Option (Block × Bytes) :=
  if bytes.length < 3 then none
  else
    let n := Bytes.toNatLE (bytes.take 3)
    (kindOf? (n / 2 % 4)).map fun kind => (⟨n % 2 = 1, kind, n / 8⟩, bytes.drop 3)

def fits (h : Header) (b : Block) : Bool :=
  if b.kind = .compressed then b.size ≤ h.blockLimit else b.size ≤ h.plainLimit

def extend? (h : Header) (b : Block) (p : Progress) (content : Bytes) : Option Progress :=
  match b.kind with
  | .raw => some (p.append content)
  | .repeated =>
    match content with
    | [octet] => some (p.append (List.replicate b.size octet))
    | _ => none
  | .compressed =>
    if b.size = 0 then (if h.isPiece then none else some p)
    else p.compressed? h.blockLimit content

theorem length_read? {bytes rest : Bytes} {b : Block} (h : read? bytes = some (b, rest)) :
    rest.length < bytes.length := by
  rw [read?] at h
  split at h
  · exact nomatch h
  · obtain ⟨kind, -, heq⟩ := Option.map_eq_some_iff.mp h
    cases heq
    rw [List.length_drop]
    omega

end Block

/-- the size a header promises agrees with what was decoded.  It is looked at after a last block that
takes octets, and always where the content is decoded in one piece. -/
def agrees (h : Header) (b : Block) (p : Progress) : Bool :=
  match h.contentSize with
  | none => true
  | some size => (b.width = 0 && !h.isPiece) || p.size = size

def blocks? (h : Header) (p : Progress) (bytes : Bytes) : Option (Progress × Bytes) :=
  match hread : Block.read? bytes with
  | none => none
  | some (b, rest) =>
    if !b.fits h ∨ rest.length < b.width then none
    else
      match b.extend? h p (rest.take b.width) with
      | none => none
      | some p =>
        let rest' := rest.drop b.width
        if b.isLast then (if agrees h b p then some (p, rest') else none)
        else blocks? h p rest'
termination_by bytes.length
decreasing_by
  have := Block.length_read? hread
  rw [List.length_drop]
  omega

/-! ## frames -/

/-- the low half of the hash of the content, if the header announces it -/
def check? (h : Header) (output : Bytes) (bytes : Bytes) : Option Bytes :=
  if h.hasCheck then
    let stored := Bytes.toNatLE (bytes.take 4)
    if bytes.length < 4 ∨ stored ≠ (Checksum.XxHash64.hash output).toNat % 0x100000000 then none
    else some (bytes.drop 4)
  else some bytes

def content? (bytes : Bytes) : Option (Bytes × Bytes) :=
  match Header.read? bytes with
  | none => none
  | some (h, rest) =>
    match blocks? h {} rest with
    | none => none
    | some (p, rest) =>
      let output := p.window.output.toList
      (check? h output rest).map (output, ·)

def isSkippable (magic : Nat) : Bool := magic / 16 = 0x184D2A5

def frame? (bytes : Bytes) : Option (Bytes × Bytes) :=
  let magic := Bytes.toNatLE (bytes.take 4)
  let rest := bytes.drop 4
  if bytes.length < 4 then none
  else if magic = Header.magic then content? rest
  else if isSkippable magic then
    let size := Bytes.toNatLE (rest.take 4)
    if rest.length < 4 + size then none else some ([], rest.drop (4 + size))
  else none

/-- the contents of frames, one after the other; a frame takes at least four octets -/
def frames? : (fuel : Nat) → Bytes → Option Bytes
  | _, [] => some []
  | 0, _ => none
  | fuel + 1, bytes =>
    match frame? bytes with
    | none => none
    | some (output, rest) => (frames? fuel rest).map (output ++ ·)

/-- the content of a row of frames; there must be at least one -/
def decode? (bytes : Bytes) : Option Bytes :=
  if bytes.isEmpty then none else frames? bytes.length bytes

/-! ## writing -/

def rawHeader (isLast : Bool) (size : Nat) : Bytes :=
  Bytes.ofNatLE 3 (8 * size + (if isLast then 1 else 0))

/-- the blocks of a content, kept as they are -/
def rawBlocks (bytes : Bytes) : Bytes :=
  if bytes.length ≤ Header.maxBlock then rawHeader true bytes.length ++ bytes
  else
    rawHeader false Header.maxBlock ++ bytes.take Header.maxBlock
      ++ rawBlocks (bytes.drop Header.maxBlock)
termination_by bytes.length
decreasing_by
  have : 0 < Header.maxBlock := Nat.two_pow_pos 17
  rw [List.length_drop]
  omega

/-- the window descriptor of the frames written here: exactly the greatest block -/
def windowDescriptor : UInt8 := 56

/-- a frame without content size and check, its blocks kept as they are -/
def encode (bytes : Bytes) : Bytes :=
  Bytes.ofNatLE 4 Header.magic ++ [0, windowDescriptor] ++ rawBlocks bytes

end EventMerge.Zstd
