import EventMerge.Zstd.Huffman

/-!
# The literals of a block

A compressed block starts with its literals: as they are, as one octet repeated, or under a Huffman
code whose tree is written here or taken from an earlier block of the frame.

* `Literals.read?`  the literals of a block, what follows them, and the tree for later blocks.
-/

namespace EventMerge.Zstd

structure Literals where
  octets : Bytes
  rest : Bytes
  /-- the tree that a later block can refer to -/
  tree : Option Huffman.Tree

namespace Literals

def plainHeader? (bytes : Bytes) (head : Nat) : Option (Nat × Nat) :=
  let format := head / 4 % 4
  let width := if format = 1 then 2 else if format = 3 then 3 else 1
  if bytes.length < width then none
  else some (width, Bytes.toNatLE (bytes.take width) / (if width = 1 then 8 else 16))

/-- literals as they are, or one octet repeated -/
def plain? (limit : Nat) (repeated : Bool) (tree : Option Huffman.Tree) (bytes : Bytes)
    (head : Nat) : Option Literals :=
  match plainHeader? bytes head with
  | none => none
  | some (width, size) =>
    let body := bytes.drop width
    if limit < size then none
    else if repeated then
      match body with
      | [] => none
      | b :: rest => some ⟨List.replicate size b, rest, tree⟩
    else if body.length < size then none
    else some ⟨body.take size, body.drop size, tree⟩

def codedHeader (format : Nat) : Nat × Nat :=
  if format = 2 then (4, 14) else if format = 3 then (5, 18) else (3, 10)

def coded? (limit : Nat) (fresh : Bool) (earlier : Option Huffman.Tree) (bytes : Bytes)
    (head : Nat) : Option Literals :=
  let format := head / 4 % 4
  let (width, bits) := codedHeader format
  let sizes := Bytes.toNatLE (bytes.take width) / 16
  let size := sizes % Nat.pow 2 bits
  let coded := sizes / Nat.pow 2 bits % Nat.pow 2 bits
  let body := bytes.drop width
  if bytes.length < 5 ∨ limit < size ∨ body.length < coded ∨ (format ≠ 0 ∧ size < 6) then none
  else
    let content := body.take coded
    let tree? := if fresh then Huffman.Tree.read? content else earlier.map (·, 0)
    match tree? with
    | none => none
    | some (tree, taken) =>
      let streams := content.drop taken
      let octets? :=
        if format = 0 then tree.decode? size streams else tree.decodeFour? size streams
      octets?.map fun octets => ⟨octets, body.drop coded, some tree⟩

def read? (limit : Nat) (tree : Option Huffman.Tree) (bytes : Bytes) : Option Literals :=
  match bytes with
  | [] => none
  | b :: _ =>
    let head := b.toNat
    match head % 4 with
    | 0 => plain? limit false tree bytes head
    | 1 => plain? limit true tree bytes head
    | 2 => coded? limit true tree bytes head
    | _ => coded? limit false tree bytes head

end Literals

end EventMerge.Zstd
