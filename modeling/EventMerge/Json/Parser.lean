import EventMerge.Json.Numeral
import EventMerge.Json.Tree

/-!
# Reading JSON documents

The reader takes the octets of a document and gives its tree.  Blanks are space, tab, line feed and
carriage return.  Inside a string only the closing quote is looked for; whether its content is well
formed depends on what the string is read for and is decided later.

* `Tree.parse?`  the tree of a document with nothing but blanks around it.
-/

namespace EventMerge.Json

open Text

namespace Parser

def isBlank : UInt8 → Bool
  | Ascii.space | Ascii.tab | Ascii.lineFeed | Ascii.carriageReturn => true
  | _ => false

def skipBlanks (text : Bytes) : Bytes := text.dropWhile isBlank

/-- the octets up to the closing quote and what follows it; an escaped quote does not close -/
def string? : Bytes → Option (Bytes × Bytes)
  | [] => none
  | Ascii.quoteMark :: rest => some ([], rest)
  | Ascii.backslash :: c :: rest =>
    match string? rest with
    | some (raw, after) => some (Ascii.backslash :: c :: raw, after)
    | none => none
  | c :: rest =>
    match string? rest with
    | some (raw, after) => some (c :: raw, after)
    | none => none

def expect? : Bytes → Bytes → Option Bytes
  | [], text => some text
  | _ :: _, [] => none
  | b :: wanted, c :: text => if b = c then expect? wanted text else none

/-- the longest run of octets that can stand in a number, which must be one -/
def number? (text : Bytes) : Option (Tree × Bytes) :=
  let token := text.takeWhile Numeral.isTokenByte
  (Numeral.ofToken? token).map fun _ => (.number token, text.dropWhile Numeral.isTokenByte)

mutual

def value? : Nat → Bytes → Option (Tree × Bytes)
  | 0, _ => none
  | fuel + 1, text =>
    match skipBlanks text with
    | [] => none
    | Ascii.quoteMark :: rest => (string? rest).map fun (raw, after) => (.string raw, after)
    | Ascii.openBracket :: rest =>
      match skipBlanks rest with
      | Ascii.closeBracket :: after => some (.array [], after)
      | rest => (items? fuel rest).map fun (items, after) => (.array items, after)
    | Ascii.openBrace :: rest =>
      match skipBlanks rest with
      | Ascii.closeBrace :: after => some (.object [], after)
      | rest => (fields? fuel rest).map fun (fields, after) => (.object fields, after)
    | Ascii.letterN :: rest =>
      (expect? (Tree.nullToken.drop 1) rest).map fun after => (.null, after)
    | Ascii.letterT :: rest =>
      (expect? (Tree.trueToken.drop 1) rest).map fun after => (.bool true, after)
    | Ascii.letterF :: rest =>
      (expect? (Tree.falseToken.drop 1) rest).map fun after => (.bool false, after)
    | text => number? text

def items? : Nat → Bytes → Option (List Tree × Bytes)
  | 0, _ => none
  | fuel + 1, text =>
    match value? fuel text with
    | none => none
    | some (item, rest) =>
      match skipBlanks rest with
      | Ascii.comma :: rest => (items? fuel rest).map fun (items, after) => (item :: items, after)
      | Ascii.closeBracket :: after => some ([item], after)
      | _ => none

def fields? : Nat → Bytes → Option (List (Bytes × Tree) × Bytes)
  | 0, _ => none
  | fuel + 1, text =>
    match skipBlanks text with
    | Ascii.quoteMark :: rest =>
      match string? rest with
      | none => none
      | some (key, rest) =>
        match skipBlanks rest with
        | Ascii.colon :: rest =>
          match value? fuel rest with
          | none => none
          | some (value, rest) =>
            match skipBlanks rest with
            | Ascii.comma :: rest =>
              (fields? fuel rest).map fun (fields, after) => ((key, value) :: fields, after)
            | Ascii.closeBrace :: after => some ([(key, value)], after)
            | _ => none
        | _ => none
    | _ => none

end

end Parser

/-- the tree of a document.  Each value takes at least one octet, and entering a value costs at most
two steps, so the bound on the steps is never met. -/
def Tree.parse? (text : Bytes) : Option Tree :=
  match Parser.value? (2 * text.length + 2) text with
  | some (tree, rest) => if (Parser.skipBlanks rest).isEmpty then some tree else none
  | none => none

end EventMerge.Json
