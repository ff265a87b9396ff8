import EventMerge.Bytes
import EventMerge.Text.Ascii

/-!
# JSON documents

A document is a tree whose leaves are kept as they are written: a number as its characters, a string
as the octets between its quotes.  What a string means depends on what it is read for, so this is
left to `Json.Literal`.

* `Tree`          a document;
* `Tree.compact`  its text without blanks;
* `Tree.pretty`   its text over several lines, each level indented by two spaces.
-/

namespace EventMerge.Json

open Text

/-- a JSON document, its leaves as they are written -/
inductive Tree where
  | null
  | bool (value : Bool)
  | number (token : Bytes)
  | string (raw : Bytes)
  | array (items : List Tree)
  | object (fields : List (Bytes × Tree))

namespace Tree

instance : Inhabited Tree := ⟨null⟩

def nullToken : Bytes := Bytes.ofText "null"
def trueToken : Bytes := Bytes.ofText "true"
def falseToken : Bytes := Bytes.ofText "false"

def quoted (raw : Bytes) : Bytes := Ascii.quoteMark :: raw ++ [Ascii.quoteMark]

def joinWith (separator : Bytes) : List Bytes → Bytes
  | [] => []
  | [item] => item
  | item :: rest => item ++ separator ++ joinWith separator rest

mutual

def compact : Tree → Bytes
  | null => nullToken
  | bool value => if value then trueToken else falseToken
  | number token => token
  | string raw => quoted raw
  | array items =>
    Ascii.openBracket :: joinWith [Ascii.comma] (compactItems items) ++ [Ascii.closeBracket]
  | object fields =>
    Ascii.openBrace :: joinWith [Ascii.comma] (compactFields fields) ++ [Ascii.closeBrace]

def compactItems : List Tree → List Bytes
  | [] => []
  | item :: rest => compact item :: compactItems rest

def compactFields : List (Bytes × Tree) → List Bytes
  | [] => []
  | (key, value) :: rest =>
    (quoted key ++ Ascii.colon :: compact value) :: compactFields rest

end

def newLine (level : Nat) : Bytes := Ascii.lineFeed :: List.replicate (2 * level) Ascii.space

/-- entries on lines of their own between brackets; nothing at all between them if there are none -/
def block (opening closing : UInt8) (level : Nat) : List Bytes → Bytes
  | [] => [opening, closing]
  | entries =>
    opening :: newLine (level + 1) ++ joinWith (Ascii.comma :: newLine (level + 1)) entries
      ++ newLine level ++ [closing]

mutual

def prettyAt (level : Nat) : Tree → Bytes
  | null => nullToken
  | bool value => if value then trueToken else falseToken
  | number token => token
  | string raw => quoted raw
  | array items =>
    block Ascii.openBracket Ascii.closeBracket level (prettyItems (level + 1) items)
  | object fields =>
    block Ascii.openBrace Ascii.closeBrace level (prettyFields (level + 1) fields)

def prettyItems (level : Nat) : List Tree → List Bytes
  | [] => []
  | item :: rest => prettyAt level item :: prettyItems level rest

def prettyFields (level : Nat) : List (Bytes × Tree) → List Bytes
  | [] => []
  | (key, value) :: rest =>
    (quoted key ++ [Ascii.colon, Ascii.space] ++ prettyAt level value) :: prettyFields level rest

end

def pretty (tree : Tree) : Bytes := prettyAt 0 tree

end Tree

end EventMerge.Json
