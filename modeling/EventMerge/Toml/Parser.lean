import EventMerge.Toml.Quoted
import EventMerge.Toml.Table

/-!
# Reading TOML documents

A document is a row of lines: a header, a key with a value, a comment, or nothing.  Arrays may run
over several lines, tables between braces may not.

* `Toml.parse?`  the fields at the top of a document.
-/

namespace EventMerge.Toml

namespace Parser

/-- arrays and braces may be nested up to this depth, and keys have fewer parts -/
def depthLimit : Nat := 80

def skipBlanks (text : List Char) : List Char := text.dropWhile Quoted.isInlineBlank

def skipComment : List Char → List Char
  | '#' :: rest => rest.dropWhile Quoted.isPlain
  | text => text

/-- what follows the end of a line, in front of which a comment may stand -/
def endLine? (text : List Char) : Option (List Char) :=
  match skipComment (skipBlanks text) with
  | [] => some []
  | rest => Quoted.newline? rest

def skipLines : (fuel : Nat) → List Char → List Char
  | 0, text => text
  | fuel + 1, text =>
    let text := skipBlanks text
    match Quoted.newline? (skipComment text) with
    | some rest => skipLines fuel rest
    | none => text

/-! ## keys -/

def isBareKey (c : Char) : Bool :=
  ('a' ≤ c && c ≤ 'z') || ('A' ≤ c && c ≤ 'Z') || ('0' ≤ c && c ≤ '9') || c = '-' || c = '_'

def keyPart? (text : List Char) : Option (String × List Char) :=
  match text with
  | '"' :: rest =>
    (Quoted.basic? (rest.length + 1) rest).map fun (part, after) => (String.ofList part, after)
  | '\'' :: rest => (Quoted.literal? rest).map fun (part, after) => (String.ofList part, after)
  | text =>
    let part := text.takeWhile isBareKey
    if part.isEmpty then none else some (String.ofList part, text.dropWhile isBareKey)

def key? : (fuel : Nat) → List Char → Option (List String × List Char)
  | 0, _ => none
  | fuel + 1, text =>
    match keyPart? (skipBlanks text) with
    | none => none
    | some (part, rest) =>
      match skipBlanks rest with
      | '.' :: rest => (key? fuel rest).map fun (parts, after) => (part :: parts, after)
      | rest => some ([part], rest)

def keyLimit : Nat := depthLimit - 1

/-! ## values -/

def isTokenChar (c : Char) : Bool :=
  isBareKey c || c = '+' || c = '.' || c = ':'

/-- a number, date or word and what follows it; a blank may stand between a date and a time -/
def token (text : List Char) : List Char × List Char :=
  let first := text.takeWhile isTokenChar
  let rest := text.dropWhile isTokenChar
  match DateTime.date? first, rest with
  | some (_, []), ' ' :: a :: b :: ':' :: more =>
    if Number.Double.isDigit a ∧ Number.Double.isDigit b then
      (first ++ ' ' :: a :: b :: ':' :: more.takeWhile isTokenChar, more.dropWhile isTokenChar)
    else (first, rest)
  | _, _ => (first, rest)

mutual

def value? : (fuel depth : Nat) → List Char → Option (Item × List Char)
  | 0, _, _ => none
  | fuel + 1, depth, text =>
    match text with
    | '"' :: _ | '\'' :: _ =>
      (Quoted.any? text).map fun (chars, after) =>
        (.scalar (.string (String.ofList chars)), after)
    | '[' :: rest =>
      if depthLimit ≤ depth + 1 then none
      else (items? fuel (depth + 1) rest).map fun (items, after) => (.array items, after)
    | '{' :: rest =>
      if depthLimit ≤ depth + 1 then none
      else
        match skipBlanks rest with
        | '}' :: after => some (.inlineTable .defined [], after)
        | rest =>
          (fields? fuel (depth + 1) [] rest).map fun (fields, after) =>
            (.inlineTable .defined fields, after)
    | text =>
      let (run, after) := token text
      (Scalar.ofToken? run).map fun value => (.scalar value, after)

/-- the values of an array and what follows its closing bracket; a comma may follow the last -/
def items? : (fuel depth : Nat) → List Char → Option (List Item × List Char)
  | 0, _, _ => none
  | fuel + 1, depth, text =>
    match skipLines text.length text with
    | ']' :: after => some ([], after)
    | text =>
      match value? fuel depth text with
      | none => none
      | some (item, rest) =>
        match skipLines rest.length rest with
        | ',' :: rest =>
          (items? fuel depth rest).map fun (items, after) => (item :: items, after)
        | ']' :: after => some ([item], after)
        | _ => none

def fields? : (fuel depth : Nat) → Fields → List Char → Option (Fields × List Char)
  | 0, _, _, _ => none
  | fuel + 1, depth, fields, text =>
    match key? keyLimit text with
    | some (key, '=' :: rest) =>
      match value? fuel depth (skipBlanks rest) with
      | none => none
      | some (item, rest) =>
        match fields.define? true item key with
        | none => none
        | some fields =>
          match skipBlanks rest with
          | ',' :: rest => fields? fuel depth fields rest
          | '}' :: after => some (fields, after)
          | _ => none
    | _ => none

end

/-! ## lines -/

def header? (closing : List Char) (text : List Char) : Option (List String × List Char) :=
  match key? keyLimit text with
  | some (path, rest) =>
    if rest.take closing.length = closing then some (path, rest.drop closing.length) else none
  | none => none

/-- reads one line that is neither empty nor a comment -/
def line? (b : Builder) (text : List Char) : Option (Builder × List Char) :=
  match text with
  | '[' :: '[' :: rest =>
    match header? [']', ']'] rest with
    | some (path, after) =>
      (b.close?.bind fun root => Builder.openList? root path).map fun b => (b, after)
    | none => none
  | '[' :: rest =>
    match header? [']'] rest with
    | some (path, after) =>
      (b.close?.bind fun root => Builder.openTable? root path).map fun b => (b, after)
    | none => none
  | text =>
    match key? keyLimit text with
    | some (key, '=' :: rest) =>
      match value? (2 * rest.length + 2) 0 (skipBlanks rest) with
      | some (item, after) => (b.define? key item).map fun b => (b, after)
      | none => none
    | _ => none

def lines? : (fuel : Nat) → Builder → List Char → Option Builder
  | 0, _, _ => none
  | fuel + 1, b, text =>
    let text := skipBlanks text
    if text.isEmpty then some b
    else
      match Quoted.newline? text with
      | some rest => lines? fuel b rest
      | none =>
        let read := if text.head? = some '#' then some (b, text) else line? b text
        match read with
        | none => none
        | some (b, rest) =>
          match endLine? rest with
          | some rest => lines? fuel b rest
          | none => none

end Parser

/-- the fields at the top of a document; a mark of the byte order may stand in front -/
def parse? (text : String) : Option Fields :=
  let chars :=
    match text.toList with
    | '\uFEFF' :: rest => rest
    | chars => chars
  (Parser.lines? (chars.length + 1) {} chars).bind Builder.close?

end EventMerge.Toml
