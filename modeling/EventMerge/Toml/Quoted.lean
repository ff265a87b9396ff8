import EventMerge.Text.Ascii

/-!
# TOML strings

A string stands between double quotes, with escapes, or between single quotes, as it is; between
three of either it may run over several lines.  Control characters other than the tab are refused.

* `Quoted.basic?`, `Quoted.literal?`          strings on one line, after their opening quote;
* `Quoted.basicLines?`, `Quoted.rawLines?`    strings over several lines, after their opening quotes.
-/

namespace EventMerge.Toml.Quoted

/-- a character that can stand in a string or a comment as it is -/
def isPlain (c : Char) : Bool := c = '\t' || (0x20 ≤ c.toNat && c.toNat ≠ 0x7F)

def escape? (letter : Char) : Option Char :=
  if letter = 'b' then some '\x08'
  else if letter = 't' then some '\t'
  else if letter = 'n' then some '\n'
  else if letter = 'f' then some '\x0c'
  else if letter = 'r' then some '\r'
  else if letter = '"' ∨ letter = '\\' then some letter
  else none

def hexValue? (c : Char) : Option Nat :=
  if c.toNat < 128 then Text.Ascii.hexValue? (UInt8.ofNat c.toNat) else none

def hexNumber? : List Char → Option Nat
  | [] => some 0
  | digits =>
    digits.foldl (fun value c =>
      match value, hexValue? c with
      | some value, some digit => some (16 * value + digit)
      | _, _ => none) (some 0)

/-- the character of a code point in `width` hexadecimal digits; surrogates are none -/
def codePoint? (width : Nat) (text : List Char) : Option Char :=
  if text.length < width then none
  else
    match hexNumber? (text.take width) with
    | some n => if n < 0xD800 ∨ (0xE000 ≤ n ∧ n < 0x110000) then some (Char.ofNat n) else none
    | none => none

def basic? : (fuel : Nat) → List Char → Option (List Char × List Char)
  | 0, _ => none
  | _, [] => none
  | _, '"' :: rest => some ([], rest)
  | fuel + 1, '\\' :: letter :: rest =>
    let width := if letter = 'u' then 4 else if letter = 'U' then 8 else 0
    let char? := if width = 0 then escape? letter else codePoint? width rest
    match char?, basic? fuel (rest.drop width) with
    | some c, some (text, after) => some (c :: text, after)
    | _, _ => none
  | fuel + 1, c :: rest =>
    if isPlain c ∧ c ≠ '\\' then
      (basic? fuel rest).map fun (text, after) => (c :: text, after)
    else none

def literal? : List Char → Option (List Char × List Char)
  | [] => none
  | '\'' :: rest => some ([], rest)
  | c :: rest =>
    if isPlain c then (literal? rest).map fun (text, after) => (c :: text, after) else none

/-! ## several lines -/

def newline? : List Char → Option (List Char)
  | '\n' :: rest => some rest
  | '\r' :: '\n' :: rest => some rest
  | _ => none

def dropNewline (text : List Char) : List Char := (newline? text).getD text

def isInlineBlank (c : Char) : Bool := c = ' ' || c = '\t'

def dropBlankLines : (fuel : Nat) → List Char → List Char
  | 0, text => text
  | fuel + 1, text =>
    match newline? text with
    | some rest => dropBlankLines fuel rest
    | none =>
      match text with
      | c :: rest => if isInlineBlank c then dropBlankLines fuel rest else text
      | [] => []

/-- a run of quotes: up to two belong to the text, three and up to two more close it -/
def quotes (mark : Char) (text : List Char) : Nat := (text.takeWhile (· = mark)).length

/-- a string over several lines with escapes, and what follows its closing quotes.  A backslash at
the end of a line takes the line end and the blanks after it away. -/
def basicLines? : (fuel : Nat) → List Char → Option (List Char × List Char)
  | 0, _ => none
  | fuel + 1, text =>
    match text with
    | [] => none
    | '"' :: rest =>
      let run := quotes '"' text
      if 3 ≤ run then
        let taken := min run 5
        some (List.replicate (taken - 3) '"', text.drop taken)
      else (basicLines? fuel rest).map fun (text, after) => ('"' :: text, after)
    | '\\' :: rest =>
      match newline? (rest.dropWhile isInlineBlank) with
      | some next => basicLines? fuel (dropBlankLines next.length next)
      | none =>
        match rest with
        | [] => none
        | letter :: rest =>
          let width := if letter = 'u' then 4 else if letter = 'U' then 8 else 0
          let char? := if width = 0 then escape? letter else codePoint? width rest
          match char?, basicLines? fuel (rest.drop width) with
          | some c, some (text, after) => some (c :: text, after)
          | _, _ => none
    | c :: rest =>
      match newline? text with
      | some next => (basicLines? fuel next).map fun (text, after) => ('\n' :: text, after)
      | none =>
        if isPlain c then (basicLines? fuel rest).map fun (text, after) => (c :: text, after)
        else none

def rawLines? : (fuel : Nat) → List Char → Option (List Char × List Char)
  | 0, _ => none
  | fuel + 1, text =>
    match text with
    | [] => none
    | '\'' :: rest =>
      let run := quotes '\'' text
      if 3 ≤ run then
        let taken := min run 5
        some (List.replicate (taken - 3) '\'', text.drop taken)
      else (rawLines? fuel rest).map fun (text, after) => ('\'' :: text, after)
    | c :: rest =>
      match newline? text with
      | some next => (rawLines? fuel next).map fun (text, after) => ('\n' :: text, after)
      | none =>
        if isPlain c then (rawLines? fuel rest).map fun (text, after) => (c :: text, after)
        else none

def any? (text : List Char) : Option (List Char × List Char) :=
  match text with
  | '"' :: '"' :: '"' :: rest => basicLines? (rest.length + 1) (dropNewline rest)
  | '"' :: rest => basic? (rest.length + 1) rest
  | '\'' :: '\'' :: '\'' :: rest => rawLines? (rest.length + 1) (dropNewline rest)
  | '\'' :: rest => literal? rest
  | _ => none

end EventMerge.Toml.Quoted
