import EventMerge.Text.Printable

/-!
# Quoted names

A name inside a message stands between double quotes.  The quote and the backslash are escaped,
so are line feed, carriage return, tab and the null character, and every other hidden character is
written as its code point in hexadecimal.  A single quote stands as it is.

* `Quoted.escape`  the written form of one character;
* `quote`          the written form of a name.
-/

namespace EventMerge.Text

namespace Quoted

def hexDigits (n : Nat) : List Char := Nat.toDigits 16 n

def escape (c : Char) : List Char :=
  if c = '"' then ['\\', '"']
  else if c = '\\' then ['\\', '\\']
  else if c = '\n' then ['\\', 'n']
  else if c = '\r' then ['\\', 'r']
  else if c = '\t' then ['\\', 't']
  else if c.toNat = 0 then ['\\', '0']
  else if isHidden c then ['\\', 'u', '{'] ++ hexDigits c.toNat ++ ['}']
  else [c]

def escapeAll (text : List Char) : List Char := text.flatMap escape

end Quoted

/-- a name between double quotes, its special characters escaped -/
def quote (name : String) : String :=
  String.ofList ('"' :: Quoted.escapeAll name.toList ++ ['"'])

end EventMerge.Text
