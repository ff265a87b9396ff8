import EventMerge.NameMap
import EventMerge.Bytes
import EventMerge.Text.Blank

/-!
# Files that commands see

* `Directory`           what can be read and where can be written;
* `Directory.ofFiles`   a directory of files alone, without directories in it;
* `Path.fileName?`      the file of such a directory that a path leads to.
-/

namespace EventMerge

/-- what can be read, and where can be written -/
structure Directory where
  read? : String → Option Bytes
  canWrite : String → Bool

namespace Path

/-- the octets that the name of a file may have -/
def nameLimit : Nat := 255

def isFileName (name : List Char) : Bool :=
  name ≠ ['.', '.'] && name ≠ ['.'] && !name.isEmpty && !name.contains (Char.ofNat 0)
    && (String.ofList name).utf8ByteSize ≤ nameLimit

def lastPart? : List (List Char) → Option (List Char)
  | [] => none
  | [part] => some part
  | part :: rest => if part.isEmpty || part = ['.'] then lastPart? rest else none

/-- the file that a path leads to in a directory without directories -/
def fileName? (path : String) : Option String :=
  if path.toList.head? = some '/' then none
  else
    match lastPart? (Text.splitChars '/' path.toList) with
    | some name => if isFileName name then some (String.ofList name) else none
    | none => none

end Path

namespace Directory

def ofFiles (files : NameMap Bytes) : Directory where
  read? path := (Path.fileName? path).bind files.get?
  canWrite path := (Path.fileName? path).isSome

end Directory

end EventMerge
