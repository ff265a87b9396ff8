import EventMerge.Text.Blank

/-!
# Options of a command line

* `OptionSpec`  an option: its names, what is done with it and which values it takes;
* `LevelSpec`   the options of a command, its operand and its subcommands;
* `Given`       the options that were given, each with a value.
-/

namespace EventMerge.CommandLine

inductive Refusal where
  | help
  | version
  | usage
  deriving DecidableEq

inductive Action where
  /-- it takes a value and is given once -/
  | set
  /-- it takes a value each time it is given -/
  | append
  /-- it takes no value and is given once -/
  | flag
  | refuse (refusal : Refusal)
  deriving DecidableEq

namespace Action

def takesValue : Action → Bool
  | set | append => true
  | flag | refuse _ => false

end Action

/-- an option, or an operand, which is known by its long name only -/
structure OptionSpec where
  long : String
  short : Option Char := none
  action : Action
  required : Bool := false
  delimiter : Option Char := none
  accepts : String → Bool := fun _ => true

namespace OptionSpec

def values (o : OptionSpec) (word : String) : List String :=
  match o.delimiter with
  | some c => Text.splitOn c word
  | none => [word]

def isRepeatable (o : OptionSpec) : Bool := o.action = .append

end OptionSpec

structure LevelSpec where
  options : List OptionSpec
  operand : Option OptionSpec := none
  subcommands : List String := []

namespace LevelSpec

def findLong? (s : LevelSpec) (name : String) : Option OptionSpec :=
  s.options.find? fun o => o.long = name

def findShort? (s : LevelSpec) (letter : Char) : Option OptionSpec :=
  s.options.find? fun o => o.short = some letter

def required (s : LevelSpec) : List String :=
  ((s.options ++ s.operand.toList).filter OptionSpec.required).map OptionSpec.long

end LevelSpec

/-- the long names that were given, in order, with one value each -/
abbrev Given := List (String × String)

namespace Given

def has (g : Given) (name : String) : Bool := g.any fun entry => entry.1 = name

def all (g : Given) (name : String) : List String :=
  (g.filter fun entry => entry.1 = name).map Prod.snd

def value? (g : Given) (name : String) : Option String := (g.all name).head?

end Given

end EventMerge.CommandLine
