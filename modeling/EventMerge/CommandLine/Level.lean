import EventMerge.CommandLine.Option

/-!
# Reading the words of a command line

The words are read in order.  An option whose value is the next word waits for it; what it was given
is looked at when the next option comes up or the words end, so that a wrong value is found in front
of a later request for help.

* `Level.word`     what one word does;
* `Level.words`    the words of a command, up to a subcommand;
* `Level.settle`   looks at the value of the last option;
* `readCommand`    the words of a command and its subcommand.
-/

namespace EventMerge.CommandLine

/-- an option whose value has not been looked at, and perhaps not been given -/
structure Pending where
  option : OptionSpec
  word : Option String

/-- the words of one command that have been read -/
structure Level where
  given : Given := []
  pending : Option Pending := none
  /-- all further words are operands -/
  trailing : Bool := false
  hasOperand : Bool := false

namespace Level

def isWaiting (l : Level) : Bool :=
  match l.pending with
  | some ⟨_, none⟩ => true
  | _ => false

def record (l : Level) (o : OptionSpec) (word : String) : Except Refusal Level :=
  if l.given.has o.long && !o.isRepeatable then .error .usage
  else if (o.values word).all o.accepts then
    .ok { l with given := l.given ++ (o.values word).map fun value => (o.long, value) }
  else .error .usage

def settle (l : Level) : Except Refusal Level :=
  match l.pending with
  | none => .ok l
  | some ⟨_, none⟩ => .error .usage
  | some ⟨o, some word⟩ => record { l with pending := none } o word

def attach (l : Level) (o : OptionSpec) (word : String) : Except Refusal Level :=
  match l.settle with
  | .error r => .error r
  | .ok l => l.record o word

def react (l : Level) (o : OptionSpec) : Except Refusal Level :=
  match o.action with
  | .refuse refusal =>
    match l.settle with
    | .error r => .error r
    | .ok _ => .error refusal
  | _ => l.attach o ""

def await (l : Level) (o : OptionSpec) : Except Refusal Level :=
  match l.settle with
  | .error r => .error r
  | .ok l => .ok { l with pending := some ⟨o, none⟩ }

def longOption (s : LevelSpec) (l : Level) (text : List Char) : Except Refusal Level :=
  let (name, value) :=
    match Text.splitFirst? '=' text with
    | some (name, value) => (name, some value)
    | none => (text, none)
  match s.findLong? (String.ofList name), value with
  | none, _ => .error .usage
  | some o, some value =>
    if o.action.takesValue then l.attach o (String.ofList value) else .error .usage
  | some o, none => if o.action.takesValue then l.await o else l.react o

/-- options after one dash, a letter each; behind one that takes a value the rest is that value -/
def shortOptions (s : LevelSpec) : List Char → Level → Except Refusal Level
  | [], l => .ok l
  | letter :: rest, l =>
    match s.findShort? letter with
    | none => .error .usage
    | some o =>
      if o.action.takesValue then
        match rest with
        | [] => l.await o
        | '=' :: value => l.attach o (String.ofList value)
        | value => l.attach o (String.ofList value)
      else
        match l.react o with
        | .error r => .error r
        | .ok l => shortOptions s rest l

def operand (s : LevelSpec) (l : Level) (word : String) : Except Refusal Level :=
  match s.operand, l.hasOperand with
  | some o, false =>
    match l.settle with
    | .error r => .error r
    | .ok l => .ok { l with pending := some ⟨o, some word⟩, hasOperand := true }
  | _, _ => .error .usage

def plainWord (s : LevelSpec) (l : Level) (word : String) : Except Refusal Level :=
  match l.pending with
  | some ⟨o, none⟩ => .ok { l with pending := some ⟨o, some word⟩ }
  | _ => l.operand s word

def word (s : LevelSpec) (l : Level) (word : String) : Except Refusal Level :=
  if l.trailing then l.operand s word
  else
    match word.toList with
    | ['-', '-'] => .ok { l with trailing := true }
    | '-' :: '-' :: text => l.longOption s text
    | '-' :: letter :: rest => shortOptions s (letter :: rest) l
    | _ => l.plainWord s word

def isSubcommand (s : LevelSpec) (l : Level) (word : String) : Bool :=
  !l.trailing && !l.isWaiting && s.subcommands.contains word

/-- reads the words of a command up to a subcommand: its name and the words after it, if there is
one -/
def words (s : LevelSpec) :
    List String → Level → Except Refusal (Level × Option (String × List String))
  | [], l => .ok (l, none)
  | head :: rest, l =>
    if l.isSubcommand s head then .ok (l, some (head, rest))
    else
      match l.word s head with
      | .error r => .error r
      | .ok l => words s rest l

def close (s : LevelSpec) (l : Level) : Except Refusal Given :=
  match l.settle with
  | .error r => .error r
  | .ok l => if s.required.all l.given.has then .ok l.given else .error .usage

end Level

/-! ## commands -/

structure Reading where
  outer : Given
  name : String
  inner : Given

def helpName : String := "help"

def helpOn (s : LevelSpec) : List String → Refusal
  | [] => .help
  | [name] => if s.subcommands.contains name then .help else .usage
  | _ => .usage

def readSubcommand (s : LevelSpec) (words : List String) : Except Refusal Given :=
  match Level.words s words {} with
  | .error r => .error r
  | .ok (l, none) => l.close s
  | .ok (_, some _) => .error .usage

/-- the words of a command that does nothing without a subcommand.  Those of the subcommand are read
to their end before the last option in front of it is looked at. -/
def readCommand (s : LevelSpec) (subcommand : String → LevelSpec) (words : List String) :
    Except Refusal Reading :=
  match Level.words s words {} with
  | .error r => .error r
  | .ok (l, none) =>
    match l.close s with
    | .error r => .error r
    | .ok given => .error (if given.isEmpty then .help else .usage)
  | .ok (l, some (name, rest)) =>
    if name = helpName then .error (helpOn s rest)
    else
      match readSubcommand (subcommand name) rest with
      | .error r => .error r
      | .ok inner =>
        match l.close s with
        | .error r => .error r
        | .ok outer => .ok ⟨outer, name, inner⟩

end EventMerge.CommandLine
