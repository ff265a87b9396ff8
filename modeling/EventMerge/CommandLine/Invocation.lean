import EventMerge.Command.Basic
import EventMerge.CommandLine.Level

/-!
# The command line

* `Invocation.parse`  the invocation of a list of words, without the name of the program.
-/

namespace EventMerge

namespace CommandLine

/-! ## values -/

def natural? (text : String) : Option Nat :=
  (Text.Decimal.parse Text.Decimal.limit64 text).toOption

def isPath (text : String) : Bool := !text.isEmpty

def valueOr {α : Type} (default : α) (read : String → Option α) (g : Given) (name : String) : α :=
  ((g.value? name).bind read).getD default

/-! ## options -/

def commonOptions : List OptionSpec := [
  { long := "verbose", short := some 'v', action := .flag },
  { long := "format", action := .set, accepts := fun text => (OutputFormat.ofName? text).isSome },
  { long := "help", short := some 'h', action := .refuse .help }]

def isNatural (text : String) : Bool := (natural? text).isSome

def generateSpec : LevelSpec where
  options := [
    { long := "output", short := some 'o', action := .set, required := true, accepts := isPath },
    { long := "events", short := some 'n', action := .set, accepts := isNatural },
    { long := "collections", action := .append, delimiter := some ',' },
    { long := "seed", action := .set, accepts := isNatural },
    { long := "payload-size", action := .set, accepts := isNatural },
    { long := "drop-rate", action := .set
      accepts := fun text => (Number.Double.parse? text).isSome },
    { long := "kind", action := .set, accepts := fun text => (FileKind.ofName? text).isSome }]
    ++ commonOptions

def runSpec : LevelSpec where
  options := [
    { long := "pack", action := .append, accepts := isPath },
    { long := "table", action := .append, accepts := isPath },
    { long := "event-kind", action := .set
      accepts := fun text => (EventKind.ofName? text).isSome },
    { long := "reuse", action := .flag },
    { long := "threads", short := some 'j', action := .set, accepts := isNatural },
    { long := "max-events", action := .set, accepts := isNatural },
    { long := "new-collection", action := .append },
    { long := "write", action := .append },
    { long := "output", short := some 'o', action := .set, accepts := isPath },
    { long := "table-output", action := .set, accepts := isPath },
    { long := "config", short := some 'c', action := .set, accepts := isPath }]
    ++ commonOptions

def inspectSpec : LevelSpec where
  options := [
    { long := "entries", action := .set },
    { long := "detailed", action := .flag }] ++ commonOptions
  operand := some { long := "path", action := .set, required := true, accepts := isPath }

def generateName : String := "generate"
def runName : String := "run"
def inspectName : String := "inspect"

def topSpec : LevelSpec where
  options :=
    { long := "version", short := some 'V', action := .refuse .version } :: commonOptions
  subcommands := [generateName, runName, inspectName, helpName]

def subcommandSpec (name : String) : LevelSpec :=
  if name = generateName then generateSpec
  else if name = runName then runSpec
  else inspectSpec

/-! ## requests -/

def defaultCollections : List String := ["Hits", "Tracks", "Clusters"]

def generateRequest (g : Given) : GenerateRequest where
  output := valueOr "" some g "output"
  events := valueOr 10 natural? g "events"
  collections := if g.has "collections" then g.all "collections" else defaultCollections
  seed := valueOr 42 natural? g "seed"
  payloadSize := valueOr 64 natural? g "payload-size"
  dropRate := valueOr .zero Number.Double.parse? g "drop-rate"
  kind := valueOr .pack FileKind.ofName? g "kind"

def runRequest (g : Given) : RunRequest where
  packs := g.all "pack"
  tables := g.all "table"
  overrides := {
    eventKind := (g.value? "event-kind").bind EventKind.ofName?
    reuse := g.has "reuse"
    threads := (g.value? "threads").bind natural?
    maxEvents := (g.value? "max-events").bind natural?
    newCollections := g.all "new-collection"
    writeCollections := g.all "write" }
  output := g.value? "output"
  tableOutput := g.value? "table-output"
  config := g.value? "config"

def inspectRequest (g : Given) : InspectRequest where
  path := valueOr "" some g "path"
  entries := g.value? "entries"
  detailed := g.has "detailed"

def commandOf (name : String) (g : Given) : Command :=
  if name = generateName then .generate (generateRequest g)
  else if name = runName then .run (runRequest g)
  else .inspect (inspectRequest g)

end CommandLine

namespace Invocation

open CommandLine

/-- the invocation of the words of a command line.  What stands behind the subcommand goes in front of
what stands before it. -/
def parse (words : List String) : Except Refusal Invocation :=
  match readCommand topSpec subcommandSpec words with
  | .error r => .error r
  | .ok reading =>
    let both := reading.inner ++ reading.outer
    .ok {
      command := commandOf reading.name reading.inner
      format := valueOr .text OutputFormat.ofName? both "format"
      verbose := both.has "verbose" }

end Invocation

end EventMerge
