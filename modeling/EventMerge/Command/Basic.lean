import EventMerge.Generate.Basic
import EventMerge.Run.Config

/-!
# Commands

* `RunRequest`      read events from sources, process them and write them out;
* `InspectRequest`  report about a pack;
* `Command`         one of these, or the making of a synthetic file;
* `Invocation`      a command, and how its outcome is shown.
-/

namespace EventMerge

structure RunRequest where
  packs : List String
  tables : List String
  overrides : RunOverrides
  output : Option String
  tableOutput : Option String
  config : Option String
  deriving DecidableEq

structure InspectRequest where
  path : String
  entries : Option String
  detailed : Bool
  deriving DecidableEq

inductive Command where
  | generate (request : GenerateRequest)
  | run (request : RunRequest)
  | inspect (request : InspectRequest)
  deriving DecidableEq

inductive OutputFormat where
  | text
  | json
  deriving DecidableEq

namespace OutputFormat

def ofName? (text : String) : Option OutputFormat :=
  if text = "text" then some .text else if text = "json" then some .json else none

end OutputFormat

structure Invocation where
  command : Command
  format : OutputFormat
  verbose : Bool
  deriving DecidableEq

namespace Command

def inputs : Command → List String
  | generate _ => []
  | run request => request.config.toList ++ request.packs ++ request.tables
  | inspect request => [request.path]

def outputs : Command → List String
  | generate request => [request.output]
  | run request => request.output.toList ++ request.tableOutput.toList
  | inspect _ => []

end Command

end EventMerge
