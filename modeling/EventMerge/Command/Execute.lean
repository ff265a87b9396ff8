import EventMerge.Command.Directory
import EventMerge.Command.Report
import EventMerge.Inspect.Report
import EventMerge.Run.Pool
import EventMerge.Table.Reader

/-!
# Carrying commands out

A command reads the files of a directory and gives what there is to print, its failure if it failed,
and the files it wrote.  A run reads its configuration, then opens packs and tables in the order in
which they are named, then makes its files; an output file is there as soon as it is made, whether
the run succeeds or not, but a table is only saved at the end.

* `Command.execute`  carries a command out.
-/

namespace EventMerge

structure Execution where
  report : Report := .nothing
  failure : Option Failure := none
  /-- the files written, in this order -/
  files : List (String × Bytes) := []

namespace Execution

def failed (f : Failure) : Execution := { failure := some f }

end Execution

/-! ## making synthetic files -/

namespace GenerateRequest

def execute (d : Directory) (q : GenerateRequest) : Execution :=
  let production := q.produce (.ofSeed q.seed) (d.canWrite q.output)
  let files := (production.file.map fun octets => (q.output, octets)).toList
  match production.result with
  | .ok summary => { report := .generated q.output summary, files }
  | .error f => { failure := some f, files }

end GenerateRequest

/-! ## reports about packs -/

namespace InspectRequest

def openPack (d : Directory) (path : String) : Except PackError PackReader :=
  match d.read? path with
  | some octets => PackReader.ofBytes octets
  | none => .error .io

def present (format : OutputFormat) (i : Inspection) : Execution :=
  match format with
  | .text =>
    let (text, result) := i.text
    match result with
    | .ok () => { report := .inspected text }
    | .error f => { report := .inspected text, failure := some f }
  | .json =>
    match i.document with
    | .ok tree => { report := .inspected (Report.ofTree tree) }
    | .error f => .failed f

def execute (d : Directory) (format : OutputFormat) (q : InspectRequest) : Execution :=
  match openPack d q.path with
  | .error e => .failed ((Failure.ofPack e).within ("opening " ++ q.path))
  | .ok reader =>
    match Selection.resolve reader.eventCount q.entries with
    | .error f => .failed f
    | .ok positions => present format ⟨reader, positions, q.detailed⟩

end InspectRequest

/-! ## runs -/

namespace RunConfig

def load (d : Directory) (path : String) : Except Failure RunConfig :=
  match (d.read? path).bind Bytes.toText? with
  | none => .error (Failure.within ("reading " ++ path) ⟨[], .system⟩)
  | some text =>
    match RunConfig.parse? text with
    | none => .error (Failure.within ("parsing " ++ path) ⟨[], .malformedConfig⟩)
    | some config => .ok config

end RunConfig

namespace RunRequest

def loadConfig (d : Directory) (q : RunRequest) : Except Failure RunConfig :=
  match q.config with
  | none => .ok (RunConfig.apply {} q.overrides)
  | some path =>
    match RunConfig.load d path with
    | .ok config => .ok (config.apply q.overrides)
    | .error f => .error f

def openPacks (d : Directory) : List String → Except Failure (List Feed)
  | [] => .ok []
  | path :: rest =>
    let opened :=
      match d.read? path with
      | some octets => PackReader.openFile {} path octets
      | none => .error .io
    match opened with
    | .error e => .error ((Failure.ofStore e).within ("opening pack " ++ path))
    | .ok reader =>
      match openPacks d rest with
      | .error f => .error f
      | .ok feeds => .ok (reader.feed reader.name :: feeds)

def openTables (d : Directory) : List String → Except Failure (List Feed)
  | [] => .ok []
  | path :: rest =>
    let opened :=
      match d.read? path with
      | some octets => (TableReader.unopened path).openFile path octets
      | none => .error .io
    match opened with
    | .error e => .error ((Failure.ofStore e).within ("opening table " ++ path))
    | .ok reader =>
      match openTables d rest with
      | .error f => .error f
      | .ok feeds => .ok (reader.feed reader.name :: feeds)

/-- opens all sources, of which there must be one -/
def openSources (d : Directory) (q : RunRequest) : Except Failure (List Feed) :=
  match openPacks d q.packs with
  | .error f => .error f
  | .ok packs =>
    match openTables d q.tables with
    | .error f => .error f
    | .ok tables =>
      if packs.isEmpty && tables.isEmpty then
        .error (.refuse "no sources given, pass --pack or --table")
      else .ok (packs ++ tables)

def makePack (d : Directory) (path : String) : Except PackError PackWriter :=
  if d.canWrite path then PackWriter.new path none else .error .io

def makeWriters (d : Directory) (q : RunRequest) : Except PackError (List Writer) :=
  let tables :=
    (q.tableOutput.map fun path => Writer.table (.new path) (d.canWrite path)).toList
  match q.output with
  | none => .ok tables
  | some path =>
    match makePack d path with
    | .ok w => .ok (.pack w :: tables)
    | .error e => .error e

def savedFile : Writer → String × Bytes
  | .table w _ => (w.name, w.document.save)
  | .pack w => (w.name, w.sink.octets)

/-- the file that there is of a writer that was not finished -/
def abandonedFile? : Writer → Option (String × Bytes)
  | .table _ _ => none
  | .pack w => some (w.name, w.sink.octets)

def process (config : RunConfig) (feeds : List Feed) (writers : List Writer) : Execution :=
  match Run.new config feeds writers with
  | (.error f, writers) => { failure := some f, files := writers.filterMap abandonedFile? }
  | (.ok run, _) =>
    let ending := run.execute
    let files := ending.finished.map savedFile ++ ending.unfinished.filterMap abandonedFile?
    match ending.result with
    | .ok summary => { report := .ran run.store.collectionNames summary, files }
    | .error f => { failure := some f, files }

def execute (d : Directory) (q : RunRequest) : Execution :=
  match q.loadConfig d with
  | .error f => .failed f
  | .ok config =>
    match q.openSources d with
    | .error f => .failed f
    | .ok feeds =>
      match q.makeWriters d with
      | .error e => .failed (.ofPack e)
      | .ok writers => process config feeds writers

end RunRequest

namespace Command

def execute (d : Directory) (format : OutputFormat) : Command → Execution
  | generate request => request.execute d
  | run request => request.execute d
  | inspect request => request.execute d format

end Command

end EventMerge
