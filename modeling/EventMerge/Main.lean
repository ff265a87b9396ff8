import EventMerge.Command.Execute
import EventMerge.CommandLine.Invocation

/-!
# The program

Reads the files that the command line names, carries the command out, writes its files and prints its
report.
-/

namespace EventMerge.Program

def readFile? (path : String) : IO (Option Bytes) := do
  try
    let octets ← IO.FS.readBinFile path
    pure (some octets.data.toList)
  catch _ => pure none

/-- whether a file can be written; one that is only made to find out is removed again -/
def canWrite (path : String) : IO Bool := do
  let existing ← readFile? path
  try
    let _ ← IO.FS.Handle.mk path .append
    if existing.isNone then IO.FS.removeFile path
    pure true
  catch _ => pure false

def directory (command : Command) : IO Directory := do
  let mut files : NameMap Bytes := .empty
  for path in command.inputs do
    if let some octets ← readFile? path then
      files := files.insert path octets
  let mut writable : List String := []
  for path in command.outputs do
    if ← canWrite path then
      writable := path :: writable
  let found := files
  let targets := writable
  pure { read? := found.get?, canWrite := targets.contains }

def carryOut (invocation : Invocation) : IO UInt32 := do
  let start ← IO.monoNanosNow
  let directory ← directory invocation.command
  let execution := invocation.command.execute directory invocation.format
  for (path, octets) in execution.files do
    IO.FS.writeBinFile path (ByteArray.mk octets.toArray)
  let stop ← IO.monoNanosNow
  IO.print (execution.report.render invocation.format ⟨stop - start⟩)
  match execution.failure with
  | none => pure 0
  | some failure =>
    IO.eprintln ("Error: " ++ failure.message)
    pure 1

end EventMerge.Program

open EventMerge in
def main (args : List String) : IO UInt32 := do
  match Invocation.parse args with
  | .ok invocation => Program.carryOut invocation
  | .error .help =>
    IO.println "usage: evmux [generate | run | inspect] [options]"
    pure 0
  | .error .version =>
    IO.println "evmux 0.1.0"
    pure 0
  | .error .usage =>
    IO.eprintln "error: the command line is not understood, see evmux --help"
    pure 2
