import EventMerge.Generate.Basic
import EventMerge.Json.Record
import EventMerge.Run.Basic
import EventMerge.Command.Basic

/-!
# What commands print

* `Elapsed`        a span of time;
* `Report`         what there is to print after a command;
* `Report.render`  its text, in a format.
-/

namespace EventMerge

open Json (Tree)
open Json.Tree (ofFields ofOption ofList)

/-! ## time -/

structure Elapsed where
  nanoseconds : Nat
  deriving DecidableEq

namespace Elapsed

def second : Nat := 1000000000

def hundredths (n unit : Nat) : String :=
  let rounded := (n * 200 + unit) / (2 * unit)
  let places := Text.Decimal.ofNat (rounded % 100)
  Text.Decimal.ofNat (rounded / 100) ++ "." ++ (if rounded % 100 < 10 then "0" else "") ++ places

/-- a span in the largest unit that it reaches -/
def text (t : Elapsed) : String :=
  let n := t.nanoseconds
  if second ≤ n then hundredths n second ++ "s"
  else if 1000000 ≤ n then hundredths n 1000000 ++ "ms"
  else if 1000 ≤ n then hundredths n 1000 ++ "µs"
  else hundredths n 1 ++ "ns"

def toTree (t : Elapsed) : Tree :=
  ofFields [("secs", .ofNat (t.nanoseconds / second)), ("nanos", .ofNat (t.nanoseconds % second))]

end Elapsed

/-! ## summaries -/

namespace GenerateSummary

def toTree (s : GenerateSummary) : Tree :=
  ofFields [
    ("events", .ofNat s.events),
    ("collections", ofList Tree.ofText s.collections),
    ("written", .ofNat s.written),
    ("checksum", ofOption (fun checksum => .ofText (Bytes.toHex checksum)) s.checksum)]

def lines (s : GenerateSummary) (path : String) : List String :=
  ["✓ Wrote " ++ Text.Decimal.ofNat s.events ++ " events to " ++ path,
    "  Collections: " ++ ", ".intercalate s.collections,
    "  Stored: " ++ Text.Decimal.ofNat s.written ++ " collections"]
    ++ (s.checksum.map fun checksum => "  Checksum: " ++ Bytes.toHex checksum).toList

end GenerateSummary

namespace RunSummary

def toTree (s : RunSummary) (elapsed : Elapsed) : Tree :=
  ofFields [
    ("events", .ofNat s.events),
    ("collections_found", .ofNat s.collectionsFound),
    ("threads", .ofNat s.threads),
    ("sources", .ofNat s.sources),
    ("writers", .ofNat s.writers),
    ("elapsed", elapsed.toTree)]

def lines (s : RunSummary) (names : List String) (elapsed : Elapsed) : List String :=
  ["✓ Processed " ++ Text.Decimal.ofNat s.events ++ " events from "
      ++ Text.Decimal.ofNat s.sources ++ " sources",
    "  Collections: " ++ ", ".intercalate names,
    "  Found: " ++ Text.Decimal.ofNat s.collectionsFound ++ " valid collections",
    "  Threads: " ++ Text.Decimal.ofNat s.threads ++ "  Writers: "
      ++ Text.Decimal.ofNat s.writers ++ "  Time: " ++ elapsed.text]

end RunSummary

/-! ## reports -/

inductive Report where
  | nothing
  | generated (path : String) (summary : GenerateSummary)
  | ran (names : List String) (summary : RunSummary)
  | inspected (text : String)

namespace Report

def ofLines (lines : List String) : String := String.join (lines.map (· ++ "\n"))

def ofTree (tree : Tree) : String := tree.prettyText ++ "\n"

def render (format : OutputFormat) (elapsed : Elapsed) : Report → String
  | nothing => ""
  | generated path summary =>
    match format with
    | .text => ofLines (summary.lines path)
    | .json => ofTree summary.toTree
  | ran names summary =>
    match format with
    | .text => ofLines (summary.lines names elapsed)
    | .json => ofTree (summary.toTree elapsed)
  | inspected text => text

end Report

end EventMerge
