import EventMerge.Event.Basic
import EventMerge.Table.Reader

/-!
# Writing tables

A writer has a column for every registered name.  A row holds what an event offers for the selected
names that are registered; with nothing selected every column is filled.

* `TableWriter.register`    adds a column;
* `TableWriter.writeEvent`  adds the row of an event;
* `TableWriter.document`    the table written so far.
-/

namespace EventMerge

structure TableWriter where
  name : String
  registered : List String := []
  /-- the rows, the last one first -/
  newestRows : List Row := []
  metadata : Metadata := .empty
  identityTable : Option IdentityTable := none

namespace TableWriter

def new (name : String) : TableWriter := { name }

def rows (w : TableWriter) : List Row := w.newestRows.reverse

def register (w : TableWriter) (name : String) : TableWriter :=
  { w with registered := TableReader.addName w.registered name }

def writeIdentityTable (w : TableWriter) (table : IdentityTable) : TableWriter :=
  { table.names.foldl register w with identityTable := some table }

def writeMetadata (w : TableWriter) (metadata : Metadata) : TableWriter :=
  { w with metadata := w.metadata.union metadata }

/-- the names to ask an event for -/
def selection (w : TableWriter) (names : List String) : List String :=
  if names.isEmpty then w.registered else names.filter w.registered.contains

def place (registered : List String) (row : Row) (offer : String × Buffers) : Row :=
  match registered.idxOf? offer.1 with
  | some column => row.set column (some (.ofBuffers offer.2))
  | none => row

def rowOf (registered : List String) (offers : List (String × Buffers)) : Row :=
  offers.foldl (place registered) (List.replicate registered.length none)

/-- adds the row of an event.  An event is only asked if there is something to ask for. -/
def writeEvent (w : TableWriter) (event : Event) (names : List String) : Outcome TableWriter :=
  let selected := w.selection names
  if selected.isEmpty then
    { value := { w with newestRows := rowOf w.registered [] :: w.newestRows }, event }
  else
    let outcome := event.collectionsForWrite selected
    { value := { w with newestRows := rowOf w.registered outcome.value :: w.newestRows }
      event := outcome.event
      calls := outcome.calls }

def document (w : TableWriter) : TableDocument := ⟨w.registered, w.metadata, w.rows⟩

end TableWriter

end EventMerge
