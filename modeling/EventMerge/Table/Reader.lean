import EventMerge.Store.Feed
import EventMerge.Table.Document

/-!
# Reading tables

A reader hands out the rows of a table one by one.  A name that occurs twice among the columns
counts once.

* `TableReader.ofDocument`  the reader of a document;
* `TableReader.next`        the next row;
* `TableReader.feed`        the reader as a store sees it.
-/

namespace EventMerge

structure TableReader where
  name : String
  collections : List String
  rows : List Row := []
  metadata : Metadata := .empty
  deriving DecidableEq

namespace TableReader

def addName (names : List String) (name : String) : List String :=
  if names.contains name then names else names ++ [name]

/-- the names of a list, each where it occurs first -/
def distinct (names : List String) : List String := names.foldl addName []

def new (name : String) (collections : List String) : TableReader :=
  { name, collections := distinct collections }

def unopened (name : String) : TableReader := new name []

def ofDocument (name : String) (d : TableDocument) : TableReader :=
  { new name d.collections with rows := d.rows, metadata := d.metadata }

def push (r : TableReader) (row : Row) : TableReader := { r with rows := r.rows ++ [row] }

/-- the reader of the document in a file; its name stays -/
def openFile (r : TableReader) (path : String) (bytes : Bytes) : Except StoreError TableReader :=
  match TableDocument.load path bytes with
  | .ok d => .ok (ofDocument r.name d)
  | .error e => .error e

def next (r : TableReader) : Option Row × TableReader :=
  match r.rows with
  | [] => (none, r)
  | row :: rest => (some row, { r with rows := rest })

def entries (r : TableReader) : SourceEntries := Feed.indexed r.collections

def feed (label : String) (r : TableReader) : Feed :=
  ⟨label, r.entries, Decoder.row, r.rows.map fun row => .event (.row row)⟩

/-- a collection is found in the handle of a row as it is found in the row -/
theorem decoder_feed (label : String) (r : TableReader) (row : Row) :
    (r.feed label).decoder (.row row) = row.decode := rfl

end TableReader

end EventMerge
