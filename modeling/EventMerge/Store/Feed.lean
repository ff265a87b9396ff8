import EventMerge.Event.Supply

/-!
# Feeds

A feed is what a store sees of a reader: the names it provides, its decoder, and what it will give
each time it is asked for an event.  After the last entry of its script a feed is dry.

* `Feed.failingAt`  the feed that reports an error once, in front of one of its events;
* `Feed.foreign`    the feed whose handles are not those of its decoder.
-/

namespace EventMerge

inductive Pull where
  | event (handle : Handle)
  | fault (error : StoreError)

/-- a reader as a store sees it -/
structure Feed where
  label : String
  entries : SourceEntries
  decoder : Decoder
  script : List Pull

namespace Feed

/-- the names of collections, each with its place; of two places of one name the later counts -/
def indexed (names : List String) : SourceEntries :=
  NameMap.ofList (names.zipIdx.map fun entry => (entry.1, ⟨UInt32.ofNat entry.2⟩))

/-- the error of a call that is made to fail -/
def injected : StoreError := .source (.reported "injected")

/-- the feed whose `n`-th answer is an error, its events coming one call later from then on -/
def failingAt (n : Nat) (feed : Feed) : Feed :=
  if 0 < n ∧ n ≤ feed.script.length + 1 then
    { feed with
      script := feed.script.take (n - 1) ++ .fault injected :: feed.script.drop (n - 1) }
  else feed

def foreign (feed : Feed) : Feed :=
  { feed with
    script := feed.script.map fun
      | .event _ => .event .nothing
      | .fault error => .fault error }

end Feed

end EventMerge
