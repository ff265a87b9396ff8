import EventMerge.Proofs.Pack.Numbering
import EventMerge.Proofs.Store.Registering
import EventMerge.Run.Basic
import Mathlib.Data.List.Forall2

/-!
# How a run begins

* `Writer.Prepared`     what a writer has been told before the first event: all columns of a table are
                        registered, all names of a pack are numbered;
* `Run.Begun`           what is known of a run before its first event;
* `Run.begun_of_new`    a run that could be made is such a run;
* `Run.new_threads`     the number of workers makes no difference.
-/

namespace EventMerge

open TableReader (addNames)

/-! ## writers -/

namespace TableWriter

/-- the writer with more columns -/
def withColumns (w : TableWriter) (names : List String) : TableWriter :=
  { w with registered := addNames w.registered names }

theorem foldl_register (names : List String) (w : TableWriter) :
    names.foldl register w = w.withColumns names := by
  induction names generalizing w with
  | nil => rfl
  | cons name rest ih => exact ih (w.register name)

end TableWriter

namespace Writer

/-- what a writer is after it was told the selected names and the identity table -/
inductive Prepared (names : List String) (t : IdentityTable) : Writer → Writer → Prop
  | table (w : TableWriter) (canSave : Bool) :
      Prepared names t (.table w canSave)
        (.table { (w.withColumns names).withColumns t.names with identityTable := some t } canSave)
  | pack (w : PackWriter)
      (room : w.table.collections.length ≤ 0x100000000 →
        (addNames w.table.collections t.names).length ≤ 0x100000000) :
      Prepared names t (.pack w)
        (.pack (w.withTable ⟨addNames w.table.collections t.names, some t⟩))

end Writer

namespace Run

theorem registerNames_table (names : List String) (w : TableWriter) (canSave : Bool) :
    registerNames names (.table w canSave) = (.ok (), .table (w.withColumns names) canSave) := by
  induction names generalizing w with
  | nil => rfl
  | cons name rest ih => exact ih (w.register name)

theorem registerNames_pack (names : List String) (w : PackWriter) :
    registerNames names (.pack w) = (.ok (), .pack w) := by
  cases names <;> rfl

theorem prepareWriters_ok {names : List String} {t : IdentityTable} {writers writers' : List Writer}
    (h : prepareWriters names t writers = (.ok (), writers')) :
    List.Forall₂ (Writer.Prepared names t) writers writers' := by
  induction writers generalizing writers' with
  | nil =>
    cases h
    exact .nil
  | cons w rest ih =>
    rw [prepareWriters] at h
    cases w with
    | table w canSave =>
      rw [registerNames_table] at h
      obtain ⟨hresult, hwriters⟩ := Prod.mk.inj h
      rw [← hwriters]
      refine .cons ?_ (ih (Prod.ext hresult rfl))
      rw [TableWriter.writeIdentityTable, TableWriter.foldl_register]
      exact .table w canSave
    | pack w =>
      rw [registerNames_pack] at h
      dsimp only [Writer.writeIdentityTable] at h
      rw [PackWriter.writeIdentityTable] at h
      cases hindex : w.indexNames t.names with
      | mk result w' =>
        rw [hindex] at h
        cases result with
        | error e => cases h
        | ok _ =>
          obtain ⟨rfl, hroom⟩ := PackWriter.indexNames_ok hindex
          obtain ⟨hresult, hwriters⟩ := Prod.mk.inj h
          rw [← hwriters]
          exact .cons (.pack w hroom) (ih (Prod.ext hresult rfl))

/-! ## feeds -/

theorem registerFeeds_ok {feeds : List Feed} {s s' : Store} (h : registerFeeds feeds s = .ok s') :
    s'.readers.map Registered.feed = s.readers.map Registered.feed ++ feeds
      ∧ s'.exhausted = s.exhausted ∧ s'.eventsRead = s.eventsRead ∧ s'.config = s.config := by
  induction feeds generalizing s with
  | nil =>
    cases h
    exact ⟨(List.append_nil _).symm, rfl, rfl, rfl⟩
  | cons feed rest ih =>
    rw [registerFeeds] at h
    split at h
    · cases h
    · rename_i source s₁ hfirst
      obtain ⟨hreaders, hexhausted, hread, hconfig, -, -⟩ := Store.register_ok hfirst
      obtain ⟨hreaders', hexhausted', hread', hconfig'⟩ := ih h
      refine ⟨?_, hexhausted'.trans hexhausted, hread'.trans hread, hconfig'.trans hconfig⟩
      rw [hreaders', hreaders, List.map_append, List.append_assoc]
      rfl

/-! ## runs -/

/-- a run of which no event has been read -/
structure Begun (config : RunConfig) (feeds : List Feed) (writers : List Writer) (r : Run) : Prop where
  feeds : r.store.readers.map Registered.feed = feeds
  unread : r.store.eventsRead = 0
  open_ : r.store.exhausted = false
  policies : r.store.config = config.store
  config : r.config
    = { config with writeCollections := config.writeCollections.filter r.store.table.contains }
  new_known : ∀ name ∈ r.config.newCollections, name ∈ r.store.table.names
  prepared : List.Forall₂ (Writer.Prepared r.config.writeCollections r.store.table) writers r.writers

theorem begun_of_new {config : RunConfig} {feeds : List Feed} {writers : List Writer} {r : Run}
    (h : (Run.new config feeds writers).1 = .ok r) : r.Begun config feeds writers := by
  rw [Run.new] at h
  split at h
  · cases h
  · rename_i fed hfeeds
    split at h
    · cases h
    · rename_i s hruntime
      dsimp only at h
      split at h
      · cases h
      · rename_i ready hwriters
        cases h
        obtain ⟨hreaders, hexhausted, hread, hconfig⟩ := registerFeeds_ok hfeeds
        obtain ⟨hreaders', hexhausted', hread', hconfig', hnames⟩ := Store.registerRuntime_ok hruntime
        exact {
          feeds := by rw [hreaders', hreaders]; rfl
          unread := hread'.trans hread
          open_ := hexhausted'.trans hexhausted
          policies := hconfig'.trans hconfig
          config := rfl
          new_known := hnames
          prepared := prepareWriters_ok hwriters }

/-- the run with another number of workers -/
def withThreads (r : Run) (threads : Nat) : Run := { r with config := { r.config with threads } }

theorem new_threads (config : RunConfig) (feeds : List Feed) (writers : List Writer)
    (threads : Nat) :
    (Run.new { config with threads } feeds writers).1
      = (Run.new config feeds writers).1.map fun r => r.withThreads threads := by
  rw [Run.new, Run.new]
  cases registerFeeds feeds (.new config.store) with
  | error f => rfl
  | ok fed =>
    dsimp only
    rcases fed.registerRuntime config.newCollections with ⟨result, s⟩
    cases result with
    | error e => rfl
    | ok _ =>
      dsimp only
      split <;> rfl

end Run

end EventMerge
