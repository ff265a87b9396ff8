import EventMerge.Proofs.Pack.Indexing

/-!
# What a finished pack still takes

Events, packed events and texts are refused once a pack is finished, and finishing it again gives the
same checksum.  An identity table is taken at any time: its names are numbered and listed as if the list
were still to be written, and the octets of the pack stay as they are.

* `PackWriter.listing`             the names that are listed after more come up;
* `PackWriter.indexNames_eq`       numbering names, whether there are numbers for all of them or not;
* `WriterCall`, `PackWriter.serveAll`   calls of a writer, of which any may fail;
* `PackWriter.Closed`              what is true of a writer after its pack was finished;
* `PackWriter.Closed.serve`        one more call keeps it;
* `PackWriter.stays_finished`      what a finished pack answers after any calls, and what they change.
-/

namespace EventMerge

open Pack
open TableReader (addName addNames)

namespace PackWriter

/-! ## numbers for names -/

/-- the number of names that can be listed beside those that are -/
def room (base : List String) : Nat := max 0x100000000 base.length

/-- the names that are listed after more come up: all of them, or as many as there are numbers -/
def listing (base names : List String) : List String := (addNames base names).take (room base)

theorem listing_of_fits {base names : List String} (h : (addNames base names).length ≤ room base) :
    listing base names = addNames base names := List.take_of_length_le h

theorem listing_nil (base : List String) : listing base [] = base :=
  listing_of_fits (Nat.le_max_right _ _)

/-- nothing is listed when the numbers are used up -/
theorem listing_of_full {base : List String} (h : 0x100000000 ≤ base.length) (names : List String) :
    listing base names = base := by
  have hroom : room base = base.length := Nat.max_eq_right h
  rw [listing, hroom]
  exact (List.prefix_iff_eq_take.mp (TableReader.isPrefix_addNames base names)).symm

theorem room_addName {base : List String} {name : String} (h : base.length < 0x100000000) :
    room (addName base name) = room base := by
  rw [room, room]
  by_cases hmem : name ∈ base
  · rw [TableReader.addName_of_mem hmem]
  · rw [TableReader.addName_of_not_mem hmem, List.length_append, List.length_singleton]
    omega

theorem listing_cons {base : List String} (h : base.length < 0x100000000) (name : String)
    (rest : List String) : listing base (name :: rest) = listing (addName base name) rest := by
  rw [listing, listing, room_addName h, TableReader.addNames_cons]

theorem listing_cons_of_mem {base : List String} {name : String} (h : name ∈ base)
    (rest : List String) : listing base (name :: rest) = listing base rest := by
  rw [listing, listing, TableReader.addNames_cons, TableReader.addName_of_mem h]

theorem listing_append (base first second : List String) :
    listing base (first ++ second) = listing (listing base first) second := by
  induction first generalizing base with
  | nil => rw [listing_nil, List.nil_append]
  | cons name rest ih =>
    by_cases hfull : 0x100000000 ≤ base.length
    · rw [listing_of_full hfull, listing_of_full hfull, listing_of_full hfull]
    · have hroom : base.length < 0x100000000 := by omega
      rw [List.cons_append, listing_cons hroom, listing_cons hroom]
      exact ih (addName base name)

theorem listing_eq_self_iff {base names : List String} :
    listing base names = base ↔ 0x100000000 ≤ base.length ∨ ∀ name ∈ names, name ∈ base := by
  induction names with
  | nil =>
    rw [listing_nil]
    exact iff_of_true rfl (.inr fun _ => (nomatch ·))
  | cons name rest ih =>
    by_cases hfull : 0x100000000 ≤ base.length
    · exact iff_of_true (listing_of_full hfull _) (.inl hfull)
    · have hroom : base.length < 0x100000000 := by omega
      by_cases hmem : name ∈ base
      · rw [listing_cons_of_mem hmem, ih, List.forall_mem_cons, and_iff_right hmem]
      · refine iff_of_false ?_ ?_
        · -- the first new name has a number left
          intro hsame
          have hlonger : base.length < (listing base (name :: rest)).length := by
            have hmore := TableReader.length_lt_addNames hmem rest
            rw [listing, List.length_take, room]
            omega
          rw [hsame] at hlonger
          omega
        · intro hall
          rcases hall with hlength | hall
          · exact hfull hlength
          · exact hmem (hall name List.mem_cons_self)

/-- **Names are numbered as long as there are numbers**, and the names that were given one stay
listed when the call fails for want of more. -/
theorem indexNames_eq (w : PackWriter) (names : List String) :
    w.indexNames names
      = (if (addNames w.table.collections names).length ≤ room w.table.collections then .ok ()
          else .error (.index (.localIndex (room w.table.collections))),
        w.withCollections (listing w.table.collections names)) := by
  induction names generalizing w with
  | nil =>
    have hfits : (addNames w.table.collections []).length ≤ room w.table.collections :=
      Nat.le_max_right _ _
    rw [if_pos hfits, listing_nil, withCollections_self]
    rfl
  | cons name rest ih =>
    rw [indexNames]
    by_cases hmem : name ∈ w.table.collections
    · rw [indexFor_of_mem hmem]
      dsimp only
      rw [ih, TableReader.addNames_cons, TableReader.addName_of_mem hmem, listing_cons_of_mem hmem]
    · rw [indexFor_of_not_mem hmem, LocalIndex.ofPosition]
      by_cases hroom : w.table.collections.length < 0x100000000
      · rw [if_pos hroom, listing_cons hroom, TableReader.addNames_cons, ← room_addName hroom,
          TableReader.addName_of_not_mem hmem]
        exact ih (w.withCollections (w.table.collections ++ [name]))
      · rw [if_neg hroom, listing_of_full (Nat.le_of_not_lt hroom), withCollections_self]
        have hlength : room w.table.collections = w.table.collections.length :=
          Nat.max_eq_right (Nat.le_of_not_lt hroom)
        have hover : ¬ (addNames w.table.collections (name :: rest)).length
            ≤ room w.table.collections := by
          have hmore := TableReader.length_lt_addNames hmem rest
          rw [hlength]
          omega
        rw [if_neg hover, hlength]

theorem writeIdentityTable_eq (w : PackWriter) (table : IdentityTable) :
    w.writeIdentityTable table
      = if (addNames w.table.collections table.names).length ≤ room w.table.collections then
          (.ok (), w.withTable ⟨addNames w.table.collections table.names, some table⟩)
        else
          (.error (.ofSink (.index (.localIndex (room w.table.collections)))),
            w.withCollections (listing w.table.collections table.names)) := by
  rw [writeIdentityTable, indexNames_eq]
  by_cases hfits : (addNames w.table.collections table.names).length ≤ room w.table.collections
  · rw [if_pos hfits, if_pos hfits, listing_of_fits hfits]
    rfl
  · rw [if_neg hfits, if_neg hfits]

/-- an identity table changes the table of a writer, and nothing else -/
theorem writeIdentityTable_snd (w : PackWriter) (table : IdentityTable) :
    ∃ sources, (w.writeIdentityTable table).2
      = w.withTable ⟨listing w.table.collections table.names, sources⟩ := by
  rw [writeIdentityTable_eq]
  by_cases hfits : (addNames w.table.collections table.names).length ≤ room w.table.collections
  · rw [if_pos hfits, listing_of_fits hfits]
    exact ⟨some table, rfl⟩
  · rw [if_neg hfits]
    exact ⟨w.table.sources, rfl⟩

end PackWriter

/-! ## calls after the end -/

/-- a call of a pack writer, or one that finishes its pack -/
inductive WriterCall where
  | write (call : PackCall)
  | finishPack
  | finish

/-- the names that a call brings up if it is for an identity table -/
def WriterCall.tableNames : WriterCall → List String
  | write (.identityTable table) => table.names
  | _ => []

namespace PackWriter

variable {w done : PackWriter} {checksum : Bytes} {names : List String}

/-- the writer after a call, whether it fails or not -/
def serve (w : PackWriter) : WriterCall → PackWriter
  | .write call => (w.perform call).2
  | .finishPack => w.finishPack.2
  | .finish => w.finish.2

def serveAll (w : PackWriter) (calls : List WriterCall) : PackWriter := calls.foldl serve w

/-- the pack was finished, and since then nothing but the table has changed, for which the names have
come up -/
structure Closed (done : PackWriter) (checksum : Bytes) (names : List String) (w : PackWriter) :
    Prop where
  checksum : w.checksum = some checksum
  only : w = done.withTable w.table
  collections : w.table.collections = listing done.table.collections names

theorem checksum_of_finishPack (h : w.finishPack = (.ok checksum, done)) :
    done.checksum = some checksum := by
  rw [finishPack] at h
  split at h
  · rename_i earlier hchecksum
    cases h
    exact hchecksum
  · split at h
    · cases h
    · dsimp only at h
      split at h
      · cases h
        rfl
      · cases h

theorem closed_of_finishPack (h : w.finishPack = (.ok checksum, done)) :
    Closed done checksum [] done where
  checksum := checksum_of_finishPack h
  only := done.withTable_self.symm
  collections := (listing_nil _).symm

namespace Closed

variable (h : Closed done checksum names w)

include h

theorem isFinished : w.isFinished = true := by
  rw [PackWriter.isFinished, h.checksum]
  rfl

theorem writeEvent (e : Event) (payloads : List String) :
    w.writeEvent e payloads = { value := (.error (.ofSink .finished), w), event := e } := by
  rw [PackWriter.writeEvent, if_pos h.isFinished]

theorem writePacked (content : PackedEvent) : w.writePacked content = (.error .finished, w) := by
  rw [PackWriter.writePacked, if_pos h.isFinished]

theorem writeMetadata (texts : Metadata) :
    w.writeMetadata texts = (.error (.ofSink .finished), w) := by
  rw [PackWriter.writeMetadata, if_pos h.isFinished]
  rfl

theorem finishPack : w.finishPack = (.ok checksum, w) := by
  rw [PackWriter.finishPack, h.checksum]

theorem finish : w.finish = (.ok (), w) := by
  rw [PackWriter.finish, h.finishPack]

/-- **A call of a finished pack changes its table or nothing**, and the table only if it is for an
identity table. -/
theorem serve (call : WriterCall) :
    Closed done checksum (names ++ call.tableNames) (w.serve call) := by
  have hsame : Closed done checksum (names ++ []) w := by
    rw [List.append_nil]
    exact h
  cases call with
  | finishPack =>
    show Closed done checksum (names ++ []) w.finishPack.2
    rw [h.finishPack]
    exact hsame
  | finish =>
    show Closed done checksum (names ++ []) w.finish.2
    rw [h.finish]
    exact hsame
  | write call =>
    cases call with
    | event e payloads =>
      show Closed done checksum (names ++ []) (w.writeEvent e payloads).value.2
      rw [h.writeEvent]
      exact hsame
    | packed content =>
      show Closed done checksum (names ++ []) (w.writePacked content).2
      rw [h.writePacked]
      exact hsame
    | metadata texts =>
      show Closed done checksum (names ++ []) (w.writeMetadata texts).2
      rw [h.writeMetadata]
      exact hsame
    | identityTable table =>
      obtain ⟨sources, htable⟩ := w.writeIdentityTable_snd table
      show Closed done checksum (names ++ table.names) (w.writeIdentityTable table).2
      rw [htable, h.collections, ← listing_append]
      refine ⟨h.checksum, ?_, rfl⟩
      have honly := congrArg
        (fun w : PackWriter => w.withTable ⟨listing done.table.collections (names ++ table.names),
          sources⟩) h.only
      exact honly

theorem serveAll (calls : List WriterCall) :
    Closed done checksum (names ++ calls.flatMap WriterCall.tableNames) (w.serveAll calls) := by
  induction calls generalizing w names with
  | nil =>
    rw [List.flatMap_nil, List.append_nil]
    exact h
  | cons call rest ih =>
    rw [List.flatMap_cons, ← List.append_assoc]
    exact ih (h.serve call)

end Closed

/-- **A finished pack takes nothing but identity tables.**  After any calls, whether they fail or not,
events, packed events and texts are refused, finishing gives the same checksum, and the octets, the
count of events and the texts are what they were.  An identity table is taken as long as there are
numbers for its names, which are listed although the pack does not have them: the list stays what it was
exactly if the tables since then bring up no other name, or there is no number left. -/
theorem stays_finished (hfinish : w.finishPack = (.ok checksum, done)) (calls : List WriterCall)
    {late : PackWriter} (hlate : done.serveAll calls = late) :
    late = done.withTable late.table
      ∧ late.sink = done.sink ∧ late.eventsWritten = done.eventsWritten
      ∧ late.metadata = done.metadata ∧ late.checksum = some checksum
      ∧ late.finishPack = (.ok checksum, late) ∧ late.finish = (.ok (), late)
      ∧ (∀ e payloads,
          late.writeEvent e payloads = { value := (.error (.ofSink .finished), late), event := e })
      ∧ (∀ content, late.writePacked content = (.error .finished, late))
      ∧ (∀ texts, late.writeMetadata texts = (.error (.ofSink .finished), late))
      ∧ (∀ table, late.writeIdentityTable table
          = if (addNames late.collections table.names).length ≤ room late.collections then
              (.ok (), late.withTable ⟨addNames late.collections table.names, some table⟩)
            else
              (.error (.ofSink (.index (.localIndex (room late.collections)))),
                late.withCollections (listing late.collections table.names)))
      ∧ late.collections
          = listing done.collections (calls.flatMap WriterCall.tableNames)
      ∧ (late.collections = done.collections ↔ 0x100000000 ≤ done.collections.length
          ∨ ∀ name ∈ calls.flatMap WriterCall.tableNames, name ∈ done.collections) := by
  have hclosed : Closed done checksum ([] ++ calls.flatMap WriterCall.tableNames) late :=
    hlate ▸ (closed_of_finishPack hfinish).serveAll calls
  rw [List.nil_append] at hclosed
  have hcollections : late.collections
      = listing done.collections (calls.flatMap WriterCall.tableNames) := hclosed.collections
  have hsink : late.sink = done.sink := by
    rw [hclosed.only]
    rfl
  have hevents : late.eventsWritten = done.eventsWritten := by
    rw [hclosed.only]
    rfl
  have hmetadata : late.metadata = done.metadata := by
    rw [hclosed.only]
    rfl
  refine ⟨hclosed.only, hsink, hevents, hmetadata, hclosed.checksum, hclosed.finishPack,
    hclosed.finish, hclosed.writeEvent, hclosed.writePacked, hclosed.writeMetadata,
    late.writeIdentityTable_eq, hcollections, ?_⟩
  rw [hcollections]
  exact listing_eq_self_iff

/-- a writer of which nothing was asked -/
def freshWriter : PackWriter :=
  { name := "pack"
    sink := { newest := [Pack.header], attempts := 1 }
    newestHashed := [Pack.header] }

/-- an identity table that has one name -/
def lateTable : IdentityTable := ⟨[(⟨0⟩, .ofList [("hits", ⟨0⟩)])]⟩

theorem listing_lateTable : listing [] lateTable.names = ["hits"] := by decide +kernel

theorem stays_finished_fresh :
    ∃ checksum done late, freshWriter.finishPack = (.ok checksum, done)
      ∧ done.serveAll [.write (.identityTable lateTable), .finish,
          .write (.metadata (.ofList [("hits", "late")]))] = late
      ∧ late.sink = done.sink ∧ late.metadata = done.metadata
      ∧ late.finishPack = (.ok checksum, late) ∧ late.collections = ["hits"] := by
  obtain ⟨checksum, done, hfinish, htable, -⟩ :=
    finishPack_of_sound (w := freshWriter) rfl rfl
  obtain ⟨-, hsink, -, hmetadata, -, hagain, -, -, -, -, -, hcollections, -⟩ :=
    stays_finished hfinish [.write (.identityTable lateTable), .finish,
      .write (.metadata (.ofList [("hits", "late")]))] rfl
  have hnone : done.collections = [] := congrArg PackedTable.collections htable
  rw [hnone] at hcollections
  exact ⟨checksum, done, _, hfinish, rfl, hsink, hmetadata, hagain,
    hcollections.trans listing_lateTable⟩

/-- an identity table that comes after the end is taken and its name is listed, but the pack that is
read again does not have it -/
theorem lists_after_end :
    ∃ checksum done r, freshWriter.finishPack = (.ok checksum, done)
      ∧ done.collections = []
      ∧ (done.writeIdentityTable lateTable).1 = .ok ()
      ∧ (done.writeIdentityTable lateTable).2.collections = ["hits"]
      ∧ (done.writeIdentityTable lateTable).2.sink = done.sink
      ∧ PackReader.ofBytes done.sink.octets = .ok r ∧ r.collections = [] := by
  obtain ⟨checksum, done, hfinish, htable, -⟩ :=
    finishPack_of_sound (w := freshWriter) rfl rfl
  have hnew : PackWriter.new "pack" none = .ok freshWriter := rfl
  have hholds : freshWriter.Holds [] := (holds_new hnew).1
  have hlength : done.sink.octets.length < 0x10000000000000000 := by
    have hshort : freshWriter.sink.octets.length + freshWriter.closing.flatten.length < 1000 := by
      decide +kernel
    rw [length_finishPack hholds.unfinished hfinish]
    omega
  obtain ⟨hopened, -⟩ := PackReader.ofBytes_written hholds hfinish hlength
  have hnone : done.table.collections = [] := congrArg PackedTable.collections htable
  have hlate : done.writeIdentityTable lateTable = (.ok (), done.withTable ⟨["hits"], lateTable⟩) := by
    have hnames : addNames done.table.collections lateTable.names = ["hits"] := by
      rw [hnone]
      decide +kernel
    have hfits : (addNames done.table.collections lateTable.names).length
        ≤ room done.table.collections := by
      rw [hnames, hnone]
      decide +kernel
    rw [writeIdentityTable_eq, if_pos hfits, hnames]
  refine ⟨checksum, done, _, hfinish, hnone, ?_, ?_, ?_, hopened, rfl⟩
  · rw [hlate]
  · rw [hlate]
    rfl
  · rw [hlate]
    rfl

end PackWriter

end EventMerge
