import EventMerge.Pack.Reader
import EventMerge.Proofs.Event.Requests
import EventMerge.Proofs.Store.Pulling
import EventMerge.Proofs.Store.Rereading
import EventMerge.Proofs.Store.Sources
import EventMerge.Table.Reader

/-!
# Events that are aligned across sources

If no feed ever reports an error, the `k`-th event of a store combines the `k`-th handles of all
feeds, and a store gives as many events as its shortest feed has.  The call that finds a feed dry is
the last one that asks any of them.

* `Registered.ahead`         a reader after some events;
* `Store.gather_of_steady`, `Store.gather_of_dry`  what the feeds answer;
* `Event.Gives`, `Event.Carries`  an event that decodes from the `k`-th handles;
* `Store.Stage`              a store after a number of calls, whether they gave an event or not;
* `Store.Stage.next`         what the next call gives and leaves behind;
* `Feed.Opened.not_foreign`, `Feed.Opened.refuses_foreign`  which handles a table or a pack refuses;
* `Store.next_aligned`       what every call gives.
-/

namespace EventMerge

/-! ## readers after some events -/

namespace Registered

/-- the reader after `k` events -/
def ahead (k : Nat) (r : Registered) : Registered :=
  { r with feed := { r.feed with script := r.feed.script.drop k } }

theorem ahead_zero (r : Registered) : r.ahead 0 = r := rfl

theorem advanced_ahead (k : Nat) (r : Registered) : (r.ahead k).advanced = r.ahead (k + 1) := by
  rw [advanced, ahead, ahead, List.tail_drop]

theorem supplierAt?_ahead (k : Nat) (r : Registered) :
    (r.ahead k).supplierAt? 0 = r.supplierAt? k := by
  rw [supplierAt?, supplierAt?, Feed.handle?, Feed.handle?, ahead, List.getElem?_drop, Nat.add_zero]

theorem steady_ahead {r : Registered} (h : r.feed.Steady) (k : Nat) : (r.ahead k).feed.Steady :=
  fun pull hpull => h pull (List.mem_of_mem_drop hpull)

end Registered

theorem Feed.Steady.isSome_handle? {feed : Feed} (h : feed.Steady) {k : Nat}
    (hk : k < feed.script.length) : (feed.handle? k).isSome = true := by
  rw [handle?, List.getElem?_eq_getElem hk, Option.bind_some]
  exact h _ (List.getElem_mem hk)

theorem Feed.Steady.ne_fault {feed : Feed} (h : feed.Steady) {error : StoreError}
    {script : List Pull} : feed.script ≠ .fault error :: script := by
  intro hscript
  have hgiven := h (.fault error) (hscript ▸ List.mem_cons_self)
  cases hgiven

namespace Store

/-! ## asking the feeds -/

theorem gather_calls (readers : List Registered) :
    (gather readers).2.2 <+: readers.map fun r => .next r.feed.label := by
  induction readers with
  | nil => exact List.prefix_rfl
  | cons r rest ih =>
    have hone : [Call.next r.feed.label]
        <+: (r :: rest).map fun r => .next r.feed.label :=
      List.cons_prefix_cons.mpr ⟨rfl, List.nil_prefix⟩
    rw [gather]
    split
    · exact hone
    · exact hone
    · exact List.cons_prefix_cons.mpr ⟨rfl, ih⟩

theorem gather_of_steady {readers : List Registered} (h : ∀ r ∈ readers, r.feed.Steady)
    (hscripts : ∀ r ∈ readers, r.feed.script ≠ []) :
    (gather readers).1 = .all (readers.filterMap (Registered.supplierAt? 0))
      ∧ (gather readers).2.1 = readers.map Registered.advanced := by
  induction readers with
  | nil => exact ⟨rfl, rfl⟩
  | cons r rest ih =>
    obtain ⟨hgathered, hreaders⟩ := ih (fun r' hr' => h r' (List.mem_cons_of_mem _ hr'))
      fun r' hr' => hscripts r' (List.mem_cons_of_mem _ hr')
    rcases hscript : r.feed.script with _ | ⟨handle | error, script⟩
    · exact absurd hscript (hscripts r List.mem_cons_self)
    · have hsupplier : r.supplierAt? 0 = some ⟨r.source, r.feed.label, handle, r.decoder⟩ := by
        rw [Registered.supplierAt?, Feed.handle?, hscript]
        rfl
      rw [gather_of_event hscript, hgathered, hreaders, List.filterMap_cons_some hsupplier,
        List.map_cons]
      exact ⟨rfl, rfl⟩
    · exact absurd hscript (h r List.mem_cons_self).ne_fault

theorem gather_of_dry {readers : List Registered} (h : ∀ r ∈ readers, r.feed.Steady)
    (hdry : ∃ r ∈ readers, r.feed.script = []) : (gather readers).1 = .dry := by
  induction readers with
  | nil =>
    obtain ⟨r, hr, -⟩ := hdry
    cases hr
  | cons r rest ih =>
    rcases hscript : r.feed.script with _ | ⟨handle | error, script⟩
    · rw [gather_of_nil hscript]
    · have hlater : ∃ r' ∈ rest, r'.feed.script = [] := by
        obtain ⟨r', hr', hempty⟩ := hdry
        rcases List.mem_cons.mp hr' with rfl | hr'
        · rw [hscript] at hempty
          cases hempty
        · exact ⟨r', hr', hempty⟩
      rw [gather_of_event hscript]
      exact Gathering.add_eq_dry_iff.mpr (ih (fun r' hr' => h r' (List.mem_cons_of_mem _ hr')) hlater)
    · exact absurd hscript (h r List.mem_cons_self).ne_fault

theorem map_suppliers {readers : List Registered} {k : Nat}
    (h : ∀ r ∈ readers, (r.feed.handle? k).isSome = true) :
    ((readers.filterMap (Registered.supplierAt? k)).map fun supplier => some supplier.handle)
        = (readers.map fun r => r.feed.handle? k)
      ∧ (readers.filterMap (Registered.supplierAt? k)).map Supplier.decoder
        = readers.map Registered.decoder := by
  induction readers with
  | nil => exact ⟨rfl, rfl⟩
  | cons r rest ih =>
    obtain ⟨handle, hhandle⟩ := Option.isSome_iff_exists.mp (h r List.mem_cons_self)
    obtain ⟨hhandles, hdecoders⟩ := ih fun r' hr' => h r' (List.mem_cons_of_mem _ hr')
    have hsupplier : r.supplierAt? k = some ⟨r.source, r.feed.label, handle, r.decoder⟩ := by
      rw [Registered.supplierAt?, hhandle]
      rfl
    rw [List.filterMap_cons_some hsupplier]
    constructor
    · rw [List.map_cons, List.map_cons, hhandles, hhandle]
    · rw [List.map_cons, List.map_cons, hdecoders]

/-! ## one call -/

section

variable {s : Store} (factory : Event.Factory) (slot : Option Event)

theorem next_of_all (hreaders : s.readers ≠ []) (hopen : s.exhausted = false)
    {suppliers : List Supplier} (hgather : (gather s.readers).1 = .all suppliers) :
    s.next factory slot
      = (.ok (some ((Event.make factory slot).setRaw ⟨s.table, suppliers⟩)),
        { s with
          readers := (gather s.readers).2.1
          started := true
          eventsRead := s.eventsRead + 1 },
        (gather s.readers).2.2) := by
  rw [next, if_neg (mt List.isEmpty_iff.mp hreaders), hopen, if_neg Bool.false_ne_true]
  dsimp only
  rw [hgather]

theorem next_of_dry (hreaders : s.readers ≠ []) (hopen : s.exhausted = false)
    (hgather : (gather s.readers).1 = .dry) :
    s.next factory slot
      = (.ok none,
        { s with readers := (gather s.readers).2.1, started := true, exhausted := true },
        (gather s.readers).2.2) := by
  rw [next, if_neg (mt List.isEmpty_iff.mp hreaders), hopen, if_neg Bool.false_ne_true]
  dsimp only
  rw [hgather]

theorem next_of_exhausted (hreaders : s.readers ≠ []) (hexhausted : s.exhausted = true) :
    s.next factory slot = (.ok none, s, []) := by
  rw [next, if_neg (mt List.isEmpty_iff.mp hreaders), if_pos hexhausted]

end

end Store

/-! ## what an event decodes -/

theorem RawData.readable?_eq_some_iff {raw : RawData} {name : String} {buffers : Buffers} :
    raw.readable? name = some buffers
      ↔ raw.resolve? name = some (.ok buffers) ∧ buffers.isValid = true := by
  rw [readable?]
  rcases raw.resolve? name with _ | e | found
  · simp
  · simp
  · show (if found.isValid = true then some found else none) = some buffers ↔ _
    by_cases hvalid : found.isValid = true
    · rw [if_pos hvalid]
      constructor
      · intro h
        cases h
        exact ⟨rfl, hvalid⟩
      · intro h
        cases h.1
        rfl
    · rw [if_neg hvalid]
      constructor
      · intro h
        cases h
      · rintro ⟨hfound, hbuffers⟩
        cases hfound
        exact absurd hbuffers hvalid

namespace Event

/-- what an event gives for a name, read or written, is what a decoding has led to -/
structure Gives (e : Event) (name : String) (decoding : Option (Except DecodeError Buffers)) :
    Prop where
  read : e.read? name = .ok (decoding.map Cache.ofDecoding)
  written : ∀ names buffers, (name, buffers) ∈ (e.collectionsForWrite names).value
    ↔ (names = [] ∨ name ∈ names) ∧ decoding = some (.ok buffers) ∧ buffers.isValid = true

/-- An event with the `k`-th handles of all feeds, each beside the decoder of its feed.  Whatever it is
asked for and whatever is put in, every other name is decoded from the handle of the first feed that has
the name. -/
structure Carries (e : Event) (feeds : List Feed) (k : Nat) : Prop where
  handles : ∃ raw, e.raw? = some raw
    ∧ (raw.suppliers.map fun supplier => some supplier.handle)
      = (feeds.map fun feed => feed.handle? k)
    ∧ raw.suppliers.map Supplier.decoder = feeds.map Feed.decoder
  gives : ∀ requests : List Request,
    (∀ request ∈ requests, request.isRead = true ∨ request.isPut = true) →
    ∀ name, (after requests e).runtime? name = none →
      (after requests e).Gives name (Feed.decodingAt? feeds k name)

theorem Follows.gives {e : Event} {raw : RawData} (h : e.Follows (some raw)) {name : String}
    (hruntime : e.runtime? name = none) : e.Gives name (raw.resolve? name) where
  read := by
    obtain ⟨found, hvalue, hfound⟩ := h.get_value rfl name
    have hshown : e.shown? (some raw) name = (raw.resolve? name).map Cache.ofDecoding := by
      rw [shown?, hruntime, Option.none_or]
      rfl
    rw [read?, hvalue]
    show Except.ok (found.map Collection.unprepared) = _
    rw [hfound, hshown, Option.map_map]
    congr 2
    funext result
    exact Cache.unprepared_ofDecoding result
  written names buffers := by
    have hoffer : e.offer? (some raw) name = raw.readable? name := by
      rw [offer?, hruntime]
      rfl
    rw [h.mem_collectionsForWrite, offered?, hoffer, ← RawData.readable?_eq_some_iff,
      ← List.isEmpty_iff]
    by_cases hasked : names.isEmpty = true ∨ name ∈ names
    · rw [if_pos hasked]
      exact (and_iff_right hasked).symm
    · rw [if_neg hasked]
      constructor
      · intro hnone
        cases hnone
      · intro hoffered
        exact absurd hoffered.1 hasked

theorem Follows.after {e : Event} {raw : Option RawData} (h : e.Follows raw)
    {requests : List Request}
    (hkept : ∀ request ∈ requests, request.isRead = true ∨ request.isPut = true) :
    (after requests e).Follows raw := by
  induction requests generalizing e with
  | nil => exact h
  | cons request rest ih =>
    have hraw : request.rawAfter raw = raw := by
      have hfirst := hkept request List.mem_cons_self
      cases request <;> simp [Request.isRead, Request.isPut] at hfirst <;> rfl
    have hnext := h.perform request
    rw [hraw] at hnext
    exact ih hnext fun request' hmem => hkept request' (List.mem_cons_of_mem _ hmem)

/-- **An event that is given the `k`-th raw data of a store decodes from the `k`-th handles.** -/
theorem carries_setRaw {s : Store} {feeds : List Feed} (h : s.Lists feeds) {k : Nat}
    (hgiven : ∀ feed ∈ feeds, (feed.handle? k).isSome = true) (e : Event) :
    (e.setRaw (s.rawAt k)).Carries feeds k where
  handles := by
    have hreaders : ∀ r ∈ s.readers, (r.feed.handle? k).isSome = true := fun r hr =>
      hgiven r.feed (h.feeds ▸ List.mem_map_of_mem hr)
    obtain ⟨hhandles, hdecoders⟩ := Store.map_suppliers hreaders
    rw [← h.feeds, List.map_map, List.map_map]
    refine ⟨s.rawAt k, rfl, hhandles, hdecoders.trans ?_⟩
    exact List.map_congr_left h.decoders
  gives requests hkept name hruntime := by
    have hfollows := (e.follows_setRaw (s.rawAt k)).after hkept
    have hgives := hfollows.gives hruntime
    rwa [h.resolve?_eq hgiven] at hgives

end Event

/-! ## call after call -/

namespace Store

/-- the store after it was asked for events, each to be made by a factory from an old one or not -/
def afterCalls : List (Event.Factory × Option Event) → Store → Store
  | [], s => s
  | (factory, slot) :: rest, s => afterCalls rest (s.next factory slot).2.1

/-- What a store gives when it was asked `k` times before: the event of the `k`-th handles, or none if
a feed has run dry.  It asks no feed twice, and none once it has found one dry. -/
structure Serves (feeds : List Feed) (count k : Nat)
    (outcome : Except StoreError (Option Event) × Store × List Call) : Prop where
  event : k < count → ∃ e, outcome.1 = .ok (some e) ∧ e.Carries feeds k
  dry : count ≤ k → outcome.1 = .ok none
  once : outcome.2.2 <+: feeds.map fun feed => .next feed.label
  quiet : count < k → outcome.2.2 = []

/-- a store that was asked `k` times for an event -/
structure Stage (first : Store) (count k : Nat) (s : Store) : Prop where
  table : s.table = first.table
  nonempty : s.readers ≠ []
  running : k ≤ count → s.exhausted = false ∧ s.readers = first.readers.map (Registered.ahead k)
  past : count < k → s.exhausted = true

namespace Stage

variable {first s : Store} {feeds : List Feed} {count k : Nat}

theorem start (hlists : first.Lists feeds) (hfeeds : feeds ≠ []) : Stage first count 0 first where
  table := rfl
  nonempty hreaders := by
    have hnone := hlists.feeds
    rw [hreaders] at hnone
    exact hfeeds hnone.symm
  running _ := by
    have hsame : Registered.ahead 0 = id := funext Registered.ahead_zero
    exact ⟨hlists.open_, by rw [hsame, List.map_id]⟩
  past hk := absurd hk (Nat.not_lt_zero count)

theorem calls (h : Stage first count k s) (hlists : first.Lists feeds) (hk : k ≤ count) :
    (gather s.readers).2.2 <+: feeds.map fun feed => .next feed.label := by
  have hlabels : s.readers.map (fun r => Call.next r.feed.label)
      = feeds.map fun feed => .next feed.label := by
    rw [(h.running hk).2, ← hlists.feeds, List.map_map, List.map_map]
    rfl
  rw [← hlabels]
  exact gather_calls s.readers

theorem steady (h : Stage first count k s) (hlists : first.Lists feeds) (hk : k ≤ count)
    (hsteady : ∀ feed ∈ feeds, feed.Steady) : ∀ r ∈ s.readers, r.feed.Steady := by
  rw [(h.running hk).2]
  intro r hr
  obtain ⟨old, hold, rfl⟩ := List.mem_map.mp hr
  exact Registered.steady_ahead (hsteady old.feed (hlists.feeds ▸ List.mem_map_of_mem hold)) k

theorem next_running (h : Stage first count k s) (hlists : first.Lists feeds) (hk : k < count)
    (hsteady : ∀ feed ∈ feeds, feed.Steady) (hlong : ∀ feed ∈ feeds, count ≤ feed.script.length)
    (factory : Event.Factory) (slot : Option Event) :
    Serves feeds count k (s.next factory slot)
      ∧ Stage first count (k + 1) (s.next factory slot).2.1 := by
  obtain ⟨hopen, hreaders⟩ := h.running (Nat.le_of_lt hk)
  have hscripts : ∀ r ∈ s.readers, r.feed.script ≠ [] := by
    rw [hreaders]
    intro r hr
    obtain ⟨old, hold, rfl⟩ := List.mem_map.mp hr
    have hlength := hlong old.feed (hlists.feeds ▸ List.mem_map_of_mem hold)
    refine List.ne_nil_of_length_pos ?_
    show 0 < (old.feed.script.drop k).length
    rw [List.length_drop]
    omega
  obtain ⟨hgather, hadvanced⟩ :=
    gather_of_steady (h.steady hlists (Nat.le_of_lt hk) hsteady) hscripts
  have hraw : (⟨s.table, s.readers.filterMap (Registered.supplierAt? 0)⟩ : RawData)
      = first.rawAt k := by
    rw [h.table, hreaders, List.filterMap_map, rawAt]
    congr 2
    funext r
    exact r.supplierAt?_ahead k
  have hgiven : ∀ feed ∈ feeds, (feed.handle? k).isSome = true := fun feed hfeed =>
    (hsteady feed hfeed).isSome_handle? (Nat.lt_of_lt_of_le hk (hlong feed hfeed))
  rw [next_of_all factory slot h.nonempty hopen hgather, hraw]
  refine ⟨{
    event := fun _ => ⟨_, rfl, Event.carries_setRaw hlists hgiven _⟩
    dry := fun hover => absurd hk (Nat.not_lt.mpr hover)
    once := h.calls hlists (Nat.le_of_lt hk)
    quiet := fun hover => absurd hk (Nat.not_lt.mpr (Nat.le_of_lt hover)) }, {
    table := h.table
    nonempty := mt gather_eq_nil_iff.mp h.nonempty
    running := fun _ => ⟨hopen, ?_⟩
    past := fun hover => absurd hover (Nat.not_lt.mpr hk) }⟩
  show (gather s.readers).2.1 = _
  rw [hadvanced, hreaders, List.map_map]
  congr 1
  funext r
  exact r.advanced_ahead k

theorem next_dry (h : Stage first count count s) (hlists : first.Lists feeds)
    (hsteady : ∀ feed ∈ feeds, feed.Steady) (hshort : ∃ feed ∈ feeds, feed.script.length = count)
    (factory : Event.Factory) (slot : Option Event) :
    Serves feeds count count (s.next factory slot)
      ∧ Stage first count (count + 1) (s.next factory slot).2.1 := by
  obtain ⟨hopen, hreaders⟩ := h.running (Nat.le_refl count)
  have hdry : ∃ r ∈ s.readers, r.feed.script = [] := by
    obtain ⟨feed, hfeed, hlength⟩ := hshort
    rw [← hlists.feeds] at hfeed
    obtain ⟨old, hold, rfl⟩ := List.mem_map.mp hfeed
    refine ⟨old.ahead count, hreaders ▸ List.mem_map_of_mem hold, ?_⟩
    exact List.drop_eq_nil_of_le (Nat.le_of_eq hlength)
  have hgather := gather_of_dry (h.steady hlists (Nat.le_refl count) hsteady) hdry
  rw [next_of_dry factory slot h.nonempty hopen hgather]
  refine ⟨{
    event := fun hless => absurd hless (Nat.lt_irrefl count)
    dry := fun _ => rfl
    once := h.calls hlists (Nat.le_refl count)
    quiet := fun hless => absurd hless (Nat.lt_irrefl count) }, {
    table := h.table
    nonempty := mt gather_eq_nil_iff.mp h.nonempty
    running := fun hover => absurd hover (Nat.not_succ_le_self count)
    past := fun _ => rfl }⟩

theorem next_over (h : Stage first count k s) (hk : count < k) (factory : Event.Factory)
    (slot : Option Event) :
    Serves feeds count k (s.next factory slot)
      ∧ Stage first count (k + 1) (s.next factory slot).2.1 := by
  rw [next_of_exhausted factory slot h.nonempty (h.past hk)]
  exact ⟨{
    event := fun hless => absurd hless (Nat.not_lt.mpr (Nat.le_of_lt hk))
    dry := fun _ => rfl
    once := List.nil_prefix
    quiet := fun _ => rfl }, {
    table := h.table
    nonempty := h.nonempty
    running := fun hless => absurd (Nat.lt_of_lt_of_le hk (Nat.le_of_succ_le hless))
      (Nat.lt_irrefl count)
    past := fun _ => h.past hk }⟩

/-- what the next call gives, and what it leaves behind -/
theorem next (h : Stage first count k s) (hlists : first.Lists feeds)
    (hsteady : ∀ feed ∈ feeds, feed.Steady)
    (hcount : (feeds.map fun feed => feed.script.length).min? = some count)
    (factory : Event.Factory) (slot : Option Event) :
    Serves feeds count k (s.next factory slot)
      ∧ Stage first count (k + 1) (s.next factory slot).2.1 := by
  obtain ⟨hmem, hleast⟩ := List.min?_eq_some_iff.mp hcount
  have hlong : ∀ feed ∈ feeds, count ≤ feed.script.length := fun feed hfeed =>
    hleast _ (List.mem_map_of_mem hfeed)
  rcases Nat.lt_trichotomy k count with hless | rfl | hover
  · exact h.next_running hlists hless hsteady hlong factory slot
  · exact h.next_dry hlists hsteady (List.mem_map.mp hmem) factory slot
  · exact h.next_over hover factory slot

theorem afterCalls (h : Stage first count k s) (hlists : first.Lists feeds)
    (hsteady : ∀ feed ∈ feeds, feed.Steady)
    (hcount : (feeds.map fun feed => feed.script.length).min? = some count)
    (earlier : List (Event.Factory × Option Event)) :
    Stage first count (k + earlier.length) (afterCalls earlier s) := by
  induction earlier generalizing k s with
  | nil => exact h
  | cons call rest ih =>
    obtain ⟨factory, slot⟩ := call
    have hrest := ih (h.next hlists hsteady hcount factory slot).2
    rwa [Nat.add_assoc, Nat.add_comm 1] at hrest

end Stage

end Store

/-! ## readers of tables and packs -/

namespace Feed

/-- the feed of a table or a pack -/
inductive Opened : Feed → Prop
  | table (label : String) (r : TableReader) : Opened (r.feed label)
  | pack (label : String) (r : PackReader) : Opened (r.feed label)

theorem Opened.steady {feed : Feed} (h : feed.Opened) : feed.Steady := by
  cases h with
  | table label r =>
    intro pull hpull
    obtain ⟨row, -, rfl⟩ := List.mem_map.mp hpull
    rfl
  | pack label r =>
    intro pull hpull
    obtain ⟨record, -, rfl⟩ := List.mem_map.mp hpull
    rfl

theorem Opened.not_foreign {feed : Feed} (h : feed.Opened) {k : Nat} {handle : Handle}
    (hhandle : feed.handle? k = some handle) (index : LocalIndex) (expected : HandleKind) :
    feed.decoder handle index ≠ .error (.foreignHandle expected) := by
  obtain ⟨pull, hpull, hgiven⟩ := Option.bind_eq_some_iff.mp hhandle
  have hmem := List.mem_of_getElem? hpull
  intro hforeign
  cases h with
  | table label r =>
    obtain ⟨row, -, rfl⟩ := List.mem_map.mp hmem
    cases hgiven
    change Decoder.row (.row row) index = _ at hforeign
    obtain ⟨hother, -⟩ := Decoder.row_eq_foreign_iff.mp hforeign
    cases hother
  | pack label r =>
    obtain ⟨record, -, rfl⟩ := List.mem_map.mp hmem
    cases hgiven
    change PackReader.decoder (PackReader.handleOf record) index = _ at hforeign
    obtain ⟨hother, -⟩ := PackReader.decoder_eq_foreign_iff.mp hforeign
    cases hother

/-- given handles of another type, the decoder of a table or a pack refuses every index -/
theorem Opened.refuses_foreign {feed : Feed} (h : feed.Opened) {k : Nat} {handle : Handle}
    (hhandle : feed.foreign.handle? k = some handle) (index : LocalIndex) :
    ∃ expected, feed.foreign.decoder handle index = .error (.foreignHandle expected) := by
  obtain ⟨pull, hpull, hgiven⟩ := Option.bind_eq_some_iff.mp hhandle
  obtain ⟨original, -, rfl⟩ := List.mem_map.mp (List.mem_of_getElem? hpull)
  cases original with
  | fault error => cases hgiven
  | event own =>
    cases hgiven
    cases h with
    | table label r =>
      refine ⟨.tableRow, ?_⟩
      show Decoder.row .nothing index = _
      exact Decoder.row_eq_foreign_iff.mpr ⟨rfl, rfl⟩
    | pack label r =>
      refine ⟨.packedEvent, ?_⟩
      show PackReader.decoder .nothing index = _
      exact PackReader.decoder_eq_foreign_iff.mpr ⟨rfl, rfl⟩

theorem decodingAt?_not_foreign {feeds : List Feed} (h : ∀ feed ∈ feeds, feed.Opened) (k : Nat)
    (name : String) (expected : HandleKind) :
    decodingAt? feeds k name ≠ some (.error (.foreignHandle expected)) := by
  intro hforeign
  obtain ⟨feed, hfeed, hrest⟩ := Option.bind_eq_some_iff.mp hforeign
  obtain ⟨index, -, hlast⟩ := Option.bind_eq_some_iff.mp hrest
  obtain ⟨handle, hhandle, hresult⟩ := Option.map_eq_some_iff.mp hlast
  exact (h feed (List.mem_of_find?_eq_some hfeed)).not_foreign hhandle index expected hresult

end Feed

/-! ## all calls -/

namespace Store

/-- **Events are aligned across sources.**  However sources and runtime collections were registered,
if no feed ever reports an error, then the `k`-th event carries the `k`-th handles of all feeds and
decodes every name from the first feed that has it; there are as many events as the shortest feed
has, and no feed is asked once one was found dry.  Readers of tables and packs are never given the
handle of another. -/
theorem next_aligned {config : StoreConfig} {registrations : List Registration} {s : Store}
    (hs : registerAll registrations (new config) = (.ok (), s)) {feeds : List Feed}
    (hfeeds : registrations.filterMap Registration.feed? = feeds)
    (hsteady : ∀ feed ∈ feeds, feed.Steady) {count : Nat}
    (hcount : (feeds.map fun feed => feed.script.length).min? = some count) :
    (∀ earlier factory slot,
        Serves feeds count earlier.length ((afterCalls earlier s).next factory slot))
      ∧ ((∀ feed ∈ feeds, feed.Opened) → ∀ k name expected,
        Feed.decodingAt? feeds k name ≠ some (.error (.foreignHandle expected))) := by
  have hlists : s.Lists feeds := hfeeds ▸ lists_registerAll hs
  have hnonempty : feeds ≠ [] := by
    rintro rfl
    cases hcount
  refine ⟨fun earlier factory slot => ?_, fun hopened => Feed.decodingAt?_not_foreign hopened⟩
  have hstage := (Stage.start hlists hnonempty).afterCalls hlists hsteady hcount earlier
  rw [Nat.zero_add] at hstage
  exact (hstage.next hlists hsteady hcount factory slot).1

/-- a feed of two events -/
def hitsFeed : Feed :=
  TableReader.feed "first"
    (.ofDocument "first" ⟨["hits"], .empty, [[some ⟨[1], none, none, some 1⟩], [none]]⟩)

/-- a feed of one event that has the same name under another index -/
def notesFeed : Feed :=
  TableReader.feed "second"
    (.ofDocument "second"
      ⟨["notes", "hits"], .empty, [[some ⟨[2], none, none, some 1⟩, some ⟨[3], none, none, some 1⟩]]⟩)

/-- a name that is registered as a runtime collection first and then by two sources -/
theorem next_aligned_shadowed :
    ∃ s, registerAll [.runtime ["hits"], .source hitsFeed, .runtime ["made"], .source notesFeed]
        (new {}) = (.ok (), s)
      ∧ (∀ earlier factory slot, Serves [hitsFeed, notesFeed] 1 earlier.length
          ((afterCalls earlier s).next factory slot))
      ∧ Feed.decodingAt? [hitsFeed, notesFeed] 0 "hits" = some (.ok (.complete [1] [] [] 1))
      ∧ Feed.decodingAt? [hitsFeed, notesFeed] 0 "notes" = some (.ok (.complete [2] [] [] 1))
      ∧ ∀ k name expected,
        Feed.decodingAt? [hitsFeed, notesFeed] k name ≠ some (.error (.foreignHandle expected)) := by
  obtain ⟨s, hs⟩ : ∃ s, registerAll
      [.runtime ["hits"], .source hitsFeed, .runtime ["made"], .source notesFeed] (new {})
        = (.ok (), s) := ⟨_, rfl⟩
  have hopened : ∀ feed ∈ [hitsFeed, notesFeed], feed.Opened := by
    intro feed hfeed
    rcases List.mem_cons.mp hfeed with rfl | hfeed
    · exact .table _ _
    · rw [List.mem_singleton.mp hfeed]
      exact .table _ _
  have hcount : ([hitsFeed, notesFeed].map fun feed => feed.script.length).min? = some 1 := rfl
  obtain ⟨hcalls, hforeign⟩ :=
    next_aligned hs rfl (fun feed hfeed => (hopened feed hfeed).steady) hcount
  exact ⟨s, hs, hcalls, rfl, rfl, hforeign hopened⟩

end Store

end EventMerge
