import EventMerge.Proofs.Store.Alignment

/-!
# What a failed call does to the feeds

A store asks its feeds one after the other.  If one of them reports an error, those in front of it have
given their events already, and these are lost: from then on they are ahead of the others, and later
events combine handles of different places.  No error does that if it is the first feed's.

* `Feed.handles`         the handles that a feed still gives;
* `Store.took`           a call has taken an event from the feed at a place;
* `Store.position`       the number of events that calls have taken from it;
* `Store.handles_afterCalls`  what the feeds still give after any calls;
* `Store.decoders_afterCalls` the decoders stay;
* `Store.next_after_faults`   the handles of an event, and when they are of one place.
-/

namespace EventMerge

/-- the handles that a feed still gives, in their order, whatever errors it reports in between -/
def Feed.handles (feed : Feed) : List Handle := feed.script.filterMap Pull.handle?

namespace Store

/-- the handles that the feeds of a store still give -/
def handles (s : Store) : List (List Handle) := s.readers.map fun r => r.feed.handles

/-- the decoders of the readers of a store -/
def decoders (s : Store) : List Decoder := s.readers.map Registered.decoder

/-! ## asking the feeds -/

/-- A call has taken an event from the feed at a place.  Either it has given an event, or it has asked a
feed behind that one. -/
def took (gives : Bool) (calls : List Call) (place : Nat) : Bool := gives || place + 1 < calls.length

theorem took_succ (gives : Bool) (call : Call) (calls : List Call) (place : Nat) :
    took gives (call :: calls) (place + 1) = took gives calls place := by
  simp [took]

/-- a call that gives no event and asks one feed at most takes nothing -/
theorem drop_of_not_took {calls : List Call} (h : calls.length ≤ 1) (handles : List (List Handle)) :
    (handles.mapIdx fun place handles => handles.drop (took false calls place).toNat) = handles := by
  refine List.mapIdx_eq_iff.mpr fun place => ?_
  have hnone : took false calls place = false := decide_eq_false (by omega)
  rw [hnone]
  exact Option.map_id'.symm

/-- every feed has given an event -/
def Gathering.isAll : Gathering → Bool
  | .all _ => true
  | _ => false

theorem Gathering.isAll_add (supplier : Supplier) (gathering : Gathering) :
    (gathering.add supplier).isAll = gathering.isAll := by
  cases gathering <;> rfl

theorem gather_asks {readers : List Registered} (h : (gather readers).1.isAll = false) :
    0 < (gather readers).2.2.length := by
  cases readers with
  | nil => cases h
  | cons r rest =>
    rw [gather]
    split <;> exact Nat.succ_pos _

/-- the feeds in front of the first one that gives no event are one event further -/
theorem handles_gather (readers : List Registered) :
    ((gather readers).2.1.map fun r => r.feed.handles)
      = (readers.map fun r => r.feed.handles).mapIdx fun place handles =>
          handles.drop (took (gather readers).1.isAll (gather readers).2.2 place).toNat := by
  induction readers with
  | nil => rfl
  | cons r rest ih =>
    have hone : [Call.next r.feed.label].length ≤ 1 := Nat.le_refl 1
    rcases hscript : r.feed.script with _ | ⟨handle | error, script⟩
    · rw [gather_of_nil hscript]
      exact (drop_of_not_took hone _).symm
    · have hhandles : r.feed.handles = handle :: r.advanced.feed.handles := by
        rw [Feed.handles, Feed.handles, Registered.advanced, hscript]
        rfl
      have hfirst : took (gather rest).1.isAll (.next r.feed.label :: (gather rest).2.2) 0 = true := by
        cases hgiven : (gather rest).1.isAll with
        | true => rfl
        | false => exact decide_eq_true (Nat.succ_lt_succ (gather_asks hgiven))
      rw [gather_of_event hscript, List.map_cons, List.map_cons, List.mapIdx_cons,
        Gathering.isAll_add, hfirst, hhandles, ih]
      simp only [took_succ]
      rfl
    · have hhandles : r.feed.handles = r.advanced.feed.handles := by
        rw [Feed.handles, Feed.handles, Registered.advanced, hscript]
        rfl
      rw [gather_of_fault hscript, List.map_cons, List.map_cons, hhandles]
      exact (drop_of_not_took hone _).symm

/-- the handles that a gathering combines are the next ones of the feeds, each beside the decoder of its
reader -/
theorem suppliers_gather {readers : List Registered} {suppliers : List Supplier}
    (h : (gather readers).1 = .all suppliers) :
    (suppliers.map fun supplier => some supplier.handle)
        = ((readers.map fun r => r.feed.handles).map fun handles => handles[0]?)
      ∧ suppliers.map Supplier.decoder = readers.map Registered.decoder := by
  induction readers generalizing suppliers with
  | nil =>
    cases h
    exact ⟨rfl, rfl⟩
  | cons r rest ih =>
    rcases hscript : r.feed.script with _ | ⟨handle | error, script⟩
    · rw [gather_of_nil hscript] at h
      cases h
    · rw [gather_of_event hscript] at h
      obtain ⟨others, hrest, rfl⟩ := Gathering.add_eq_all_iff.mp h
      obtain ⟨hhandles, hdecoders⟩ := ih hrest
      constructor
      · rw [List.map_cons, hhandles, List.map_cons, List.map_cons, Feed.handles, hscript]
        rfl
      · rw [List.map_cons, hdecoders, List.map_cons]
    · rw [gather_of_fault hscript] at h
      cases h

/-! ## one call -/

/-- an event was given -/
def gaveEvent : Except StoreError (Option Event) → Bool
  | .ok (some _) => true
  | _ => false

/-- the call gives an event -/
def gives (s : Store) (call : Event.Factory × Option Event) : Bool :=
  gaveEvent (s.next call.1 call.2).1

/-- the call takes an event from the feed at a place -/
def draws (s : Store) (place : Nat) (call : Event.Factory × Option Event) : Bool :=
  took (s.gives call) (s.next call.1 call.2).2.2 place

/-- a call that asks the feeds leaves the readers as these have answered, any other as they were -/
theorem readers_next (s : Store) (call : Event.Factory × Option Event) :
    ((s.next call.1 call.2).2.1.readers = s.readers ∧ s.gives call = false
        ∧ (s.next call.1 call.2).2.2 = [])
      ∨ (s.next call.1 call.2).2.1.readers = (gather s.readers).2.1
        ∧ s.gives call = (gather s.readers).1.isAll
        ∧ (s.next call.1 call.2).2.2 = (gather s.readers).2.2 := by
  unfold gives
  rw [next]
  split
  · exact .inl ⟨rfl, rfl, rfl⟩
  · split
    · exact .inl ⟨rfl, rfl, rfl⟩
    · right
      dsimp only
      split
      all_goals
        rename_i hgathering
        rw [hgathering]
        exact ⟨rfl, rfl, rfl⟩

theorem handles_next (s : Store) (call : Event.Factory × Option Event) :
    (s.next call.1 call.2).2.1.handles
      = s.handles.mapIdx fun place handles => handles.drop (s.draws place call).toNat := by
  unfold draws handles
  obtain ⟨hreaders, hgives, hcalls⟩ | ⟨hreaders, hgives, hcalls⟩ := s.readers_next call
  · have hquiet : ([] : List Call).length ≤ 1 := Nat.zero_le 1
    rw [hreaders, hgives, hcalls]
    exact (drop_of_not_took hquiet _).symm
  · rw [hreaders, hgives, hcalls]
    exact handles_gather s.readers

theorem decoders_next (s : Store) (call : Event.Factory × Option Event) :
    (s.next call.1 call.2).2.1.decoders = s.decoders := by
  unfold decoders
  obtain ⟨hreaders, -⟩ | ⟨hreaders, -⟩ := s.readers_next call
  · rw [hreaders]
  · rw [hreaders]
    exact map_gather (fun _ => rfl) s.readers

/-- an event that is given combines the next handles of the feeds, each beside its decoder -/
theorem handles_of_next {s : Store} {call : Event.Factory × Option Event} {e : Event}
    (h : (s.next call.1 call.2).1 = .ok (some e)) :
    ∃ raw, e.raw? = some raw
      ∧ (raw.suppliers.map fun supplier => some supplier.handle)
        = (s.handles.map fun handles => handles[0]?)
      ∧ raw.suppliers.map Supplier.decoder = s.decoders := by
  rw [next] at h
  split at h
  · cases h
  · split at h
    · cases h
    · dsimp only at h
      split at h
      · cases h
      · cases h
      · rename_i suppliers hgathering
        cases h
        exact ⟨⟨s.table, suppliers⟩, rfl, suppliers_gather hgathering⟩

theorem handles_ne_nil {s : Store} {call : Event.Factory × Option Event} {e : Event}
    (h : (s.next call.1 call.2).1 = .ok (some e)) : s.handles ≠ [] := by
  intro hnone
  rw [next, if_pos (List.isEmpty_iff.mpr (List.map_eq_nil_iff.mp hnone))] at h
  cases h

/-- no call asks more feeds than there are -/
theorem length_calls_next (s : Store) (call : Event.Factory × Option Event) :
    (s.next call.1 call.2).2.2.length ≤ s.handles.length := by
  have hlength : s.handles.length = s.readers.length := List.length_map _
  rw [hlength]
  obtain ⟨-, -, hcalls⟩ | ⟨-, -, hcalls⟩ := s.readers_next call
  · rw [hcalls]
    exact Nat.zero_le _
  · have hprefix := (gather_calls s.readers).length_le
    rw [List.length_map] at hprefix
    rw [hcalls]
    exact hprefix

theorem next_none {s : Store} {call : Event.Factory × Option Event}
    (h : (s.next call.1 call.2).1 = .ok none) : (s.next call.1 call.2).2.1.exhausted = true := by
  rw [next] at h ⊢
  split at h
  · cases h
  · rename_i hreaders
    rw [if_neg hreaders]
    split at h
    · rename_i hexhausted
      rw [if_pos hexhausted]
      exact hexhausted
    · rename_i hopen
      rw [if_neg hopen]
      dsimp only at h ⊢
      split at h
      · cases h
      · rfl
      · cases h

theorem exhausted_next {s : Store} (h : s.exhausted = true) (call : Event.Factory × Option Event) :
    (s.next call.1 call.2).2.1 = s ∧ s.gives call = false := by
  rw [gives, next]
  split
  · exact ⟨rfl, rfl⟩
  · exact ⟨rfl, rfl⟩

/-! ## call after call -/

/-- the number of calls with a property of the store they are made to -/
def times (what : Store → Event.Factory × Option Event → Bool) :
    List (Event.Factory × Option Event) → Store → Nat
  | [], _ => 0
  | call :: rest, s => (what s call).toNat + times what rest (s.next call.1 call.2).2.1

/-- the number of events that calls take from the feed at a place -/
def position (place : Nat) (calls : List (Event.Factory × Option Event)) (s : Store) : Nat :=
  times (fun s => s.draws place) calls s

/-- the number of events that calls give -/
def eventsGiven (calls : List (Event.Factory × Option Event)) (s : Store) : Nat := times gives calls s

/-- every call that fails asks no feed but the first -/
def FailsFirst (calls : List (Event.Factory × Option Event)) (s : Store) : Prop :=
  ∀ before call behind, calls = before ++ call :: behind →
    ∀ error, ((afterCalls before s).next call.1 call.2).1 = .error error →
      ((afterCalls before s).next call.1 call.2).2.2.length ≤ 1

/-- **A feed still gives what calls have not taken from it.** -/
theorem handles_afterCalls (calls : List (Event.Factory × Option Event)) (s : Store) :
    (afterCalls calls s).handles
      = s.handles.mapIdx fun place handles => handles.drop (position place calls s) := by
  induction calls generalizing s with
  | nil =>
    refine (List.mapIdx_eq_iff.mpr fun place => ?_).symm
    exact Option.map_id'.symm
  | cons call rest ih =>
    rw [afterCalls, ih, handles_next, List.mapIdx_mapIdx]
    congr 1
    funext place handles
    exact List.drop_drop ..

theorem decoders_afterCalls (calls : List (Event.Factory × Option Event)) (s : Store) :
    (afterCalls calls s).decoders = s.decoders := by
  induction calls generalizing s with
  | nil => rfl
  | cons call rest ih => rw [afterCalls, ih, decoders_next]

theorem exhausted_afterCalls {s : Store} (h : s.exhausted = true)
    (calls : List (Event.Factory × Option Event)) : afterCalls calls s = s := by
  induction calls with
  | nil => rfl
  | cons call rest ih => rw [afterCalls, (exhausted_next h call).1, ih]

section

variable {p q : Store → Event.Factory × Option Event → Bool}

theorem times_le (h : ∀ s call, p s call = true → q s call = true)
    (calls : List (Event.Factory × Option Event)) (s : Store) : times p calls s ≤ times q calls s := by
  induction calls generalizing s with
  | nil => exact Nat.le_refl 0
  | cons call rest ih =>
    have hrest := ih (s.next call.1 call.2).2.1
    have hcall := h s call
    rw [times, times]
    cases hp : p s call with
    | false => simp only [Bool.toNat_false]; omega
    | true => simp only [hcall hp, Bool.toNat_true]; omega

/-- of two properties the weaker one comes up as often as the other only if no call makes a difference -/
theorem times_eq_iff (h : ∀ s call, p s call = true → q s call = true)
    (calls : List (Event.Factory × Option Event)) (s : Store) :
    times q calls s = times p calls s
      ↔ ∀ before call behind, calls = before ++ call :: behind →
        q (afterCalls before s) call = true → p (afterCalls before s) call = true := by
  induction calls generalizing s with
  | nil => simp [times]
  | cons call rest ih =>
    have hle := times_le h rest (s.next call.1 call.2).2.1
    rw [times, times]
    constructor
    · intro hsame before other behind hcalls hq
      have hcall := h s call
      rcases before with _ | ⟨first, before⟩
      · obtain ⟨rfl, rfl⟩ := List.cons_eq_cons.mp hcalls
        change q s call = true at hq
        show p s call = true
        rw [hq, Bool.toNat_true] at hsame
        cases hp : p s call with
        | true => rfl
        | false =>
          rw [hp, Bool.toNat_false] at hsame
          omega
      · obtain ⟨rfl, hrest⟩ := List.cons_eq_cons.mp hcalls
        have hsame' : times q rest (s.next call.1 call.2).2.1
            = times p rest (s.next call.1 call.2).2.1 := by
          cases hp : p s call with
          | false => rw [hp, Bool.toNat_false] at hsame; omega
          | true => rw [hp, hcall hp, Bool.toNat_true] at hsame; omega
        exact (ih (s.next call.1 call.2).2.1).mp hsame' before other behind hrest hq
    · intro hall
      have hfirst : q s call = p s call :=
        Bool.eq_iff_iff.mpr ⟨hall [] call rest rfl, h s call⟩
      rw [hfirst, (ih (s.next call.1 call.2).2.1).mpr fun before other behind hcalls =>
        hall (call :: before) other behind (congrArg (call :: ·) hcalls)]

end

/-! ## places -/

theorem afterCalls_append (first second : List (Event.Factory × Option Event)) (s : Store) :
    afterCalls (first ++ second) s = afterCalls second (afterCalls first s) := by
  induction first generalizing s with
  | nil => rfl
  | cons call rest ih => exact ih (s.next call.1 call.2).2.1

theorem length_handles_afterCalls (calls : List (Event.Factory × Option Event)) (s : Store) :
    (afterCalls calls s).handles.length = s.handles.length := by
  rw [handles_afterCalls, List.length_mapIdx]

theorem draws_of_gives (place : Nat) (s : Store) (call : Event.Factory × Option Event)
    (h : s.gives call = true) : s.draws place call = true := by
  rw [draws, took, h]
  rfl

theorem draws_iff_of_not_gives {s : Store} {call : Event.Factory × Option Event}
    (h : s.gives call = false) {place : Nat} :
    s.draws place call = true ↔ place + 1 < (s.next call.1 call.2).2.2.length := by
  rw [draws, took, h, Bool.false_or, decide_eq_true_iff]

section

variable (calls : List (Event.Factory × Option Event)) (s : Store)

theorem eventsGiven_le_position (place : Nat) : eventsGiven calls s ≤ position place calls s :=
  times_le (draws_of_gives place) calls s

/-- the first feed is never behind another -/
theorem position_le_first (place : Nat) : position place calls s ≤ position 0 calls s := by
  refine times_le (fun s call hdraws => ?_) calls s
  cases hgives : s.gives call with
  | true => exact draws_of_gives 0 s call hgives
  | false =>
    rw [draws_iff_of_not_gives hgives] at hdraws ⊢
    omega

/-- the last feed gives an event only if all do -/
theorem position_last {last : Nat} (h : s.handles.length = last + 1) :
    position last calls s = eventsGiven calls s := by
  refine (times_eq_iff (draws_of_gives last) calls s).mpr fun before call behind hcalls hdraws => ?_
  have hasked := (afterCalls before s).length_calls_next call
  rw [length_handles_afterCalls, h] at hasked
  cases hgives : (afterCalls before s).gives call with
  | true => rfl
  | false =>
    rw [draws_iff_of_not_gives hgives] at hdraws
    omega

variable {calls s}

/-- **The feeds of a store that is not dry yet are at one place exactly if no call has failed behind the
first feed.** -/
theorem position_eq_iff (hfeeds : s.handles ≠ []) (hopen : (afterCalls calls s).exhausted = false) :
    (∃ k, ∀ place < s.handles.length, position place calls s = k) ↔ FailsFirst calls s := by
  obtain ⟨last, hlast⟩ := Nat.exists_eq_succ_of_ne_zero (mt List.length_eq_zero_iff.mp hfeeds)
  have hfirst := times_eq_iff (draws_of_gives 0) calls s
  constructor
  · rintro ⟨k, hk⟩ before call behind hcalls error herror
    have hsame : position 0 calls s = eventsGiven calls s := by
      rw [hk 0 (by omega), ← hk last (by omega), position_last calls s hlast]
    have hgives : (afterCalls before s).gives call = false := by
      rw [gives, herror]
      rfl
    have hnone := mt (hfirst.mp hsame before call behind hcalls) (by rw [hgives]; exact nofun)
    rw [draws_iff_of_not_gives hgives] at hnone
    omega
  · intro hfails
    have hsame : position 0 calls s = eventsGiven calls s := by
      refine hfirst.mpr fun before call behind hcalls hdraws => ?_
      cases hgives : (afterCalls before s).gives call with
      | true => rfl
      | false =>
        rw [draws_iff_of_not_gives hgives] at hdraws
        rcases houtcome : ((afterCalls before s).next call.1 call.2).1 with error | _ | e
        · have hfew := hfails before call behind hcalls error houtcome
          omega
        · -- a dry feed ends the store
          have hdry := next_none houtcome
          rw [hcalls, afterCalls_append, afterCalls, exhausted_afterCalls hdry, hdry] at hopen
          cases hopen
        · rw [gives, houtcome] at hgives
          cases hgives
    refine ⟨eventsGiven calls s, fun place _ => Nat.le_antisymm ?_ ?_⟩
    · exact hsame ▸ position_le_first calls s place
    · exact eventsGiven_le_position calls s place

end

/-- **An event combines handles of one place exactly if no earlier call has failed behind the first
feed.**  Whatever errors the feeds report, an event has from each feed the handle behind those that
earlier calls have taken, beside the decoder of the feed.  A call that fails takes one from every feed
in front of the one that reports the error. -/
theorem next_after_faults {config : StoreConfig} {registrations : List Registration} {s : Store}
    (hs : registerAll registrations (new config) = (.ok (), s)) {feeds : List Feed}
    (hfeeds : registrations.filterMap Registration.feed? = feeds)
    (earlier : List (Event.Factory × Option Event)) (call : Event.Factory × Option Event) :
    (∀ e, ((afterCalls earlier s).next call.1 call.2).1 = .ok (some e) →
        (∃ raw, e.raw? = some raw
          ∧ (raw.suppliers.map fun supplier => some supplier.handle)
            = (feeds.mapIdx fun place feed => feed.handles[position place earlier s]?)
          ∧ raw.suppliers.map Supplier.decoder = feeds.map Feed.decoder)
        ∧ ((∃ k, ∀ place < feeds.length, position place earlier s = k) ↔ FailsFirst earlier s))
      ∧ ∀ error, ((afterCalls earlier s).next call.1 call.2).1 = .error error →
        ((afterCalls earlier s).next call.1 call.2).2.1.handles
          = (afterCalls earlier s).handles.mapIdx fun place handles =>
              if place + 1 < ((afterCalls earlier s).next call.1 call.2).2.2.length
              then handles.tail else handles := by
  have hlists := lists_registerAll hs
  rw [hfeeds] at hlists
  have hhandles : s.handles = feeds.map Feed.handles := by
    rw [← hlists.feeds, List.map_map]
    rfl
  have hdecoders : s.decoders = feeds.map Feed.decoder := by
    rw [← hlists.feeds, List.map_map]
    exact List.map_congr_left hlists.decoders
  have hlength : s.handles.length = feeds.length := by rw [hhandles, List.length_map]
  refine ⟨fun e hgiven => ⟨?_, ?_⟩, fun error herror => ?_⟩
  · obtain ⟨raw, hraw, hsuppliers, hkept⟩ := handles_of_next hgiven
    refine ⟨raw, hraw, ?_, hkept.trans ((decoders_afterCalls earlier s).trans hdecoders)⟩
    rw [hsuppliers, handles_afterCalls, hhandles]
    exact List.ext_getElem? fun place => by simp [Function.comp_def]
  · rw [← hlength]
    refine position_eq_iff ?_ ?_
    · intro hnone
      have hlength := length_handles_afterCalls earlier s
      rw [hnone] at hlength
      exact handles_ne_nil hgiven (List.length_eq_zero_iff.mp hlength)
    · cases hexhausted : (afterCalls earlier s).exhausted with
      | false => rfl
      | true =>
        have hgives := (exhausted_next hexhausted call).2
        rw [gives, hgiven] at hgives
        cases hgives
  · have hgives : (afterCalls earlier s).gives call = false := by
      rw [gives, herror]
      rfl
    rw [handles_next]
    congr 1
    funext place handles
    rw [draws, took, hgives, Bool.false_or]
    split
    · rename_i hasked
      rw [decide_eq_true hasked]
      exact List.drop_one
    · rename_i hasked
      rw [decide_eq_false hasked]
      rfl

/-- a feed of two events -/
def steadyFeed : Feed :=
  TableReader.feed "steady"
    (.ofDocument "steady"
      ⟨["hits"], .empty, [[some ⟨[1], none, none, some 1⟩], [some ⟨[2], none, none, some 1⟩]]⟩)

/-- a feed of two events that reports an error first -/
def faultyFeed : Feed :=
  Feed.failingAt 1 (TableReader.feed "faulty"
    (.ofDocument "faulty"
      ⟨["notes"], .empty, [[some ⟨[3], none, none, some 1⟩], [some ⟨[4], none, none, some 1⟩]]⟩))

def lazyCall : Event.Factory × Option Event := (⟨.lazy, .replace, false⟩, none)

/-- an error of the first feed changes nothing, and an error of the second one takes an event from the
first -/
theorem next_after_faults_steady :
    (∃ s e raw, registerAll [.source faultyFeed, .source steadyFeed] (new {}) = (.ok (), s)
        ∧ ((afterCalls [lazyCall] s).next lazyCall.1 lazyCall.2).1 = .ok (some e)
        ∧ e.raw? = some raw
        ∧ (raw.suppliers.map fun supplier => some supplier.handle)
          = [faultyFeed.handles[0]?, steadyFeed.handles[0]?]
        ∧ FailsFirst [lazyCall] s)
      ∧ ∃ s, registerAll [.source steadyFeed, .source faultyFeed] (new {}) = (.ok (), s)
        ∧ (s.next lazyCall.1 lazyCall.2).2.1.handles = [steadyFeed.handles.tail, faultyFeed.handles] := by
  obtain ⟨s, hs⟩ : ∃ s, registerAll [.source faultyFeed, .source steadyFeed] (new {})
      = (.ok (), s) :=
    ⟨_, rfl⟩
  obtain ⟨s', hs'⟩ : ∃ s', registerAll [.source steadyFeed, .source faultyFeed] (new {})
      = (.ok (), s') :=
    ⟨_, rfl⟩
  obtain ⟨hevents, -⟩ := next_after_faults hs rfl [lazyCall] lazyCall
  obtain ⟨-, herrors⟩ := next_after_faults hs' rfl [] lazyCall
  cases hs
  cases hs'
  obtain ⟨⟨raw, hraw, hsuppliers, -⟩, hplaces⟩ := hevents _ rfl
  refine ⟨⟨_, _, raw, rfl, rfl, hraw, hsuppliers, hplaces.mp ⟨0, fun place hplace => ?_⟩⟩, _, rfl,
    herrors _ rfl⟩
  match place, hplace with
  | 0, _ => rfl
  | 1, _ => rfl

/-- after an error of the second feed an event combines the second handle of the first feed with the
first handle of the second one -/
theorem next_mispaired :
    ∃ s e raw, registerAll [.source steadyFeed, .source faultyFeed] (new {}) = (.ok (), s)
      ∧ (s.next lazyCall.1 lazyCall.2).1 = .error Feed.injected
      ∧ ((afterCalls [lazyCall] s).next lazyCall.1 lazyCall.2).1 = .ok (some e)
      ∧ e.raw? = some raw
      ∧ ∀ k : Nat, (raw.suppliers.map fun supplier => some supplier.handle)
        ≠ [steadyFeed, faultyFeed].map fun feed => feed.handles[k]? := by
  refine ⟨_, _, _, rfl, rfl, rfl, rfl, fun k hsame => ?_⟩
  change [steadyFeed.handles[1]?, faultyFeed.handles[0]?]
    = [steadyFeed.handles[k]?, faultyFeed.handles[k]?] at hsame
  have hrows := congrArg (List.map fun handle : Option Handle => handle.bind Handle.row?) hsame
  match k, hrows with
  | 0, hrows => exact absurd hrows (by decide)
  | 1, hrows => exact absurd hrows (by decide)
  | k + 2, hrows => cases hrows

end Store

end EventMerge
