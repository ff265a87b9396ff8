import EventMerge.Store.Basic

/-!
# What a store gives

The raw data that a store gives do not depend on the events they are put into.  Asked again and again
under a limit, a store gives as many as the limit and the shortest of its feeds allow, and nothing
from then on.

* `Store.gather_of_event`, `Store.map_gather`  what the feeds answer, and what stays of the readers;
* `Store.pull`           the next raw data, which `Store.next` puts into an event;
* `Store.fetch`          the same under a limit;
* `Store.Supplies`       the raw data that a store gives until it gives no more;
* `Store.Supplies.length_eq_min`  their number.
-/

namespace EventMerge

namespace Registered

/-- the reader after one event -/
def advanced (r : Registered) : Registered :=
  { r with feed := { r.feed with script := r.feed.script.tail } }

end Registered

namespace Store

/-! ## asking the feeds -/

/-- a gathering with one more supplier, if every feed has given an event -/
def Gathering.add (supplier : Supplier) : Gathering → Gathering
  | .all suppliers => .all (supplier :: suppliers)
  | other => other

theorem Gathering.add_eq_all_iff {supplier : Supplier} {gathering : Gathering}
    {suppliers : List Supplier} :
    gathering.add supplier = .all suppliers
      ↔ ∃ others, gathering = .all others ∧ supplier :: others = suppliers := by
  cases gathering <;> simp [add]

theorem Gathering.add_eq_dry_iff {supplier : Supplier} {gathering : Gathering} :
    gathering.add supplier = .dry ↔ gathering = .dry := by
  cases gathering <;> simp [add]

section

variable {r : Registered} {rest : List Registered} {script : List Pull}

theorem gather_of_nil (h : r.feed.script = []) :
    gather (r :: rest) = (.dry, r :: rest, [.next r.feed.label]) := by
  rw [gather, h]

theorem gather_of_fault {error : StoreError} (h : r.feed.script = .fault error :: script) :
    gather (r :: rest) = (.failed error, r.advanced :: rest, [.next r.feed.label]) := by
  rw [gather, Registered.advanced, h]
  rfl

theorem gather_of_event {handle : Handle} (h : r.feed.script = .event handle :: script) :
    gather (r :: rest)
      = ((gather rest).1.add ⟨r.source, r.feed.label, handle, r.decoder⟩,
        r.advanced :: (gather rest).2.1, .next r.feed.label :: (gather rest).2.2) := by
  rw [gather, Registered.advanced, h]
  dsimp only
  cases (gather rest).1 <;> rfl

end

/-- what is no matter of a reader's script stays -/
theorem map_gather {α : Type} {f : Registered → α} (hf : ∀ r, f r.advanced = f r)
    (readers : List Registered) : (gather readers).2.1.map f = readers.map f := by
  induction readers with
  | nil => rfl
  | cons r rest ih =>
    rcases hscript : r.feed.script with _ | ⟨handle | error, script⟩
    · rw [gather_of_nil hscript]
    · rw [gather_of_event hscript, List.map_cons, hf, ih, List.map_cons]
    · rw [gather_of_fault hscript, List.map_cons, hf, List.map_cons]

theorem gather_eq_nil_iff {readers : List Registered} :
    (gather readers).2.1 = [] ↔ readers = [] := by
  have hsources := map_gather (f := Registered.source) (fun _ => rfl) readers
  rw [← List.map_eq_nil_iff, hsources, List.map_eq_nil_iff]

theorem gather_all {readers : List Registered} {suppliers : List Supplier}
    (h : (gather readers).1 = .all suppliers) :
    (gather readers).2.1 = readers.map Registered.advanced
      ∧ ∀ r ∈ readers, r.feed.script ≠ [] := by
  induction readers generalizing suppliers with
  | nil => exact ⟨rfl, fun _ hr => nomatch hr⟩
  | cons r rest ih =>
    rcases hscript : r.feed.script with _ | ⟨handle | error, script⟩
    · rw [gather_of_nil hscript] at h
      cases h
    · rw [gather_of_event hscript] at h ⊢
      obtain ⟨others, hrest, -⟩ := Gathering.add_eq_all_iff.mp h
      obtain ⟨hreaders, hscripts⟩ := ih hrest
      refine ⟨congrArg (r.advanced :: ·) hreaders, fun r' hr' => ?_⟩
      rcases List.mem_cons.mp hr' with rfl | hr'
      · rw [hscript]
        exact List.cons_ne_nil _ _
      · exact hscripts r' hr'
    · rw [gather_of_fault hscript] at h
      cases h

theorem gather_dry {readers : List Registered} (h : (gather readers).1 = .dry) :
    ∃ r ∈ readers, r.feed.script = [] := by
  induction readers with
  | nil => cases h
  | cons r rest ih =>
    rcases hscript : r.feed.script with _ | ⟨handle | error, script⟩
    · exact ⟨r, List.mem_cons_self, hscript⟩
    · rw [gather_of_event hscript] at h
      obtain ⟨r', hr', hdry⟩ := ih (Gathering.add_eq_dry_iff.mp h)
      exact ⟨r', List.mem_cons_of_mem _ hr', hdry⟩
    · rw [gather_of_fault hscript] at h
      cases h

/-! ## one after the other -/

/-- the next raw data -/
def pull (s : Store) : Except StoreError (Option RawData) × Store :=
  if s.readers.isEmpty then (.error .noSources, s)
  else if s.exhausted then (.ok none, s)
  else
    let (gathering, readers, _) := gather s.readers
    let s := { s with readers, started := true }
    match gathering with
    | .failed error => (.error error, s)
    | .dry => (.ok none, { s with exhausted := true })
    | .all suppliers =>
      (.ok (some ⟨s.table, suppliers⟩), { s with eventsRead := s.eventsRead + 1 })

theorem next_store (s : Store) (factory : Event.Factory) (slot : Option Event) :
    (s.next factory slot).2.1 = s.pull.2 := by
  rw [next, pull]
  split
  · rfl
  · split
    · rfl
    · dsimp only
      cases (gather s.readers).1 <;> rfl

theorem next_value (s : Store) (factory : Event.Factory) (slot : Option Event) :
    (s.next factory slot).1
      = s.pull.1.map (Option.map fun raw => (Event.make factory slot).setRaw raw) := by
  rw [next, pull]
  split
  · rfl
  · split
    · rfl
    · dsimp only
      cases (gather s.readers).1 <;> rfl

theorem pull_some {s s' : Store} {raw : RawData} (h : s.pull = (.ok (some raw), s')) :
    raw.table = s.table ∧ s'.table = s.table ∧ s'.eventsRead = s.eventsRead + 1
      ∧ s'.exhausted = s.exhausted ∧ s'.readers = s.readers.map Registered.advanced
      ∧ ∀ r ∈ s.readers, r.feed.script ≠ [] := by
  rw [pull] at h
  split at h
  · cases h
  · split at h
    · cases h
    · dsimp only at h
      split at h
      · cases h
      · cases h
      · rename_i suppliers hgather
        obtain ⟨hreaders, hscripts⟩ := gather_all hgather
        cases h
        exact ⟨rfl, rfl, rfl, rfl, hreaders, hscripts⟩

theorem pull_none {s s' : Store} (h : s.pull = (.ok none, s')) :
    s'.pull = (.ok none, s') ∧ s'.eventsRead = s.eventsRead
      ∧ (s.exhausted = false → ∃ r ∈ s.readers, r.feed.script = []) := by
  rw [pull] at h
  split at h
  · cases h
  · rename_i hreaders
    split at h
    · rename_i hexhausted
      cases h
      refine ⟨?_, rfl, fun hopen => ?_⟩
      · rw [pull, if_neg hreaders, if_pos hexhausted]
      · rw [hopen] at hexhausted
        cases hexhausted
    · dsimp only at h
      split at h
      · cases h
      · rename_i hgather
        cases h
        refine ⟨?_, rfl, fun _ => gather_dry hgather⟩
        rw [pull]
        split
        · rename_i hempty
          have hnone := gather_eq_nil_iff.mp (List.isEmpty_iff.mp hempty)
          exact absurd (List.isEmpty_iff.mpr hnone) hreaders
        · rw [if_pos rfl]
      · cases h

/-! ## under a limit -/

/-- as many events as the limit allows have been read -/
def isFull (limit : Option Nat) (s : Store) : Bool :=
  match limit with
  | some limit => limit ≤ s.eventsRead
  | none => false

/-- the next raw data, unless the limit is reached -/
def fetch (limit : Option Nat) (s : Store) : Except StoreError (Option RawData) × Store :=
  if s.isFull limit then (.ok none, s) else s.pull

/-- the raw data that a store gives until it gives no more, and the store then -/
inductive Supplies (limit : Option Nat) : Store → List RawData → Store → Prop
  | done {s s' : Store} : s.fetch limit = (.ok none, s') → Supplies limit s [] s'
  | more {s s' s'' : Store} {raw : RawData} {rest : List RawData} :
      s.fetch limit = (.ok (some raw), s') → Supplies limit s' rest s'' →
      Supplies limit s (raw :: rest) s''

theorem isFull_eq_false_of_fetch_some {limit : Option Nat} {s s' : Store} {raw : RawData}
    (h : s.fetch limit = (.ok (some raw), s')) :
    s.isFull limit = false ∧ s.pull = (.ok (some raw), s') := by
  rw [fetch] at h
  split at h
  · cases h
  · rename_i hfull
    exact ⟨Bool.not_eq_true _ ▸ hfull, h⟩

theorem fetch_none {limit : Option Nat} {s s' : Store} (h : s.fetch limit = (.ok none, s')) :
    s'.fetch limit = (.ok none, s') ∧ s'.eventsRead = s.eventsRead := by
  have h' := h
  rw [fetch] at h
  split at h
  · cases h
    exact ⟨h', rfl⟩
  · obtain ⟨hpull, hread, -⟩ := pull_none h
    refine ⟨?_, hread⟩
    rw [fetch, hpull, ite_self]

namespace Supplies

variable {limit : Option Nat} {s s' : Store} {raws : List RawData}

theorem eventsRead_eq (h : Supplies limit s raws s') :
    s'.eventsRead = s.eventsRead + raws.length := by
  induction h with
  | done hfetch => exact (fetch_none hfetch).2
  | more hfetch _ ih =>
    obtain ⟨-, hpull⟩ := isFull_eq_false_of_fetch_some hfetch
    obtain ⟨-, -, hread, -⟩ := pull_some hpull
    rw [ih, hread, List.length_cons]
    omega

theorem table_eq (h : Supplies limit s raws s') : ∀ raw ∈ raws, raw.table = s.table := by
  induction h with
  | done _ => exact fun _ hraw => nomatch hraw
  | more hfetch _ ih =>
    obtain ⟨-, hpull⟩ := isFull_eq_false_of_fetch_some hfetch
    obtain ⟨htable, hkept, -⟩ := pull_some hpull
    intro raw hraw
    rcases List.mem_cons.mp hraw with rfl | hraw
    · exact htable
    · exact (ih raw hraw).trans hkept

theorem length_le (h : Supplies limit s raws s') :
    (∀ r ∈ s.readers, raws.length ≤ r.feed.script.length)
      ∧ ∀ most, limit = some most → s.eventsRead ≤ most → s.eventsRead + raws.length ≤ most := by
  induction h with
  | done _ => exact ⟨fun _ _ => Nat.zero_le _, fun _ _ hread => hread⟩
  | @more s _ _ _ rest hfetch _ ih =>
    obtain ⟨hfull, hpull⟩ := isFull_eq_false_of_fetch_some hfetch
    obtain ⟨-, -, hread, -, hreaders, hscripts⟩ := pull_some hpull
    refine ⟨fun r hr => ?_, fun most hmost _ => ?_⟩
    · have hrest := ih.1 r.advanced (hreaders ▸ List.mem_map_of_mem hr)
      have hpos : 0 < r.feed.script.length := List.length_pos_iff.mpr (hscripts r hr)
      rw [Registered.advanced, List.length_tail] at hrest
      rw [List.length_cons]
      omega
    · rw [hmost] at hfull
      have hless : ¬ most ≤ s.eventsRead := of_decide_eq_false hfull
      have hrest := ih.2 most hmost (by omega)
      rw [List.length_cons]
      omega

theorem le_length (h : Supplies limit s raws s') (hopen : s.exhausted = false) :
    (∃ r ∈ s.readers, r.feed.script.length ≤ raws.length)
      ∨ ∃ most, limit = some most ∧ most ≤ s.eventsRead + raws.length := by
  induction h with
  | @done s s' hfetch =>
    rw [fetch] at hfetch
    split at hfetch
    · rename_i hfull
      cases limit with
      | none => cases hfull
      | some most => exact .inr ⟨most, rfl, of_decide_eq_true hfull⟩
    · obtain ⟨r, hr, hdry⟩ := (pull_none hfetch).2.2 hopen
      exact .inl ⟨r, hr, by rw [hdry]; exact Nat.le_refl 0⟩
  | @more s _ _ _ rest hfetch _ ih =>
    obtain ⟨-, hpull⟩ := isFull_eq_false_of_fetch_some hfetch
    obtain ⟨-, -, hread, hkept, hreaders, -⟩ := pull_some hpull
    rw [List.length_cons]
    rcases ih (hkept.trans hopen) with ⟨r', hr', hle⟩ | ⟨most, hmost, hle⟩
    · rw [hreaders] at hr'
      obtain ⟨r, hr, rfl⟩ := List.mem_map.mp hr'
      rw [Registered.advanced, List.length_tail] at hle
      exact .inl ⟨r, hr, by omega⟩
    · exact .inr ⟨most, hmost, by omega⟩

/-- **A new store gives as many events as the limit and the shortest of its feeds allow.** -/
theorem length_eq_min (h : Supplies limit s raws s') (hopen : s.exhausted = false)
    (hnew : s.eventsRead = 0) :
    (limit.toList ++ s.readers.map fun r => r.feed.script.length).min? = some raws.length := by
  obtain ⟨hfeeds, hmost⟩ := h.length_le
  rw [List.min?_eq_some_iff]
  refine ⟨List.mem_append.mpr ?_, fun bound hbound => ?_⟩
  · rcases h.le_length hopen with ⟨r, hr, hle⟩ | ⟨most, rfl, hle⟩
    · exact .inr (List.mem_map.mpr ⟨r, hr, Nat.le_antisymm hle (hfeeds r hr)⟩)
    · have hge := hmost most rfl (by omega)
      rw [show raws.length = most by omega]
      exact .inl (Option.mem_toList.mpr rfl)
  · rcases List.mem_append.mp hbound with hbound | hbound
    · have hge := hmost bound (Option.mem_toList.mp hbound) (by omega)
      omega
    · obtain ⟨r, hr, rfl⟩ := List.mem_map.mp hbound
      exact hfeeds r hr

end Supplies

end Store

end EventMerge
