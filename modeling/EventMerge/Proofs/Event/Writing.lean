import EventMerge.Proofs.Event.Following

/-!
# What an event writes

What is written is, for each name, what the event offers for it; only the marks of what was put in
change by it.

* `Event.writeAll_value`, `Event.runtime?_writeAll`  the payloads of given names, and what is held
                                     afterwards;
* `Event.readied`                    the event once everything is decoded that has to be;
* `Event.allNames`                   the names of what an event holds or could decode;
* `Event.Follows.collectionsForWrite_value`  the payloads that an event offers, of given names or of
                                     all;
* `Event.offered?`                   the payload of one name among them;
* `Event.Follows.collectionsForWrite_again`  earlier writing makes no difference;
* `Event.runtime?_collectionsForWrite`  what was put in is prepared if it was asked for.
-/

namespace EventMerge

namespace Event

variable {e : Event} {raw : Option RawData}

/-! ## the payloads of given names -/

theorem writeAll_nil (e : Event) : writeAll [] e = { value := [], event := e } := rfl

theorem value_writeAll_cons (name : String) (rest : List String) (e : Event) :
    (writeAll (name :: rest) e).value
      = ((e.writeOne name).value.map fun buffers => (name, buffers)).toList
        ++ (writeAll rest (e.writeOne name).event).value := rfl

theorem event_writeAll_cons (name : String) (rest : List String) (e : Event) :
    (writeAll (name :: rest) e).event = (writeAll rest (e.writeOne name).event).event := rfl

theorem writeAll_event (names : List String) (e : Event) :
    ∃ cache, (writeAll names e).event = { e with cache } := by
  induction names generalizing e with
  | nil => exact ⟨e.cache, rfl⟩
  | cons name rest ih =>
    rw [event_writeAll_cons]
    obtain ⟨cache, hcache⟩ := ih (e.writeOne name).event
    refine ⟨cache, ?_⟩
    rw [hcache, writeOne_event]

theorem contains_writeOne (e : Event) (name other : String) :
    (e.writeOne name).event.contains other = e.contains other := by
  rw [contains, contains, NameMap.contains, NameMap.contains, get?_writeOne]
  by_cases hname : other = name
  · rw [if_pos hname, Option.isSome_map, hname]
  · rw [if_neg hname]

theorem contains_writeAll (names : List String) (e : Event) (name : String) :
    (writeAll names e).event.contains name = e.contains name := by
  induction names generalizing e with
  | nil => rfl
  | cons other rest ih => rw [event_writeAll_cons, ih, contains_writeOne]

theorem follows_writeAll (names : List String) (h : e.Follows raw) :
    (writeAll names e).event.Follows raw := by
  induction names generalizing e with
  | nil => exact h
  | cons name rest ih => exact ih (h.writeOne name)

theorem runtime?_writeAll (names : List String) (e : Event) (name : String) :
    (writeAll names e).event.runtime? name
      = if name ∈ names then (e.runtime? name).map Collection.prepareForWrite
        else e.runtime? name := by
  induction names generalizing e with
  | nil => simp [writeAll_nil]
  | cons other rest ih =>
    rw [event_writeAll_cons, ih, runtime?_writeOne]
    by_cases hname : name = other
    · subst hname
      rw [if_pos rfl, if_pos List.mem_cons_self, Option.map_map]
      have hagain : Collection.prepareForWrite ∘ Collection.prepareForWrite
          = Collection.prepareForWrite := funext Collection.prepareForWrite_prepareForWrite
      rw [hagain, ite_self]
    · simp [hname]

theorem writeAll_value (names : List String) (h : e.Follows raw) :
    (writeAll names e).value
      = names.filterMap fun name => (e.offer? raw name).map fun buffers => (name, buffers) := by
  induction names generalizing e with
  | nil => rfl
  | cons name rest ih =>
    have hoffer : ∀ other, (e.writeOne name).event.offer? raw other = e.offer? raw other :=
      e.offer?_writeOne raw name
    rw [value_writeAll_cons, ih (h.writeOne name), h.writeOne_value, List.filterMap_cons]
    simp only [hoffer]
    cases e.offer? raw name <;> rfl

theorem mem_of_mem_writeAll {names : List String} {payload : String × Buffers}
    (h : payload ∈ (writeAll names e).value) : payload.1 ∈ names := by
  induction names generalizing e with
  | nil => cases h
  | cons name rest ih =>
    rw [value_writeAll_cons] at h
    rcases List.mem_append.mp h with hfirst | hrest
    · obtain ⟨buffers, -, rfl⟩ := Option.map_eq_some_iff.mp (Option.mem_toList.mp hfirst)
      exact List.mem_cons_self
    · exact List.mem_cons_of_mem _ (ih hrest)

/-! ## decoding first -/

/-- the event with everything decoded, if it decodes everything at once and still has to -/
def readied (e : Event) : Event :=
  match e.kind, e.supply with
  | .eager, .held raw => (e.materialize raw).1
  | _, _ => e

theorem collectionsForWrite_value_eq (e : Event) (names : List String) :
    (e.collectionsForWrite names).value
      = (writeAll (if names.isEmpty then e.readied.writableNames else names) e.readied).value := by
  rw [collectionsForWrite, readied]
  cases e.kind <;> cases e.supply <;> rfl

theorem collectionsForWrite_event_eq (e : Event) (names : List String) :
    (e.collectionsForWrite names).event
      = (writeAll (if names.isEmpty then e.readied.writableNames else names) e.readied).event := by
  rw [collectionsForWrite, readied]
  cases e.kind <;> cases e.supply <;> rfl

/-- an event that is asked for some names gives no others -/
theorem mem_of_mem_collectionsForWrite {names : List String} (hasked : names ≠ [])
    {payload : String × Buffers} (h : payload ∈ (e.collectionsForWrite names).value) :
    payload.1 ∈ names := by
  have hsome : ¬ names.isEmpty = true := fun hempty => hasked (List.isEmpty_iff.mp hempty)
  rw [collectionsForWrite_value_eq, if_neg hsome] at h
  exact mem_of_mem_writeAll h

theorem runtime?_materialize (e : Event) (r : RawData) (name : String) :
    (e.materialize r).1.runtime? name = e.runtime? name := by
  rcases hget : e.cache.get? name with _ | entry
  · have hafter : (e.materialize r).1.cache.get? name
        = (r.decoded? name).map fun c => ⟨c, .decoded⟩ := by
      rw [get?_materialize, hget, Option.none_or]
    rw [runtime?_eq_none_of_get? hget]
    cases hdecoded : r.decoded? name with
    | none => exact runtime?_eq_none_of_get? (by rw [hafter, hdecoded]; rfl)
    | some c => exact runtime?_eq_none_of_decoded (c := c) (by rw [hafter, hdecoded]; rfl)
  · refine runtime?_congr ?_
    rw [get?_materialize, hget, Option.some_or]

theorem Follows.materialize (h : e.Follows raw) {r : RawData} (hkind : e.kind = .eager)
    (hraw : e.raw? = some r) : (e.materialize r).1.Follows raw := by
  have hlatest : raw = some r := h.held r hraw
  subst hlatest
  refine ⟨rfl, fun r' hr' => (nomatch hr'), fun _ => hkind, fun name c hc => ?_,
    fun _ name hnone => ?_⟩
  · rw [get?_materialize] at hc
    rcases hget : e.cache.get? name with _ | entry
    · rw [hget, Option.none_or] at hc
      obtain ⟨d, hd, hentry⟩ := Option.map_eq_some_iff.mp hc
      cases hentry
      obtain ⟨result, -, rfl⟩ := Option.map_eq_some_iff.mp hd
      rw [Cache.unprepared_ofDecoding]
      exact hd
    · rw [hget, Option.some_or] at hc
      exact h.decoded name c (hget.trans hc)
  · rw [get?_materialize, Option.or_eq_none_iff, Option.map_eq_none_iff] at hnone
    exact hnone.2

theorem raw?_of_held {r : RawData} (h : e.supply = .held r) : e.raw? = some r := by
  rw [raw?, h]

theorem runtime?_readied (e : Event) (name : String) : e.readied.runtime? name = e.runtime? name := by
  rw [readied]
  split
  · exact e.runtime?_materialize _ name
  · rfl

theorem Follows.readied (h : e.Follows raw) : e.readied.Follows raw := by
  rw [Event.readied]
  split
  · rename_i r hkind hsupply
    exact h.materialize hkind (raw?_of_held hsupply)
  · exact h

theorem contains_readied_of_contains {name : String} (h : e.contains name = true) :
    e.readied.contains name = true := by
  rw [readied]
  split
  · obtain ⟨entry, hentry⟩ := NameMap.contains_eq_true_iff.mp h
    refine NameMap.contains_eq_true_iff.mpr ⟨entry, ?_⟩
    rw [get?_materialize, hentry, Option.some_or]
  · exact h

theorem kind_readied (e : Event) : e.readied.kind = e.kind := by
  rw [readied]
  split <;> rfl

theorem putPolicy_readied (e : Event) : e.readied.putPolicy = e.putPolicy := by
  rw [readied]
  split <;> rfl

/-! ## the names of an event -/

/-- the names of what an event holds or knows from its raw data, once each and in order -/
def allNames (e : Event) (raw : Option RawData) : List String :=
  (NameMap.ofList ((e.cachedNames ++ (raw.map RawData.knownNames).getD []).map
    fun name => (name, ()))).keys

theorem sorted_writableNames (e : Event) : e.writableNames.Pairwise (· < ·) := by
  rw [writableNames]
  split
  · exact NameMap.sorted_keys _
  · exact NameMap.sorted_keys _

theorem contains_of_runtime? {name : String} {c : Collection} (h : e.runtime? name = some c) :
    e.contains name = true :=
  NameMap.contains_eq_true_iff.mpr ⟨_, runtime?_eq_some_iff.mp h⟩

theorem mem_cachedNames_of_runtime? {name : String} {c : Collection}
    (h : e.runtime? name = some c) : name ∈ e.cachedNames :=
  NameMap.contains_iff_mem_keys.mp (contains_of_runtime? h)

theorem known_of_offer? {name : String} (h : (e.offer? raw name).isSome = true) :
    (∃ c, e.runtime? name = some c) ∨ ∃ c, decodedFrom? raw name = some c := by
  cases hruntime : e.runtime? name with
  | some c => exact .inl ⟨c, rfl⟩
  | none =>
    rw [offer?, hruntime] at h
    obtain ⟨buffers, hbuffers⟩ := Option.isSome_iff_exists.mp h
    have hread : (raw.bind fun raw => raw.readable? name) = some buffers := hbuffers
    rw [readable?_eq_decodedFrom?] at hread
    obtain ⟨c, hc, -⟩ := Option.bind_eq_some_iff.mp hread
    exact .inr ⟨c, hc⟩

theorem mem_allNames_of_offer? {name : String} (h : (e.offer? raw name).isSome = true) :
    name ∈ e.allNames raw := by
  refine (NameMap.mem_keys_ofNames _ _).mpr (List.mem_append.mpr ?_)
  rcases known_of_offer? h with ⟨c, hc⟩ | ⟨c, hc⟩
  · exact .inl (mem_cachedNames_of_runtime? hc)
  · obtain ⟨r, rfl, hdecoded⟩ := Option.bind_eq_some_iff.mp hc
    exact .inr (RawData.mem_knownNames_of_decoded? hdecoded)

theorem mem_writableNames_of_runtime? {name : String} {c : Collection}
    (h : e.runtime? name = some c) : name ∈ e.writableNames := by
  have hcached := mem_cachedNames_of_runtime? h
  rw [writableNames]
  split
  · exact hcached
  · exact (NameMap.mem_keys_ofNames _ _).mpr (List.mem_append_left _ hcached)

theorem Follows.mem_writableNames (h : e.Follows raw) {name : String}
    (hoffer : (e.offer? raw name).isSome = true) : name ∈ e.writableNames := by
  rcases known_of_offer? hoffer with ⟨c, hc⟩ | ⟨c, hc⟩
  · exact mem_writableNames_of_runtime? hc
  · rw [writableNames]
    split
    · rename_i hraw
      have hcontains : e.contains name = true := by
        cases hcontains : e.contains name with
        | true => rfl
        | false =>
          have hnone := h.decodedFrom?_of_get? (NameMap.contains_eq_false_iff.mp hcontains)
          rw [hraw, hc] at hnone
          cases hnone
      exact NameMap.contains_iff_mem_keys.mp hcontains
    · rename_i r hraw
      refine (NameMap.mem_keys_ofNames _ _).mpr (List.mem_append_right _ ?_)
      rw [h.held r hraw] at hc
      exact RawData.mem_knownNames_of_decoded? hc

/-! ## the payloads of an event -/

/-- **An event writes what it has on offer**, for the given names in their order, or for all. -/
theorem Follows.collectionsForWrite_value (h : e.Follows raw) (names : List String) :
    (e.collectionsForWrite names).value
      = (if names.isEmpty then e.allNames raw else names).filterMap fun name =>
          (e.offer? raw name).map fun buffers => (name, buffers) := by
  have hoffer : ∀ name, e.readied.offer? raw name = e.offer? raw name :=
    fun name => offer?_congr raw (e.runtime?_readied name)
  rw [collectionsForWrite_value_eq, writeAll_value _ h.readied]
  simp only [hoffer]
  by_cases hnames : names.isEmpty = true
  · rw [if_pos hnames, if_pos hnames]
    refine NameMap.filterMap_eq_of_sorted _ (sorted_writableNames _) (NameMap.sorted_keys _)
      fun name hsome => ?_
    rw [Option.isSome_map] at hsome
    refine iff_of_true (h.readied.mem_writableNames ?_) (mem_allNames_of_offer? hsome)
    rw [hoffer, hsome]
  · rw [if_neg hnames, if_neg hnames]

/-- the payload that is written for a name when the given names are asked for -/
def offered? (e : Event) (raw : Option RawData) (names : List String) (name : String) :
    Option Buffers :=
  if names.isEmpty = true ∨ name ∈ names then e.offer? raw name else none

theorem offered?_eq (e : Event) (raw : Option RawData) (names : List String) (name : String) :
    (if name ∈ (if names.isEmpty then e.allNames raw else names) then e.offer? raw name else none)
      = e.offered? raw names name := by
  rw [offered?]
  by_cases hnames : names.isEmpty = true
  · rw [if_pos hnames, if_pos (Or.inl hnames)]
    by_cases hmem : name ∈ e.allNames raw
    · rw [if_pos hmem]
    · rw [if_neg hmem]
      cases hoffer : e.offer? raw name with
      | none => rfl
      | some buffers => exact absurd (mem_allNames_of_offer? (by rw [hoffer]; rfl)) hmem
  · simp [hnames]

theorem Follows.mem_collectionsForWrite (h : e.Follows raw) {names : List String} {name : String}
    {buffers : Buffers} :
    (name, buffers) ∈ (e.collectionsForWrite names).value
      ↔ e.offered? raw names name = some buffers := by
  rw [h.collectionsForWrite_value, ← offered?_eq, List.mem_filterMap]
  constructor
  · rintro ⟨other, hmem, hother⟩
    obtain ⟨b, hoffer, hpair⟩ := Option.map_eq_some_iff.mp hother
    cases hpair
    rw [if_pos hmem, hoffer]
  · intro hoffer
    by_cases hmem : name ∈ (if names.isEmpty then e.allNames raw else names)
    · rw [if_pos hmem] at hoffer
      exact ⟨name, hmem, by rw [hoffer]; rfl⟩
    · rw [if_neg hmem] at hoffer
      cases hoffer

/-- of the payloads that are written each name has one, from whichever end they are gone through -/
theorem Follows.lookup_collectionsForWrite (h : e.Follows raw) (names : List String)
    (name : String) :
    NameMap.lookup name (e.collectionsForWrite names).value = e.offered? raw names name
      ∧ NameMap.lookup name (e.collectionsForWrite names).value.reverse
        = e.offered? raw names name := by
  rw [h.collectionsForWrite_value, ← offered?_eq, ← List.filterMap_reverse,
    NameMap.lookup_filterMap, NameMap.lookup_filterMap]
  simp only [List.mem_reverse, and_self]

theorem Follows.collectionsForWrite_congr {e' : Event} (h : e.Follows raw) (h' : e'.Follows raw)
    (hoffer : ∀ name, e'.offer? raw name = e.offer? raw name) (names : List String) :
    (e'.collectionsForWrite names).value = (e.collectionsForWrite names).value := by
  rw [h.collectionsForWrite_value, h'.collectionsForWrite_value]
  simp only [hoffer]
  by_cases hnames : names.isEmpty = true
  · rw [if_pos hnames, if_pos hnames]
    refine NameMap.filterMap_eq_of_sorted _ (NameMap.sorted_keys _) (NameMap.sorted_keys _)
      fun name hsome => ?_
    rw [Option.isSome_map] at hsome
    refine iff_of_true (mem_allNames_of_offer? ?_) (mem_allNames_of_offer? hsome)
    rw [hoffer, hsome]
  · rw [if_neg hnames, if_neg hnames]

theorem Follows.collectionsForWrite (h : e.Follows raw) (names : List String) :
    (e.collectionsForWrite names).event.Follows raw := by
  rw [collectionsForWrite_event_eq]
  exact follows_writeAll _ h.readied

theorem runtime?_collectionsForWrite (e : Event) (names : List String) (name : String) :
    (e.collectionsForWrite names).event.runtime? name
      = if names.isEmpty = true ∨ name ∈ names
        then (e.runtime? name).map Collection.prepareForWrite else e.runtime? name := by
  rw [collectionsForWrite_event_eq, runtime?_writeAll, runtime?_readied]
  by_cases hnames : names.isEmpty = true
  · cases hruntime : e.runtime? name with
    | none => simp
    | some c =>
      have hmem : name ∈ e.readied.writableNames :=
        mem_writableNames_of_runtime? ((e.runtime?_readied name).trans hruntime)
      rw [if_pos hnames, if_pos hmem, if_pos (Or.inl hnames)]
  · simp [hnames]

theorem offer?_collectionsForWrite (e : Event) (raw : Option RawData) (names : List String)
    (name : String) :
    (e.collectionsForWrite names).event.offer? raw name = e.offer? raw name := by
  rw [offer?, offer?, runtime?_collectionsForWrite]
  cases e.runtime? name with
  | none => simp
  | some c =>
    by_cases hasked : names.isEmpty = true ∨ name ∈ names
    · rw [if_pos hasked]
      exact congrArg some (congrArg Collection.buffers c.prepareForWrite_prepareForWrite)
    · rw [if_neg hasked]

theorem Follows.collectionsForWrite_again (h : e.Follows raw) (earlier names : List String) :
    ((e.collectionsForWrite earlier).event.collectionsForWrite names).value
      = (e.collectionsForWrite names).value :=
  h.collectionsForWrite_congr (h.collectionsForWrite earlier)
    (e.offer?_collectionsForWrite raw earlier) names

theorem contains_collectionsForWrite (e : Event) (names : List String) (name : String) :
    (e.collectionsForWrite names).event.contains name = e.readied.contains name := by
  rw [collectionsForWrite_event_eq, contains_writeAll]

theorem kind_collectionsForWrite (e : Event) (names : List String) :
    (e.collectionsForWrite names).event.kind = e.kind := by
  rw [collectionsForWrite_event_eq]
  obtain ⟨cache, hcache⟩ :=
    writeAll_event (if names.isEmpty then e.readied.writableNames else names) e.readied
  rw [hcache]
  exact e.kind_readied

theorem putPolicy_collectionsForWrite (e : Event) (names : List String) :
    (e.collectionsForWrite names).event.putPolicy = e.putPolicy := by
  rw [collectionsForWrite_event_eq]
  obtain ⟨cache, hcache⟩ :=
    writeAll_event (if names.isEmpty then e.readied.writableNames else names) e.readied
  rw [hcache]
  exact e.putPolicy_readied

end Event

end EventMerge
