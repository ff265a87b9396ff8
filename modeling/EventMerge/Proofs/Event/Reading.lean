import EventMerge.Proofs.Event.Writing

/-!
# What an event shows

What is read for a name is what was put in, or else what the latest raw data give, whenever these were
decoded.

* `Event.shown?`            the collection that an event shows for a name;
* `Event.Follows.get_value`  what is read is what is shown, the mark of writing apart;
* `Event.runtime?_get`, `Event.runtime?_setRaw`, `Event.runtime?_afterPut`  what was put in,
                            afterwards;
* `Event.Follows.get`, `Event.follows_setRaw`, `Event.Follows.afterPut`  every operation leaves an
                            event that follows its latest raw data;
* `Event.fresh`             a new event; `Event.make` gives nothing else.
-/

namespace EventMerge

namespace Event

variable {e : Event} {raw : Option RawData}

/-- the collection that an event shows for a name -/
def shown? (e : Event) (raw : Option RawData) (name : String) : Option Collection :=
  (e.runtime? name).or (decodedFrom? raw name)

theorem shown?_congr {e e' : Event} (raw : Option RawData) {name : String}
    (h : e'.runtime? name = e.runtime? name) : e'.shown? raw name = e.shown? raw name := by
  rw [shown?, shown?, h]

/-! ## what is held is shown -/

theorem collection?_of_get? {name : String} {entry : CacheEntry}
    (h : e.cache.get? name = some entry) :
    e.cache.collection? name = some entry.collection := by
  rw [Cache.collection?, h, Option.map_some]

theorem unprepared_ofDecodedFrom? {name : String} {c : Collection}
    (h : decodedFrom? raw name = some c) : c.unprepared = c := by
  obtain ⟨r, -, hdecoded⟩ := Option.bind_eq_some_iff.mp h
  obtain ⟨result, -, rfl⟩ := Option.map_eq_some_iff.mp hdecoded
  exact Cache.unprepared_ofDecoding result

theorem Follows.collection?_of_contains (h : e.Follows raw) {name : String}
    (hcontains : e.contains name = true) :
    (e.cache.collection? name).map Collection.unprepared
      = (e.shown? raw name).map Collection.unprepared := by
  rcases e.get?_cases name with hget | ⟨c, hget⟩ | ⟨c, hget⟩
  · have hfalse : e.contains name = false := NameMap.contains_eq_false_iff.mpr hget
    rw [hfalse] at hcontains
    cases hcontains
  · rw [collection?_of_get? hget, shown?, runtime?_eq_some_iff.mpr hget, Option.some_or]
  · have hdecoded := h.decoded name c hget
    rw [collection?_of_get? hget, shown?, runtime?_eq_none_of_decoded hget, Option.none_or,
      hdecoded, Option.map_some, Option.map_some, unprepared_ofDecodedFrom? hdecoded]

theorem Follows.shown?_of_contains (h : e.Follows raw) {name : String}
    (hcontains : e.contains name = true) : (e.shown? raw name).isSome = true := by
  have hheld := h.collection?_of_contains hcontains
  obtain ⟨entry, hentry⟩ := NameMap.contains_eq_true_iff.mp hcontains
  rw [collection?_of_get? hentry] at hheld
  rw [← Option.isSome_map (f := Collection.unprepared), ← hheld]
  rfl

theorem Follows.contains_of_shown? (h : e.Follows raw) (hspent : e.isMaterialized = true)
    {name : String} (hshown : (e.shown? raw name).isSome = true) : e.contains name = true := by
  cases hcontains : e.contains name with
  | true => rfl
  | false =>
    have hget := NameMap.contains_eq_false_iff.mp hcontains
    rw [shown?, runtime?_eq_none_of_get? hget, h.complete hspent name hget] at hshown
    cases hshown

theorem Follows.collection?_of_materialized (h : e.Follows raw) (hspent : e.isMaterialized = true)
    (name : String) :
    (e.cache.collection? name).map Collection.unprepared
      = (e.shown? raw name).map Collection.unprepared := by
  cases hcontains : e.contains name with
  | true => exact h.collection?_of_contains hcontains
  | false =>
    have hget := NameMap.contains_eq_false_iff.mp hcontains
    rw [shown?, runtime?_eq_none_of_get? hget, h.complete hspent name hget, Cache.collection?, hget]
    rfl

/-! ## reading -/

theorem getEager_event (e : Event) (name : String) (hkind : e.kind = .eager) :
    (e.getEager name).event = e.readied := by
  rw [getEager, readied, hkind]
  cases e.supply <;> rfl

theorem isMaterialized_readied (hkind : e.kind = .eager) (hraw : e.hasRawData = true) :
    e.readied.isMaterialized = true := by
  rw [hasRawData] at hraw
  rw [readied, hkind]
  cases hsupply : e.supply with
  | none => rw [hsupply] at hraw; cases hraw
  | held r => rfl
  | spent => rw [isMaterialized, hsupply]

theorem getEager_value (hkind : e.kind = .eager) (hraw : e.hasRawData = true) (name : String) :
    (e.getEager name).value = .ok (e.readied.cache.collection? name) := by
  rw [hasRawData] at hraw
  rw [getEager, readied, hkind]
  cases hsupply : e.supply with
  | none => rw [hsupply] at hraw; cases hraw
  | held r => rfl
  | spent => rfl

theorem get?_getLazy (e : Event) (name other : String) :
    (e.getLazy name).event.cache.get? other
      = (e.cache.get? other).or
          (if other = name then
            ((e.raw?.bind fun raw => raw.provision? name).map fun p =>
              ⟨Cache.ofDecoding p.decode, .decoded⟩)
          else none) := by
  rw [getLazy]
  by_cases hcontains : e.contains name = true
  · rw [if_pos hcontains]
    by_cases hname : other = name
    · obtain ⟨entry, hentry⟩ := NameMap.contains_eq_true_iff.mp hcontains
      rw [hname, hentry, Option.some_or]
    · rw [if_neg hname, Option.or_none]
  · rw [if_neg hcontains]
    cases e.raw?.bind fun raw => raw.provision? name with
    | none => simp
    | some p => exact Cache.get?_addDecoded e.cache name other p.decode

theorem getLazy_event (e : Event) (name : String) :
    ∃ cache, (e.getLazy name).event = { e with cache } := by
  rw [getLazy]
  split
  · exact ⟨e.cache, rfl⟩
  · split
    · exact ⟨e.cache, rfl⟩
    · exact ⟨_, rfl⟩

theorem getLazy_value (e : Event) (name : String) :
    (e.getLazy name).value = (e.getLazy name).event.cache.collection? name := by
  rw [getLazy]
  by_cases hcontains : e.contains name = true
  · rw [if_pos hcontains]
  · rw [if_neg hcontains]
    cases e.raw?.bind fun raw => raw.provision? name with
    | none =>
      have hget := NameMap.contains_eq_false_iff.mp (Bool.not_eq_true _ ▸ hcontains)
      show none = e.cache.collection? name
      rw [Cache.collection?, hget]
      rfl
    | some p => rfl

theorem Follows.getLazy (h : e.Follows raw) (name : String) :
    (e.getLazy name).event.Follows raw := by
  have hget := e.get?_getLazy name
  obtain ⟨cache, hcache⟩ := e.getLazy_event name
  rw [hcache] at hget ⊢
  refine ⟨h.given, h.held, h.spent, fun other c hc => ?_, fun hspent other hnone => ?_⟩
  · rw [hget] at hc
    rcases hold : e.cache.get? other with _ | entry
    · rw [hold, Option.none_or] at hc
      by_cases hname : other = name
      · subst hname
        rw [if_pos rfl] at hc
        obtain ⟨p, hp, hentry⟩ := Option.map_eq_some_iff.mp hc
        cases hentry
        rw [h.decodedFrom?_of_get? hold, hp, Cache.unprepared_ofDecoding]
        rfl
      · rw [if_neg hname] at hc
        cases hc
    · rw [hold, Option.some_or] at hc
      exact h.decoded other c (hold.trans hc)
  · rw [hget, Option.or_eq_none_iff] at hnone
    exact h.complete hspent other hnone.1

theorem runtime?_getLazy (e : Event) (name other : String) :
    (e.getLazy name).event.runtime? other = e.runtime? other := by
  have hget := e.get?_getLazy name other
  rcases hold : e.cache.get? other with _ | entry
  · rw [hold, Option.none_or] at hget
    rw [runtime?_eq_none_of_get? hold]
    by_cases hname : other = name
    · rw [if_pos hname] at hget
      cases hp : e.raw?.bind fun raw => raw.provision? name with
      | none => exact runtime?_eq_none_of_get? (by rw [hget, hp]; rfl)
      | some p => exact runtime?_eq_none_of_decoded (by rw [hget, hp]; rfl)
    · rw [if_neg hname] at hget
      exact runtime?_eq_none_of_get? hget
  · refine runtime?_congr ?_
    rw [hget, hold, Option.some_or]

theorem Follows.get (h : e.Follows raw) (name : String) : (e.get name).event.Follows raw := by
  rw [Event.get]
  split
  · rename_i hkind
    rw [getEager_event e name hkind]
    exact h.readied
  · exact h.getLazy name

theorem runtime?_get (e : Event) (name other : String) :
    (e.get name).event.runtime? other = e.runtime? other := by
  rw [get]
  split
  · rename_i hkind
    rw [getEager_event e name hkind]
    exact e.runtime?_readied other
  · exact e.runtime?_getLazy name other

theorem kind_get (e : Event) (name : String) : (e.get name).event.kind = e.kind := by
  rw [get]
  split
  · rename_i hkind
    rw [getEager_event e name hkind]
    exact e.kind_readied
  · obtain ⟨cache, hcache⟩ := e.getLazy_event name
    show (e.getLazy name).event.kind = e.kind
    rw [hcache]

theorem putPolicy_get (e : Event) (name : String) : (e.get name).event.putPolicy = e.putPolicy := by
  rw [get]
  split
  · rename_i hkind
    rw [getEager_event e name hkind]
    exact e.putPolicy_readied
  · obtain ⟨cache, hcache⟩ := e.getLazy_event name
    show (e.getLazy name).event.putPolicy = e.putPolicy
    rw [hcache]

theorem Follows.getLazy_value (h : e.Follows raw) (name : String) :
    (e.getLazy name).value.map Collection.unprepared
      = (e.shown? raw name).map Collection.unprepared := by
  have hnext := h.getLazy name
  have hshown : (e.getLazy name).event.shown? raw name = e.shown? raw name :=
    shown?_congr raw (e.runtime?_getLazy name name)
  rw [Event.getLazy_value, ← hshown]
  cases hcontains : (e.getLazy name).event.contains name with
  | true => exact hnext.collection?_of_contains hcontains
  | false =>
    have hget := NameMap.contains_eq_false_iff.mp hcontains
    have hnone := hget
    rw [get?_getLazy, if_pos rfl, Option.or_eq_none_iff, Option.map_eq_none_iff] at hnone
    rw [Event.shown?, runtime?_eq_none_of_get? hget, h.decodedFrom?_of_get? hnone.1, hnone.2,
      Cache.collection?, hget]
    rfl

/-- **An event that was given raw data shows what it holds or could decode**, the mark of writing
apart. -/
theorem Follows.get_value (h : e.Follows raw) (hraw : raw.isSome = true) (name : String) :
    ∃ found, (e.get name).value = .ok found
      ∧ found.map Collection.unprepared = (e.shown? raw name).map Collection.unprepared := by
  rw [Event.get]
  split
  · rename_i hkind
    have hgiven : e.hasRawData = true := h.given.trans hraw
    refine ⟨_, getEager_value hkind hgiven name, ?_⟩
    rw [h.readied.collection?_of_materialized (isMaterialized_readied hkind hgiven) name,
      shown?_congr raw (e.runtime?_readied name)]
  · exact ⟨_, rfl, h.getLazy_value name⟩

/-! ## new raw data -/

theorem runtime?_setRaw (e : Event) (r : RawData) (name : String) :
    (e.setRaw r).runtime? name = e.runtime? name := by
  have hget : (e.setRaw r).cache.get? name
      = (e.cache.get? name).filter fun entry => entry.origin = .runtime :=
    Cache.get?_dropDecoded e.cache name
  rcases e.get?_cases name with hold | ⟨c, hold⟩ | ⟨c, hold⟩
  · rw [runtime?_eq_none_of_get? hold]
    exact runtime?_eq_none_of_get? (by rw [hget, hold]; rfl)
  · rw [runtime?_eq_some_iff.mpr hold]
    exact runtime?_eq_some_iff.mpr (by rw [hget, hold]; rfl)
  · rw [runtime?_eq_none_of_decoded hold]
    exact runtime?_eq_none_of_get? (by rw [hget, hold]; rfl)

theorem contains_setRaw (e : Event) (r : RawData) (name : String) :
    (e.setRaw r).contains name = (e.runtime? name).isSome := by
  have hget : (e.setRaw r).cache.get? name
      = (e.cache.get? name).filter fun entry => entry.origin = .runtime :=
    Cache.get?_dropDecoded e.cache name
  rw [contains, NameMap.contains, hget]
  rcases e.get?_cases name with hold | ⟨c, hold⟩ | ⟨c, hold⟩
  · rw [runtime?_eq_none_of_get? hold, hold]
    rfl
  · rw [runtime?_eq_some_iff.mpr hold, hold]
    rfl
  · rw [runtime?_eq_none_of_decoded hold, hold]
    rfl

theorem follows_setRaw (e : Event) (r : RawData) : (e.setRaw r).Follows (some r) := by
  refine ⟨rfl, fun r' hr' => congrArg some (Option.some.inj hr'), (nomatch ·),
    fun name c hc => ?_, (nomatch ·)⟩
  have hruntime : (e.setRaw r).runtime? name = none := runtime?_eq_none_of_decoded hc
  have hcontains : (e.setRaw r).contains name = true := NameMap.contains_eq_true_iff.mpr ⟨_, hc⟩
  rw [contains_setRaw, ← runtime?_setRaw e r, hruntime] at hcontains
  cases hcontains

/-! ## putting collections in -/

/-- a put takes hold if it may replace what is there or nothing is there -/
def admits (e : Event) (name : String) : Bool :=
  e.putPolicy = .replace || !e.contains name

theorem put_of_admits {name : String} (h : e.admits name = true) (c : Collection) :
    e.put name c = .ok (c, { e with cache := e.cache.insert name ⟨c, .runtime⟩ }) := by
  rw [admits] at h
  unfold put Cache.put
  cases hget : e.cache.get? name with
  | none => rfl
  | some entry =>
    have hcontains : e.contains name = true := NameMap.contains_eq_true_iff.mpr ⟨_, hget⟩
    cases hpolicy : e.putPolicy with
    | replace => rfl
    | keepOriginal => rw [hpolicy, hcontains] at h; cases h
    | reject => rw [hpolicy, hcontains] at h; cases h

theorem put_of_not_admits {name : String} (h : e.admits name = false) (c : Collection) :
    (∃ old, e.cache.collection? name = some old ∧ e.putPolicy = .keepOriginal
        ∧ e.put name c = .ok (old, e))
      ∨ (e.putPolicy = .reject ∧ e.put name c = .error (.collectionExists name)) := by
  obtain ⟨kind, policy, cache, parameters, supply⟩ := e
  rw [admits] at h
  unfold put Cache.put
  cases hget : cache.get? name with
  | none =>
    have hcontains : cache.contains name = false := NameMap.contains_eq_false_iff.mpr hget
    rw [contains, hcontains] at h
    simp at h
  | some entry =>
    cases policy with
    | replace => cases h
    | keepOriginal => exact .inl ⟨entry.collection, by rw [Cache.collection?, hget]; rfl, rfl, rfl⟩
    | reject => exact .inr ⟨rfl, rfl⟩

/-- the event after a put -/
def afterPut (e : Event) (name : String) (c : Collection) : Event :=
  match e.put name c with
  | .ok (_, e') => e'
  | .error _ => e

theorem afterPut_of_admits {name : String} (h : e.admits name = true) (c : Collection) :
    e.afterPut name c = { e with cache := e.cache.insert name ⟨c, .runtime⟩ } := by
  rw [afterPut, put_of_admits h]

theorem afterPut_of_not_admits {name : String} (h : e.admits name = false) (c : Collection) :
    e.afterPut name c = e := by
  rw [afterPut]
  rcases put_of_not_admits h c with ⟨old, -, -, hput⟩ | ⟨-, hput⟩
  · rw [hput]
  · rw [hput]

theorem runtime?_afterPut (e : Event) (name : String) (c : Collection) (other : String) :
    (e.afterPut name c).runtime? other
      = if e.admits name = true ∧ other = name then some c else e.runtime? other := by
  cases hadmits : e.admits name with
  | false => rw [afterPut_of_not_admits hadmits]; simp
  | true =>
    rw [afterPut_of_admits hadmits]
    by_cases hname : other = name
    · rw [if_pos ⟨rfl, hname⟩, hname]
      exact runtime?_eq_some_iff.mpr (NameMap.get?_insert_self _ _ _)
    · rw [if_neg fun h => hname h.2]
      refine runtime?_congr ?_
      exact NameMap.get?_insert_of_ne _ _ hname

theorem contains_afterPut (e : Event) (name : String) (c : Collection) (other : String) :
    (e.afterPut name c).contains other = (e.contains other || (e.admits name && other = name)) := by
  cases hadmits : e.admits name with
  | false => rw [afterPut_of_not_admits hadmits]; simp
  | true =>
    rw [afterPut_of_admits hadmits, contains, contains, NameMap.contains_insert]
    simp [Bool.or_comm]

theorem Follows.afterPut (h : e.Follows raw) (name : String) (c : Collection) :
    (e.afterPut name c).Follows raw := by
  cases hadmits : e.admits name with
  | false => rwa [afterPut_of_not_admits hadmits]
  | true =>
    rw [afterPut_of_admits hadmits]
    have hget := fun other => NameMap.get?_insert e.cache name other ⟨c, .runtime⟩
    refine ⟨h.given, h.held, h.spent, fun other d hd => ?_, fun hspent other hnone => ?_⟩
    · rw [hget] at hd
      by_cases hname : other = name
      · rw [if_pos hname] at hd
        cases hd
      · rw [if_neg hname] at hd
        exact h.decoded other d hd
    · rw [hget] at hnone
      by_cases hname : other = name
      · rw [if_pos hname] at hnone
        cases hnone
      · rw [if_neg hname] at hnone
        exact h.complete hspent other hnone

theorem kind_afterPut (e : Event) (name : String) (c : Collection) :
    (e.afterPut name c).kind = e.kind := by
  cases hadmits : e.admits name with
  | false => rw [afterPut_of_not_admits hadmits]
  | true => rw [afterPut_of_admits hadmits]

theorem putPolicy_afterPut (e : Event) (name : String) (c : Collection) :
    (e.afterPut name c).putPolicy = e.putPolicy := by
  cases hadmits : e.admits name with
  | false => rw [afterPut_of_not_admits hadmits]
  | true => rw [afterPut_of_admits hadmits]

/-! ## starting over -/

/-- a new event -/
def fresh (kind : EventKind) (policy : PutPolicy) : Event := { kind := kind, putPolicy := policy }

theorem follows_fresh (kind : EventKind) (policy : PutPolicy) : (fresh kind policy).Follows none :=
  ⟨rfl, fun _ => (nomatch ·), (nomatch ·), fun _ _ => (nomatch ·), (nomatch ·)⟩

theorem runtime?_fresh (kind : EventKind) (policy : PutPolicy) (name : String) :
    (fresh kind policy).runtime? name = none := rfl

theorem reuse_eq_fresh (e : Event) : e.reuse = fresh e.kind e.putPolicy := rfl

/-- an old event of the same policy is as good as a new one -/
theorem make_eq_fresh (f : Factory) {slot : Option Event}
    (h : ∀ old ∈ slot, old.putPolicy = f.putPolicy) : make f slot = fresh f.kind f.putPolicy := by
  cases slot with
  | none => rfl
  | some old =>
    rw [make]
    split
    · rename_i hsame
      rw [reuse_eq_fresh, hsame.2, h old rfl]
    · rfl

end Event

end EventMerge
