import EventMerge.Proofs.Event.Decoding

/-!
# What an event holds

An event holds what was put in at runtime, and what its latest raw data give for every other name,
whether that has been decoded yet or not.

* `Event.runtime?`    the collection put in under a name;
* `Event.Follows`     everything marked as decoded comes from the latest raw data;
* `Event.offer?`      the payload that is written for a name;
* `Event.Follows.writeOne_value`, `Event.runtime?_writeOne`  writing gives what is on offer, and only
                      prepares what was put in.
-/

namespace EventMerge

namespace Collection

/-- the collection as it was before it was prepared for writing -/
def unprepared (c : Collection) : Collection := { c with prepared := false }

theorem buffers_prepareForWrite_of_isValid {c : Collection} (h : c.buffers.isValid = true) :
    c.prepareForWrite.buffers = c.buffers := by
  rw [prepareForWrite]
  split
  · rfl
  · exact Buffers.filled_of_isValid h

theorem unprepared_prepareForWrite {c : Collection} (h : c.buffers.isValid = true) :
    c.prepareForWrite.unprepared = c.unprepared := by
  show Collection.mk c.prepareForWrite.buffers c.prepareForWrite.valid c.prepareForWrite.resolved false
    = Collection.mk c.buffers c.valid c.resolved false
  rw [buffers_prepareForWrite_of_isValid h, valid_prepareForWrite, resolved_prepareForWrite]

end Collection

namespace Cache

theorem isValid_ofDecoding (result : Except DecodeError Buffers) :
    (ofDecoding result).buffers.isValid = (ofDecoding result).valid := by
  cases result <;> rfl

theorem unprepared_ofDecoding (result : Except DecodeError Buffers) :
    (ofDecoding result).unprepared = ofDecoding result := by
  cases result <;> rfl

theorem isValid_of_unprepared {c : Collection} {result : Except DecodeError Buffers}
    (h : c.unprepared = ofDecoding result) : c.buffers.isValid = c.valid := by
  show c.unprepared.buffers.isValid = c.unprepared.valid
  rw [h, isValid_ofDecoding]

/-! ## writing from a cache -/

/-- the entry after its payload has been asked for: prepared, unless it is not to be written -/
def afterWrite (entry : CacheEntry) : CacheEntry :=
  if !entry.collection.valid && entry.origin = .decoded then entry
  else { entry with collection := entry.collection.prepareForWrite }

theorem origin_afterWrite (entry : CacheEntry) : (afterWrite entry).origin = entry.origin := by
  rw [afterWrite]
  split <;> rfl

theorem get?_buffersForWrite (cache : Cache) (name other : String) :
    (cache.buffersForWrite name).2.get? other
      = if other = name then (cache.get? name).map afterWrite else cache.get? other := by
  rw [buffersForWrite]
  by_cases hname : other = name
  · subst hname
    rw [if_pos rfl]
    cases hget : cache.get? other with
    | none => exact hget
    | some entry =>
      show (if _ then _ else _ : Option Buffers × Cache).2.get? other = some (afterWrite entry)
      rw [afterWrite]
      split
      · exact hget
      · exact NameMap.get?_insert_self _ _ _
  · rw [if_neg hname]
    cases hget : cache.get? name with
    | none => rfl
    | some entry =>
      show (if _ then _ else _ : Option Buffers × Cache).2.get? other = _
      split
      · rfl
      · exact NameMap.get?_insert_of_ne _ _ hname

theorem get?_dropDecoded (cache : Cache) (name : String) :
    cache.dropDecoded.get? name = (cache.get? name).filter fun entry => entry.origin = .runtime :=
  NameMap.get?_filter _ cache name

end Cache

namespace Event

/-- the collection that was put in under a name and is held now -/
def runtime? (e : Event) (name : String) : Option Collection :=
  match e.cache.get? name with
  | some ⟨c, .runtime⟩ => some c
  | _ => none

/-- what raw data, if there are any, give for a name -/
def decodedFrom? (raw : Option RawData) (name : String) : Option Collection :=
  raw.bind fun raw => raw.decoded? name

/-- An event that was last given the raw data `raw`.  Whatever it marks as decoded was decoded from
these data, and once they are spent nothing of them is left to be decoded. -/
structure Follows (e : Event) (raw : Option RawData) : Prop where
  given : e.hasRawData = raw.isSome
  held : ∀ r, e.raw? = some r → raw = some r
  spent : e.isMaterialized = true → e.kind = .eager
  decoded : ∀ name c, e.cache.get? name = some ⟨c, .decoded⟩ →
    decodedFrom? raw name = some c.unprepared
  complete : e.isMaterialized = true → ∀ name, e.cache.get? name = none →
    decodedFrom? raw name = none

/-- the payload that is written for a name, if there is any -/
def offer? (e : Event) (raw : Option RawData) (name : String) : Option Buffers :=
  match e.runtime? name with
  | some c => some c.prepareForWrite.buffers
  | none => raw.bind fun raw => raw.readable? name

/-! ## entries of the cache -/

theorem runtime?_eq_some_iff {e : Event} {name : String} {c : Collection} :
    e.runtime? name = some c ↔ e.cache.get? name = some ⟨c, .runtime⟩ := by
  rw [runtime?]
  rcases hget : e.cache.get? name with _ | ⟨d, origin⟩
  · simp
  · cases origin <;> simp

theorem runtime?_eq_none_of_get? {e : Event} {name : String} (h : e.cache.get? name = none) :
    e.runtime? name = none := by
  rw [runtime?, h]

theorem runtime?_eq_none_of_decoded {e : Event} {name : String} {c : Collection}
    (h : e.cache.get? name = some ⟨c, .decoded⟩) : e.runtime? name = none := by
  rw [runtime?, h]

theorem get?_cases (e : Event) (name : String) :
    e.cache.get? name = none ∨ (∃ c, e.cache.get? name = some ⟨c, .runtime⟩)
      ∨ ∃ c, e.cache.get? name = some ⟨c, .decoded⟩ := by
  rcases e.cache.get? name with _ | ⟨c, origin⟩
  · exact .inl rfl
  · cases origin with
    | decoded => exact .inr (.inr ⟨c, rfl⟩)
    | runtime => exact .inr (.inl ⟨c, rfl⟩)

theorem runtime?_congr {e e' : Event} {name : String}
    (h : e'.cache.get? name = e.cache.get? name) : e'.runtime? name = e.runtime? name := by
  rw [runtime?, runtime?, h]

theorem offer?_congr {e e' : Event} (raw : Option RawData) {name : String}
    (h : e'.runtime? name = e.runtime? name) : e'.offer? raw name = e.offer? raw name := by
  rw [offer?, offer?, h]

/-! ## the raw data of an event -/

namespace Follows

variable {e : Event} {raw : Option RawData}

theorem raw?_eq (h : e.Follows raw) (hspent : e.isMaterialized = false) : e.raw? = raw := by
  have hgiven := h.given
  have hheld := h.held
  rw [isMaterialized] at hspent
  rw [hasRawData] at hgiven
  rw [raw?] at hheld ⊢
  cases hsupply : e.supply with
  | none =>
    rw [hsupply] at hgiven
    cases raw with
    | none => rfl
    | some r => cases hgiven
  | held r =>
    rw [hsupply] at hheld
    exact (hheld r rfl).symm
  | spent =>
    rw [hsupply] at hspent
    cases hspent

theorem decodedFrom?_of_get? (h : e.Follows raw) {name : String}
    (hget : e.cache.get? name = none) :
    decodedFrom? raw name
      = (e.raw?.bind fun raw => raw.provision? name).map fun p => Cache.ofDecoding p.decode := by
  cases hspent : e.isMaterialized with
  | true =>
    rw [h.complete hspent name hget]
    rw [isMaterialized] at hspent
    rw [raw?]
    cases hsupply : e.supply with
    | none => rfl
    | held r => rw [hsupply] at hspent; cases hspent
    | spent => rfl
  | false =>
    rw [h.raw?_eq hspent, decodedFrom?]
    cases raw with
    | none => rfl
    | some r =>
      show r.decoded? name = (r.provision? name).map _
      rw [RawData.decoded?, RawData.resolve?, Option.map_map]
      rfl

end Follows

theorem readable?_eq_decodedFrom? (raw : Option RawData) (name : String) :
    (raw.bind fun raw => raw.readable? name)
      = (decodedFrom? raw name).bind fun c => if c.valid then some c.buffers else none := by
  cases raw with
  | none => rfl
  | some r => exact r.readable?_eq name

/-! ## writing -/

theorem writeOne_event (e : Event) (name : String) :
    (e.writeOne name).event = { e with cache := (Cache.buffersForWrite e.cache name).2 } := by
  rw [writeOne]
  split
  · rfl
  · rename_i hcontains
    have hget : e.cache.get? name = none :=
      NameMap.contains_eq_false_iff.mp (Bool.not_eq_true _ ▸ hcontains)
    have hcache : (Cache.buffersForWrite e.cache name).2 = e.cache := by
      rw [Cache.buffersForWrite, hget]
    rw [hcache]
    split <;> rfl

theorem get?_writeOne (e : Event) (name other : String) :
    (e.writeOne name).event.cache.get? other
      = if other = name then (e.cache.get? name).map Cache.afterWrite else e.cache.get? other := by
  rw [writeOne_event]
  exact Cache.get?_buffersForWrite e.cache name other

theorem runtime?_writeOne (e : Event) (name other : String) :
    (e.writeOne name).event.runtime? other
      = if other = name then (e.runtime? other).map Collection.prepareForWrite
        else e.runtime? other := by
  by_cases hname : other = name
  · subst hname
    rw [if_pos rfl, runtime?, get?_writeOne, if_pos rfl, runtime?]
    rcases e.cache.get? other with _ | ⟨c, origin⟩
    · rfl
    · cases origin with
      | runtime => simp [Cache.afterWrite]
      | decoded => cases hvalid : c.valid <;> simp [Cache.afterWrite, hvalid]
  · rw [if_neg hname]
    refine runtime?_congr ?_
    rw [get?_writeOne, if_neg hname]

theorem offer?_writeOne (e : Event) (raw : Option RawData) (name other : String) :
    (e.writeOne name).event.offer? raw other = e.offer? raw other := by
  rw [offer?, offer?, runtime?_writeOne]
  split
  · rename_i hc
    by_cases hname : other = name
    · subst hname
      rw [if_pos rfl] at hc
      obtain ⟨c, hruntime, rfl⟩ := Option.map_eq_some_iff.mp hc
      rw [hruntime]
      exact congrArg some (congrArg Collection.buffers c.prepareForWrite_prepareForWrite)
    · rw [if_neg hname] at hc
      rw [hc]
  · rename_i hnone
    have hruntime : e.runtime? other = none := by
      by_cases hname : other = name
      · rw [if_pos hname] at hnone
        exact Option.map_eq_none_iff.mp hnone
      · rwa [if_neg hname] at hnone
    rw [hruntime]

namespace Follows

variable {e : Event} {raw : Option RawData}

theorem writeOne (h : e.Follows raw) (name : String) : (e.writeOne name).event.Follows raw := by
  have hget := e.get?_writeOne name
  rw [writeOne_event] at hget ⊢
  refine ⟨h.given, h.held, h.spent, fun other c hc => ?_, fun hspent other hnone => ?_⟩
  · rw [hget] at hc
    by_cases hname : other = name
    · subst hname
      rw [if_pos rfl] at hc
      obtain ⟨⟨d, origin⟩, hold, hafter⟩ := Option.map_eq_some_iff.mp hc
      have horigin : origin = .decoded := by
        have := Cache.origin_afterWrite ⟨d, origin⟩
        rw [hafter] at this
        exact this.symm
      subst horigin
      have hd := h.decoded other d hold
      rw [hd]
      rw [Cache.afterWrite] at hafter
      cases hvalid : d.valid with
      | false => simp [hvalid] at hafter; rw [hafter]
      | true =>
        simp [hvalid] at hafter
        obtain ⟨r, -, hraw⟩ := Option.bind_eq_some_iff.mp hd
        obtain ⟨result, -, hresult⟩ := Option.map_eq_some_iff.mp hraw
        have hbuffers : d.buffers.isValid = true := by
          rw [Cache.isValid_of_unprepared hresult.symm, hvalid]
        rw [← hafter, Collection.unprepared_prepareForWrite hbuffers]
    · rw [if_neg hname] at hc
      exact h.decoded other c hc
  · rw [hget] at hnone
    by_cases hname : other = name
    · subst hname
      rw [if_pos rfl] at hnone
      exact h.complete hspent other (Option.map_eq_none_iff.mp hnone)
    · rw [if_neg hname] at hnone
      exact h.complete hspent other hnone

theorem writeOne_value (h : e.Follows raw) (name : String) :
    (e.writeOne name).value = e.offer? raw name := by
  rw [Event.writeOne, offer?]
  rcases e.get?_cases name with hget | ⟨c, hget⟩ | ⟨c, hget⟩
  · have hcontains : e.contains name = false := NameMap.contains_eq_false_iff.mpr hget
    rw [hcontains, runtime?_eq_none_of_get? hget, readable?_eq_decodedFrom?,
      h.decodedFrom?_of_get? hget]
    cases e.raw?.bind fun raw => raw.provision? name with
    | none => rfl
    | some p =>
      simp only [Option.map_some, Option.bind_some]
      cases p.decode <;> rfl
  · have hcontains : e.contains name = true := NameMap.contains_eq_true_iff.mpr ⟨_, hget⟩
    rw [hcontains, runtime?_eq_some_iff.mpr hget]
    show (Cache.buffersForWrite e.cache name).1 = _
    rw [Cache.buffersForWrite, hget]
    simp
  · have hcontains : e.contains name = true := NameMap.contains_eq_true_iff.mpr ⟨_, hget⟩
    have hc := h.decoded name c hget
    rw [hcontains, runtime?_eq_none_of_decoded hget, readable?_eq_decodedFrom?, hc]
    show (Cache.buffersForWrite e.cache name).1 = if c.valid then some c.buffers else none
    rw [Cache.buffersForWrite, hget]
    obtain ⟨r, -, hraw⟩ := Option.bind_eq_some_iff.mp hc
    obtain ⟨result, -, hresult⟩ := Option.map_eq_some_iff.mp hraw
    have hvalid := Cache.isValid_of_unprepared hresult.symm
    cases hv : c.valid with
    | false => simp [hv]
    | true => simp [hv, Collection.buffers_prepareForWrite_of_isValid (hvalid.trans hv)]

end Follows

end Event

end EventMerge
