import EventMerge.Proofs.Event.Reading
import EventMerge.Proofs.Store.Pulling

/-!
# Reading one feed again

A feed that is the only one of a new store gives, one by one, the events of its script, and an event
shows for a name of the feed what the feed decodes there.

* `Feed.get?_indexed`, `Feed.keys_indexed` the numbers of a feed's names, and their list;
* `Store.drain`       the events that a store still gives;
* `Store.reread`      the events of a feed, read through a store of its own;
* `Store.reread_ok`   they are the events of the feed's script;
* `Event.read?`       what an event shows for a name, the mark of writing apart;
* `Event.read?_alone` what such an event shows.
-/

namespace EventMerge

namespace Feed

theorem lookup_zipIdx (names : List String) (first : Nat) (name : String) :
    NameMap.lookup name ((names.zipIdx first).map fun entry =>
        (entry.1, (⟨UInt32.ofNat entry.2⟩ : LocalIndex)))
      = if name ∈ names then some ⟨UInt32.ofNat (first + names.idxOf name)⟩ else none := by
  induction names generalizing first with
  | nil => rfl
  | cons other rest ih =>
    rw [List.zipIdx_cons, List.map_cons, NameMap.lookup_cons, ih]
    by_cases hname : name = other
    · subst hname
      simp
    · have hne : (other == name) = false := beq_eq_false_iff_ne.mpr (Ne.symm hname)
      rw [if_neg hname, List.idxOf_cons, hne]
      simp only [List.mem_cons, hname, false_or, cond_false]
      rw [Nat.add_right_comm first 1, Nat.add_assoc]

/-- **Names without repetition are numbered in their order.** -/
theorem get?_indexed {names : List String} (h : names.Nodup) (name : String) :
    (indexed names).get? name
      = if name ∈ names then some ⟨UInt32.ofNat (names.idxOf name)⟩ else none := by
  have hkeys : ((names.zipIdx.map fun entry =>
      (entry.1, (⟨UInt32.ofNat entry.2⟩ : LocalIndex))).map Prod.fst) = names := by
    rw [List.map_map]
    exact List.zipIdx_map_fst 0 names
  rw [indexed, NameMap.get?_ofList (by rw [hkeys]; exact h), lookup_zipIdx, Nat.zero_add]

theorem mem_keys_indexed {names : List String} {name : String} :
    name ∈ (indexed names).keys ↔ name ∈ names := by
  rw [indexed, NameMap.mem_keys_ofList, List.map_map]
  show name ∈ names.zipIdx.map Prod.fst ↔ _
  rw [List.zipIdx_map_fst]

/-- names that are sorted are listed as they are -/
theorem keys_indexed {names : List String} (h : names.Pairwise (· < ·)) :
    (indexed names).keys = names :=
  NameMap.eq_of_sorted (NameMap.sorted_keys _) h fun _ => mem_keys_indexed

end Feed

namespace Store

/-- the events that a store still gives, each made from the one before it if that is wanted -/
def drain (factory : Event.Factory) :
    (fuel : Nat) → (slot : Option Event) → Store → Except StoreError (List Event)
  | 0, _, _ => .ok []
  | fuel + 1, slot, s =>
    match s.next factory slot with
    | (.error e, _, _) => .error e
    | (.ok none, _, _) => .ok []
    | (.ok (some event), s, _) => (drain factory fuel (some event) s).map (event :: ·)

/-- the events of a feed, read through a store of its own -/
def reread (config : StoreConfig) (feed : Feed) : Except StoreError (List Event) :=
  match (new config).register feed with
  | (.error e, _) => .error e
  | (.ok _, s, _) => s.drain config.factory (feed.script.length + 1) none

/-- the raw data of an event that a single feed gives -/
def rawOf (label : String) (entries : SourceEntries) (decoder : Decoder) (handle : Handle) :
    RawData :=
  ⟨⟨[(⟨0⟩, entries)]⟩, [⟨⟨0⟩, label, handle, decoder⟩]⟩

theorem resolve?_rawOf (label : String) (entries : SourceEntries) (decoder : Decoder)
    (handle : Handle) (name : String) :
    (rawOf label entries decoder handle).resolve? name = (entries.get? name).map (decoder handle) := by
  rw [RawData.resolve?, RawData.provision?]
  show (List.findSome? _ [((⟨0⟩ : SourceId), entries)]).map _ = _
  rw [List.findSome?_cons, RawData.provisionIn?]
  cases entries.get? name <;> rfl

theorem register_new (config : StoreConfig) (feed : Feed) :
    (new config).register feed
      = (.ok ⟨0⟩, { config, readers := [⟨⟨0⟩, feed, feed.decoder⟩], table := ⟨[(⟨0⟩, feed.entries)]⟩ },
          [.idTable feed.label, .decoder feed.label]) := by
  have hsource : SourceId.ofPosition (new config).readers.length = .ok ⟨0⟩ := rfl
  have hcollisions : (new config).table.collisions ⟨0⟩ feed.entries = [] := by
    rw [IdentityTable.collisions, List.filterMap_eq_nil_iff]
    exact fun _ _ => rfl
  have hinsert : (new config).table.insert ⟨0⟩ feed.entries (new config).config.collisionPolicy
      = (.ok [], ⟨[(⟨0⟩, feed.entries)]⟩) := by
    unfold IdentityTable.insert
    dsimp only
    rw [hcollisions]
    cases (new config).config.collisionPolicy <;> rfl
  rw [register, hsource]
  dsimp only
  rw [hinsert]
  rfl

theorem drain_ok {factory : Event.Factory} {source : SourceId} {label : String}
    {entries : SourceEntries} {decoder : Decoder} {handles : List Handle} {fuel : Nat}
    {slot : Option Event} {s : Store}
    (hreaders : s.readers = [⟨source, ⟨label, entries, decoder, handles.map .event⟩, decoder⟩])
    (hopen : s.exhausted = false) (hfuel : handles.length < fuel)
    (hslot : ∀ old ∈ slot, old.putPolicy = factory.putPolicy) :
    s.drain factory fuel slot = .ok (handles.map fun handle =>
      (Event.fresh factory.kind factory.putPolicy).setRaw
        ⟨s.table, [⟨source, label, handle, decoder⟩]⟩) := by
  induction handles generalizing s fuel slot with
  | nil =>
    obtain ⟨fuel, rfl⟩ := Nat.exists_eq_succ_of_ne_zero (Nat.ne_of_gt hfuel)
    rw [drain, next, hreaders, hopen]
    rfl
  | cons handle rest ih =>
    obtain ⟨fuel, rfl⟩ := Nat.exists_eq_succ_of_ne_zero (Nat.ne_of_gt (Nat.zero_lt_of_lt hfuel))
    have hmake := Event.make_eq_fresh factory hslot
    obtain ⟨s', hnext, hreaders', hopen', htable'⟩ : ∃ s', s.next factory slot
        = (.ok (some ((Event.fresh factory.kind factory.putPolicy).setRaw
            ⟨s.table, [⟨source, label, handle, decoder⟩]⟩)), s', [.next label])
        ∧ s'.readers = [⟨source, ⟨label, entries, decoder, rest.map .event⟩, decoder⟩]
        ∧ s'.exhausted = false ∧ s'.table = s.table := by
      refine ⟨{
        s with
        readers := [⟨source, ⟨label, entries, decoder, rest.map .event⟩, decoder⟩]
        started := true
        eventsRead := s.eventsRead + 1 }, ?_, rfl, hopen, rfl⟩
      rw [next, hreaders, hopen, hmake]
      rfl
    -- the next event may be made from this one
    have hpolicy : ∀ old ∈ some ((Event.fresh factory.kind factory.putPolicy).setRaw
        ⟨s.table, [⟨source, label, handle, decoder⟩]⟩), old.putPolicy = factory.putPolicy := by
      intro old hold
      cases hold
      rfl
    rw [drain, hnext]
    dsimp only
    rw [ih hreaders' hopen' (Nat.lt_of_succ_lt_succ hfuel) hpolicy, htable']
    rfl

/-- **A feed that is read through a store of its own gives the events of its script.** -/
theorem reread_ok (config : StoreConfig) (label : String) (entries : SourceEntries)
    (decoder : Decoder) (handles : List Handle) :
    reread config ⟨label, entries, decoder, handles.map .event⟩ = .ok (handles.map fun handle =>
      (Event.fresh config.eventKind config.putPolicy).setRaw (rawOf label entries decoder handle)) := by
  rw [reread, register_new]
  dsimp only
  refine drain_ok rfl rfl ?_ (fun _ => nofun)
  rw [List.length_map]
  exact Nat.lt_succ_self _

end Store

/-! ## what the events show -/

namespace Event

/-- what an event shows for a name, the mark of writing apart -/
def read? (e : Event) (name : String) : Except StoreError (Option Collection) :=
  (e.get name).value.map (Option.map Collection.unprepared)

theorem read?_alone (kind : EventKind) (policy : PutPolicy) (label : String)
    (entries : SourceEntries) (decoder : Decoder) (handle : Handle) (name : String) :
    ((fresh kind policy).setRaw (Store.rawOf label entries decoder handle)).read? name
      = .ok ((entries.get? name).map fun index => Cache.ofDecoding (decoder handle index)) := by
  have hfollows := follows_setRaw (fresh kind policy) (Store.rawOf label entries decoder handle)
  obtain ⟨found, hvalue, hfound⟩ := hfollows.get_value rfl name
  have hruntime : ((fresh kind policy).setRaw (Store.rawOf label entries decoder handle)).runtime? name
      = none := (runtime?_setRaw _ _ name).trans (runtime?_fresh kind policy name)
  have hdecoded : (Store.rawOf label entries decoder handle).decoded? name
      = (entries.get? name).map fun index => Cache.ofDecoding (decoder handle index) := by
    rw [RawData.decoded?, Store.resolve?_rawOf, Option.map_map]
    rfl
  have hshown : ((fresh kind policy).setRaw (Store.rawOf label entries decoder handle)).shown?
      (some (Store.rawOf label entries decoder handle)) name
      = (entries.get? name).map fun index => Cache.ofDecoding (decoder handle index) := by
    rw [shown?, hruntime, Option.none_or]
    exact hdecoded
  rw [read?, hvalue]
  show Except.ok (found.map Collection.unprepared) = _
  rw [hfound, hshown, Option.map_map]
  congr 2
  funext index
  exact Cache.unprepared_ofDecoding (decoder handle index)

end Event

end EventMerge
