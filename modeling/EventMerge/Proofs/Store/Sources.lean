import EventMerge.Proofs.Event.Decoding
import EventMerge.Proofs.Store.Registering

/-!
# The sources of a store

However sources and runtime collections are registered, the identity table lists the sources in the
order of their readers, each under its position, and the runtime collections under an id of their own
that no reader has.  Hence a name is decoded from the first reader that has it.

* `Registration`, `Store.registerAll`  registering one after the other;
* `Store.registerOne_error`      a registration that is refused changes nothing;
* `Store.Lists`                  the readers of a store and the sources of its table agree;
* `Store.lists_registerAll`      they do after any registrations;
* `Feed.handle?`, `Feed.decodingAt?`  what a feed gives for its `k`-th event;
* `Store.Lists.resolve?_eq`      a name is decoded from the first feed that has it.
-/

namespace EventMerge

/-! ## registrations -/

/-- a source or runtime collections to be registered -/
inductive Registration where
  | source (feed : Feed)
  | runtime (names : List String)

namespace Registration

def feed? : Registration → Option Feed
  | source feed => some feed
  | runtime _ => none

end Registration

namespace Store

/-- the answer to a registration and the store afterwards -/
def registerOne (s : Store) : Registration → Except StoreError Unit × Store
  | .source feed => ((s.register feed).1.map fun _ => (), (s.register feed).2.1)
  | .runtime names => s.registerRuntime names

/-- registers one after the other, until one is refused -/
def registerAll : List Registration → Store → Except StoreError Unit × Store
  | [], s => (.ok (), s)
  | registration :: rest, s =>
    match s.registerOne registration with
    | (.ok (), s) => registerAll rest s
    | (.error e, s) => (.error e, s)

theorem registerOne_source {s s' : Store} {feed : Feed}
    (h : s.registerOne (.source feed) = (.ok (), s')) :
    ∃ source calls, s.register feed = (.ok source, s', calls) := by
  rw [registerOne] at h
  rcases hregister : s.register feed with ⟨result, next, calls⟩
  rw [hregister] at h
  cases result with
  | error e => cases h
  | ok source =>
    cases h
    exact ⟨source, calls, rfl⟩

/-- **A registration that is refused leaves the store as it was.** -/
theorem registerOne_error {s s' : Store} {registration : Registration} {e : StoreError}
    (h : s.registerOne registration = (.error e, s')) : s' = s := by
  cases registration with
  | source feed =>
    rw [registerOne] at h
    rcases hregister : s.register feed with ⟨result, next, calls⟩
    rw [hregister] at h
    cases result with
    | error e =>
      cases h
      exact register_error hregister
    | ok source => cases h
  | runtime names => exact registerRuntime_error h

end Store

/-! ## the ids of readers -/

namespace SourceId

theorem ofPosition_inj {m n : Nat} {source : SourceId} (hm : ofPosition m = .ok source)
    (hn : ofPosition n = .ok source) : m = n := by
  obtain ⟨hless, rfl⟩ := ofPosition_eq_ok_iff.mp hm
  obtain ⟨hless', hsame⟩ := ofPosition_eq_ok_iff.mp hn
  have hvalues := congrArg (fun source => source.value.toInt) hsame
  dsimp only at hvalues
  rw [Int32.toInt_ofNat_of_lt hless, Int32.toInt_ofNat_of_lt hless'] at hvalues
  exact Int.ofNat_inj.mp hvalues

theorem ne_runtime_of_ofPosition {n : Nat} {source : SourceId} (h : ofPosition n = .ok source) :
    source ≠ runtime := by
  obtain ⟨hless, rfl⟩ := ofPosition_eq_ok_iff.mp h
  intro hsame
  have hvalues := congrArg (fun source => source.value.toInt) hsame
  dsimp only at hvalues
  rw [Int32.toInt_ofNat_of_lt hless] at hvalues
  have hruntime : runtime.value.toInt = -1 := rfl
  omega

end SourceId

namespace IdentityTable

/-- the sources that are read, in registration order -/
def readSources (t : IdentityTable) : List (SourceId × SourceEntries) :=
  t.sources.filter fun entry => entry.1 ≠ .runtime

theorem filter_mergeInto_runtime (entries : SourceEntries)
    (sources : List (SourceId × SourceEntries)) :
    (mergeInto .runtime entries sources).filter (fun entry => entry.1 ≠ .runtime)
      = sources.filter fun entry => entry.1 ≠ .runtime := by
  induction sources with
  | nil => rfl
  | cons first rest ih =>
    obtain ⟨id, old⟩ := first
    rw [mergeInto]
    split
    · rename_i hid
      simp [hid]
    · rename_i hid
      simpa [hid] using ih

theorem mergeInto_of_new {source : SourceId} (entries : SourceEntries)
    {sources : List (SourceId × SourceEntries)} (h : ∀ entry ∈ sources, entry.1 ≠ source) :
    mergeInto source entries sources = sources ++ [(source, entries)] := by
  induction sources with
  | nil => rfl
  | cons first rest ih =>
    obtain ⟨id, old⟩ := first
    rw [mergeInto, if_neg (h (id, old) List.mem_cons_self),
      ih fun entry hentry => h entry (List.mem_cons_of_mem _ hentry)]
    rfl

theorem readSources_merge_runtime (t : IdentityTable) (entries : SourceEntries) :
    (t.merge .runtime entries).readSources = t.readSources :=
  filter_mergeInto_runtime entries t.sources

theorem readSources_merge_new {t : IdentityTable} {source : SourceId} (entries : SourceEntries)
    (hsource : source ≠ .runtime) (h : ∀ entry ∈ t.readSources, entry.1 ≠ source) :
    (t.merge source entries).readSources = t.readSources ++ [(source, entries)] := by
  have hnew : ∀ entry ∈ t.sources, entry.1 ≠ source := by
    intro entry hentry hsame
    have hread : entry ∈ t.readSources :=
      List.mem_filter.mpr ⟨hentry, decide_eq_true (hsame ▸ hsource)⟩
    exact h entry hread hsame
  rw [readSources, merge, mergeInto_of_new entries hnew, List.filter_append]
  simp [readSources, hsource]

end IdentityTable

/-! ## readers and sources -/

namespace Store

theorem readSources_registerRuntime {s s' : Store} {names : List String}
    (h : s.registerRuntime names = (.ok (), s')) :
    s'.table.readSources = s.table.readSources := by
  obtain ⟨added, -, ⟨-, rfl⟩ | ⟨table, collisions, hinsert, rfl⟩⟩ := registerRuntime_inv h
  · rfl
  · rw [IdentityTable.insert_ok hinsert]
    exact s.table.readSources_merge_runtime _

/-- The readers of a store are those of certain feeds, each with the decoder of its feed and under the
id of its position, and the identity table lists them in the same order. -/
structure Lists (s : Store) (feeds : List Feed) : Prop where
  feeds : s.readers.map Registered.feed = feeds
  decoders : ∀ r ∈ s.readers, r.decoder = r.feed.decoder
  distinct : (s.readers.map Registered.source).Nodup
  numbered : ∀ r ∈ s.readers, ∃ i < s.readers.length, SourceId.ofPosition i = .ok r.source
  sources : s.table.readSources = s.readers.map fun r => (r.source, r.feed.entries)
  open_ : s.exhausted = false

theorem lists_new (config : StoreConfig) : (new config).Lists [] :=
  ⟨rfl, fun _ => (nomatch ·), List.nodup_nil, fun _ => (nomatch ·), rfl, rfl⟩

theorem Lists.register {s s' : Store} {feeds : List Feed} {feed : Feed} {source : SourceId}
    {calls : List Call} (h : s.Lists feeds) (hs : s.register feed = (.ok source, s', calls)) :
    s'.Lists (feeds ++ [feed]) := by
  obtain ⟨hreaders, hopen, -, -, htable, hposition⟩ := register_ok hs
  have hnew : ∀ r ∈ s.readers, r.source ≠ source := by
    intro r hr hsame
    obtain ⟨i, hi, hsource⟩ := h.numbered r hr
    rw [hsame] at hsource
    exact absurd (SourceId.ofPosition_inj hsource hposition) (Nat.ne_of_lt hi)
  exact {
    feeds := by rw [hreaders, List.map_append, h.feeds]; rfl
    decoders := by
      rw [hreaders]
      intro r hr
      rcases List.mem_append.mp hr with hr | hr
      · exact h.decoders r hr
      · rw [List.mem_singleton.mp hr]
    distinct := by
      rw [hreaders, List.map_append]
      refine List.nodup_append.mpr ⟨h.distinct, List.pairwise_singleton _ _, ?_⟩
      intro a ha b hb
      obtain ⟨r, hr, rfl⟩ := List.mem_map.mp ha
      rw [List.map_singleton, List.mem_singleton] at hb
      rw [hb]
      exact hnew r hr
    numbered := by
      rw [hreaders, List.length_append, List.length_singleton]
      intro r hr
      rcases List.mem_append.mp hr with hr | hr
      · obtain ⟨i, hi, hsource⟩ := h.numbered r hr
        exact ⟨i, Nat.lt_succ_of_lt hi, hsource⟩
      · rw [List.mem_singleton] at hr
        rw [hr]
        exact ⟨s.readers.length, Nat.lt_succ_self _, hposition⟩
    sources := by
      have hother : ∀ entry ∈ s.table.readSources, entry.1 ≠ source := by
        rw [h.sources]
        intro entry hentry
        obtain ⟨r, hr, rfl⟩ := List.mem_map.mp hentry
        exact hnew r hr
      rw [htable, IdentityTable.readSources_merge_new feed.entries
        (SourceId.ne_runtime_of_ofPosition hposition) hother, h.sources, hreaders, List.map_append]
      rfl
    open_ := hopen.trans h.open_ }

theorem Lists.registerRuntime {s s' : Store} {feeds : List Feed} {names : List String}
    (h : s.Lists feeds) (hs : s.registerRuntime names = (.ok (), s')) : s'.Lists feeds := by
  obtain ⟨hreaders, hopen, -⟩ := registerRuntime_ok hs
  exact {
    feeds := by rw [hreaders, h.feeds]
    decoders := by rw [hreaders]; exact h.decoders
    distinct := by rw [hreaders]; exact h.distinct
    numbered := by rw [hreaders]; exact h.numbered
    sources := by rw [readSources_registerRuntime hs, h.sources, hreaders]
    open_ := hopen.trans h.open_ }

theorem Lists.registerAll {registrations : List Registration} {s s' : Store} {feeds : List Feed}
    (h : s.Lists feeds) (hs : Store.registerAll registrations s = (.ok (), s')) :
    s'.Lists (feeds ++ registrations.filterMap Registration.feed?) := by
  induction registrations generalizing s feeds with
  | nil =>
    cases hs
    rwa [List.filterMap_nil, List.append_nil]
  | cons registration rest ih =>
    rw [Store.registerAll] at hs
    split at hs
    · rename_i s₁ hfirst
      cases registration with
      | source feed =>
        obtain ⟨source, calls, hregister⟩ := registerOne_source hfirst
        have hrest := ih (h.register hregister) hs
        rwa [List.append_assoc] at hrest
      | runtime names => exact ih (h.registerRuntime hfirst) hs
    · cases hs

/-- **After any registrations the table lists the readers in their order.** -/
theorem lists_registerAll {config : StoreConfig} {registrations : List Registration} {s : Store}
    (h : registerAll registrations (new config) = (.ok (), s)) :
    s.Lists (registrations.filterMap Registration.feed?) := (lists_new config).registerAll h

end Store

/-! ## handles -/

namespace Pull

def handle? : Pull → Option Handle
  | event handle => some handle
  | fault _ => none

end Pull

namespace Feed

/-- the feed never reports an error -/
def Steady (feed : Feed) : Prop := ∀ pull ∈ feed.script, pull.handle?.isSome = true

/-- the handle of the `k`-th event -/
def handle? (feed : Feed) (k : Nat) : Option Handle := feed.script[k]?.bind Pull.handle?

/-- what the decoder of the first feed with a name finds for it in that feed's handle of the `k`-th
event, at the index that the feed has registered -/
def decodingAt? (feeds : List Feed) (k : Nat) (name : String) :
    Option (Except DecodeError Buffers) :=
  (feeds.find? fun feed => feed.entries.contains name).bind fun feed =>
    (feed.entries.get? name).bind fun index =>
      (feed.handle? k).map fun handle => feed.decoder handle index

end Feed

namespace Registered

/-- what a reader supplies for the `k`-th event -/
def supplierAt? (k : Nat) (r : Registered) : Option Supplier :=
  (r.feed.handle? k).map fun handle => ⟨r.source, r.feed.label, handle, r.decoder⟩

theorem source_of_supplierAt? {k : Nat} {r : Registered} {supplier : Supplier}
    (h : r.supplierAt? k = some supplier) : supplier.source = r.source := by
  obtain ⟨handle, -, rfl⟩ := Option.map_eq_some_iff.mp h
  rfl

end Registered

namespace Store

/-- the raw data of the `k`-th event -/
def rawAt (s : Store) (k : Nat) : RawData := ⟨s.table, s.readers.filterMap (Registered.supplierAt? k)⟩

theorem find?_suppliers {readers : List Registered} {k : Nat}
    (hdistinct : (readers.map Registered.source).Nodup) {r : Registered} (hr : r ∈ readers) :
    (readers.filterMap (Registered.supplierAt? k)).find? (fun s => s.source = r.source)
      = r.supplierAt? k := by
  induction readers with
  | nil => cases hr
  | cons first rest ih =>
    obtain ⟨hfirst, hrest⟩ := List.nodup_cons.mp hdistinct
    rcases List.mem_cons.mp hr with rfl | hr
    · cases hsupplier : r.supplierAt? k with
      | none =>
        rw [List.filterMap_cons_none hsupplier, List.find?_eq_none]
        intro supplier hmem
        obtain ⟨other, hother, hgives⟩ := List.mem_filterMap.mp hmem
        have hsource := Registered.source_of_supplierAt? hgives
        simp only [decide_eq_true_eq]
        intro hsame
        exact hfirst (hsame ▸ hsource ▸ List.mem_map_of_mem hother)
      | some supplier =>
        have hsource := Registered.source_of_supplierAt? hsupplier
        rw [List.filterMap_cons_some hsupplier, List.find?_cons_of_pos]
        exact decide_eq_true hsource
    · have hne : first.source ≠ r.source := fun hsame =>
        hfirst (hsame ▸ List.mem_map_of_mem hr)
      cases hsupplier : first.supplierAt? k with
      | none => rw [List.filterMap_cons_none hsupplier, ih hrest hr]
      | some supplier =>
        have hsource := Registered.source_of_supplierAt? hsupplier
        rw [List.filterMap_cons_some hsupplier, List.find?_cons_of_neg, ih hrest hr]
        simp only [decide_eq_true_eq, hsource]
        exact hne

/-- only sources that are read supply anything -/
theorem provision?_eq_readSources {raw : RawData} (h : raw.supplier? .runtime = none)
    (name : String) :
    raw.provision? name = raw.table.readSources.findSome? (raw.provisionIn? name) := by
  rw [RawData.provision?, IdentityTable.readSources]
  induction raw.table.sources with
  | nil => rfl
  | cons entry rest ih =>
    rw [List.findSome?_cons, ih]
    by_cases hid : entry.1 = .runtime
    · have hnone : raw.provisionIn? name entry = none := by
        rw [RawData.provisionIn?, hid, h]
        cases entry.2.get? name <;> rfl
      rw [List.filter_cons_of_neg (by simp [hid]), hnone]
    · rw [List.filter_cons_of_pos (by simp [hid]), List.findSome?_cons]

theorem resolve_of_suppliers {raw : RawData} {k : Nat} {readers : List Registered}
    (hdecoders : ∀ r ∈ readers, r.decoder = r.feed.decoder)
    (hsupplier : ∀ r ∈ readers, raw.supplier? r.source = r.supplierAt? k)
    (hgiven : ∀ r ∈ readers, (r.feed.handle? k).isSome = true) (name : String) :
    ((readers.map fun r => (r.source, r.feed.entries)).findSome? (raw.provisionIn? name)).map
        Provision.decode
      = Feed.decodingAt? (readers.map Registered.feed) k name := by
  induction readers with
  | nil => rfl
  | cons r rest ih =>
    have hrest := ih (fun r' hr' => hdecoders r' (List.mem_cons_of_mem _ hr'))
      (fun r' hr' => hsupplier r' (List.mem_cons_of_mem _ hr'))
      fun r' hr' => hgiven r' (List.mem_cons_of_mem _ hr')
    obtain ⟨handle, hhandle⟩ := Option.isSome_iff_exists.mp (hgiven r List.mem_cons_self)
    rw [List.map_cons, List.map_cons, List.findSome?_cons, RawData.provisionIn?,
      hsupplier r List.mem_cons_self, Registered.supplierAt?, hhandle, Feed.decodingAt?,
      hdecoders r List.mem_cons_self]
    cases hindex : r.feed.entries.get? name with
    | none =>
      have hlacks : r.feed.entries.contains name = false := NameMap.contains_eq_false_iff.mpr hindex
      rw [List.find?_cons_of_neg (by simp [hlacks])]
      exact hrest
    | some index =>
      have hhas : r.feed.entries.contains name = true :=
        NameMap.contains_eq_true_iff.mpr ⟨index, hindex⟩
      rw [List.find?_cons_of_pos (by exact hhas), Option.bind_some, hindex, Option.bind_some, hhandle]
      rfl

/-- **A name is decoded from the first feed that has it**, wherever runtime collections were
registered. -/
theorem Lists.resolve?_eq {s : Store} {feeds : List Feed} (h : s.Lists feeds) {k : Nat}
    (hgiven : ∀ feed ∈ feeds, (feed.handle? k).isSome = true) (name : String) :
    (s.rawAt k).resolve? name = Feed.decodingAt? feeds k name := by
  have hsupplier : ∀ r ∈ s.readers, (s.rawAt k).supplier? r.source = r.supplierAt? k :=
    fun r hr => find?_suppliers h.distinct hr
  have hruntime : (s.rawAt k).supplier? .runtime = none := by
    rw [RawData.supplier?, List.find?_eq_none]
    intro supplier hmem
    obtain ⟨r, hr, hgives⟩ := List.mem_filterMap.mp hmem
    obtain ⟨i, -, hposition⟩ := h.numbered r hr
    simp only [decide_eq_true_eq, Registered.source_of_supplierAt? hgives]
    exact SourceId.ne_runtime_of_ofPosition hposition
  have hhandles : ∀ r ∈ s.readers, (r.feed.handle? k).isSome = true := fun r hr =>
    hgiven r.feed (h.feeds ▸ List.mem_map_of_mem hr)
  have htable : (s.rawAt k).table.readSources = s.readers.map fun r => (r.source, r.feed.entries) :=
    h.sources
  rw [RawData.resolve?, provision?_eq_readSources hruntime, htable,
    resolve_of_suppliers h.decoders hsupplier hhandles, h.feeds]

end Store

end EventMerge
