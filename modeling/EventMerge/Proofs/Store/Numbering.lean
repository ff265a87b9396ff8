import EventMerge.Proofs.IdentityTable.Rejecting
import EventMerge.Proofs.Store.Rereading
import EventMerge.Proofs.Table.Columns

/-!
# The indices of runtime collections

Names of runtime collections are numbered as they come up for the first time in a call that is accepted.
The numbers have no gap, a name keeps its own, and a call that is refused uses none up.

* `SourceEntries.NumberedFrom`   entries that number the names of a list in their order;
* `Store.numberNames_outcome`    names are numbered behind those that are known, if there is room;
* `Store.named`                  the names of runtime collections in calls that are accepted;
* `Store.registerRuntime_numbered`, `Store.registerRuntime_error_iff`  what a registration adds, and
                                 why it is refused;
* `Store.numbered_after`         the runtime collections are numbered after any calls;
* `Store.runtime_indices`        all of this together.
-/

namespace EventMerge

open TableReader (addNames addNames_cons addNames_append distinct
  addName_of_mem addName_of_not_mem nodup_addNames isPrefix_addNames length_lt_addNames)

/-! ## entries that number a list of names -/

namespace SourceEntries

/-- entries that have the names of a list, each once, under the indices from `start` on -/
structure NumberedFrom (start : Nat) (names : List String) (entries : SourceEntries) : Prop where
  nodup : names.Nodup
  room : start + names.length ≤ 0x100000000
  get? : ∀ name, entries.get? name
    = if name ∈ names then some ⟨UInt32.ofNat (start + names.idxOf name)⟩ else none

namespace NumberedFrom

variable {start : Nat} {names more : List String} {entries added : SourceEntries} {name : String}

theorem empty (h : start ≤ 0x100000000) : NumberedFrom start [] .empty :=
  ⟨.nil, h, fun _ => rfl⟩

theorem contains_iff (h : NumberedFrom start names entries) :
    entries.contains name = true ↔ name ∈ names := by
  rw [NameMap.contains, h.get?]
  split <;> simpa

theorem size_eq (h : NumberedFrom start names entries) : entries.size = names.length := by
  have hperm : entries.keys.Perm names :=
    (List.perm_ext_iff_of_nodup (NameMap.nodup_of_sorted entries.sorted_keys) h.nodup).mpr
      fun name => NameMap.contains_iff_mem_keys.symm.trans h.contains_iff
  rw [NameMap.size, ← hperm.length_eq, NameMap.keys, List.length_map]

theorem toNat_get? (h : NumberedFrom start names entries) (hname : name ∈ names) :
    (entries.get? name).map LocalIndex.toNat = some (start + names.idxOf name) := by
  have hplace : names.idxOf name < names.length := List.idxOf_lt_length_of_mem hname
  have hroom := h.room
  rw [h.get?, if_pos hname, Option.map_some, LocalIndex.toNat_ofNat (by omega)]

theorem toNat_get?_eq (h : NumberedFrom 0 names entries) (name : String) :
    (entries.get? name).map LocalIndex.toNat = names.idxOf? name := by
  by_cases hname : name ∈ names
  · rw [h.toNat_get? hname, Nat.zero_add, TableReader.idxOf?_of_mem hname]
  · rw [h.get?, if_neg hname, List.idxOf?_eq_none_iff.mpr hname]
    rfl

theorem insert (h : NumberedFrom start names entries) (hnew : name ∉ names)
    (hroom : start + names.length < 0x100000000) :
    NumberedFrom start (names ++ [name])
      (NameMap.insert entries name ⟨UInt32.ofNat (start + names.length)⟩) := by
  refine ⟨addName_of_not_mem hnew ▸ TableReader.nodup_addName h.nodup name, ?_, fun other => ?_⟩
  · rw [List.length_append, List.length_singleton]
    omega
  · rw [NameMap.get?_insert, h.get?]
    by_cases hother : other = name
    · rw [hother, if_pos rfl, if_pos (by simp), List.idxOf_append_of_notMem hnew,
        List.idxOf_cons_self, Nat.add_zero]
    · rw [if_neg hother]
      by_cases hmem : other ∈ names
      · rw [if_pos hmem, if_pos (List.mem_append_left _ hmem), List.idxOf_append_of_mem hmem]
      · rw [if_neg hmem, if_neg (by simp [hmem, hother])]

/-- entries that go on with the numbers are added to those in front of them -/
theorem union (h : NumberedFrom start names entries)
    (hadded : NumberedFrom (start + names.length) more added) (hnodup : (names ++ more).Nodup) :
    NumberedFrom start (names ++ more) (NameMap.union entries added) := by
  refine ⟨hnodup, ?_, fun name => ?_⟩
  · rw [List.length_append, ← Nat.add_assoc]
    exact hadded.room
  · rw [NameMap.get?_union, h.get?, hadded.get?]
    by_cases hname : name ∈ names
    · have hother : name ∉ more := fun hmem =>
        (List.nodup_append.mp hnodup).2.2 name hname name hmem rfl
      rw [if_pos hname, if_neg hother, if_pos (List.mem_append_left _ hname), Option.none_or,
        List.idxOf_append_of_mem hname]
    · rw [if_neg hname, Option.or_none, List.idxOf_append_of_notMem hname, ← Nat.add_assoc]
      simp only [List.mem_append, hname, false_or]

/-- each index is the one of a single name -/
theorem existsUnique_name (h : NumberedFrom 0 names entries) {place : Nat}
    (hplace : place < entries.size) :
    ∃! name, (entries.get? name).map LocalIndex.toNat = some place := by
  rw [h.size_eq] at hplace
  refine ⟨names[place], ?_, fun name hname => ?_⟩
  · dsimp only
    rw [h.toNat_get? (List.getElem_mem hplace), h.nodup.idxOf_getElem, Nat.zero_add]
  · dsimp only at hname
    obtain ⟨index, hindex, -⟩ := Option.map_eq_some_iff.mp hname
    have hmem : name ∈ names := h.contains_iff.mp (NameMap.contains_eq_true_iff.mpr ⟨index, hindex⟩)
    rw [h.toNat_get? hmem, Nat.zero_add, Option.some.injEq] at hname
    subst hname
    exact (List.getElem_idxOf hplace).symm

end NumberedFrom

end SourceEntries

open SourceEntries (NumberedFrom)

namespace Store

variable {s s' : Store} {base names : List String}

/-! ## numbering -/

/-- **Names are numbered behind those that are known, if there is room for all of them.** -/
theorem numberNames_outcome {known added : SourceEntries} {more : List String}
    (hknown : NumberedFrom 0 base known) (hadded : NumberedFrom base.length more added)
    (hnodup : (base ++ more).Nodup) (names : List String) :
    (∃ added' more', numberNames known names added = .ok added'
        ∧ NumberedFrom base.length more' added' ∧ addNames (base ++ more) names = base ++ more')
      ∨ numberNames known names added = .error (.localIndex 0x100000000)
        ∧ 0x100000000 < (addNames (base ++ more) names).length := by
  induction names generalizing added more with
  | nil => exact .inl ⟨added, more, rfl, hadded, rfl⟩
  | cons name rest ih =>
    have hseen : (known.contains name || added.contains name) = true ↔ name ∈ base ++ more := by
      rw [Bool.or_eq_true, hknown.contains_iff, hadded.contains_iff, List.mem_append]
    rw [numberNames]
    by_cases hname : name ∈ base ++ more
    · rw [if_pos (hseen.mpr hname), addNames_cons, addName_of_mem hname]
      exact ih hadded hnodup
    · -- its index is the number of the names in front of it, which has room or is the first without
      rw [if_neg (mt hseen.mp hname), hknown.size_eq, hadded.size_eq, LocalIndex.ofPosition]
      have hfits := hadded.room
      by_cases hroom : base.length + more.length < 0x100000000
      · have hnew : name ∉ more := fun hmem => hname (List.mem_append_right _ hmem)
        have hnodup' : (base ++ (more ++ [name])).Nodup := by
          rw [← List.append_assoc, ← addName_of_not_mem hname]
          exact TableReader.nodup_addName hnodup name
        rw [if_pos hroom, addNames_cons, addName_of_not_mem hname, List.append_assoc]
        exact ih (hadded.insert hnew hroom) hnodup'
      · have hfull : base.length + more.length = 0x100000000 := by omega
        have hmore := length_lt_addNames hname rest
        rw [List.length_append, hfull] at hmore
        rw [if_neg hroom, hfull]
        exact .inr ⟨rfl, hmore⟩

theorem numberNames_of_known {known added : SourceEntries}
    (h : ∀ name ∈ names, known.contains name = true) : numberNames known names added = .ok added := by
  induction names with
  | nil => rfl
  | cons name rest ih =>
    rw [numberNames, h name List.mem_cons_self, Bool.true_or, if_pos rfl]
    exact ih fun other hother => h other (List.mem_cons_of_mem _ hother)

/-- the same behind the runtime collections of a store -/
theorem numberNames_runtime (h : NumberedFrom 0 base s.runtimeEntries) (names : List String) :
    (∃ added more, numberNames s.runtimeEntries names .empty = .ok added
        ∧ NumberedFrom base.length more added ∧ addNames base names = base ++ more)
      ∨ numberNames s.runtimeEntries names .empty = .error (.localIndex 0x100000000)
        ∧ 0x100000000 < (addNames base names).length := by
  have hempty : NumberedFrom base.length [] .empty :=
    NumberedFrom.empty (Nat.zero_add base.length ▸ h.room)
  have houtcome := numberNames_outcome h hempty ((List.append_nil base).symm ▸ h.nodup) names
  rwa [List.append_nil] at houtcome

/-- what is numbered is what is new among the names -/
theorem contains_numberNames {known added : SourceEntries}
    (h : numberNames known names .empty = .ok added) {name : String} :
    added.contains name = true ↔ name ∈ names ∧ known.contains name = false := by
  constructor
  · intro hname
    exact (numberNames_new h hname).resolve_left nofun
  · rintro ⟨hmem, hnew⟩
    exact ((numberNames_ok h).2 name hmem).resolve_left (by rw [hnew]; exact Bool.false_ne_true)

/-! ## one registration -/

/-- collisions are refused, and one of the names is new to the runtime collections and is one of a
source -/
def Clashes (s : Store) (names : List String) : Prop :=
  s.config.collisionPolicy = .reject ∧ ∃ entry ∈ s.table.sources, entry.1 ≠ .runtime
    ∧ ∃ name ∈ names, s.runtimeEntries.contains name = false ∧ entry.2.contains name = true

theorem clashes_iff {added : SourceEntries}
    (h : numberNames s.runtimeEntries names .empty = .ok added) :
    s.Clashes names ↔ ∃ e, (s.table.insert .runtime added s.config.collisionPolicy).1 = .error e := by
  rw [IdentityTable.insert_error_iff, Clashes]
  simp only [contains_numberNames h, and_assoc]

/-- a registration that is accepted adds the new names behind the others -/
theorem registerRuntime_numbered (h : NumberedFrom 0 base s.runtimeEntries)
    (hs : s.registerRuntime names = (.ok (), s')) :
    NumberedFrom 0 (addNames base names) s'.runtimeEntries := by
  obtain ⟨added, hadded, hs'⟩ := registerRuntime_inv hs
  rcases numberNames_runtime h names with ⟨added', more, hadded', hmore, hnames⟩ | ⟨herror, -⟩
  · rw [hadded] at hadded'
    cases hadded'
    have hnodup : (base ++ more).Nodup := hnames ▸ nodup_addNames h.nodup names
    have hunion := h.union (Nat.zero_add base.length ▸ hmore) hnodup
    rw [hnames]
    rcases hs' with ⟨hempty, rfl⟩ | ⟨table, collisions, hinsert, rfl⟩
    · have hsame : added = .empty := by
        cases added
        cases List.isEmpty_iff.mp hempty
        rfl
      rwa [hsame] at hunion
    · rw [runtimeEntries, IdentityTable.insert_ok hinsert, IdentityTable.entriesOf?_merge_self]
      exact hunion
  · rw [hadded] at herror
    cases herror

/-- **Why runtime collections are refused.** -/
theorem registerRuntime_error_iff (h : NumberedFrom 0 base s.runtimeEntries) (names : List String) :
    (∃ e, (s.registerRuntime names).1 = .error e)
      ↔ s.started = true ∨ 0x100000000 < (addNames base names).length ∨ s.Clashes names := by
  rw [registerRuntime]
  cases hstarted : s.started with
  | true => exact ⟨fun _ => .inl rfl, fun _ => ⟨_, rfl⟩⟩
  | false =>
    rw [if_neg Bool.false_ne_true]
    simp only [Bool.false_eq_true, false_or]
    rcases numberNames_runtime h names with ⟨added, more, hadded, hmore, hnames⟩ | ⟨herror, hmany⟩
    · have hroom : ¬ 0x100000000 < (addNames base names).length := by
        rw [hnames, List.length_append]
        exact Nat.not_lt.mpr hmore.room
      rw [hadded, clashes_iff hadded]
      simp only [hroom, false_or]
      split
      · -- where no name is new, none can be one of a source
        rename_i hempty
        refine ⟨by rintro ⟨e, ⟨⟩⟩, fun hinsert => ?_⟩
        obtain ⟨-, -, -, -, name, hname, -⟩ := IdentityTable.insert_error_iff.mp hinsert
        rw [NameMap.contains, NameMap.get?, List.isEmpty_iff.mp hempty] at hname
        cases hname
      · split
        · rename_i e table hinsert
          rw [hinsert]
          exact ⟨fun _ => ⟨e, rfl⟩, fun _ => ⟨e, rfl⟩⟩
        · rename_i hinsert
          rw [hinsert]
          constructor <;> rintro ⟨e, ⟨⟩⟩
    · rw [herror]
      exact ⟨fun _ => .inl hmany, fun _ => ⟨_, rfl⟩⟩

/-! ## any calls -/

/-- the names of runtime collections that a call registers, if it is accepted -/
def namedBy (s : Store) : StoreCall → List String
  | .register registration =>
    match s.registerOne registration with
    | (.ok (), _) => registration.runtimeNames
    | (.error _, _) => []
  | .next _ _ => []

/-- the names of runtime collections that are registered by calls, in their order -/
def named : List StoreCall → Store → List String
  | [], _ => []
  | call :: rest, s => s.namedBy call ++ named rest (s.perform call).2

theorem runtimeEntries_source {feed : Feed} (hs : s.registerOne (.source feed) = (.ok (), s')) :
    s'.runtimeEntries = s.runtimeEntries := by
  obtain ⟨source, calls, hregister⟩ := registerOne_source hs
  obtain ⟨-, -, -, -, htable, hposition⟩ := register_ok hregister
  rw [runtimeEntries, htable, IdentityTable.entriesOf?_merge_of_ne _
    (SourceId.ne_runtime_of_ofPosition hposition)]
  rfl

theorem numbered_perform (h : NumberedFrom 0 base s.runtimeEntries) (call : StoreCall) :
    NumberedFrom 0 (addNames base (s.namedBy call)) (s.perform call).2.runtimeEntries := by
  cases call with
  | next factory slot =>
    rw [perform, runtimeEntries, (s.next_leaves factory slot).1]
    exact h
  | register registration =>
    rw [perform, namedBy]
    rcases hs : s.registerOne registration with ⟨result, s'⟩
    cases result with
    | error e =>
      rw [registerOne_error hs]
      exact h
    | ok _ =>
      cases registration with
      | source feed => exact (runtimeEntries_source hs).symm ▸ h
      | runtime names => exact registerRuntime_numbered h hs

/-- **After any calls the runtime collections are numbered as they came up.** -/
theorem numbered_after (h : NumberedFrom 0 base s.runtimeEntries) (calls : List StoreCall) :
    NumberedFrom 0 (addNames base (named calls s)) (after calls s).runtimeEntries := by
  induction calls generalizing s base with
  | nil => exact h
  | cons call rest ih =>
    rw [named, addNames_append]
    exact ih (numbered_perform h call)

theorem numbered_new (config : StoreConfig) : NumberedFrom 0 [] (new config).runtimeEntries :=
  NumberedFrom.empty (Nat.zero_le _)

theorem get?_runtimeEntries_after (h : NumberedFrom 0 base s.runtimeEntries) {name : String}
    {index : LocalIndex} (hindex : s.runtimeEntries.get? name = some index) (later : List StoreCall) :
    (after later s).runtimeEntries.get? name = some index := by
  obtain ⟨more, hmore⟩ := isPrefix_addNames base (named later s)
  have hname : name ∈ base := h.contains_iff.mp (NameMap.contains_eq_true_iff.mpr ⟨index, hindex⟩)
  rw [h.get?, if_pos hname] at hindex
  rw [(numbered_after h later).get?, ← hmore, if_pos (List.mem_append_left _ hname),
    List.idxOf_append_of_mem hname, hindex]

/-- a call for names that the runtime collections have changes nothing -/
theorem perform_runtime_of_known (h : ∀ name ∈ names, s.runtimeEntries.contains name = true) :
    (s.perform (.register (.runtime names))).2 = s
      ∧ (s.started = false → (s.perform (.register (.runtime names))).1 = .registered (.ok ())) := by
  cases hstarted : s.started with
  | true =>
    rw [perform_register_of_started hstarted]
    exact ⟨rfl, nofun⟩
  | false =>
    have hsame : s.registerOne (.runtime names) = (.ok (), s) := by
      rw [registerOne, registerRuntime, hstarted, numberNames_of_known h]
      rfl
    rw [perform, hsame]
    exact ⟨rfl, fun _ => rfl⟩

theorem perform_error_iff (s : Store) (registration : Registration) :
    ((∃ e, (s.perform (.register registration)).1 = .registered (.error e))
        ↔ ∃ e, (s.registerOne registration).1 = .error e)
      ∧ ∀ e, (s.perform (.register registration)).1 = .registered (.error e) →
          (s.perform (.register registration)).2 = s := by
  rcases hs : s.registerOne registration with ⟨result, s'⟩
  rw [perform, hs]
  refine ⟨?_, fun e herror => ?_⟩
  · constructor
    · rintro ⟨e, ⟨⟩⟩
      exact ⟨e, rfl⟩
    · rintro ⟨e, rfl⟩
      exact ⟨e, rfl⟩
  · cases herror
    exact registerOne_error hs

/-- **Runtime collections are numbered without a gap, and keep their numbers.**  After any calls to a
new store: a name has as its index its place among the names of runtime collections that were accepted,
each counted where it came up first; so the indices are those below the number of runtime collections,
and each is the one of a single name.  Whatever is called later, an index stays.  One more call
for names that there are changes nothing; and a call is refused exactly if the store has started, if
there were more names than indices, or if one of its new names is one of a source and collisions are
refused, and then none of its names is added. -/
theorem runtime_indices {config : StoreConfig} {calls : List StoreCall}
    (hs : after calls (new config) = s) :
    (∀ name, (s.runtimeEntries.get? name).map LocalIndex.toNat
        = (distinct (named calls (new config))).idxOf? name)
      ∧ (∀ name index, s.runtimeEntries.get? name = some index →
          index.toNat < s.runtimeEntries.size)
      ∧ (∀ place < s.runtimeEntries.size,
          ∃! name, (s.runtimeEntries.get? name).map LocalIndex.toNat = some place)
      ∧ (∀ later name index, s.runtimeEntries.get? name = some index →
          (after later s).runtimeEntries.get? name = some index)
      ∧ (∀ names, (∀ name ∈ names, s.runtimeEntries.contains name = true) →
          (s.perform (.register (.runtime names))).2 = s
            ∧ (s.started = false →
              (s.perform (.register (.runtime names))).1 = .registered (.ok ())))
      ∧ ∀ names,
          ((∃ e, (s.perform (.register (.runtime names))).1 = .registered (.error e))
              ↔ s.started = true
                ∨ 0x100000000 < (distinct (named calls (new config) ++ names)).length
                ∨ s.Clashes names)
            ∧ ∀ e, (s.perform (.register (.runtime names))).1 = .registered (.error e) →
                (s.perform (.register (.runtime names))).2 = s := by
  have h : NumberedFrom 0 (distinct (named calls (new config))) s.runtimeEntries := by
    rw [← hs]
    exact numbered_after (numbered_new config) calls
  refine ⟨h.toNat_get?_eq, fun name index hindex => ?_, fun place => h.existsUnique_name,
    fun later name index hindex => get?_runtimeEntries_after h hindex later,
    fun names => perform_runtime_of_known, fun names => ?_⟩
  · have hname := h.contains_iff.mp (NameMap.contains_eq_true_iff.mpr ⟨index, hindex⟩)
    have hplace := h.toNat_get? hname
    rw [hindex, Option.map_some, Option.some.injEq, Nat.zero_add] at hplace
    rw [hplace, h.size_eq]
    exact List.idxOf_lt_length_of_mem hname
  · obtain ⟨hrefused, hleft⟩ := s.perform_error_iff (.runtime names)
    have hnames : distinct (named calls (new config) ++ names)
        = addNames (distinct (named calls (new config))) names := addNames_append [] _ names
    rw [hnames, ← registerRuntime_error_iff h]
    exact ⟨hrefused, hleft⟩

/-- runtime collections, one of them twice, and a call that is refused for a name of a source -/
def namingCalls : List StoreCall :=
  [.register (.runtime ["made", "made"]), .register (.source (dryFeed "first" "hits")),
    .register (.runtime ["fresh", "hits"]), .register (.runtime ["later", "made"])]

theorem runtime_indices_namingCalls :
    ∃ s : Store, after namingCalls (new { collisionPolicy := .reject }) = s
      ∧ (s.runtimeEntries.get? "later").map LocalIndex.toNat = some 1
      ∧ (s.runtimeEntries.get? "fresh").map LocalIndex.toNat = none
      ∧ (after [.register (.runtime ["fresh"])] s).runtimeEntries.get? "later" = some ⟨1⟩
      ∧ (s.perform (.register (.runtime ["made", "later"]))).2 = s
      ∧ ∃ e, (s.perform (.register (.runtime ["other", "hits"]))).1 = .registered (.error e) := by
  have hafter : after namingCalls (new { collisionPolicy := .reject }) = _ := rfl
  obtain ⟨hindices, -, -, hstay, hknown, hrefused⟩ := runtime_indices hafter
  refine ⟨_, rfl, (hindices "later").trans (by decide +kernel),
    (hindices "fresh").trans (by decide +kernel), hstay _ "later" ⟨1⟩ (by decide +kernel),
    (hknown ["made", "later"] (by decide +kernel)).1, (hrefused ["other", "hits"]).1.mpr (.inr (.inr ?_))⟩
  exact ⟨rfl, (⟨0⟩, NameMap.ofList [("hits", ⟨0⟩)]), by decide +kernel, by decide, "hits",
    by decide, by decide +kernel, by decide +kernel⟩

end Store

end EventMerge
