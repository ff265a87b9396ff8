import EventMerge.Proofs.Event.Requests
import EventMerge.Proofs.Event.Resolving

/-!
# Which requests call decoders

Between one set of raw data and the next, an eager event calls decoders in the first request that
reads, all of them at once, and never again; a lazy one calls the decoder of a name when the name is
asked for and not cached, and remembers what a `get` decoded, whether that succeeded or not.

* `Event.callsOf`        the decoders that a request calls;
* `Event.Caches`         what is cached after requests, told from the requests alone;
* `Event.Traced`         the event after requests: what it caches, and whether it still has its raw
                         data;
* `Event.Traced.perform`, `Event.Traced.after`  one request keeps that, and so do any requests;
* `Event.callsOf_after`  the decoders that are called after any requests.
-/

namespace EventMerge

namespace Request

/-- the names that a request asks for -/
def asked : Request → List String
  | get name => [name]
  | write names => names
  | _ => []

end Request

namespace Event

variable {e now : Event} {raw : RawData}

/-- the decoders that a request calls -/
def callsOf (e : Event) : Request → List Call
  | .get name => (e.get name).calls
  | .write names => (e.collectionsForWrite names).calls
  | _ => []

/-! ## the calls of a read -/

/-- the decoder of a name that is not cached, while there are raw data -/
def missing (e : Event) (name : String) : List Call :=
  if e.contains name then []
  else ((e.raw?.bind fun raw => raw.provision? name).map Provision.call).toList

/-- the decoders of everything, if an event decodes everything at once and still has to -/
def pending (e : Event) : List Call :=
  match e.kind, e.supply with
  | .eager, .held raw => raw.provisions.map fun p => p.2.call
  | _, _ => []

theorem missing_of_raw? (h : e.raw? = none) (name : String) : e.missing name = [] := by
  rw [missing, h]
  exact ite_self _

theorem calls_getEager (hkind : e.kind = .eager) (name : String) :
    (e.getEager name).calls = e.pending := by
  rw [getEager, pending, hkind]
  cases e.supply <;> rfl

theorem calls_getLazy (e : Event) (name : String) : (e.getLazy name).calls = e.missing name := by
  rw [getLazy, missing]
  split
  · rfl
  · cases e.raw?.bind fun raw => raw.provision? name <;> rfl

theorem calls_writeOne (e : Event) (name : String) : (e.writeOne name).calls = e.missing name := by
  rw [writeOne, missing]
  split
  · rfl
  · cases e.raw?.bind fun raw => raw.provision? name <;> rfl

theorem missing_writeOne (e : Event) (name other : String) :
    (e.writeOne name).event.missing other = e.missing other := by
  have hraw : (e.writeOne name).event.raw? = e.raw? := by
    rw [writeOne_event]
    rfl
  rw [missing, missing, contains_writeOne, hraw]

/-- writing names decodes each time what is not cached, since it caches nothing -/
theorem calls_writeAll (names : List String) (e : Event) :
    (writeAll names e).calls = names.flatMap e.missing := by
  induction names generalizing e with
  | nil => rfl
  | cons name rest ih =>
    show (e.writeOne name).calls ++ (writeAll rest (e.writeOne name).event).calls = _
    rw [ih, calls_writeOne, List.flatMap_cons]
    congr 2
    funext other
    exact e.missing_writeOne name other

theorem calls_collectionsForWrite (e : Event) (names : List String) :
    (e.collectionsForWrite names).calls
      = e.pending ++ (if names.isEmpty then e.readied.writableNames else names).flatMap
          e.readied.missing := by
  rw [collectionsForWrite, readied, pending, ← calls_writeAll]
  cases e.kind <;> cases e.supply <;> rfl

theorem raw?_readied (hkind : e.kind = .eager) : e.readied.raw? = none := by
  rw [readied, raw?, hkind]
  cases hsupply : e.supply with
  | none => rw [hsupply]
  | held r => rfl
  | spent => rw [hsupply]

theorem callsOf_eager (hkind : e.kind = .eager) (request : Request) :
    e.callsOf request = if request.isRead then e.pending else [] := by
  cases request with
  | get name =>
    show (e.get name).calls = e.pending
    rw [get, hkind]
    exact calls_getEager hkind name
  | write names =>
    have hmissing : e.readied.missing = fun _ => [] := funext (missing_of_raw? (raw?_readied hkind))
    show (e.collectionsForWrite names).calls = e.pending
    rw [calls_collectionsForWrite, hmissing]
    simp
  | put name c => rfl
  | setRaw r => rfl
  | reuse => rfl

theorem readied_of_lazy (hkind : e.kind = .lazy) : e.readied = e := by
  rw [readied, hkind]

theorem callsOf_get_of_lazy (hkind : e.kind = .lazy) (name : String) :
    e.callsOf (.get name) = e.missing name := by
  show (e.get name).calls = _
  rw [get, hkind]
  exact e.calls_getLazy name

theorem callsOf_write_of_lazy (hkind : e.kind = .lazy) (names : List String) :
    e.callsOf (.write names)
      = (if names.isEmpty then e.writableNames else names).flatMap e.missing := by
  show (e.collectionsForWrite names).calls = _
  rw [calls_collectionsForWrite, readied_of_lazy hkind, pending, hkind]
  rfl

/-! ## what is cached -/

/-- A name is cached after requests to an event that was then given raw data: it was put in before
and kept, or was put in since, or it was decoded.  An eager event has decoded all names that are
provided once anything was read, a lazy one those that it was asked to get. -/
def Caches (e : Event) (raw : RawData) (before : List Request) (name : String) : Prop :=
  (∃ c, e.runtime? name = some c) ∨ (∃ c, .put name c ∈ before)
    ∨ (∃ p, raw.Serves name p)
      ∧ match e.kind with
        | .eager => before.any Request.isRead = true
        | .lazy => .get name ∈ before

theorem served_iff {name : String} :
    (∃ p, raw.Serves name p) ↔ (raw.provision? name).isSome = true := by
  rw [Option.isSome_iff_exists]
  exact exists_congr fun p => RawData.provision?_eq_some_iff.symm

theorem contains_readied (hkind : e.kind = .eager) (hsupply : e.supply = .held raw)
    (name : String) :
    e.readied.contains name = true ↔ e.contains name = true ∨ ∃ p, raw.Serves name p := by
  have hget : e.readied.cache.get? name
      = (e.cache.get? name).or ((raw.decoded? name).map fun c => ⟨c, .decoded⟩) := by
    rw [readied, hkind, hsupply]
    exact e.get?_materialize raw name
  rw [contains, contains, NameMap.contains, NameMap.contains, hget, served_iff, Option.isSome_or,
    Bool.or_eq_true, Option.isSome_map, RawData.decoded?, RawData.resolve?, Option.isSome_map,
    Option.isSome_map]

theorem contains_getLazy (hsupply : e.supply = .held raw) (name other : String) :
    (e.getLazy name).event.contains other = true
      ↔ e.contains other = true ∨ other = name ∧ ∃ p, raw.Serves other p := by
  have hraw : e.raw? = some raw := raw?_of_held hsupply
  rw [contains, contains, NameMap.contains, NameMap.contains, get?_getLazy, hraw, Option.bind_some,
    Option.isSome_or, Bool.or_eq_true, served_iff]
  by_cases hname : other = name
  · subst hname
    rw [if_pos rfl, Option.isSome_map]
    simp
  · rw [if_neg hname]
    simp [hname]

/-- after a put the name is cached, whether the put took hold or not -/
theorem contains_afterPut_iff (e : Event) (name : String) (c : Collection) (other : String) :
    (e.afterPut name c).contains other = true ↔ e.contains other = true ∨ other = name := by
  rw [contains_afterPut, admits]
  by_cases hname : other = name
  · subst hname
    cases e.contains other <;> simp
  · simp [hname]

/-! ## the event after requests -/

/-- The event after requests since it was given raw data.  An eager event has let the raw data go
once anything was read. -/
structure Traced (e : Event) (raw : RawData) (before : List Request) (now : Event) : Prop where
  kind : now.kind = e.kind
  supply : now.supply
    = if e.kind = .eager ∧ before.any Request.isRead = true then .spent else .held raw
  cached : ∀ name, now.contains name = true ↔ e.Caches raw before name

theorem traced_setRaw (e : Event) (raw : RawData) : e.Traced raw [] (e.setRaw raw) := by
  refine ⟨rfl, ?_, fun name => ?_⟩
  · rw [if_neg]
    · rfl
    · intro h
      cases h.2
  · rw [contains_setRaw, Option.isSome_iff_exists, Caches]
    constructor
    · exact .inl
    · rintro (h | ⟨c, hc⟩ | ⟨-, h⟩)
      · exact h
      · cases hc
      · cases hkind : e.kind <;> simp [hkind] at h

namespace Traced

variable {before : List Request}

theorem supply_of_lazy (h : e.Traced raw before now) (hkind : e.kind = .lazy) :
    now.supply = .held raw := by
  rw [h.supply, hkind, if_neg]
  intro heager
  cases heager.1

theorem raw?_of_lazy (h : e.Traced raw before now) (hkind : e.kind = .lazy) :
    now.raw? = some raw := raw?_of_held (h.supply_of_lazy hkind)

/-- a put caches its name and leaves the raw data alone -/
theorem put (h : e.Traced raw before now) (name : String) (c : Collection) :
    e.Traced raw (before ++ [.put name c]) (now.afterPut name c) := by
  have hany : (before ++ [Request.put name c]).any Request.isRead = before.any Request.isRead := by
    rw [List.any_append]
    exact Bool.or_false _
  have hsupply : (now.afterPut name c).supply = now.supply := by
    cases hadmits : now.admits name with
    | true => rw [afterPut_of_admits hadmits]
    | false => rw [afterPut_of_not_admits hadmits]
  refine ⟨(kind_afterPut now name c).trans h.kind, ?_, fun other => ?_⟩
  · rw [hsupply, hany]
    exact h.supply
  · have hput : (∃ d, Request.put other d ∈ before ++ [.put name c])
        ↔ (∃ d, Request.put other d ∈ before) ∨ other = name := by
      simp only [List.mem_append, List.mem_singleton, Request.put.injEq, exists_or]
      simp
    have hget : (.get other ∈ before ++ [.put name c]) ↔ .get other ∈ before := by simp
    rw [contains_afterPut_iff, h.cached, Caches, Caches, hput, hany, hget]
    constructor
    · rintro ((hheld | hheld | hheld) | heq)
      · exact .inl hheld
      · exact .inr (.inl (.inl hheld))
      · exact .inr (.inr hheld)
      · exact .inr (.inl (.inr heq))
    · rintro (hheld | (hheld | heq) | hheld)
      · exact .inl (.inl hheld)
      · exact .inl (.inr (.inl hheld))
      · exact .inr heq
      · exact .inl (.inr (.inr hheld))

/-- the first read of an eager event decodes everything that is provided, later ones nothing -/
theorem readEager (h : e.Traced raw before now) (hkind : e.kind = .eager) {request : Request}
    (hread : request.isRead = true) {next : Event} (hnext : next.kind = now.kind)
    (hsupply : next.supply = now.readied.supply)
    (hcontains : ∀ name, next.contains name = now.readied.contains name) :
    e.Traced raw (before ++ [request]) next := by
  have hnow : now.kind = .eager := h.kind.trans hkind
  have hany : (before ++ [request]).any Request.isRead = true := by
    rw [List.any_append, List.any_cons, hread]
    exact Bool.or_true _
  have hput : ∀ name, (∃ c, .put name c ∈ before ++ [request]) ↔ ∃ c, .put name c ∈ before := by
    intro name
    refine exists_congr fun c => ?_
    rw [List.mem_append, List.mem_singleton]
    refine or_iff_left fun heq => ?_
    rw [← heq] at hread
    cases hread
  have hold := h.supply
  by_cases hbefore : before.any Request.isRead = true
  · rw [if_pos ⟨hkind, hbefore⟩] at hold
    have hreadied : now.readied = now := by
      rw [readied, hnow, hold]
    refine ⟨hnext.trans h.kind, ?_, fun name => ?_⟩
    · rw [hsupply, hreadied, hold, if_pos ⟨hkind, hany⟩]
    · rw [hcontains, hreadied, h.cached, Caches, Caches, hput, hkind, hany, hbefore]
  · rw [if_neg fun hboth => hbefore hboth.2] at hold
    refine ⟨hnext.trans h.kind, ?_, fun name => ?_⟩
    · rw [hsupply, if_pos ⟨hkind, hany⟩, readied, hnow, hold]
      rfl
    · rw [hcontains, contains_readied hnow hold, h.cached, Caches, Caches, hput, hkind, hany]
      constructor
      · rintro ((hheld | hheld | ⟨-, hread⟩) | hserved)
        · exact .inl hheld
        · exact .inr (.inl hheld)
        · exact absurd hread hbefore
        · exact .inr (.inr ⟨hserved, rfl⟩)
      · rintro (hheld | hheld | ⟨hserved, -⟩)
        · exact .inl (.inl hheld)
        · exact .inl (.inr (.inl hheld))
        · exact .inr hserved

/-- a `get` of a lazy event decodes the name if it is provided -/
theorem getLazy (h : e.Traced raw before now) (hkind : e.kind = .lazy) (name : String) :
    e.Traced raw (before ++ [.get name]) (now.getLazy name).event := by
  have hsupply := h.supply_of_lazy hkind
  obtain ⟨cache, hcache⟩ := now.getLazy_event name
  refine ⟨?_, ?_, fun other => ?_⟩
  · rw [hcache]
    exact h.kind
  · rw [hcache, if_neg]
    · exact hsupply
    · rw [hkind]
      intro heager
      cases heager.1
  · have hput : (∃ c, .put other c ∈ before ++ [.get name]) ↔ ∃ c, .put other c ∈ before := by
      simp
    have hget : (.get other ∈ before ++ [.get name]) ↔ .get other ∈ before ∨ other = name := by
      simp
    rw [contains_getLazy hsupply, h.cached, Caches, Caches, hput, hkind, hget]
    constructor
    · rintro ((hheld | hheld | ⟨hserved, hgot⟩) | ⟨heq, hserved⟩)
      · exact .inl hheld
      · exact .inr (.inl hheld)
      · exact .inr (.inr ⟨hserved, .inl hgot⟩)
      · exact .inr (.inr ⟨hserved, .inr heq⟩)
    · rintro (hheld | hheld | ⟨hserved, hgot | heq⟩)
      · exact .inl (.inl hheld)
      · exact .inl (.inr (.inl hheld))
      · exact .inl (.inr (.inr ⟨hserved, hgot⟩))
      · exact .inr ⟨heq, hserved⟩

/-- writing from a lazy event caches nothing -/
theorem writeLazy (h : e.Traced raw before now) (hkind : e.kind = .lazy) (names : List String) :
    e.Traced raw (before ++ [.write names]) (now.collectionsForWrite names).event := by
  have hnow : now.kind = .lazy := h.kind.trans hkind
  refine ⟨(now.kind_collectionsForWrite names).trans h.kind, ?_, fun name => ?_⟩
  · obtain ⟨cache, hcache⟩ := writeAll_event
      (if names.isEmpty then now.readied.writableNames else names) now.readied
    rw [collectionsForWrite_event_eq, hcache, readied_of_lazy hnow, if_neg]
    · exact h.supply_of_lazy hkind
    · rw [hkind]
      intro heager
      cases heager.1
  · have hput : (∃ c, .put name c ∈ before ++ [.write names]) ↔ ∃ c, .put name c ∈ before := by
      simp
    have hget : (.get name ∈ before ++ [.write names]) ↔ .get name ∈ before := by simp
    rw [contains_collectionsForWrite, readied_of_lazy hnow, h.cached, Caches, Caches, hput, hkind,
      hget]

/-- one request, as long as there are no new raw data and the event is not started over -/
theorem perform (h : e.Traced raw before now) {request : Request}
    (hkept : request.isRead = true ∨ request.isPut = true) :
    e.Traced raw (before ++ [request]) (now.perform request).2 := by
  cases request with
  | put name c =>
    rw [perform_put_event]
    exact h.put name c
  | get name =>
    show e.Traced raw _ (now.get name).event
    cases hkind : e.kind with
    | eager =>
      have hevent : (now.get name).event = now.readied := by
        rw [get, h.kind, hkind]
        exact getEager_event now name (h.kind.trans hkind)
      refine h.readEager hkind rfl (now.kind_get name) ?_ fun other => ?_
      · rw [hevent]
      · rw [hevent]
    | «lazy» =>
      have hevent : (now.get name).event = (now.getLazy name).event := by
        rw [get, h.kind, hkind]
      rw [hevent]
      exact h.getLazy hkind name
  | write names =>
    show e.Traced raw _ (now.collectionsForWrite names).event
    cases hkind : e.kind with
    | eager =>
      refine h.readEager hkind rfl (now.kind_collectionsForWrite names) ?_ fun other =>
        now.contains_collectionsForWrite names other
      obtain ⟨cache, hcache⟩ := writeAll_event
        (if names.isEmpty then now.readied.writableNames else names) now.readied
      rw [collectionsForWrite_event_eq, hcache]
    | «lazy» => exact h.writeLazy hkind names
  | setRaw r => rcases hkept with hkept | hkept <;> cases hkept
  | reuse => rcases hkept with hkept | hkept <;> cases hkept

/-- any requests, as long as there are no new raw data and the event is not started over -/
theorem after (h : e.Traced raw before now) {more : List Request}
    (hkept : ∀ r ∈ more, r.isRead = true ∨ r.isPut = true) :
    e.Traced raw (before ++ more) (Event.after more now) := by
  induction more generalizing before now with
  | nil =>
    rw [List.append_nil]
    exact h
  | cons request rest ih =>
    have hnext := ih (h.perform (hkept request List.mem_cons_self)) fun r hr =>
      hkept r (List.mem_cons_of_mem _ hr)
    rwa [List.append_assoc] at hnext

end Traced

theorem traced_after (e : Event) (raw : RawData) {before : List Request}
    (hkept : ∀ r ∈ before, r.isRead = true ∨ r.isPut = true) :
    e.Traced raw before (after before (e.setRaw raw)) :=
  (e.traced_setRaw raw).after hkept

/-! ## the calls after requests -/

namespace Traced

variable {before : List Request}

theorem callsOf_eager (h : e.Traced raw before now) (hkind : e.kind = .eager)
    (request : Request) :
    now.callsOf request
      = if request.isRead = true ∧ before.any Request.isRead = false
        then raw.provisions.map fun p => p.2.call else [] := by
  have hnow : now.kind = .eager := h.kind.trans hkind
  have hsupply := h.supply
  rw [Event.callsOf_eager hnow, pending, hnow]
  cases hbefore : before.any Request.isRead with
  | true =>
    rw [if_pos ⟨hkind, hbefore⟩] at hsupply
    rw [hsupply]
    simp
  | false =>
    rw [if_neg fun hboth => Bool.eq_false_iff.mp hbefore hboth.2] at hsupply
    rw [hsupply]
    simp

theorem missing_of_lazy (h : e.Traced raw before now) (hkind : e.kind = .lazy) (name : String) :
    now.missing name
      = if now.contains name then [] else ((raw.provision? name).map Provision.call).toList := by
  rw [missing, h.raw?_of_lazy hkind]
  rfl

theorem mem_writableNames_of_lazy (h : e.Traced raw before now) (hkind : e.kind = .lazy)
    {name : String} :
    name ∈ now.writableNames ↔ now.contains name = true ∨ name ∈ raw.knownNames := by
  rw [writableNames, h.raw?_of_lazy hkind]
  show name ∈ (NameMap.ofList ((now.cachedNames ++ raw.knownNames).map fun n => (n, ()))).keys ↔ _
  rw [NameMap.mem_keys_ofNames, List.mem_append]
  exact or_congr_left NameMap.contains_iff_mem_keys.symm

/-- a read of names that are not provided caches nothing, if nothing is left to be decoded at once -/
theorem contains_perform_of_unserved (h : e.Traced raw before now) {request : Request}
    (hread : request.isRead = true)
    (hunserved : ∀ name ∈ request.asked, ∀ p, ¬ raw.Serves name p)
    (hdone : e.kind = .lazy ∨ before.any Request.isRead = true) (name : String) :
    (now.perform request).2.contains name = now.contains name := by
  have hput : (∃ c, .put name c ∈ before ++ [request]) ↔ ∃ c, .put name c ∈ before := by
    refine exists_congr fun c => ?_
    rw [List.mem_append, List.mem_singleton]
    refine or_iff_left fun heq => ?_
    rw [← heq] at hread
    cases hread
  rw [Bool.eq_iff_iff, (h.perform (.inl hread)).cached, h.cached, Caches, Caches, hput]
  refine or_congr_right (or_congr_right (and_congr_right fun hserved => ?_))
  obtain ⟨p, hp⟩ := hserved
  cases hkind : e.kind with
  | eager =>
    have hbefore : before.any Request.isRead = true :=
      hdone.resolve_left fun hlazy => nomatch hkind.symm.trans hlazy
    show (before ++ [request]).any Request.isRead = true ↔ before.any Request.isRead = true
    rw [List.any_append, hbefore, Bool.true_or]
  | «lazy» =>
    show .get name ∈ before ++ [request] ↔ .get name ∈ before
    rw [List.mem_append, List.mem_singleton]
    refine or_iff_left fun heq => ?_
    exact hunserved name (heq ▸ List.mem_cons_self) p hp

theorem callsOf_of_unserved (h : e.Traced raw before now) {request : Request}
    (hasked : request.asked ≠ []) (hunserved : ∀ name ∈ request.asked, ∀ p, ¬ raw.Serves name p)
    (hdone : e.kind = .lazy ∨ before.any Request.isRead = true) : now.callsOf request = [] := by
  cases hkind : e.kind with
  | eager =>
    have hbefore : before.any Request.isRead = true :=
      hdone.resolve_left fun hlazy => nomatch hkind.symm.trans hlazy
    rw [h.callsOf_eager hkind, if_neg]
    intro hfirst
    rw [hbefore] at hfirst
    cases hfirst.2
  | «lazy» =>
    have hnow : now.kind = .lazy := h.kind.trans hkind
    have hmissing : ∀ name ∈ request.asked, now.missing name = [] := by
      intro name hname
      have hnone : raw.provision? name = none := by
        cases hp : raw.provision? name with
        | none => rfl
        | some p => exact absurd (RawData.provision?_eq_some_iff.mp hp) (hunserved name hname p)
      rw [h.missing_of_lazy hkind, hnone]
      exact ite_self _
    cases request with
    | get name =>
      rw [callsOf_get_of_lazy hnow]
      exact hmissing name List.mem_cons_self
    | write names =>
      have hnames : ¬ names.isEmpty = true := fun hempty => hasked (List.isEmpty_iff.mp hempty)
      rw [callsOf_write_of_lazy hnow, if_neg hnames]
      exact List.flatMap_eq_nil_iff.mpr hmissing
    | put name c => rfl
    | setRaw r => rfl
    | reuse => rfl

end Traced

/-- The promise when decoders are called, of an event that was given raw data and then requests. -/
structure CallsAsPromised (e : Event) (raw : RawData) (before : List Request) (now : Event) :
    Prop where
  /-- what is cached follows from the requests -/
  cached : ∀ name, now.contains name = true ↔ e.Caches raw before name
  /-- the first read of an eager event decodes everything that is provided, nothing else does -/
  eager : e.kind = .eager → ∀ request, now.callsOf request
    = if request.isRead = true ∧ before.any Request.isRead = false
      then raw.provisions.map fun p => p.2.call else []
  /-- a lazy event is asked for a name: it is decoded unless it is cached -/
  lazyGet : e.kind = .lazy → ∀ name, now.callsOf (.get name)
    = if now.contains name then [] else ((raw.provision? name).map Provision.call).toList
  /-- a lazy event writes: what is not cached is decoded each time that it is listed -/
  lazyWrite : e.kind = .lazy → ∀ names, now.callsOf (.write names)
    = (if names.isEmpty then now.writableNames else names).flatMap fun name =>
        if now.contains name then [] else ((raw.provision? name).map Provision.call).toList
  /-- all names of a lazy event: what is cached and what is known, each once and in order -/
  lazyNames : e.kind = .lazy → now.writableNames.Pairwise (· < ·)
    ∧ ∀ name, name ∈ now.writableNames ↔ now.contains name = true ∨ name ∈ raw.knownNames
  silent : ∀ request, request.isRead = false → now.callsOf request = []
  /-- names that are not provided, in a lazy event or an eager one that has decoded already -/
  unserved : ∀ request, request.asked ≠ [] →
    (∀ name ∈ request.asked, ∀ p, ¬ raw.Serves name p) →
    e.kind = .lazy ∨ before.any Request.isRead = true →
    now.callsOf request = [] ∧ ∀ name, (now.perform request).2.contains name = now.contains name

theorem isRead_of_asked {request : Request} (h : request.asked ≠ []) : request.isRead = true := by
  cases request with
  | get name => rfl
  | write names => rfl
  | put name c => exact absurd rfl h
  | setRaw r => exact absurd rfl h
  | reuse => exact absurd rfl h

/-- **Decoders are called exactly when it is promised.**  What is listed as provided is each name once,
by sub-table and then by name, from where it is served.  After raw data and any requests but new raw
data or starting over, an eager event calls the decoders of all of that in its first read and no
decoder otherwise; a lazy one decodes what is asked for and not cached, and caches it when it was
asked to get it.  A name that nobody provides is never cached by asking for it. -/
theorem callsOf_after (e : Event) (raw : RawData) {before : List Request}
    (hkept : ∀ r ∈ before, r.isRead = true ∨ r.isPut = true) :
    ((raw.provisions.map Prod.fst).Nodup
        ∧ (raw.provisions.map Prod.fst).Pairwise raw.Precedes
        ∧ (∀ name p, (name, p) ∈ raw.provisions ↔ raw.Serves name p)
        ∧ ∀ name p, raw.provision? name = some p ↔ raw.Serves name p)
      ∧ e.CallsAsPromised raw before (after before (e.setRaw raw)) := by
  have h := e.traced_after raw hkept
  refine ⟨⟨raw.nodup_provisions, raw.sorted_provisions, fun name p => ?_, fun name p =>
    RawData.provision?_eq_some_iff⟩, h.cached, fun hkind => h.callsOf_eager hkind,
    fun hkind name => ?_, fun hkind names => ?_, fun hkind => ?_, fun request hread => ?_,
    fun request hasked hunserved hdone => ?_⟩
  · exact RawData.mem_provisions.trans RawData.provision?_eq_some_iff
  · rw [callsOf_get_of_lazy (h.kind.trans hkind)]
    exact h.missing_of_lazy hkind name
  · rw [callsOf_write_of_lazy (h.kind.trans hkind)]
    congr 1
    funext name
    exact h.missing_of_lazy hkind name
  · exact ⟨sorted_writableNames _, fun name => h.mem_writableNames_of_lazy hkind⟩
  · cases request with
    | get name => cases hread
    | write names => cases hread
    | put name c => rfl
    | setRaw r => rfl
    | reuse => rfl
  · exact ⟨h.callsOf_of_unserved hasked hunserved hdone,
      h.contains_perform_of_unserved (isRead_of_asked hasked) hunserved hdone⟩

/-- a collection that cannot be decoded is read, another one is written, and a third is put in -/
def failedEarly : List Request := [.get "tracks", .write ["hits"], .put "notes" {}]

/-- The failed decoding is remembered and so is the put, while writing decodes again what nobody asked
to get. -/
theorem callsOf_after_failedEarly :
    (after failedEarly ((fresh .lazy .replace).setRaw partlyReadable)).contains "tracks" = true
      ∧ (after failedEarly ((fresh .lazy .replace).setRaw partlyReadable)).contains "notes" = true
      ∧ (after failedEarly ((fresh .lazy .replace).setRaw partlyReadable)).callsOf (.get "tracks")
        = []
      ∧ (after failedEarly ((fresh .lazy .replace).setRaw partlyReadable)).callsOf
          (.write ["hits", "notes", "hits"])
        = [.decode "detector" ⟨0⟩, .decode "detector" ⟨0⟩] := by
  have hkept : ∀ r ∈ failedEarly, r.isRead = true ∨ r.isPut = true := by decide
  obtain ⟨-, hnow⟩ := callsOf_after (fresh .lazy .replace) partlyReadable hkept
  refine ⟨?_, ?_, hnow.lazyGet rfl "tracks", hnow.lazyWrite rfl ["hits", "notes", "hits"]⟩
  · refine (hnow.cached "tracks").mpr (.inr (.inr ⟨?_, List.mem_cons_self⟩))
    exact served_iff.mpr rfl
  · exact (hnow.cached "notes").mpr (.inr (.inl ⟨{}, by simp [failedEarly]⟩))

/-- The first read of an eager event decodes and caches everything, also if it asks for a name that
nobody provides. -/
theorem callsOf_first_read :
    partlyReadable.resolve? "absent" = none
      ∧ ((fresh .eager .replace).setRaw partlyReadable).callsOf (.get "absent")
        = [.decode "detector" ⟨0⟩, .decode "detector" ⟨1⟩]
      ∧ ((fresh .eager .replace).setRaw partlyReadable).contains "hits" = false
      ∧ (((fresh .eager .replace).setRaw partlyReadable).perform (.get "absent")).2.contains "hits"
        = true :=
  ⟨rfl, by decide, rfl, rfl⟩

end Event

end EventMerge
