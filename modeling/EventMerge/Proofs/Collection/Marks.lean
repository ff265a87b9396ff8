import EventMerge.Collection
import Mathlib.Data.List.Induction

/-!
# The marks of a collection

The fields of a collection are set, it is looked at after reading and filled for writing, in any
order and any number of times.  Its three marks never say more than its payload bears out, and what is
written of it has in every field the value that was supplied last, or the default.

* `Buffers.Field`, `Buffers.get?`  the fields of a payload, and what is in them;
* `Collection.Step`                what can be done with a collection;
* `Collection.after`               a collection after some steps;
* `Collection.supplies`            the values that a field was supplied with on the way;
* `Collection.Sound`               the marks say no more than the payload bears out;
* `Collection.getD_after`          what a field has after some steps, the default standing for nothing;
* `Collection.prepareForWrite_after`  marks and payload after any steps.
-/

namespace EventMerge

/-! ## the fields of a payload -/

namespace Buffers

inductive Field where
  | data
  | relations
  | vectorMembers
  | schemaVersion
  deriving DecidableEq

namespace Field

abbrev Value : Field → Type
  | data => Bytes
  | relations => List Bytes
  | vectorMembers => List VectorMember
  | schemaVersion => UInt32

/-- the value that an unset field is written with -/
def default : (field : Field) → field.Value
  | data => []
  | relations => []
  | vectorMembers => []
  | schemaVersion => defaultSchemaVersion

end Field

def get? (b : Buffers) : (field : Field) → Option field.Value
  | .data => b.data
  | .relations => b.relations
  | .vectorMembers => b.vectorMembers
  | .schemaVersion => b.schemaVersion

theorem get?_filled (b : Buffers) (field : Field) :
    b.filled.get? field = some ((b.get? field).getD field.default) := by
  cases field <;> rfl

end Buffers

namespace Collection

open Buffers (Field)

/-! ## steps -/

def set (c : Collection) : (field : Field) → field.Value → Collection
  | .data, data => c.setData data
  | .relations, relations => c.setRelations relations
  | .vectorMembers, members => c.setVectorMembers members
  | .schemaVersion, version => c.setSchemaVersion version

/-- what can be done with a collection -/
inductive Step where
  | set (field : Field) (value : field.Value)
  | prepareAfterRead
  | setReferences
  | prepareForWrite

namespace Step

def isSet : Step → Bool
  | set _ _ => true
  | _ => false

/-- the value that a step supplies a field with -/
def supplied? : Step → (field : Field) → Option field.Value
  | set changed value, field => if h : changed = field then some (h ▸ value) else none
  | _, _ => none

end Step

def perform (c : Collection) : Step → Collection
  | .set field value => c.set field value
  | .prepareAfterRead => c.prepareAfterRead
  | .setReferences => c.setReferences
  | .prepareForWrite => c.prepareForWrite

def performAll (c : Collection) (steps : List Step) : Collection := steps.foldl perform c

/-- how a collection comes about -/
inductive Start where
  | new
  | ofBuffers (buffers : Buffers)

namespace Start

def buffers : Start → Buffers
  | new => .unset
  | ofBuffers buffers => buffers

def collection : Start → Collection
  | new => {}
  | ofBuffers buffers => .ofBuffers buffers

theorem buffers_collection (start : Start) : start.collection.buffers = start.buffers := by
  cases start <;> rfl

end Start

/-- the collection after some steps -/
def after (start : Start) (steps : List Step) : Collection := start.collection.performAll steps

/-- the values that a field has been supplied with, first by the start and then by the steps -/
def supplies (start : Start) (steps : List Step) (field : Field) : List field.Value :=
  (start.buffers.get? field).toList ++ steps.filterMap fun step => step.supplied? field

theorem after_concat (start : Start) (steps : List Step) (step : Step) :
    after start (steps ++ [step]) = (after start steps).perform step := List.foldl_append

theorem supplies_concat (start : Start) (steps : List Step) (step : Step) (field : Field) :
    supplies start (steps ++ [step]) field
      = supplies start steps field ++ (step.supplied? field).toList := by
  rw [supplies, supplies, List.filterMap_append, List.append_assoc, List.filterMap_cons]
  cases step.supplied? field <;> rfl

/-! ## marks -/

/-- the marks of a collection say no more than its payload bears out -/
structure Sound (c : Collection) : Prop where
  valid_of_resolved : c.resolved = true → c.valid = true
  isValid_of_valid : c.valid = true → c.buffers.isValid = true
  isValid_of_prepared : c.prepared = true → c.buffers.isValid = true

theorem sound_touched (b : Buffers) : (touched b).Sound := ⟨nofun, nofun, nofun⟩

theorem sound_ofBuffers (b : Buffers) : (ofBuffers b).Sound := ⟨id, id, nofun⟩

theorem sound_set (c : Collection) (field : Field) (value : field.Value) :
    (c.set field value).Sound := by
  cases field <;> exact sound_touched _

namespace Sound

variable {c : Collection}

theorem prepareAfterRead (h : c.Sound) : c.prepareAfterRead.Sound :=
  ⟨fun hresolved => h.isValid_of_valid (h.valid_of_resolved hresolved), id, h.isValid_of_prepared⟩

theorem setReferences (h : c.Sound) : c.setReferences.Sound :=
  ⟨id, h.isValid_of_valid, h.isValid_of_prepared⟩

/-- filling leaves the marks of reading, as a payload that was valid stays so -/
theorem prepareForWrite (h : c.Sound) : c.prepareForWrite.Sound := by
  rw [Collection.prepareForWrite]
  split
  · exact h
  · exact ⟨h.valid_of_resolved, fun _ => Buffers.isValid_filled _, fun _ => Buffers.isValid_filled _⟩

theorem perform (h : c.Sound) (step : Step) : (c.perform step).Sound := by
  cases step with
  | set field value => exact sound_set c field value
  | prepareAfterRead => exact h.prepareAfterRead
  | setReferences => exact h.setReferences
  | prepareForWrite => exact h.prepareForWrite

theorem performAll (h : c.Sound) (steps : List Step) : (c.performAll steps).Sound := by
  induction steps generalizing c with
  | nil => exact h
  | cons step rest ih => exact ih (h.perform step)

/-- a collection that is filled already has nothing to fill -/
theorem buffers_prepareForWrite (h : c.Sound) : c.prepareForWrite.buffers = c.buffers.filled := by
  rw [Collection.prepareForWrite]
  split
  · rename_i hprepared
    exact (Buffers.filled_of_isValid (h.isValid_of_prepared hprepared)).symm
  · rfl

end Sound

theorem sound_collection (start : Start) : start.collection.Sound := by
  cases start with
  | new => exact sound_touched {}
  | ofBuffers buffers => exact sound_ofBuffers buffers

theorem sound_after (start : Start) (steps : List Step) : (after start steps).Sound :=
  (sound_collection start).performAll steps

/-! ## payloads -/

theorem get?_set (c : Collection) (changed : Field) (value : changed.Value) (field : Field) :
    (c.set changed value).buffers.get? field
      = ((Step.set changed value).supplied? field).or (c.buffers.get? field) := by
  cases changed <;> cases field <;> rfl

/-- a step leaves in a field what it supplies; otherwise what was there, or at most the default where
nothing was -/
theorem getD_perform {c : Collection} (h : c.Sound) (step : Step) (field : Field) :
    ((c.perform step).buffers.get? field).getD field.default
      = (step.supplied? field).getD ((c.buffers.get? field).getD field.default) := by
  cases step with
  | set changed value =>
    rw [perform, get?_set]
    cases (Step.set changed value).supplied? field <;> rfl
  | prepareAfterRead => rfl
  | setReferences => rfl
  | prepareForWrite =>
    rw [perform, h.buffers_prepareForWrite, Buffers.get?_filled]
    rfl

/-- **What a field has after some steps**, the default standing for nothing, is what it was supplied
with last. -/
theorem getD_after (start : Start) (steps : List Step) (field : Field) :
    ((after start steps).buffers.get? field).getD field.default
      = (supplies start steps field).getLast?.getD field.default := by
  -- from the end, as the last value that is supplied counts
  induction steps using List.reverseRecOn with
  | nil =>
    rw [after, performAll, List.foldl_nil, start.buffers_collection, supplies, List.filterMap_nil,
      List.append_nil]
    cases start.buffers.get? field <;> rfl
  | append_singleton steps step ih =>
    rw [after_concat, getD_perform (sound_after start steps), ih, supplies_concat]
    cases step.supplied? field with
    | none => rw [Option.getD_none, Option.toList_none, List.append_nil]
    | some value => rw [Option.getD_some, Option.toList_some, List.getLast?_concat, Option.getD_some]

/-- what is filled stays as it is until a field is set -/
theorem performAll_of_prepared {c : Collection} (hprepared : c.prepared = true) {steps : List Step}
    (h : ∀ step ∈ steps, step.isSet = false) :
    (c.performAll steps).buffers = c.buffers ∧ (c.performAll steps).prepared = true := by
  induction steps generalizing c with
  | nil => exact ⟨rfl, hprepared⟩
  | cons step rest ih =>
    have hrest : ∀ other ∈ rest, other.isSet = false := fun other hmem =>
      h other (List.mem_cons_of_mem _ hmem)
    have hfirst : (c.perform step).buffers = c.buffers ∧ (c.perform step).prepared = true := by
      cases step with
      | set field value => cases h _ List.mem_cons_self
      | prepareAfterRead => exact ⟨rfl, hprepared⟩
      | setReferences => exact ⟨rfl, hprepared⟩
      | prepareForWrite =>
        rw [perform, Collection.prepareForWrite, if_pos hprepared]
        exact ⟨rfl, hprepared⟩
    obtain ⟨hbuffers, hstays⟩ := ih hfirst.2 hrest
    exact ⟨hbuffers.trans hfirst.1, hstays⟩

/-- **The marks of a collection are sound after any steps, and what is written of it is what was
supplied last.**  However a collection comes about and whatever is done with it: it is resolved only if
it is valid, and valid or prepared only if all fields of its payload are set.  Filling it for writing
gives a payload with all fields set, each to the value that it was supplied with last, or to its default
if there was none; it leaves the marks of reading; and filling it again gives the same payload, as long
as no field is set in between. -/
theorem prepareForWrite_after (start : Start) (steps : List Step) :
    (after start steps).Sound
      ∧ (after start steps).prepareForWrite.buffers.isValid = true
      ∧ (∀ field, (after start steps).prepareForWrite.buffers.get? field
          = some ((supplies start steps field).getLast?.getD field.default))
      ∧ (after start steps).prepareForWrite.valid = (after start steps).valid
      ∧ (after start steps).prepareForWrite.resolved = (after start steps).resolved
      ∧ ∀ between : List Step, (∀ step ∈ between, step.isSet = false) →
          ((after start steps).prepareForWrite.performAll between).prepareForWrite.buffers
            = (after start steps).prepareForWrite.buffers := by
  have hsound := sound_after start steps
  have hfilled := hsound.buffers_prepareForWrite
  refine ⟨hsound, ?_, fun field => ?_, valid_prepareForWrite _, resolved_prepareForWrite _,
    fun between hbetween => ?_⟩
  · rw [hfilled, Buffers.isValid_filled]
  · rw [hfilled, Buffers.get?_filled, getD_after]
  · obtain ⟨hbuffers, hprepared⟩ :=
      performAll_of_prepared (prepared_prepareForWrite (after start steps)) hbetween
    rw [prepareForWrite, if_pos hprepared, hbuffers]

/-- read without a schema version, filled, and then changed in the data -/
def changedSteps : List Step := [.prepareForWrite, .set .data [7], .prepareAfterRead, .setReferences]

theorem prepareForWrite_after_changed :
    (after (.ofBuffers { data := some [1], relations := some [] }) changedSteps).resolved = true
      ∧ (after (.ofBuffers { data := some [1], relations := some [] }) changedSteps).buffers.isValid
          = true
      ∧ ((after (.ofBuffers { data := some [1], relations := some [] })
          changedSteps).prepareForWrite.performAll
            [.setReferences, .prepareAfterRead]).prepareForWrite.buffers = .complete [7] [] [] 1 := by
  obtain ⟨hsound, -, -, -, -, hagain⟩ :=
    prepareForWrite_after (.ofBuffers { data := some [1], relations := some [] }) changedSteps
  have hresolved : (after (.ofBuffers { data := some [1], relations := some [] })
      changedSteps).resolved = true := by decide
  refine ⟨hresolved, hsound.isValid_of_valid (hsound.valid_of_resolved hresolved), ?_⟩
  rw [hagain [.setReferences, .prepareAfterRead] (by decide)]
  decide

end Collection

end EventMerge
