import EventMerge.Buffers

/-!
# Collections

A collection is a payload with three marks: `valid` (its fields were all set when they were last
looked at), `resolved` (its references were bound while it was valid) and `prepared` (its unset
fields were filled for writing).  Setting a field removes all three.

* `Collection.ofBuffers`        a payload that was read: checked, then resolved;
* `Collection.prepareForWrite`  fills the unset fields, once.
-/

namespace EventMerge

/-- a payload with the marks of reading and writing -/
structure Collection where
  buffers : Buffers := {}
  valid : Bool := false
  resolved : Bool := false
  prepared : Bool := false
  deriving DecidableEq

namespace Collection

instance : Inhabited Collection := ⟨{}⟩

/-- a payload whose fields have just changed: no mark holds any more -/
def touched (buffers : Buffers) : Collection := { buffers := buffers }

def setData (c : Collection) (data : Bytes) : Collection :=
  touched { c.buffers with data := some data }

def setRelations (c : Collection) (relations : List Bytes) : Collection :=
  touched { c.buffers with relations := some relations }

def setVectorMembers (c : Collection) (members : List VectorMember) : Collection :=
  touched { c.buffers with vectorMembers := some members }

def setSchemaVersion (c : Collection) (version : UInt32) : Collection :=
  touched { c.buffers with schemaVersion := some version }

def prepareAfterRead (c : Collection) : Collection := { c with valid := c.buffers.isValid }

/-- binds the references of a valid collection; an invalid one stays unresolved -/
def setReferences (c : Collection) : Collection := { c with resolved := c.valid }

def prepareForWrite (c : Collection) : Collection :=
  if c.prepared then c else { c with buffers := c.buffers.filled, prepared := true }

def ofBuffers (buffers : Buffers) : Collection := (touched buffers).prepareAfterRead.setReferences

def relations (c : Collection) : List Bytes := c.buffers.relations.getD []

def vectorMembers (c : Collection) : List VectorMember := c.buffers.vectorMembers.getD []

theorem valid_prepareForWrite (c : Collection) : c.prepareForWrite.valid = c.valid := by
  rw [prepareForWrite]
  split <;> rfl

theorem resolved_prepareForWrite (c : Collection) : c.prepareForWrite.resolved = c.resolved := by
  rw [prepareForWrite]
  split <;> rfl

theorem prepared_prepareForWrite (c : Collection) : c.prepareForWrite.prepared = true := by
  rw [prepareForWrite]
  split
  · assumption
  · rfl

theorem prepareForWrite_prepareForWrite (c : Collection) :
    c.prepareForWrite.prepareForWrite = c.prepareForWrite := by
  rw [prepareForWrite, if_pos c.prepared_prepareForWrite]

end Collection

end EventMerge
