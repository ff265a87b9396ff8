import EventMerge.Proofs.Json.Payload
import EventMerge.Table.Document

/-!
# Table documents, saved and loaded

* `Cell.ofTree?_toTree`, `TableDocument.ofTree?_toTree`  cells and documents;
* `TableDocument.load_save`       a document that was saved can be loaded;
* `documents_read_back`           so can payloads and identity tables.
-/

namespace EventMerge

open Json (Tree Record Slot)
open Json.Tree (ofFields ofOption ofList)

/-! ## cells -/

namespace Cell

/-- the fields of a cell, of which two may be left out -/
def fields (c : Cell) : List (String × Tree) :=
  [("data", .ofOctets c.data)]
    ++ optionalField "relations" (ofList .ofOctets) c.relations
    ++ optionalField "vector_members" (ofList VectorMember.toTree) c.vectorMembers
    ++ [("schema_version", ofOption Buffers.versionToTree c.schemaVersion)]

theorem recordOf?_toTree (c : Cell) :
    Record.ofTree? ["data", "relations", "vector_members", "schema_version"] c.toTree
      = some [.given (.ofOctets c.data),
          c.relations.elim .missing fun r => .given (ofList .ofOctets r),
          c.vectorMembers.elim .missing fun m => .given (ofList VectorMember.toTree m),
          .given (ofOption Buffers.versionToTree c.schemaVersion)] := by
  have hoptional : ∀ (name : String) {α : Type} (write : α → Tree) (o : Option α),
      ((optionalField name write o).map Prod.fst).Sublist [name] := by
    intro name α write o
    cases o with
    | none => exact List.nil_sublist _
    | some a => exact List.Sublist.refl _
  have hsublist : (c.fields.map Prod.fst).Sublist
      (["data"] ++ ["relations"] ++ ["vector_members"] ++ ["schema_version"]) := by
    rw [fields, List.map_append, List.map_append, List.map_append]
    exact (((List.Sublist.refl _).append (hoptional _ _ _)).append (hoptional _ _ _)).append
      (List.Sublist.refl _)
  have hrecord := Record.ofTree?_ofFields _ _ hsublist (by decide)
  have htree : ofFields c.fields = c.toTree := rfl
  rw [htree] at hrecord
  refine hrecord.trans ?_
  obtain ⟨data, relations, members, version⟩ := c
  cases relations <;> cases members <;> rfl

theorem ofTree?_toTree (c : Cell) : ofTree? c.toTree = some c := by
  have hversion := Json.optional?_ofOption Buffers.versionOfTree?_versionToTree
    (fun _ => nofun) c.schemaVersion
  have hrelations : ∀ r, Json.optional? (Json.list? Json.octets?) (ofList Tree.ofOctets r)
      = some (some r) := fun r =>
    Json.optional?_some (Json.list?_ofList Json.octets?_ofOctets r) nofun
  have hmembers : ∀ m, Json.optional? (Json.list? VectorMember.ofTree?)
      (ofList VectorMember.toTree m) = some (some m) := fun m =>
    Json.optional?_some (Json.list?_ofList VectorMember.ofTree?_toTree m) nofun
  rw [ofTree?, recordOf?_toTree]
  obtain ⟨data, relations, members, version⟩ := c
  cases relations <;> cases members <;>
    simp only [Option.elim, Slot.required?, Slot.withDefault?, Json.octets?_ofOctets, hrelations,
      hmembers, hversion]

theorem isWritten_toTree (c : Cell) : c.toTree.IsWritten := by
  have hoptional : ∀ (name : String) {α : Type} (write : α → Tree) (o : Option α),
      (∀ a, (write a).IsWritten) → ∀ field ∈ optionalField name write o, field.2.IsWritten := by
    intro name α write o hwrite field hmem
    cases o with
    | none => cases hmem
    | some a =>
      rw [List.mem_singleton.mp hmem]
      exact hwrite a
  refine Tree.isWritten_ofFields fun field hmem => ?_
  rcases List.mem_append.mp hmem with hmem | hmem
  · rcases List.mem_append.mp hmem with hmem | hmem
    · rcases List.mem_append.mp hmem with hmem | hmem
      · rw [List.mem_singleton.mp hmem]
        exact Tree.isWritten_ofOctets c.data
      · exact hoptional _ _ _ (Tree.isWritten_ofList Tree.isWritten_ofOctets) field hmem
    · exact hoptional _ _ _ (Tree.isWritten_ofList VectorMember.isWritten_toTree) field hmem
  · rw [List.mem_singleton.mp hmem]
    exact Tree.isWritten_ofOption Buffers.isWritten_versionToTree c.schemaVersion

theorem toTree_ne_null (c : Cell) : c.toTree ≠ .null := nofun

end Cell

namespace Row

theorem ofTree?_toTree (row : Row) : ofTree? row.toTree = some row :=
  Json.list?_ofList (Json.optional?_ofOption Cell.ofTree?_toTree Cell.toTree_ne_null) row

end Row

/-! ## documents -/

namespace TableDocument

theorem ofTree?_toTree (d : TableDocument) : ofTree? d.toTree = some d := by
  have hrecord : Record.ofTree? ["collections", "metadata", "rows"] d.toTree
      = some [.given (ofList Tree.ofText d.collections), .given (.ofMap Tree.ofText d.metadata),
          .given (ofList Row.toTree d.rows)] :=
    Record.ofTree?_ofFields ["collections", "metadata", "rows"]
      [("collections", ofList Tree.ofText d.collections), ("metadata", .ofMap Tree.ofText d.metadata),
        ("rows", ofList Row.toTree d.rows)] (List.Sublist.refl _) (by decide)
  rw [ofTree?, hrecord]
  simp only [Slot.required?, Slot.withDefault?, Json.list?_ofList Json.text?_ofText,
    Json.map?_ofMap Json.text?_ofText, Json.list?_ofList Row.ofTree?_toTree]

theorem isWritten_toTree (d : TableDocument) : d.toTree.IsWritten := by
  refine Tree.isWritten_ofFields fun field hmem => ?_
  simp only [List.mem_cons, List.not_mem_nil, or_false] at hmem
  rcases hmem with rfl | rfl | rfl
  · exact Tree.isWritten_ofList Tree.isWritten_ofText d.collections
  · exact Tree.isWritten_ofMap Tree.isWritten_ofText d.metadata
  · exact Tree.isWritten_ofList
      (Tree.isWritten_ofList (Tree.isWritten_ofOption Cell.isWritten_toTree)) d.rows

/-- **A document that was saved can be loaded, and nothing is lost.** -/
theorem load_save (path : String) (d : TableDocument) : load path d.save = .ok d := by
  rw [load, save, Tree.parse?_pretty d.isWritten_toTree, Option.bind_some, ofTree?_toTree]

end TableDocument

/-- **Documents are read back, and nothing is lost.**  A table document that was saved is loaded as it
was; a payload and an identity table are read back from their text, with or without line breaks. -/
theorem documents_read_back :
    (∀ (path : String) (d : TableDocument), TableDocument.load path d.save = .ok d)
      ∧ (∀ b : Buffers, (Tree.parse? b.toTree.compact).bind Buffers.ofTree? = some b
          ∧ (Tree.parse? b.toTree.pretty).bind Buffers.ofTree? = some b)
      ∧ ∀ table : IdentityTable,
          (Tree.parse? table.toTree.compact).bind IdentityTable.ofTree? = some table
            ∧ (Tree.parse? table.toTree.pretty).bind IdentityTable.ofTree? = some table :=
  ⟨TableDocument.load_save,
    fun b => Tree.read_back b.isWritten_toTree b.ofTree?_toTree,
    fun table => Tree.read_back table.isWritten_toTree table.ofTree?_toTree⟩

end EventMerge
