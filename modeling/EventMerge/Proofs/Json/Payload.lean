import EventMerge.Json.Payload
import EventMerge.Proofs.Json.Printing
import EventMerge.Proofs.Names

/-!
# Payloads and identity tables, written and read back

A field that was never set is written as `null`, one that was set to nothing as an empty list, and
reading keeps the two apart.

* `Json.all?_map`, `Json.optional?_ofOption`, `Json.map?_ofMap`  what is built from values is read
                                  back if the values are;
* `Json.Record.ofTree?_ofFields`  the fields of a record;
* `Buffers.ofTree?_toTree`        payloads, each field unset, set to nothing or set to content;
* `IdentityTable.ofTree?_toTree`  identity tables, their sources in order;
* `Json.Tree.read_back`           from the tree to the text.
-/

namespace EventMerge

open Json (Tree Record Slot)
open Json.Tree (ofFields ofOption ofList)

/-! ## composition -/

namespace Json

variable {α : Type}

theorem all?_map {read : Tree → Option α} {write : α → Tree} (l : List α)
    (h : ∀ a ∈ l, read (write a) = some a) : all? read (l.map write) = some l := by
  induction l with
  | nil => rfl
  | cons a rest ih =>
    rw [List.map_cons, all?, h a List.mem_cons_self]
    dsimp only
    rw [ih fun b hb => h b (List.mem_cons_of_mem _ hb), Option.map_some]

theorem list?_ofList {read : Tree → Option α} {write : α → Tree}
    (h : ∀ a, read (write a) = some a) (l : List α) : list? read (ofList write l) = some l :=
  all?_map l fun a _ => h a

theorem octets?_ofOctets (octets : Bytes) : octets? (Tree.ofOctets octets) = some octets :=
  all?_map octets fun b _ => octet?_ofNat b

theorem text?_ofText (text : String) : text? (Tree.ofText text) = some text :=
  Literal.text?_ofText text

theorem optional?_some {read : Tree → Option α} {t : Tree} {a : α} (h : read t = some a)
    (hnull : t ≠ .null) : optional? read t = some (some a) := by
  unfold optional?
  split
  · exact absurd rfl hnull
  · rw [h, Option.map_some]

theorem optional?_ofOption {read : Tree → Option α} {write : α → Tree}
    (h : ∀ a, read (write a) = some a) (hnull : ∀ a, write a ≠ .null) (o : Option α) :
    optional? read (ofOption write o) = some o := by
  cases o with
  | none => rfl
  | some a => exact optional?_some (h a) (hnull a)

/-- a field of an object that stands for a map -/
def member? (read : Tree → Option α) (field : Bytes × Tree) : Option (String × α) :=
  match Literal.text? field.1, read field.2 with
  | some name, some value => some (name, value)
  | _, _ => none

theorem map?_object (read : Tree → Option α) (fields : List (Bytes × Tree)) :
    map? read (.object fields) = (all? (member? read) fields).map NameMap.ofList := rfl

theorem all?_member? {read : Tree → Option α} {write : α → Tree} (h : ∀ a, read (write a) = some a)
    (entries : List (String × α)) :
    all? (member? read) ((entries.map fun entry => (entry.1, write entry.2)).map fun field =>
      (Literal.ofText field.1, field.2)) = some entries := by
  induction entries with
  | nil => rfl
  | cons entry rest ih =>
    have hentry : member? read (Literal.ofText entry.1, write entry.2) = some entry := by
      rw [member?, Literal.text?_ofText, h]
    rw [List.map_cons, List.map_cons, all?, hentry]
    dsimp only
    rw [ih, Option.map_some]

theorem map?_ofMap {read : Tree → Option α} {write : α → Tree}
    (h : ∀ a, read (write a) = some a) (m : NameMap α) :
    map? read (Tree.ofMap write m) = some m := by
  rw [Tree.ofMap, Tree.ofFields, map?_object, all?_member? h, Option.map_some, m.ofList_entries]

namespace Record

theorem knownFields?_map {names : List String} {fields : List (String × Tree)}
    (hnames : ∀ field ∈ fields, field.1 ∈ names) (hnodup : (fields.map Prod.fst).Nodup) :
    knownFields? names (fields.map fun field => (Literal.ofText field.1, field.2))
      = some fields := by
  induction fields with
  | nil => rfl
  | cons field rest ih =>
    obtain ⟨hnew, hrest⟩ := List.nodup_cons.mp hnodup
    have hknown : names.contains field.1 = true :=
      List.contains_iff_mem.mpr (hnames field List.mem_cons_self)
    have hunique : rest.any (·.1 == field.1) = false := by
      rw [List.any_eq_false]
      intro other hmem heq
      exact hnew (eq_of_beq heq ▸ List.mem_map_of_mem hmem)
    rw [List.map_cons, knownFields?, Literal.text?_ofText,
      ih (fun other hmem => hnames other (List.mem_cons_of_mem _ hmem)) hrest]
    dsimp only
    rw [if_pos hknown, hunique]
    rfl

/-- the fields of a record that are written in their order, some of them left out -/
theorem ofTree?_ofFields (names : List String) (fields : List (String × Tree))
    (h : (fields.map Prod.fst).Sublist names) (hnames : names.Nodup) :
    Record.ofTree? names (ofFields fields) = some (names.map (slotOf fields)) := by
  have hmem : ∀ field ∈ fields, field.1 ∈ names := fun field hfield =>
    h.subset (List.mem_map_of_mem hfield)
  rw [ofFields, Record.ofTree?, knownFields?_map hmem (hnames.sublist h), Option.map_some]

end Record

end Json

/-! ## payloads -/

theorem VectorMember.ofTree?_toTree (m : VectorMember) : ofTree? m.toTree = some m := by
  have hrecord : Record.ofTree? ["name", "payload"] m.toTree
      = some [.given (.ofText m.name), .given (.ofOctets m.payload)] :=
    Record.ofTree?_ofFields ["name", "payload"]
      [("name", .ofText m.name), ("payload", .ofOctets m.payload)] (List.Sublist.refl _) (by decide)
  rw [ofTree?, hrecord]
  simp only [Slot.required?, Json.text?_ofText, Json.octets?_ofOctets]

theorem Buffers.versionOfTree?_versionToTree (version : UInt32) :
    versionOfTree? (versionToTree version) = some version := by
  have hlimit : version.toNat ≤ schemaLimit := by
    have := version.toNat_lt
    unfold schemaLimit
    omega
  rw [versionOfTree?, versionToTree, Json.natural?_ofNat hlimit, Option.map_some,
    UInt32.ofNat_toNat]

namespace VectorMember

theorem isWritten_toTree (m : VectorMember) : m.toTree.IsWritten := by
  refine Tree.isWritten_ofFields fun field hmem => ?_
  simp only [List.mem_cons, List.not_mem_nil, or_false] at hmem
  rcases hmem with rfl | rfl
  · exact Tree.isWritten_ofText m.name
  · exact Tree.isWritten_ofOctets m.payload

end VectorMember

namespace Buffers

theorem isWritten_versionToTree (version : UInt32) : (versionToTree version).IsWritten :=
  Tree.isWritten_ofNat version.toNat

theorem recordOf?_toTree (b : Buffers) :
    Record.ofTree? ["data", "relations", "vector_members", "schema_version"] b.toTree
      = some [.given (ofOption .ofOctets b.data), .given (ofOption (ofList .ofOctets) b.relations),
          .given (ofOption (ofList VectorMember.toTree) b.vectorMembers),
          .given (ofOption versionToTree b.schemaVersion)] :=
  Record.ofTree?_ofFields ["data", "relations", "vector_members", "schema_version"]
    [("data", ofOption .ofOctets b.data), ("relations", ofOption (ofList .ofOctets) b.relations),
      ("vector_members", ofOption (ofList VectorMember.toTree) b.vectorMembers),
      ("schema_version", ofOption versionToTree b.schemaVersion)]
    (List.Sublist.refl _) (by decide)

/-- **Each field of a payload is read back as it was**: unset, set to nothing or set to content. -/
theorem ofTree?_toTree (b : Buffers) : ofTree? b.toTree = some b := by
  have hdata := Json.optional?_ofOption Json.octets?_ofOctets (fun _ => nofun) b.data
  have hrelations := Json.optional?_ofOption (Json.list?_ofList Json.octets?_ofOctets)
    (fun _ => nofun) b.relations
  have hmembers := Json.optional?_ofOption (Json.list?_ofList VectorMember.ofTree?_toTree)
    (fun _ => nofun) b.vectorMembers
  have hversion := Json.optional?_ofOption versionOfTree?_versionToTree (fun _ => nofun)
    b.schemaVersion
  rw [ofTree?, recordOf?_toTree]
  simp only [Slot.omissible?, hdata, hrelations, hmembers, hversion]

theorem isWritten_toTree (b : Buffers) : b.toTree.IsWritten := by
  refine Tree.isWritten_ofFields fun field hmem => ?_
  simp only [List.mem_cons, List.not_mem_nil, or_false] at hmem
  rcases hmem with rfl | rfl | rfl | rfl
  · exact Tree.isWritten_ofOption Tree.isWritten_ofOctets b.data
  · exact Tree.isWritten_ofOption (Tree.isWritten_ofList Tree.isWritten_ofOctets) b.relations
  · exact Tree.isWritten_ofOption (Tree.isWritten_ofList VectorMember.isWritten_toTree)
      b.vectorMembers
  · exact Tree.isWritten_ofOption isWritten_versionToTree b.schemaVersion

end Buffers

/-! ## identities -/

theorem SourceId.ofTree?_toTree (source : SourceId) : ofTree? source.toTree = some source := by
  have hlow : -0x80000000 ≤ source.toInt := source.value.le_toInt
  have hhigh : source.toInt ≤ 0x80000000 - 1 := source.value.toInt_le
  rw [ofTree?, toTree, Json.integer?_ofInt hlow hhigh, Option.map_some]
  exact congrArg (fun value => some (SourceId.mk value)) (Int32.ofInt_toInt source.value)

theorem LocalIndex.ofTree?_toTree (index : LocalIndex) : ofTree? index.toTree = some index := by
  have hbound : index.toNat ≤ 0x100000000 - 1 := Nat.le_sub_one_of_lt index.value.toNat_lt
  rw [ofTree?, toTree, Json.natural?_ofNat hbound, Option.map_some]
  exact congrArg (fun value => some (LocalIndex.mk value)) (UInt32.ofNat_toNat)

namespace IdentityTable

theorem entryOfTree?_entryToTree (entry : SourceId × SourceEntries) :
    entryOfTree? (entryToTree entry) = some entry := by
  rw [entryToTree, entryOfTree?, SourceId.ofTree?_toTree,
    Json.map?_ofMap LocalIndex.ofTree?_toTree]

/-- **An identity table is read back with its sources in their order.** -/
theorem ofTree?_toTree (table : IdentityTable) : ofTree? table.toTree = some table := by
  have hrecord : Record.ofTree? ["sources"] table.toTree
      = some [.given (ofList entryToTree table.sources)] :=
    Record.ofTree?_ofFields ["sources"] [("sources", ofList entryToTree table.sources)]
      (List.Sublist.refl _) (by decide)
  rw [ofTree?, hrecord]
  simp only [Slot.required?, Json.list?_ofList entryOfTree?_entryToTree]

theorem isWritten_toTree (table : IdentityTable) : table.toTree.IsWritten := by
  have hentry : ∀ entry, (entryToTree entry).IsWritten := by
    intro entry
    refine (Tree.areWritten_iff _).mpr fun item hmem => ?_
    simp only [List.mem_cons, List.not_mem_nil, or_false] at hmem
    rcases hmem with rfl | rfl
    · exact Tree.isWritten_ofInt entry.1.toInt
    · exact Tree.isWritten_ofMap (fun index => Tree.isWritten_ofNat index.toNat) entry.2
  refine Tree.isWritten_ofFields fun field hmem => ?_
  rw [List.mem_singleton.mp hmem]
  exact Tree.isWritten_ofList hentry table.sources

end IdentityTable

/-! ## texts -/

/-- what is read back from its tree is read back from either text -/
theorem Json.Tree.read_back {α : Type} {write : α → Tree} {read : Tree → Option α} {a : α}
    (hwritten : (write a).IsWritten) (hread : read (write a) = some a) :
    (parse? (write a).compact).bind read = some a ∧ (parse? (write a).pretty).bind read = some a := by
  rw [parse?_compact hwritten, parse?_pretty hwritten]
  exact ⟨hread, hread⟩

end EventMerge
