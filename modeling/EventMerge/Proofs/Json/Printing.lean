import EventMerge.Proofs.Json.Leaves

/-!
# Documents, printed and parsed

The lines and blanks that are put between the parts of a document are passed over when it is read, so
a document gives back its tree, whether it is written over several lines or without any blanks.  Every
value takes at least one octet and costs at most two steps, which is why twice the length of its text
is enough.

* `Tree.IsWritten`      a tree whose leaves were written for numbers and texts;
* `Layout`, `Tree.printed`  a document with any blanks at the beginning of its lines and after its
                        colons; `Tree.prettyAt` and `Tree.compact` are two cases;
* `Parser.value?_printed`, `Parser.items?_itemLines`, `Parser.fields?_fieldLines`  one case for
                        each kind of part;
* `Tree.parse?_pretty`, `Tree.parse?_compact`  a whole document.
-/

namespace EventMerge.Json

open Text

/-! ## trees that are written -/

namespace Tree

mutual

/-- every number is one token, and every string was written for octets -/
def IsWritten : Tree → Prop
  | .number token => Numeral.IsToken token
  | .string raw => ∃ octets, raw = Literal.ofOctets octets
  | .array items => AreWritten items
  | .object fields => AreWrittenFields fields
  | _ => True

def AreWritten : List Tree → Prop
  | [] => True
  | item :: rest => IsWritten item ∧ AreWritten rest

def AreWrittenFields : List (Bytes × Tree) → Prop
  | [] => True
  | (key, value) :: rest =>
    (∃ octets, key = Literal.ofOctets octets) ∧ IsWritten value ∧ AreWrittenFields rest

end

theorem areWritten_iff (items : List Tree) : AreWritten items ↔ ∀ item ∈ items, IsWritten item := by
  induction items with
  | nil => simp [AreWritten]
  | cons item rest ih => simp [AreWritten, ih]

theorem areWrittenFields_iff (fields : List (Bytes × Tree)) :
    AreWrittenFields fields
      ↔ ∀ field ∈ fields, (∃ octets, field.1 = Literal.ofOctets octets) ∧ IsWritten field.2 := by
  induction fields with
  | nil => simp [AreWrittenFields]
  | cons field rest ih =>
    obtain ⟨key, value⟩ := field
    simp [AreWrittenFields, ih, and_assoc]

section

variable {α : Type} {write : α → Tree}

theorem isWritten_ofNat (n : Nat) : (ofNat n).IsWritten := Numeral.isToken_ofNat n

theorem isWritten_ofInt (n : Int) : (ofInt n).IsWritten := by
  cases n with
  | ofNat n => exact isWritten_ofNat n
  | negSucc n => exact Numeral.isToken_minus (n + 1)

theorem isWritten_ofText (text : String) : (ofText text).IsWritten := ⟨Bytes.ofText text, rfl⟩

theorem isWritten_ofOption (h : ∀ a, (write a).IsWritten) (o : Option α) :
    (ofOption write o).IsWritten := by
  cases o with
  | none => trivial
  | some a => exact h a

theorem isWritten_ofList (h : ∀ a, (write a).IsWritten) (l : List α) :
    (ofList write l).IsWritten := by
  refine (areWritten_iff _).mpr fun item hmem => ?_
  obtain ⟨a, -, rfl⟩ := List.mem_map.mp hmem
  exact h a

theorem isWritten_ofOctets (octets : Bytes) : (ofOctets octets).IsWritten := by
  have hdigit : ∀ b : UInt8, (ofNat b.toNat).IsWritten := fun b => isWritten_ofNat b.toNat
  exact isWritten_ofList hdigit octets

theorem isWritten_ofFields {fields : List (String × Tree)}
    (h : ∀ field ∈ fields, field.2.IsWritten) : (ofFields fields).IsWritten := by
  refine (areWrittenFields_iff _).mpr fun field hmem => ?_
  obtain ⟨source, hsource, rfl⟩ := List.mem_map.mp hmem
  exact ⟨⟨Bytes.ofText source.1, rfl⟩, h source hsource⟩

theorem isWritten_ofMap (h : ∀ a, (write a).IsWritten) (m : NameMap α) :
    (ofMap write m).IsWritten := by
  refine isWritten_ofFields fun field hmem => ?_
  obtain ⟨entry, -, rfl⟩ := List.mem_map.mp hmem
  exact h entry.2

end

end Tree

namespace Parser

/-! ## blanks -/

/-- nothing but blanks -/
def AreBlank (blanks : Bytes) : Prop := ∀ b ∈ blanks, isBlank b = true

theorem skipBlanks_append {blanks : Bytes} (h : AreBlank blanks) (text : Bytes) :
    skipBlanks (blanks ++ text) = skipBlanks text := List.dropWhile_append_of_pos h

theorem skipBlanks_cons {b : UInt8} (h : isBlank b = false) (text : Bytes) :
    skipBlanks (b :: text) = b :: text :=
  List.dropWhile_cons_of_neg (by rw [h]; exact Bool.false_ne_true)

theorem areBlank_newLine (level : Nat) : AreBlank (Tree.newLine level) := by
  intro b hb
  rcases List.mem_cons.mp hb with rfl | hb
  · rfl
  · rw [(List.mem_replicate.mp hb).2]
    rfl

theorem value?_append {blanks : Bytes} (h : AreBlank blanks) (fuel : Nat) (text : Bytes) :
    value? fuel (blanks ++ text) = value? fuel text := by
  cases fuel with
  | zero => rfl
  | succ fuel => rw [value?, value?, skipBlanks_append h]

theorem items?_append {blanks : Bytes} (h : AreBlank blanks) (fuel : Nat) (text : Bytes) :
    items? fuel (blanks ++ text) = items? fuel text := by
  cases fuel with
  | zero => rfl
  | succ fuel => rw [items?, items?, value?_append h]

theorem fields?_append {blanks : Bytes} (h : AreBlank blanks) (fuel : Nat) (text : Bytes) :
    fields? fuel (blanks ++ text) = fields? fuel text := by
  cases fuel with
  | zero => rfl
  | succ fuel => rw [fields?, fields?, skipBlanks_append h]

end Parser

/-! ## layouts -/

/-- how a document is laid out: what begins the lines of a level and what stands after a colon, which
is blank -/
structure Layout where
  line : Nat → Bytes
  gap : Bytes
  areBlank_line : ∀ level, Parser.AreBlank (line level)
  areBlank_gap : Parser.AreBlank gap

namespace Layout

/-- several lines, each level indented by two spaces -/
def pretty : Layout where
  line := Tree.newLine
  gap := [Ascii.space]
  areBlank_line := Parser.areBlank_newLine
  areBlank_gap := by
    intro b hb
    rw [List.mem_singleton.mp hb]
    rfl

/-- no blanks at all -/
def compact : Layout where
  line := fun _ => []
  gap := []
  areBlank_line := fun _ _ => nofun
  areBlank_gap := nofun

/-- what stands between two entries of a level -/
def separator (layout : Layout) (level : Nat) : Bytes := Ascii.comma :: layout.line level

/-- entries between brackets; nothing at all between them if there are none -/
def block (layout : Layout) (opening closing : UInt8) (level : Nat) : List Bytes → Bytes
  | [] => [opening, closing]
  | entries =>
    opening :: layout.line (level + 1) ++ Tree.joinWith (layout.separator (level + 1)) entries
      ++ layout.line level ++ [closing]

theorem block_compact (opening closing : UInt8) (level : Nat) (entries : List Bytes) :
    compact.block opening closing level entries
      = opening :: Tree.joinWith [Ascii.comma] entries ++ [closing] := by
  cases entries with
  | nil => rfl
  | cons entry rest =>
    show opening :: [] ++ Tree.joinWith [Ascii.comma] (entry :: rest) ++ [] ++ [closing] = _
    rw [List.append_nil]
    rfl

end Layout

namespace Tree

mutual

/-- the text of a tree in a layout -/
def printed (layout : Layout) (level : Nat) : Tree → Bytes
  | null => nullToken
  | bool value => if value then trueToken else falseToken
  | number token => token
  | string raw => quoted raw
  | array items =>
    layout.block Ascii.openBracket Ascii.closeBracket level
      (printedItems layout (level + 1) items)
  | object fields =>
    layout.block Ascii.openBrace Ascii.closeBrace level (printedFields layout (level + 1) fields)

def printedItems (layout : Layout) (level : Nat) : List Tree → List Bytes
  | [] => []
  | item :: rest => printed layout level item :: printedItems layout level rest

def printedFields (layout : Layout) (level : Nat) : List (Bytes × Tree) → List Bytes
  | [] => []
  | (key, value) :: rest =>
    (quoted key ++ Ascii.colon :: layout.gap ++ printed layout level value)
      :: printedFields layout level rest

end

theorem block_pretty (opening closing : UInt8) (level : Nat) (entries : List Bytes) :
    Layout.pretty.block opening closing level entries = block opening closing level entries := by
  cases entries <;> rfl

mutual

theorem printed_pretty : ∀ (t : Tree) (level : Nat), t.printed .pretty level = t.prettyAt level
  | .null, _ => rfl
  | .bool _, _ => rfl
  | .number _, _ => rfl
  | .string _, _ => rfl
  | .array items, level => by
    rw [printed, prettyAt, block_pretty, printedItems_pretty items (level + 1)]
  | .object fields, level => by
    rw [printed, prettyAt, block_pretty, printedFields_pretty fields (level + 1)]

theorem printedItems_pretty : ∀ (items : List Tree) (level : Nat),
    printedItems .pretty level items = prettyItems level items
  | [], _ => rfl
  | item :: rest, level => by
    rw [printedItems, prettyItems, printed_pretty item level, printedItems_pretty rest level]

theorem printedFields_pretty : ∀ (fields : List (Bytes × Tree)) (level : Nat),
    printedFields .pretty level fields = prettyFields level fields
  | [], _ => rfl
  | (key, value) :: rest, level => by
    rw [printedFields, prettyFields, printed_pretty value level, printedFields_pretty rest level]
    rfl

end

mutual

theorem printed_compact : ∀ (t : Tree) (level : Nat), t.printed .compact level = t.compact
  | .null, _ => rfl
  | .bool _, _ => rfl
  | .number _, _ => rfl
  | .string _, _ => rfl
  | .array items, level => by
    rw [printed, compact, Layout.block_compact, printedItems_compact items (level + 1)]
  | .object fields, level => by
    rw [printed, compact, Layout.block_compact, printedFields_compact fields (level + 1)]

theorem printedItems_compact : ∀ (items : List Tree) (level : Nat),
    printedItems .compact level items = compactItems items
  | [], _ => rfl
  | item :: rest, level => by
    rw [printedItems, compactItems, printed_compact item level, printedItems_compact rest level]

theorem printedFields_compact : ∀ (fields : List (Bytes × Tree)) (level : Nat),
    printedFields .compact level fields = compactFields fields
  | [], _ => rfl
  | (key, value) :: rest, level => by
    rw [printedFields, compactFields, printed_compact value level,
      printedFields_compact rest level, List.append_assoc]
    rfl

end

end Tree

namespace Parser

/-! ## leaves -/

/-- a number does not go on in this text -/
def Ends (text : Bytes) : Prop := ∀ b rest, text = b :: rest → Numeral.isTokenByte b = false

theorem ends_cons {b : UInt8} (h : Numeral.isTokenByte b = false) (rest : Bytes) :
    Ends (b :: rest) := by
  rintro _ _ ⟨⟩
  exact h

theorem number?_token {token rest : Bytes} (htoken : Numeral.IsToken token) (h : Ends rest) :
    number? (token ++ rest) = some (.number token, rest) := by
  have hstop : rest.takeWhile Numeral.isTokenByte = []
      ∧ rest.dropWhile Numeral.isTokenByte = rest := by
    cases rest with
    | nil => exact ⟨rfl, rfl⟩
    | cons b rest =>
      have hb := h b rest rfl
      exact ⟨List.takeWhile_cons_of_neg (by simp [hb]), List.dropWhile_cons_of_neg (by simp [hb])⟩
  obtain ⟨numeral, hnumeral⟩ := Option.isSome_iff_exists.mp htoken.numeral
  rw [number?, List.takeWhile_append_of_pos htoken.octets,
    List.dropWhile_append_of_pos htoken.octets, hstop.1, hstop.2, List.append_nil, hnumeral]
  rfl

theorem isBlank_of_isDigit {b : UInt8} (h : Ascii.isDigit b = true) : isBlank b = false := by
  unfold isBlank
  split
  any_goals cases h
  rfl

theorem value?_digit {b : UInt8} (h : Ascii.isDigit b = true) (fuel : Nat) (text : Bytes) :
    value? (fuel + 1) (b :: text) = number? (b :: text) := by
  rw [value?, skipBlanks_cons (isBlank_of_isDigit h)]
  -- no case but the last is that of a digit
  split
  any_goals
    rename_i heq
    cases heq
  any_goals cases h
  rfl

/-- what starts with a digit or a minus sign is read as a number -/
theorem value?_number {token : Bytes} (htoken : Numeral.IsToken token) (fuel : Nat)
    (rest : Bytes) : value? (fuel + 1) (token ++ rest) = number? (token ++ rest) := by
  obtain ⟨b, tail, rfl, hdigit | rfl⟩ := htoken.starts
  · exact value?_digit hdigit fuel (tail ++ rest)
  · rfl

theorem isTokenByte_of_isBlank {b : UInt8} (h : isBlank b = true) :
    Numeral.isTokenByte b = false := by
  unfold isBlank at h
  split at h <;> first | rfl | cases h

theorem ends_append {blanks : Bytes} (h : AreBlank blanks) {b : UInt8}
    (hb : Numeral.isTokenByte b = false) (rest : Bytes) : Ends (blanks ++ b :: rest) := by
  cases blanks with
  | nil => exact ends_cons hb rest
  | cons blank blanks => exact ends_cons (isTokenByte_of_isBlank (h blank List.mem_cons_self)) _

/-! ## brackets -/

/-- the text does not start with a blank or with a bracket that closes -/
def Opens (text : Bytes) : Prop :=
  ∃ b rest, text = b :: rest ∧ isBlank b = false ∧ b ≠ Ascii.closeBracket ∧ b ≠ Ascii.closeBrace

theorem Opens.append {text : Bytes} (h : Opens text) (rest : Bytes) : Opens (text ++ rest) := by
  obtain ⟨b, tail, rfl, hb⟩ := h
  exact ⟨b, tail ++ rest, rfl, hb⟩

theorem Opens.length_pos {text : Bytes} (h : Opens text) : 0 < text.length := by
  obtain ⟨b, tail, rfl, -⟩ := h
  exact Nat.succ_pos _

theorem opens_token {token : Bytes} (h : Numeral.IsToken token) : Opens token := by
  obtain ⟨b, rest, rfl, hdigit | rfl⟩ := h.starts
  · exact ⟨b, rest, rfl, isBlank_of_isDigit hdigit, isDigit_ne hdigit rfl, isDigit_ne hdigit rfl⟩
  · exact ⟨0x2D, rest, rfl, rfl, by decide, by decide⟩

theorem opens_printed (layout : Layout) (level : Nat) {t : Tree} (h : t.IsWritten) :
    Opens (t.printed layout level) := by
  cases t with
  | null => exact ⟨_, _, rfl, rfl, by decide, by decide⟩
  | bool value => cases value <;> exact ⟨_, _, rfl, rfl, by decide, by decide⟩
  | number token => exact opens_token h
  | string raw => exact ⟨_, _, rfl, rfl, by decide, by decide⟩
  | array items => cases items <;> exact ⟨_, _, rfl, rfl, by decide, by decide⟩
  | object fields => cases fields <;> exact ⟨_, _, rfl, rfl, by decide, by decide⟩

theorem value?_bracket (fuel : Nat) (text : Bytes) :
    value? (fuel + 1) (Ascii.openBracket :: text)
      = match skipBlanks text with
        | Ascii.closeBracket :: after => some (Tree.array [], after)
        | rest => (items? fuel rest).map fun p => (Tree.array p.1, p.2) := rfl

theorem value?_brace (fuel : Nat) (text : Bytes) :
    value? (fuel + 1) (Ascii.openBrace :: text)
      = match skipBlanks text with
        | Ascii.closeBrace :: after => some (Tree.object [], after)
        | rest => (fields? fuel rest).map fun p => (Tree.object p.1, p.2) := rfl

theorem value?_openBracket (fuel : Nat) {blanks text : Bytes} (hblanks : AreBlank blanks)
    (h : Opens text) :
    value? (fuel + 1) (Ascii.openBracket :: (blanks ++ text))
      = (items? fuel text).map fun p => (.array p.1, p.2) := by
  obtain ⟨b, rest, rfl, hblank, hclose, -⟩ := h
  rw [value?_bracket, skipBlanks_append hblanks, skipBlanks_cons hblank]
  split
  · rename_i heq
    exact absurd (List.cons.inj heq).1 hclose
  · rfl

theorem value?_openBrace (fuel : Nat) {blanks text : Bytes} (hblanks : AreBlank blanks)
    (h : Opens text) :
    value? (fuel + 1) (Ascii.openBrace :: (blanks ++ text))
      = (fields? fuel text).map fun p => (.object p.1, p.2) := by
  obtain ⟨b, rest, rfl, hblank, -, hclose⟩ := h
  rw [value?_brace, skipBlanks_append hblanks, skipBlanks_cons hblank]
  split
  · rename_i heq
    exact absurd (List.cons.inj heq).1 hclose
  · rfl

/-! ## documents -/

/-- the lines of the items of a level -/
def itemLines (layout : Layout) (level : Nat) (items : List Tree) : Bytes :=
  Tree.joinWith (layout.separator level) (Tree.printedItems layout level items)

/-- the lines of the fields of a level -/
def fieldLines (layout : Layout) (level : Nat) (fields : List (Bytes × Tree)) : Bytes :=
  Tree.joinWith (layout.separator level) (Tree.printedFields layout level fields)

section

variable (layout : Layout)

theorem itemLines_cons (level : Nat) (item next : Tree) (rest : List Tree) :
    itemLines layout level (item :: next :: rest)
      = item.printed layout level ++ layout.separator level
        ++ itemLines layout level (next :: rest) := rfl

theorem fieldLines_cons (level : Nat) (key : Bytes) (value : Tree) (next : Bytes × Tree)
    (rest : List (Bytes × Tree)) :
    fieldLines layout level ((key, value) :: next :: rest)
      = Tree.quoted key ++ Ascii.colon :: layout.gap ++ value.printed layout level
        ++ layout.separator level ++ fieldLines layout level (next :: rest) := rfl

theorem printed_array (level : Nat) (item : Tree) (rest : List Tree) :
    (Tree.array (item :: rest)).printed layout level
      = Ascii.openBracket :: layout.line (level + 1)
        ++ itemLines layout (level + 1) (item :: rest)
        ++ layout.line level ++ [Ascii.closeBracket] := rfl

theorem printed_object (level : Nat) (field : Bytes × Tree) (rest : List (Bytes × Tree)) :
    (Tree.object (field :: rest)).printed layout level
      = Ascii.openBrace :: layout.line (level + 1)
        ++ fieldLines layout (level + 1) (field :: rest)
        ++ layout.line level ++ [Ascii.closeBrace] := rfl

theorem opens_itemLines (level : Nat) {item : Tree} (h : item.IsWritten) (rest : List Tree) :
    Opens (itemLines layout level (item :: rest)) := by
  cases rest with
  | nil => exact opens_printed layout level h
  | cons next rest =>
    rw [itemLines_cons, List.append_assoc]
    exact (opens_printed layout level h).append _

theorem opens_fieldLines (level : Nat) (field : Bytes × Tree) (rest : List (Bytes × Tree)) :
    Opens (fieldLines layout level (field :: rest)) := by
  cases rest <;> exact ⟨_, _, rfl, rfl, by decide, by decide⟩

end

section

variable {fuel : Nat} {blanks text rest after : Bytes} {item value : Tree}

theorem items?_last (hblanks : AreBlank blanks)
    (h : value? fuel text = some (item, blanks ++ Ascii.closeBracket :: after)) :
    items? (fuel + 1) text = some ([item], after) := by
  rw [items?, h]
  dsimp only
  rw [skipBlanks_append hblanks]
  rfl

theorem items?_more (h : value? fuel text = some (item, Ascii.comma :: rest)) :
    items? (fuel + 1) text = (items? fuel rest).map fun p => (item :: p.1, p.2) := by
  rw [items?, h]
  rfl

theorem fields?_quote (fuel : Nat) (text : Bytes) :
    fields? (fuel + 1) (Ascii.quoteMark :: text)
      = match string? text with
        | none => none
        | some (key, rest) =>
          match skipBlanks rest with
          | Ascii.colon :: rest =>
            match value? fuel rest with
            | none => none
            | some (value, rest) =>
              match skipBlanks rest with
              | Ascii.comma :: rest => (fields? fuel rest).map fun p => ((key, value) :: p.1, p.2)
              | Ascii.closeBrace :: after => some ([(key, value)], after)
              | _ => none
          | _ => none := rfl

/-- a key between quotes, a colon and the blanks after it are passed over -/
theorem fields?_key {gap : Bytes} (hgap : AreBlank gap) (octets : Bytes) :
    fields? (fuel + 1) (Tree.quoted (Literal.ofOctets octets) ++ Ascii.colon :: gap ++ text)
      = match value? fuel text with
        | none => none
        | some (value, rest) =>
          match skipBlanks rest with
          | Ascii.comma :: rest =>
            (fields? fuel rest).map fun p => ((Literal.ofOctets octets, value) :: p.1, p.2)
          | Ascii.closeBrace :: after => some ([(Literal.ofOctets octets, value)], after)
          | _ => none := by
  have hkey : Tree.quoted (Literal.ofOctets octets) ++ Ascii.colon :: gap ++ text
      = Ascii.quoteMark :: (Literal.ofOctets octets
        ++ Ascii.quoteMark :: (Ascii.colon :: (gap ++ text))) := by
    simp [Tree.quoted]
  rw [hkey, ← value?_append hgap fuel text, fields?_quote, Literal.string?_ofOctets]
  rfl

end

section

variable (layout : Layout)

mutual

theorem value?_printed : ∀ (t : Tree) (level fuel : Nat) (rest : Bytes), t.IsWritten →
    2 * (t.printed layout level).length ≤ fuel → Ends rest →
    value? fuel (t.printed layout level ++ rest) = some (t, rest)
  | t, level, 0, _, h, hfuel, _ => by
    have := (opens_printed layout level h).length_pos
    omega
  | .null, _, _ + 1, _, _, _, _ => rfl
  | .bool true, _, _ + 1, _, _, _, _ => rfl
  | .bool false, _, _ + 1, _, _, _, _ => rfl
  | .number token, level, fuel + 1, rest, h, _, hrest => by
    show value? (fuel + 1) (token ++ rest) = _
    rw [value?_number h]
    exact number?_token h hrest
  | .string raw, level, fuel + 1, rest, h, _, _ => by
    obtain ⟨octets, rfl⟩ := h
    have hquoted : (Tree.string (Literal.ofOctets octets)).printed layout level ++ rest
        = Ascii.quoteMark :: (Literal.ofOctets octets ++ Ascii.quoteMark :: rest) := by
      show Tree.quoted (Literal.ofOctets octets) ++ rest = _
      simp [Tree.quoted]
    rw [hquoted]
    show (string? (Literal.ofOctets octets ++ Ascii.quoteMark :: rest)).map _ = _
    rw [Literal.string?_ofOctets]
    rfl
  | .array [], _, _ + 1, _, _, _, _ => rfl
  | .array (item :: items), level, fuel + 1, rest, h, hfuel, _ => by
    rw [printed_array] at hfuel ⊢
    simp only [List.length_append, List.length_cons] at hfuel
    -- the two brackets pay for the step to the items
    have hopens := opens_itemLines layout (level + 1) h.1 items
    have hitems := items?_itemLines (item :: items) (level + 1) fuel (layout.line level) rest
      (List.cons_ne_nil _ _) h (layout.areBlank_line level) (by omega)
    have hvalue := value?_openBracket fuel (layout.areBlank_line (level + 1))
      (hopens.append (layout.line level ++ Ascii.closeBracket :: rest))
    simp only [List.append_assoc, List.cons_append, List.nil_append] at hvalue ⊢
    rw [hvalue, hitems]
    rfl
  | .object [], _, _ + 1, _, _, _, _ => rfl
  | .object (field :: fields), level, fuel + 1, rest, h, hfuel, _ => by
    rw [printed_object] at hfuel ⊢
    simp only [List.length_append, List.length_cons] at hfuel
    have hopens := opens_fieldLines layout (level + 1) field fields
    have hfields := fields?_fieldLines (field :: fields) (level + 1) fuel (layout.line level) rest
      (List.cons_ne_nil _ _) h (layout.areBlank_line level) (by omega)
    have hvalue := value?_openBrace fuel (layout.areBlank_line (level + 1))
      (hopens.append (layout.line level ++ Ascii.closeBrace :: rest))
    simp only [List.append_assoc, List.cons_append, List.nil_append] at hvalue ⊢
    rw [hvalue, hfields]
    rfl

theorem items?_itemLines : ∀ (items : List Tree) (level fuel : Nat) (blanks after : Bytes),
    items ≠ [] → Tree.AreWritten items → AreBlank blanks →
    2 * (itemLines layout level items).length + 1 ≤ fuel →
    items? fuel (itemLines layout level items ++ (blanks ++ Ascii.closeBracket :: after))
      = some (items, after)
  | [], _, _, _, _, hne, _, _, _ => absurd rfl hne
  | _, _, 0, _, _, _, _, _, hfuel => absurd hfuel (Nat.not_succ_le_zero _)
  | [item], level, fuel + 1, blanks, after, _, h, hblanks, hfuel =>
    items?_last hblanks (value?_printed item level fuel _ h.1 (Nat.le_of_succ_le_succ hfuel)
      (ends_append hblanks rfl after))
  | item :: next :: rest, level, fuel + 1, blanks, after, _, h, hblanks, hfuel => by
    rw [itemLines_cons] at hfuel ⊢
    simp only [List.length_append, Layout.separator, List.length_cons] at hfuel
    have hvalue := value?_printed item level fuel
      (layout.separator level
        ++ (itemLines layout level (next :: rest) ++ (blanks ++ Ascii.closeBracket :: after)))
      h.1 (by omega) (ends_cons rfl _)
    have hitems := items?_itemLines (next :: rest) level fuel blanks after
      (List.cons_ne_nil _ _) h.2 hblanks (by omega)
    rw [List.append_assoc, List.append_assoc, items?_more hvalue]
    show (items? fuel (layout.line level ++ _)).map _ = _
    rw [items?_append (layout.areBlank_line level), hitems]
    rfl

theorem fields?_fieldLines : ∀ (fields : List (Bytes × Tree)) (level fuel : Nat)
    (blanks after : Bytes), fields ≠ [] → Tree.AreWrittenFields fields → AreBlank blanks →
    2 * (fieldLines layout level fields).length + 1 ≤ fuel →
    fields? fuel (fieldLines layout level fields ++ (blanks ++ Ascii.closeBrace :: after))
      = some (fields, after)
  | [], _, _, _, _, hne, _, _, _ => absurd rfl hne
  | _, _, 0, _, _, _, _, _, hfuel => absurd hfuel (Nat.not_succ_le_zero _)
  | [(key, value)], level, fuel + 1, blanks, after, _, h, hblanks, hfuel => by
    obtain ⟨⟨octets, rfl⟩, hwritten, -⟩ := h
    have hlines : fieldLines layout level [(Literal.ofOctets octets, value)]
      = Tree.quoted (Literal.ofOctets octets) ++ Ascii.colon :: layout.gap
        ++ value.printed layout level := rfl
    rw [hlines] at hfuel ⊢
    rw [List.length_append] at hfuel
    have hvalue := value?_printed value level fuel (blanks ++ Ascii.closeBrace :: after) hwritten
      (by omega) (ends_append hblanks rfl after)
    rw [List.append_assoc, fields?_key layout.areBlank_gap, hvalue]
    dsimp only
    rw [skipBlanks_append hblanks]
    rfl
  | (key, value) :: next :: rest, level, fuel + 1, blanks, after, _, h, hblanks, hfuel => by
    obtain ⟨⟨octets, rfl⟩, hwritten, hrest⟩ := h
    rw [fieldLines_cons] at hfuel ⊢
    simp only [List.length_append, Layout.separator, List.length_cons] at hfuel
    have hvalue := value?_printed value level fuel
      (layout.separator level
        ++ (fieldLines layout level (next :: rest) ++ (blanks ++ Ascii.closeBrace :: after)))
      hwritten (by omega) (ends_cons rfl _)
    have hfields := fields?_fieldLines (next :: rest) level fuel blanks after
      (List.cons_ne_nil _ _) hrest hblanks (by omega)
    rw [List.append_assoc, List.append_assoc, List.append_assoc, fields?_key layout.areBlank_gap,
      hvalue]
    show (fields? fuel (layout.line level ++ _)).map _ = _
    rw [fields?_append (layout.areBlank_line level), hfields]
    rfl

end

end

end Parser

namespace Tree

variable {t : Tree}

/-- **A document is read back, however it is laid out.** -/
theorem parse?_printed (layout : Layout) (h : t.IsWritten) :
    parse? (t.printed layout 0) = some t := by
  have hends : Parser.Ends [] := fun _ _ heq => nomatch heq
  have hvalue := Parser.value?_printed layout t 0 (2 * (t.printed layout 0).length + 2) [] h
    (Nat.le_add_right _ 2) hends
  rw [List.append_nil] at hvalue
  rw [parse?, hvalue]
  rfl

theorem parse?_pretty (h : t.IsWritten) : parse? t.pretty = some t := by
  rw [pretty, ← printed_pretty]
  exact parse?_printed .pretty h

theorem parse?_compact (h : t.IsWritten) : parse? t.compact = some t := by
  rw [← printed_compact t 0]
  exact parse?_printed .compact h

end Tree

end EventMerge.Json
