/-!
# Blank characters and trimming

* `isBlank`  the characters of the property White_Space;
* `trim`     a text without the blanks at its two ends;
* `splitOn`  the parts of a text between the occurrences of a character.
-/

namespace EventMerge.Text

/-- the characters of the property White_Space -/
def isBlank (c : Char) : Bool :=
  let n := c.toNat
  (9 ≤ n && n ≤ 13) || n = 0x20 || n = 0x85 || n = 0xA0 || n = 0x1680
    || (0x2000 ≤ n && n ≤ 0x200A) || n = 0x2028 || n = 0x2029 || n = 0x202F || n = 0x205F
    || n = 0x3000

/-- the list without the elements at its end that satisfy `p` -/
def dropEndWhile {α : Type} (p : α → Bool) (l : List α) : List α :=
  (l.reverse.dropWhile p).reverse

def trimChars (text : List Char) : List Char := dropEndWhile isBlank (text.dropWhile isBlank)

def trim (text : String) : String := String.ofList (trimChars text.toList)

/-- the parts of a list between the occurrences of `c`; there is always one -/
def splitChars (c : Char) : List Char → List (List Char)
  | [] => [[]]
  | head :: rest =>
    if head = c then [] :: splitChars c rest
    else
      match splitChars c rest with
      | [] => [[head]]
      | part :: parts => (head :: part) :: parts

def splitOn (c : Char) (text : String) : List String :=
  (splitChars c text.toList).map String.ofList

def splitFirst? (c : Char) : List Char → Option (List Char × List Char)
  | [] => none
  | head :: rest =>
    if head = c then some ([], rest)
    else (splitFirst? c rest).map fun parts => (head :: parts.1, parts.2)

theorem splitChars_nil (c : Char) : splitChars c [] = [[]] := rfl

theorem splitChars_ne_nil (c : Char) (text : List Char) : splitChars c text ≠ [] := by
  cases text with
  | nil => simp [splitChars]
  | cons head rest =>
    rw [splitChars]
    split
    · simp
    · split <;> simp

theorem splitFirst?_eq_none {c : Char} {text : List Char} :
    splitFirst? c text = none ↔ c ∉ text := by
  induction text with
  | nil => simp [splitFirst?]
  | cons head rest ih =>
    rw [splitFirst?]
    split
    · rename_i h
      simp [h]
    · rename_i h
      rw [Option.map_eq_none_iff, ih, List.mem_cons, not_or]
      exact ⟨fun hr => ⟨fun he => h he.symm, hr⟩, fun hr => hr.2⟩

end EventMerge.Text
