import EventMerge.Text.Blank
import Mathlib.Data.List.Forall2
import Mathlib.Data.List.TakeWhile

/-!
# Blanks around texts, and the parts of a text

* `Text.Blank`                  a text of blanks only;
* `Text.Padded`                 a text with blanks around it;
* `Text.trimChars_of_padded`    trimming does not see the blanks around a text;
* `Text.Separated`              the parts of a text between the occurrences of a character;
* `Text.splitChars_eq_iff`, `Text.splitFirst?_eq_some_iff`  splitting gives these parts;
* `Text.Padded.divided`, `Text.padded_splitChars`  blanks around a text are blanks around its parts.
-/

namespace EventMerge.Text

/-! ## blanks -/

def Blank (text : List Char) : Prop := ∀ c ∈ text, isBlank c = true

/-- the text is the core with blanks around it -/
def Padded (text core : List Char) : Prop :=
  ∃ front behind, Blank front ∧ Blank behind ∧ text = front ++ core ++ behind

theorem blank_cons {c : Char} {rest : List Char} :
    Blank (c :: rest) ↔ isBlank c = true ∧ Blank rest := List.forall_mem_cons

theorem Blank.reverse {text : List Char} (h : Blank text) : Blank text.reverse :=
  fun c hc => h c (List.mem_reverse.mp hc)

theorem dropEndWhile_append {core behind : List Char} (h : Blank behind) :
    dropEndWhile isBlank (core ++ behind) = dropEndWhile isBlank core := by
  rw [dropEndWhile, dropEndWhile, List.reverse_append, List.dropWhile_append_of_pos h.reverse]

theorem dropWhile_of_blank {text : List Char} (h : Blank text) : text.dropWhile isBlank = [] :=
  List.dropWhile_eq_nil_iff.mpr h

theorem trimChars_of_blank {text : List Char} (h : Blank text) : trimChars text = [] := by
  rw [trimChars, dropWhile_of_blank h]
  rfl

/-- trimming takes blanks away, and nothing else -/
theorem padded_trimChars (text : List Char) : Padded text (trimChars text) := by
  have hends : ∀ l : List Char, l = l.takeWhile isBlank ++ l.dropWhile isBlank :=
    fun l => List.takeWhile_append_dropWhile.symm
  have hblank : ∀ l : List Char, Blank (l.takeWhile isBlank) := fun l c => List.mem_takeWhile_imp
  refine ⟨text.takeWhile isBlank, ((text.dropWhile isBlank).reverse.takeWhile isBlank).reverse,
    hblank text, (hblank _).reverse, ?_⟩
  rw [trimChars, dropEndWhile, List.append_assoc, ← List.reverse_append, ← hends,
    List.reverse_reverse, ← hends]

/-- **Trimming does not see the blanks around a text.** -/
theorem trimChars_of_padded {text core : List Char} (h : Padded text core) :
    trimChars text = trimChars core := by
  obtain ⟨front, behind, hfront, hbehind, rfl⟩ := h
  rw [List.append_assoc, trimChars, List.dropWhile_append_of_pos hfront, trimChars,
    List.dropWhile_append]
  split
  · rename_i hnone
    rw [List.isEmpty_iff.mp hnone, dropWhile_of_blank hbehind]
  · exact dropEndWhile_append hbehind

theorem trimChars_of_solid {core : List Char} (h : ∀ c ∈ core, isBlank c = false) :
    trimChars core = core := by
  have hdrop : ∀ l : List Char, (∀ c ∈ l, isBlank c = false) → l.dropWhile isBlank = l := by
    intro l hl
    cases l with
    | nil => rfl
    | cons c rest => exact List.dropWhile_cons_of_neg (by rw [hl c List.mem_cons_self]; nofun)
  rw [trimChars, hdrop core h, dropEndWhile, hdrop core.reverse, List.reverse_reverse]
  exact fun c hc => h c (List.mem_reverse.mp hc)

/-- a text without blanks is what trimming gives if and only if there are blanks around it -/
theorem trimChars_eq_iff {text core : List Char} (h : ∀ c ∈ core, isBlank c = false) :
    trimChars text = core ↔ Padded text core := by
  constructor
  · rintro rfl
    exact padded_trimChars text
  · intro hpadded
    rw [trimChars_of_padded hpadded, trimChars_of_solid h]

theorem trimChars_eq_nil_iff {text : List Char} : trimChars text = [] ↔ Blank text := by
  constructor
  · intro h
    obtain ⟨front, behind, hfront, hbehind, htext⟩ := padded_trimChars text
    rw [h, List.append_nil] at htext
    rw [htext]
    exact List.forall_mem_append.mpr ⟨hfront, hbehind⟩
  · exact trimChars_of_blank

/-! ## parts -/

/-- the parts of a text between the occurrences of `c` -/
structure Separated (c : Char) (parts : List (List Char)) (text : List Char) : Prop where
  ne_nil : parts ≠ []
  not_mem : ∀ part ∈ parts, c ∉ part
  joined : [c].intercalate parts = text

theorem splitChars_eq_splitOn (c : Char) (text : List Char) :
    splitChars c text = text.splitOn c := by
  induction text with
  | nil => rw [splitChars_nil, List.splitOn_nil]
  | cons head rest ih =>
    rw [splitChars, List.splitOn_cons_eq_if_modifyHead, ← ih]
    simp only [beq_iff_eq]
    split
    · rfl
    · cases hparts : splitChars c rest with
      | nil => exact absurd hparts (splitChars_ne_nil c rest)
      | cons part parts => rfl

theorem not_mem_of_mem_splitChars {c : Char} {text part : List Char}
    (h : part ∈ splitChars c text) : c ∉ part := by
  induction text generalizing part with
  | nil =>
    rw [splitChars_nil, List.mem_singleton] at h
    rw [h]
    exact List.not_mem_nil
  | cons head rest ih =>
    rw [splitChars] at h
    split at h
    · rcases List.mem_cons.mp h with rfl | hrest
      · exact List.not_mem_nil
      · exact ih hrest
    · rename_i hhead
      split at h
      · rename_i hparts
        exact absurd hparts (splitChars_ne_nil c rest)
      · rename_i first parts hparts
        rcases List.mem_cons.mp h with rfl | hrest
        · have hfirst : c ∉ first := ih (hparts ▸ List.mem_cons_self)
          exact fun hmem => (List.mem_cons.mp hmem).elim (fun heq => hhead heq.symm) hfirst
        · exact ih (hparts ▸ List.mem_cons_of_mem _ hrest)

/-- **Splitting gives the parts of a text.** -/
theorem splitChars_eq_iff {c : Char} {text : List Char} {parts : List (List Char)} :
    splitChars c text = parts ↔ Separated c parts text := by
  constructor
  · rintro rfl
    refine ⟨splitChars_ne_nil c text, fun part => not_mem_of_mem_splitChars, ?_⟩
    rw [splitChars_eq_splitOn, List.intercalate_splitOn]
  · intro h
    rw [splitChars_eq_splitOn, ← h.joined, List.splitOn_intercalate c h.not_mem h.ne_nil]

theorem splitFirst?_eq_some_iff {c : Char} {text first last : List Char} :
    splitFirst? c text = some (first, last) ↔ text = first ++ c :: last ∧ c ∉ first := by
  induction text generalizing first with
  | nil => simp [splitFirst?]
  | cons head rest ih =>
    rw [splitFirst?]
    split
    · rename_i hhead
      subst hhead
      constructor
      · intro h
        cases h
        exact ⟨rfl, List.not_mem_nil⟩
      · rintro ⟨htext, hfirst⟩
        cases first with
        | nil =>
          cases htext
          rfl
        | cons x first =>
          cases htext
          exact absurd List.mem_cons_self hfirst
    · rename_i hhead
      constructor
      · intro h
        obtain ⟨⟨before, behind⟩, hrest, hparts⟩ := Option.map_eq_some_iff.mp h
        cases hparts
        obtain ⟨rfl, hbefore⟩ := ih.mp hrest
        exact ⟨rfl, fun hmem => (List.mem_cons.mp hmem).elim (fun heq => hhead heq.symm) hbefore⟩
      · rintro ⟨htext, hfirst⟩
        cases first with
        | nil =>
          cases htext
          exact absurd rfl hhead
        | cons x first =>
          cases htext
          have hrest := ih.mpr ⟨rfl, fun hmem => hfirst (List.mem_cons_of_mem _ hmem)⟩
          rw [hrest]
          rfl

/-! ## blanks around parts -/

theorem splitChars_cons_of_ne {c head : Char} (h : head ≠ c) {rest part : List Char}
    {parts : List (List Char)} (hrest : splitChars c rest = part :: parts) :
    splitChars c (head :: rest) = (head :: part) :: parts := by
  rw [splitChars, if_neg h, hrest]

theorem splitChars_of_not_mem {c : Char} {text : List Char} (h : c ∉ text) :
    splitChars c text = [text] :=
  splitChars_eq_iff.mpr ⟨List.cons_ne_nil _ _,
    fun _ hpart => List.mem_singleton.mp hpart ▸ h, List.intercalate_singleton⟩

section

variable {c : Char} (hc : isBlank c = false)

include hc

theorem Blank.not_mem {text : List Char} (h : Blank text) : c ∉ text := by
  intro hmem
  have hblank := h c hmem
  rw [hc] at hblank
  cases hblank

theorem Padded.mem_iff {text core : List Char} (h : Padded text core) : c ∈ text ↔ c ∈ core := by
  obtain ⟨front, behind, hfront, hbehind, rfl⟩ := h
  rw [List.mem_append, List.mem_append, or_iff_left (hbehind.not_mem hc),
    or_iff_right (hfront.not_mem hc)]

/-- blanks around a text are blanks around what is before and behind the first `c` -/
theorem Padded.divided {text core first last : List Char} (h : Padded text core)
    (hcore : core = first ++ c :: last) (hfirst : c ∉ first) :
    ∃ before behind, text = before ++ c :: behind ∧ c ∉ before ∧ Padded before first
      ∧ Padded behind last := by
  obtain ⟨front, rear, hfront, hrear, rfl⟩ := h
  refine ⟨front ++ first, last ++ rear, ?_, ?_, ⟨front, [], hfront, nofun, ?_⟩,
    ⟨[], rear, nofun, hrear, rfl⟩⟩
  · rw [hcore, List.append_assoc, List.append_assoc, List.append_assoc, List.cons_append]
  · rw [List.mem_append]
    exact not_or.mpr ⟨hfront.not_mem hc, hfirst⟩
  · rw [List.append_nil]

theorem padded_splitChars_behind {core behind : List Char} (hbehind : Blank behind) :
    List.Forall₂ (fun part inner => ∃ more, Blank more ∧ part = inner ++ more)
      (splitChars c (core ++ behind)) (splitChars c core) := by
  have hrefl : ∀ part : List Char, ∃ more, Blank more ∧ part = part ++ more :=
    fun part => ⟨[], nofun, (List.append_nil part).symm⟩
  induction core with
  | nil =>
    -- the blanks behind the text are all in its last part, as none of them separates
    rw [List.nil_append, splitChars_of_not_mem (hbehind.not_mem hc), splitChars_nil]
    exact .cons ⟨behind, hbehind, rfl⟩ .nil
  | cons head rest ih =>
    rw [List.cons_append]
    by_cases hhead : head = c
    · rw [splitChars, if_pos hhead, splitChars, if_pos hhead]
      exact .cons (hrefl []) ih
    · cases hsplit : splitChars c (rest ++ behind) with
      | nil => exact absurd hsplit (splitChars_ne_nil c _)
      | cons part parts =>
        cases hsplit' : splitChars c rest with
        | nil => exact absurd hsplit' (splitChars_ne_nil c _)
        | cons inner inners =>
          rw [hsplit, hsplit'] at ih
          rw [splitChars_cons_of_ne hhead hsplit, splitChars_cons_of_ne hhead hsplit']
          obtain ⟨⟨more, hmore, rfl⟩, hparts⟩ := List.forall₂_cons.mp ih
          exact .cons ⟨more, hmore, rfl⟩ hparts

/-- **Blanks around a text are blanks around its parts.** -/
theorem padded_splitChars {text core : List Char} (h : Padded text core) :
    List.Forall₂ Padded (splitChars c text) (splitChars c core) := by
  obtain ⟨front, behind, hfront, hbehind, rfl⟩ := h
  rw [List.append_assoc]
  -- the blanks in front are taken off one by one; each of them is in front of the first part
  induction front with
  | nil =>
    refine (padded_splitChars_behind hc hbehind).imp ?_
    rintro part inner ⟨more, hmore, rfl⟩
    exact ⟨[], more, nofun, hmore, rfl⟩
  | cons head front ih =>
    obtain ⟨hhead, hrest⟩ := blank_cons.mp hfront
    have hne : head ≠ c := fun heq => by
      rw [heq, hc] at hhead
      cases hhead
    replace ih := ih hrest
    cases hsplit : splitChars c (front ++ (core ++ behind)) with
    | nil => exact absurd hsplit (splitChars_ne_nil c _)
    | cons part parts =>
      rw [hsplit] at ih
      rw [List.cons_append, splitChars_cons_of_ne hne hsplit]
      cases hinner : splitChars c core with
      | nil => exact absurd hinner (splitChars_ne_nil c _)
      | cons inner inners =>
        rw [hinner] at ih
        obtain ⟨⟨before, more, hbefore, hmore, rfl⟩, hparts⟩ := List.forall₂_cons.mp ih
        exact .cons ⟨head :: before, more, blank_cons.mpr ⟨hhead, hbefore⟩, hmore, rfl⟩ hparts

end

end EventMerge.Text
