import EventMerge.Binary.Codec
import EventMerge.Proofs.Names

/-!
# Codecs that invert themselves

A count takes eight octets, so what is written is read back as long as it is short enough for its
own length to be such a count.  Every value takes at least one octet; this is why the count of a list
is no greater than the length of what is written.

* `Codec.Faithful`                    what is written is read back, whatever follows it;
* `Codec.Faithful.via`, `.pair`, `.option`, `.list`, `.map`   the compositions keep it;
* `Codec.Faithful.decode?`            a whole byte string.
-/

namespace EventMerge.Binary.Codec

variable {α β : Type}

/-- no count is that great -/
def limit : Nat := Nat.pow 256 countWidth

structure Faithful (c : Codec α) : Prop where
  read : ∀ a rest, (c.write a).length < limit → c.read? (c.write a ++ rest) = some (a, rest)
  pos : ∀ a, 0 < (c.write a).length

theorem read?_via (c : Codec α) (ofPart : α → β) (toPart : β → α) (bytes : Bytes) :
    (c.via ofPart toPart).read? bytes = (c.read? bytes).map fun p => (ofPart p.1, p.2) := rfl
theorem write_via (c : Codec α) (ofPart : α → β) (toPart : β → α) (b : β) :
    (c.via ofPart toPart).write b = c.write (toPart b) := rfl

namespace Faithful

theorem decode? {c : Codec α} (hc : c.Faithful) {a : α} (h : (c.write a).length < limit) :
    c.decode? (c.write a) = some a := by
  have hread := hc.read a [] h
  rw [List.append_nil] at hread
  rw [Codec.decode?, hread, Option.map_some]

/-! ## leaves -/

theorem length_write_number (width n : Nat) : ((number width).write n).length = width :=
  Bytes.length_ofNatLE width n

theorem length_write_octets (b : Bytes) : (octets.write b).length = countWidth + b.length := by
  rw [write_octets, List.length_append, length_write_number]

theorem octets : Faithful octets where
  read b rest h := by
    rw [length_write_octets] at h
    exact read?_write_octets (by unfold limit at h; omega) rest
  pos b := by
    rw [length_write_octets]
    exact Nat.lt_of_lt_of_le (by decide : 0 < countWidth) (Nat.le_add_right _ _)

theorem text : Faithful text where
  read t rest h := by
    rw [write_text, length_write_octets] at h
    exact read?_write_text (by unfold limit at h; omega) rest
  pos t := by
    rw [write_text]
    exact octets.pos _

/-! ## composition -/

theorem via {c : Codec α} (hc : c.Faithful) {ofPart : α → β} {toPart : β → α}
    (h : ∀ b, ofPart (toPart b) = b) : (c.via ofPart toPart).Faithful where
  read b rest hlength := by
    rw [write_via] at hlength
    rw [read?_via, write_via, hc.read (toPart b) rest hlength, Option.map_some, h]
  pos b := hc.pos (toPart b)

theorem pair {c : Codec α} {d : Codec β} (hc : c.Faithful) (hd : d.Faithful) :
    (c.pair d).Faithful where
  read p rest h := by
    obtain ⟨a, b⟩ := p
    have hwrite : (c.pair d).write (a, b) = c.write a ++ d.write b := rfl
    rw [hwrite, List.length_append] at h
    have ha := hc.read a (d.write b ++ rest) (by omega)
    have hb := hd.read b rest (by omega)
    rw [hwrite, List.append_assoc]
    simp only [Codec.pair, ha, hb, Option.map_some]
  pos p := by
    have hwrite : (c.pair d).write p = c.write p.1 ++ d.write p.2 := rfl
    have := hc.pos p.1
    rw [hwrite, List.length_append]
    omega

theorem option {c : Codec α} (hc : c.Faithful) : c.option.Faithful where
  read a rest h := by
    cases a with
    | none => rfl
    | some a =>
      have hwrite : c.option.write (some a) = 1 :: c.write a := rfl
      rw [hwrite, List.length_cons] at h
      have hread := hc.read a rest (by omega)
      show (c.read? (c.write a ++ rest)).map _ = _
      rw [hread, Option.map_some]
  pos a := by
    cases a with
    | none => exact Nat.zero_lt_one
    | some a => exact Nat.succ_pos _

theorem readMany? {c : Codec α} (hc : c.Faithful) {l : List α}
    (h : (l.flatMap c.write).length < limit) (rest : Bytes) :
    c.readMany? l.length (l.flatMap c.write ++ rest) = some (l, rest) := by
  induction l with
  | nil => rfl
  | cons a l ih =>
    rw [List.flatMap_cons, List.length_append] at h
    have ha := hc.read a (l.flatMap c.write ++ rest) (by omega)
    have hl := ih (by omega)
    rw [List.flatMap_cons, List.append_assoc, List.length_cons, Codec.readMany?, ha]
    dsimp only
    rw [hl, Option.map_some]

theorem length_le_flatMap {c : Codec α} (hc : c.Faithful) (l : List α) :
    l.length ≤ (l.flatMap c.write).length := by
  induction l with
  | nil => exact Nat.le_refl 0
  | cons a l ih =>
    have := hc.pos a
    rw [List.flatMap_cons, List.length_append, List.length_cons]
    omega

theorem list {c : Codec α} (hc : c.Faithful) : c.list.Faithful where
  read l rest h := by
    have hwrite : c.list.write l = (number countWidth).write l.length ++ l.flatMap c.write := rfl
    rw [hwrite, List.length_append] at h
    have hcount : l.length < Nat.pow 256 countWidth := by
      have := length_le_flatMap hc l
      unfold limit at h
      omega
    have hnumber := read?_write_number hcount (l.flatMap c.write ++ rest)
    have hmany := readMany? hc (l := l) (by omega) rest
    rw [hwrite, List.append_assoc]
    simp only [Codec.list, hnumber, hmany]
  pos l := by
    have hwrite : c.list.write l = (number countWidth).write l.length ++ l.flatMap c.write := rfl
    rw [hwrite, List.length_append, length_write_number]
    exact Nat.lt_of_lt_of_le (by decide : 0 < countWidth) (Nat.le_add_right _ _)

theorem map {c : Codec α} (hc : c.Faithful) : c.map.Faithful :=
  (text.pair hc).list.via NameMap.ofList_entries

end Faithful

end EventMerge.Binary.Codec
