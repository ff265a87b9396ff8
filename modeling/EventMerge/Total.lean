/-!
# Totals

* `total`  the sum of a measure over a list.
-/

namespace EventMerge

def total {α : Type} (measure : α → Nat) : List α → Nat
  | [] => 0
  | a :: rest => measure a + total measure rest

theorem total_nil {α : Type} (measure : α → Nat) : total measure [] = 0 := rfl
theorem total_cons {α : Type} (measure : α → Nat) (a : α) (rest : List α) :
    total measure (a :: rest) = measure a + total measure rest := rfl

theorem total_append {α : Type} (measure : α → Nat) (a b : List α) :
    total measure (a ++ b) = total measure a + total measure b := by
  induction a with
  | nil => rw [List.nil_append, total_nil, Nat.zero_add]
  | cons x a ih => rw [List.cons_append, total_cons, ih, total_cons, Nat.add_assoc]

theorem total_map {α β : Type} (measure : β → Nat) (f : α → β) (l : List α) :
    total measure (l.map f) = total (fun a => measure (f a)) l := by
  induction l with
  | nil => rfl
  | cons a rest ih => rw [List.map_cons, total_cons, total_cons, ih]

end EventMerge
