import EventMerge.Bytes

/-!
# Reading octets that may not be text

Octets that are no part of a UTF-8 sequence are shown as U+FFFD, one for each longest run that could
still have become a character.

* `Utf8.step`   the first character of a byte string and what follows it;
* `Utf8.lossy`  the text of a byte string.
-/

namespace EventMerge.Text.Utf8

/-- reads `count` more octets of a character; the first of them lies between `low` and `high` -/
def follow : (count value : Nat) → (low high : UInt8) → Bytes → Option Char × Bytes
  | 0, value, _, _, rest => (some (Char.ofNat value), rest)
  | _ + 1, _, _, _, [] => (none, [])
  | count + 1, value, low, high, b :: rest =>
    if low ≤ b && b ≤ high then follow count (64 * value + b.toNat % 64) 0x80 0xBF rest
    else (none, b :: rest)

/-- the first character of a byte string that starts with `lead`, and what follows it -/
def step (lead : UInt8) (rest : Bytes) : Option Char × Bytes :=
  let n := lead.toNat
  if n < 0x80 then (some (Char.ofNat n), rest)
  else if n < 0xC2 then (none, rest)
  else if n < 0xE0 then follow 1 (n % 32) 0x80 0xBF rest
  else if n = 0xE0 then follow 2 (n % 16) 0xA0 0xBF rest
  else if n = 0xED then follow 2 (n % 16) 0x80 0x9F rest
  else if n < 0xF0 then follow 2 (n % 16) 0x80 0xBF rest
  else if n = 0xF0 then follow 3 (n % 8) 0x90 0xBF rest
  else if n < 0xF4 then follow 3 (n % 8) 0x80 0xBF rest
  else if n = 0xF4 then follow 3 (n % 8) 0x80 0x8F rest
  else (none, rest)

theorem length_follow_le (count value : Nat) (low high : UInt8) (rest : Bytes) :
    (follow count value low high rest).2.length ≤ rest.length := by
  induction count generalizing value low high rest with
  | zero => exact Nat.le_refl _
  | succ count ih =>
    cases rest with
    | nil => exact Nat.le_refl _
    | cons b rest =>
      rw [follow]
      split
      · exact Nat.le_succ_of_le (ih _ _ _ rest)
      · exact Nat.le_refl _

theorem length_step_le (lead : UInt8) (rest : Bytes) : (step lead rest).2.length ≤ rest.length := by
  unfold step
  dsimp only
  repeat' split
  all_goals first
    | exact Nat.le_refl _
    | exact length_follow_le _ _ _ _ _

def lossyChars : Bytes → List Char
  | [] => []
  | lead :: rest =>
    (step lead rest).1.getD '\uFFFD' :: lossyChars (step lead rest).2
termination_by bytes => bytes.length
decreasing_by exact Nat.lt_succ_of_le (length_step_le lead rest)

def lossy (bytes : Bytes) : String := String.ofList (lossyChars bytes)

end EventMerge.Text.Utf8
