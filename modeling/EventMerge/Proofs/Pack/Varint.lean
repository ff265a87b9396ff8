import EventMerge.Pack.Varint
import Mathlib.Data.Nat.Digits.Lemmas

/-!
# Numbers of variable length, written and read back

The octets of a number end with the first whose highest bit is unset.  A number is read from them if
they are ten at most.  What is read is the number that they write, reduced by the sixty-fourth power
of two: the tenth octet has one bit below that, and the others are dropped.

* `Varint.Numeral`               the octets of a number, none of which starts another;
* `Varint.written`               the number that octets write, however great it is;
* `Varint.decode?_eq_some_iff_numeral`  what is read;
* `Varint.decode?_encode`        numbers below the sixty-fourth power of two;
* `Varint.take`                  the number and what is left of the input;
* `Varint.taken_whole`           the octets of a number, with others behind them and cut off;
* `Varint.reads_reduced`         what is read against what is written.
-/

namespace EventMerge.Pack.Varint

/-! ## the octets of a number -/

/-- octets of which the last one, and no other, has its highest bit unset -/
inductive Numeral : Bytes → Prop where
  | last {b : UInt8} (h : b.toNat < 128) : Numeral [b]
  | more {b : UInt8} {octets : Bytes} (h : ¬ b.toNat < 128) (hothers : Numeral octets) :
      Numeral (b :: octets)

theorem Numeral.length_pos {octets : Bytes} (h : Numeral octets) : 0 < octets.length := by
  cases h <;> exact Nat.succ_pos _

theorem Numeral.exists_last {octets : Bytes} (h : Numeral octets) :
    ∃ front b, octets = front ++ [b] ∧ b.toNat < 128 := by
  induction h with
  | last hb => exact ⟨[], _, rfl, hb⟩
  | more _ _ ih =>
    obtain ⟨front, b, rfl, hb⟩ := ih
    exact ⟨_ :: front, b, rfl, hb⟩

/-- **No numeral starts another.** -/
theorem Numeral.append_inj {octets others rest rest' : Bytes} (h : Numeral octets)
    (hothers : Numeral others) (happend : octets ++ rest = others ++ rest') :
    octets = others ∧ rest = rest' := by
  induction h generalizing others with
  | last hb =>
    cases hothers with
    | last _ =>
      obtain ⟨rfl, rfl⟩ := List.cons.inj happend
      exact ⟨rfl, rfl⟩
    | more hb' _ =>
      obtain ⟨rfl, -⟩ := List.cons.inj happend
      exact absurd hb hb'
  | more hb _ ih =>
    cases hothers with
    | last hb' =>
      obtain ⟨rfl, -⟩ := List.cons.inj happend
      exact absurd hb' hb
    | more _ hothers =>
      obtain ⟨rfl, htail⟩ := List.cons.inj happend
      obtain ⟨rfl, hrest⟩ := ih hothers htail
      exact ⟨rfl, hrest⟩

/-- the number that octets write: the seven low bits of each, at its place -/
def written (octets : Bytes) : Nat := (octets.mapIdx fun i b => b.toNat % 128 * 2 ^ (7 * i)).sum

theorem written_eq_ofDigits (octets : Bytes) :
    written octets = Nat.ofDigits 128 (octets.map (·.toNat % 128)) := by
  have hplaces : (octets.mapIdx fun i b => b.toNat % 128 * 2 ^ (7 * i))
      = (octets.map (·.toNat % 128)).mapIdx fun i group => group * 128 ^ i :=
    List.ext_getElem (by simp) (by simp [Nat.pow_mul])
  rw [written, hplaces, Nat.ofDigits_eq_sum_mapIdx]

theorem written_singleton (b : UInt8) : written [b] = b.toNat % 128 := by
  rw [written_eq_ofDigits]
  exact Nat.ofDigits_singleton

theorem written_cons (b : UInt8) (octets : Bytes) :
    written (b :: octets) = b.toNat % 128 + 128 * written octets := by
  rw [written_eq_ofDigits, written_eq_ofDigits, List.map_cons, Nat.ofDigits_cons]

theorem written_append (octets others : Bytes) :
    written (octets ++ others) = written octets + 128 ^ octets.length * written others := by
  rw [written_eq_ofDigits, written_eq_ofDigits, written_eq_ofDigits, List.map_append,
    Nat.ofDigits_append, List.length_map]

theorem written_lt (octets : Bytes) : written octets < 128 ^ octets.length := by
  have hgroups : ∀ n ∈ octets.map (·.toNat % 128), n < 128 := by
    intro n hn
    obtain ⟨b, -, rfl⟩ := List.mem_map.mp hn
    exact Nat.mod_lt _ (by decide)
  rw [written_eq_ofDigits, ← List.length_map (·.toNat % 128)]
  exact Nat.ofDigits_lt_base_pow_length (by decide) hgroups

/-- of ten octets only the last can lead to the limit -/
theorem Numeral.limit_le_written_iff {octets : Bytes} (h : Numeral octets)
    (hlength : octets.length ≤ 10) :
    0x10000000000000000 ≤ written octets ↔ ∃ tenth, octets[9]? = some tenth ∧ 1 < tenth.toNat := by
  obtain ⟨front, b, rfl, hb⟩ := h.exists_last
  rw [List.length_append, List.length_singleton] at hlength
  rcases Nat.lt_or_ge front.length 9 with hshort | hlong
  · have hlt := written_lt (front ++ [b])
    have hle : 128 ^ (front ++ [b]).length ≤ 128 ^ 9 :=
      Nat.pow_le_pow_right (by decide) (by rw [List.length_append, List.length_singleton]; omega)
    have hnone : (front ++ [b])[9]? = none :=
      List.getElem?_eq_none (by rw [List.length_append, List.length_singleton]; omega)
    rw [hnone]
    constructor
    · intro hlimit
      omega
    · rintro ⟨_, hsome, -⟩
      cases hsome
  · have hnine : front.length = 9 := by omega
    have hfront := written_lt front
    have htenth : (front ++ [b])[9]? = some b := by
      rw [← hnine, List.getElem?_concat_length]
    rw [hnine] at hfront
    rw [htenth, written_append, hnine, written_singleton, Nat.mod_eq_of_lt hb]
    constructor
    · intro hlimit
      exact ⟨b, rfl, by omega⟩
    · rintro ⟨_, hsome, hone⟩
      cases hsome
      omega

/-! ## reading -/

/-- below the tenth place a group keeps all its bits, and the others are above them -/
theorem group_add {position : Nat} (h : position + 1 < maxLength) (b : UInt8) (n : Nat) :
    group position b + n * 2 ^ (7 * (position + 1)) % 0x10000000000000000
      = (b.toNat % 128 + 128 * n) * 2 ^ (7 * position) % 0x10000000000000000 := by
  have hten : maxLength = 10 := rfl
  have hnext : 2 ^ (7 * (position + 1)) = 128 * 2 ^ (7 * position) := by
    rw [Nat.mul_add, Nat.pow_add, Nat.mul_comm]
  -- the limit, cut at the place of the next group
  have hlimit : 0x10000000000000000 = 2 ^ (57 - 7 * position) * (128 * 2 ^ (7 * position)) := by
    rw [← hnext, ← Nat.pow_add, show 57 - 7 * position + 7 * (position + 1) = 64 by omega]
  have hroom : 0 < 2 ^ (57 - 7 * position) := Nat.two_pow_pos _
  have hgroup : group position b = b.toNat % 128 * 2 ^ (7 * position) := by
    apply Nat.mod_eq_of_lt
    rw [hlimit, ← Nat.mul_assoc]
    apply Nat.mul_lt_mul_of_pos_right _ (Nat.two_pow_pos _)
    omega
  have hreduced : (b.toNat % 128 + 128 * n) % (128 * 2 ^ (57 - 7 * position))
      = b.toNat % 128 + 128 * (n % 2 ^ (57 - 7 * position)) := by
    rw [Nat.mod_mul, Nat.add_mul_mod_self_left, Nat.mod_mod, Nat.add_mul_div_left _ _ (by decide),
      Nat.div_eq_of_lt (Nat.mod_lt _ (by decide)), Nat.zero_add]
  calc group position b + n * 2 ^ (7 * (position + 1)) % 0x10000000000000000
      = b.toNat % 128 * 2 ^ (7 * position)
          + n % 2 ^ (57 - 7 * position) * (128 * 2 ^ (7 * position)) := by
        rw [hgroup, hnext, hlimit, Nat.mul_mod_mul_right]
    _ = (b.toNat % 128 + 128 * (n % 2 ^ (57 - 7 * position))) * 2 ^ (7 * position) := by
        rw [Nat.add_mul, ← Nat.mul_assoc, Nat.mul_comm (n % _) 128]
    _ = (b.toNat % 128 + 128 * n) * 2 ^ (7 * position) % 0x10000000000000000 := by
        rw [← hreduced, hlimit, ← Nat.mul_assoc, Nat.mul_comm _ 128, Nat.mul_mod_mul_right]

theorem decodeFrom?_numeral {octets : Bytes} (h : Numeral octets) (position : Nat)
    (hfits : position + octets.length ≤ maxLength) (rest : Bytes) :
    decodeFrom? position (octets ++ rest)
      = some (written octets * 2 ^ (7 * position) % 0x10000000000000000, rest) := by
  induction h generalizing position with
  | last hb =>
    rw [List.length_singleton] at hfits
    rw [List.singleton_append, decodeFrom?, if_neg (by omega), if_pos hb, written_singleton]
    rfl
  | @more b others hb hothers ih =>
    have hpos := hothers.length_pos
    rw [List.length_cons] at hfits
    rw [List.cons_append, decodeFrom?, if_neg (by omega), if_neg hb, ih _ (by omega), written_cons,
      ← group_add (by omega)]

theorem numeral_of_decodeFrom? {position value : Nat} {bytes rest : Bytes}
    (h : decodeFrom? position bytes = some (value, rest)) :
    ∃ octets, bytes = octets ++ rest ∧ Numeral octets ∧ position + octets.length ≤ maxLength := by
  induction bytes generalizing position value with
  | nil => cases h
  | cons b tail ih =>
    rw [decodeFrom?] at h
    split at h
    · cases h
    · split at h
      · rename_i hlast
        cases h
        exact ⟨[b], rfl, .last hlast, by rw [List.length_singleton]; omega⟩
      · rename_i hmore
        split at h
        · rename_i hread
          cases h
          obtain ⟨octets, rfl, hoctets, hfits⟩ := ih hread
          exact ⟨b :: octets, rfl, .more hmore hoctets, by rw [List.length_cons]; omega⟩
        · cases h

theorem decode?_numeral {octets : Bytes} (h : Numeral octets) (hfits : octets.length ≤ maxLength)
    (rest : Bytes) :
    decode? (octets ++ rest) = some (written octets % 0x10000000000000000, rest) := by
  have hread := decodeFrom?_numeral h 0 (by omega) rest
  rwa [Nat.mul_zero, Nat.pow_zero, Nat.mul_one] at hread

/-- **A number is read from the numeral in front, if that has ten octets at most.** -/
theorem decode?_eq_some_iff_numeral {value : Nat} {bytes rest : Bytes} :
    decode? bytes = some (value, rest)
      ↔ ∃ octets, bytes = octets ++ rest ∧ Numeral octets ∧ octets.length ≤ maxLength
        ∧ value = written octets % 0x10000000000000000 := by
  constructor
  · intro h
    obtain ⟨octets, rfl, hoctets, hfits⟩ := numeral_of_decodeFrom? h
    rw [Nat.zero_add] at hfits
    rw [decode?_numeral hoctets hfits] at h
    cases h
    exact ⟨octets, rfl, hoctets, hfits, rfl⟩
  · rintro ⟨octets, rfl, hoctets, hfits, rfl⟩
    exact decode?_numeral hoctets hfits rest

/-- a number is read from the octets in front of what is left -/
theorem decode?_eq_some_iff {value : Nat} {bytes rest : Bytes} :
    decode? bytes = some (value, rest)
      ↔ ∃ octets, bytes = octets ++ rest ∧ decode? octets = some (value, []) := by
  simp only [decode?_eq_some_iff_numeral, List.append_nil, exists_eq_left']

theorem decode?_eq_none_iff {octets : Bytes} (h : Numeral octets) (rest : Bytes) :
    decode? (octets ++ rest) = none ↔ maxLength < octets.length := by
  constructor
  · intro hnone
    by_contra hfits
    rw [decode?_numeral h (Nat.le_of_not_lt hfits)] at hnone
    cases hnone
  · intro hlong
    rw [Option.eq_none_iff_forall_ne_some]
    rintro ⟨value, after⟩ hread
    obtain ⟨others, hothers, hnumeral, hfits, -⟩ := decode?_eq_some_iff_numeral.mp hread
    obtain ⟨rfl, -⟩ := h.append_inj hnumeral hothers
    omega

/-! ## writing -/

theorem toNat_lastOctet {n : Nat} (h : n < 128) : (UInt8.ofNat n).toNat = n :=
  UInt8.toNat_ofNat_of_lt' (Nat.lt_trans h (by decide))

theorem toNat_octet (n : Nat) : (UInt8.ofNat (128 + n % 128)).toNat = 128 + n % 128 :=
  UInt8.toNat_ofNat_of_lt' (show 128 + n % 128 < 256 by omega)

theorem numeral_encode (n : Nat) : Numeral (encode n) := by
  induction n using encode.induct with
  | case1 n hn =>
    rw [encode, if_pos hn]
    exact .last (by rwa [toNat_lastOctet hn])
  | case2 n hn ih =>
    rw [encode, if_neg hn]
    exact .more (by rw [toNat_octet]; omega) ih

theorem written_encode (n : Nat) : written (encode n) = n := by
  induction n using encode.induct with
  | case1 n hn => rw [encode, if_pos hn, written_singleton, toNat_lastOctet hn, Nat.mod_eq_of_lt hn]
  | case2 n hn ih =>
    rw [encode, if_neg hn, written_cons, toNat_octet, ih]
    omega

/-- no more octets than the number needs -/
theorem length_encode_le {n : Nat} (width : Nat) (h : n < 128 ^ (width + 1)) :
    (encode n).length ≤ width + 1 := by
  induction n using encode.induct generalizing width with
  | case1 n hn =>
    rw [encode, if_pos hn, List.length_singleton]
    omega
  | case2 n hn ih =>
    rw [encode, if_neg hn, List.length_cons]
    cases width with
    | zero => exact absurd h hn
    | succ width =>
      have hothers := ih width (Nat.div_lt_of_lt_mul (Nat.pow_succ' ▸ h))
      omega

theorem length_encode_le_maxLength {n : Nat} (h : n < 0x10000000000000000) :
    (encode n).length ≤ maxLength :=
  length_encode_le 9 (Nat.lt_trans h (by decide))

theorem decode?_encode {n : Nat} (h : n < 0x10000000000000000) (rest : Bytes) :
    decode? (encode n ++ rest) = some (n, rest) := by
  rw [decode?_numeral (numeral_encode n) (length_encode_le_maxLength h), written_encode,
    Nat.mod_eq_of_lt h]

/-! ## what is left of an input -/

/-- the number at the start of an input, if there is one, and what the input is afterwards -/
def take (input : Bytes) : Option Nat × Bytes :=
  match decode? input with
  | some (value, rest) => (some value, rest)
  | none => (none, input)

/-- nothing is taken from a numeral that is cut off -/
theorem take_of_prefix {octets front : Bytes} (h : Numeral octets) (hfront : front <+: octets)
    (hshort : front ≠ octets) : take front = (none, front) := by
  obtain ⟨cut, rfl⟩ := hfront
  cases hread : decode? front with
  | none => rw [take, hread]
  | some found =>
    obtain ⟨value, rest⟩ := found
    obtain ⟨others, rfl, hothers, -⟩ := decode?_eq_some_iff_numeral.mp hread
    -- what is read would be a numeral in front of another, so that nothing is cut off
    have happend : others ++ (rest ++ cut) = (others ++ rest ++ cut) ++ [] := by
      rw [List.append_nil, List.append_assoc]
    obtain ⟨-, hnil⟩ := hothers.append_inj h happend
    obtain ⟨-, rfl⟩ := List.append_eq_nil_iff.mp hnil
    exact absurd (List.append_nil _).symm hshort

/-- **A number is taken as a whole or not at all.**  The octets of a number below the sixty-fourth
power of two are ten at most.  With any others behind them the number is taken and the others are
left; with some of them cut off nothing is taken, and all that is there is left. -/
theorem taken_whole {n : Nat} (h : n < 0x10000000000000000) :
    (∀ rest, take (encode n ++ rest) = (some n, rest))
      ∧ 1 ≤ (encode n).length ∧ (encode n).length ≤ 10
      ∧ ∀ front, front <+: encode n → front ≠ encode n → take front = (none, front) := by
  refine ⟨?_, (numeral_encode n).length_pos, length_encode_le_maxLength h, ?_⟩
  · intro rest
    rw [take, decode?_encode h]
  · intro front hfront hshort
    exact take_of_prefix (numeral_encode n) hfront hshort

/-- the greatest number takes all ten octets, and nine of them are no number -/
theorem taken_whole_greatest :
    0xffffffffffffffff < 0x10000000000000000
      ∧ take (encode 0xffffffffffffffff ++ [170]) = (some 0xffffffffffffffff, [170])
      ∧ (encode 0xffffffffffffffff).length = 10
      ∧ take (List.replicate 9 255) = (none, List.replicate 9 255) := by
  have hlt : 0xffffffffffffffff < 0x10000000000000000 := by decide
  have hoctets : encode 0xffffffffffffffff = List.replicate 9 255 ++ [1] := by decide +kernel
  obtain ⟨htaken, -, -, hcut⟩ := taken_whole hlt
  refine ⟨hlt, htaken [170], by rw [hoctets]; rfl, hcut _ ?_ ?_⟩
  · rw [hoctets]
    exact List.prefix_append _ _
  · rw [hoctets]
    decide

/-! ## what is read against what is written -/

/-- **What is read is what is written, reduced by the sixty-fourth power of two.**  A number is read
exactly if at most ten octets are in front of which the last, and no other, has its highest bit
unset.  So a numeral is refused if it is longer, and not for the number that it writes; and it is read
as this number if and only if that is below the limit, as it is unless the tenth octet is above
one. -/
theorem reads_reduced (input : Bytes) :
    (∀ value rest, decode? input = some (value, rest)
        ↔ ∃ octets, input = octets ++ rest ∧ Numeral octets ∧ octets.length ≤ 10
          ∧ value = written octets % 0x10000000000000000)
      ∧ ∀ octets rest, input = octets ++ rest → Numeral octets →
        (decode? input = none ↔ 10 < octets.length)
          ∧ (decode? input = some (written octets, rest)
            ↔ octets.length ≤ 10 ∧ written octets < 0x10000000000000000)
          ∧ (octets.length ≤ 10 → (0x10000000000000000 ≤ written octets
            ↔ ∃ tenth, octets[9]? = some tenth ∧ 1 < tenth.toNat)) := by
  refine ⟨fun value rest => decode?_eq_some_iff_numeral, ?_⟩
  rintro octets rest rfl hoctets
  refine ⟨decode?_eq_none_iff hoctets rest, ?_, hoctets.limit_le_written_iff⟩
  constructor
  · intro hread
    obtain ⟨others, happend, hothers, hfits, hvalue⟩ := decode?_eq_some_iff_numeral.mp hread
    obtain ⟨rfl, -⟩ := hoctets.append_inj hothers happend
    rw [hvalue]
    exact ⟨hfits, Nat.mod_lt _ (by decide)⟩
  · rintro ⟨hfits, hlimit⟩
    rw [decode?_numeral hoctets hfits, Nat.mod_eq_of_lt hlimit]

/-- ten octets that write eight more than the sixty-fourth power of two -/
def overlong : Bytes := 136 :: List.replicate 8 128 ++ [2]

/-- a numeral of ten octets is read if its last one is one -/
theorem reads_reduced_tenth :
    Numeral (List.replicate 9 128 ++ [1])
      ∧ decode? (List.replicate 9 128 ++ [1, 7])
        = some (written (List.replicate 9 128 ++ [1]), [7])
      ∧ written (List.replicate 9 128 ++ [1]) = 0x8000000000000000 := by
  have hoctets : Numeral (List.replicate 9 128 ++ [1]) := by
    repeat apply Numeral.more (by decide)
    exact .last (by decide)
  have hwritten : written (List.replicate 9 128 ++ [1]) = 0x8000000000000000 := by decide
  obtain ⟨-, hnumeral⟩ := reads_reduced (List.replicate 9 128 ++ [1, 7])
  obtain ⟨-, hread, -⟩ := hnumeral _ [7] rfl hoctets
  exact ⟨hoctets, hread.mpr ⟨by decide, by rw [hwritten]; decide⟩, hwritten⟩

/-- a number above the limit is read as eight, and nothing is left -/
theorem reads_overlong :
    decode? overlong = some (8, []) ∧ written overlong = 0x10000000000000008 := by
  decide

end EventMerge.Pack.Varint
