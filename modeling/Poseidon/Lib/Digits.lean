import Mathlib.Data.List.DropRight
import Mathlib.Data.List.TakeWhile
import Mathlib.Data.Nat.Digits.Lemmas
import Poseidon.Lib.Bytes

/-!
# Numbers as strings of bytes without leading zeros

The bytes of a number, the least significant one first, as a big integer keeps them: none for zero,
and no zero at the end. Every string of bytes is the bytes of its number once the zeros at its end
are dropped. How long a number is in one base bounds how long it is in another. Equal items at the
start of a list are split off and counted.
-/

namespace Poseidon

/-- The bytes of a number, the least significant one first, without a zero at the end. -/
def digitBytes (value : Nat) : Bytes :=
  (Nat.digits 256 value).map UInt8.ofNat

@[simp]
theorem digitBytes_zero : digitBytes 0 = [] := by
  rw [digitBytes, Nat.digits_zero, List.map_nil]

theorem ofNat_mod (value : Nat) : UInt8.ofNat (value % 256) = UInt8.ofNat value := by
  apply UInt8.toNat_inj.mp
  rw [UInt8.toNat_ofNat', UInt8.toNat_ofNat', Nat.mod_mod]

theorem digitBytes_of_pos {value : Nat} (hpos : 0 < value) :
    digitBytes value = UInt8.ofNat value :: digitBytes (value / 256) := by
  rw [digitBytes, Nat.digits_def' (by norm_num) hpos, List.map_cons, ofNat_mod, digitBytes]

/-- One step of a loop with a carry: the low byte is written and the rest carried on. -/
theorem cons_digitBytes {low high : Nat} (hpos : 0 < low + 256 * high) :
    UInt8.ofNat low :: digitBytes (high + low / 256) = digitBytes (low + 256 * high) := by
  have hlow : UInt8.ofNat (low + 256 * high) = UInt8.ofNat low := by
    rw [← ofNat_mod, Nat.add_mul_mod_self_left, ofNat_mod]
  rw [digitBytes_of_pos hpos, hlow, Nat.add_mul_div_left _ _ (by norm_num), Nat.add_comm high]

theorem leNat_eq_ofDigits (bytes : Bytes) :
    leNat bytes = Nat.ofDigits 256 (bytes.map UInt8.toNat) := by
  induction bytes with
  | nil => rfl
  | cons byte bytes ih => rw [leNat, List.map_cons, Nat.ofDigits_cons, ih]

theorem leNat_digitBytes (value : Nat) : leNat (digitBytes value) = value := by
  have hdigits : ((Nat.digits 256 value).map UInt8.ofNat).map UInt8.toNat =
      Nat.digits 256 value := by
    rw [List.map_map]
    refine (List.map_congr_left fun digit hdigit => ?_).trans (List.map_id _)
    exact UInt8.toNat_ofNat_of_lt (Nat.digits_lt_base (by norm_num) hdigit)
  rw [leNat_eq_ofDigits, digitBytes, hdigits, Nat.ofDigits_digits]

theorem digitBytes_leNat {bytes : Bytes} (hlast : ∀ hne : bytes ≠ [], bytes.getLast hne ≠ 0) :
    digitBytes (leNat bytes) = bytes := by
  have hdigits : Nat.digits 256 (Nat.ofDigits 256 (bytes.map UInt8.toNat)) =
      bytes.map UInt8.toNat := by
    refine Nat.digits_ofDigits 256 (by norm_num) _ ?_ ?_
    · intro digit hdigit
      obtain ⟨byte, -, rfl⟩ := List.mem_map.mp hdigit
      exact byte.toNat_lt
    · intro hne
      rw [List.getLast_map]
      intro hzero
      exact hlast (fun hnil => hne (List.map_eq_nil_iff.mpr hnil)) (UInt8.toNat_inj.mp hzero)
  rw [digitBytes, leNat_eq_ofDigits, hdigits, List.map_map]
  refine (List.map_congr_left fun byte _ => ?_).trans (List.map_id _)
  exact UInt8.ofNat_toNat

theorem leNat_append_zero (bytes : Bytes) : leNat (bytes ++ [0]) = leNat bytes := by
  induction bytes with
  | nil => rfl
  | cons byte bytes ih => rw [List.cons_append, leNat, leNat, ih]

theorem leNat_append_replicate_zero (bytes : Bytes) (count : Nat) :
    leNat (bytes ++ List.replicate count 0) = leNat bytes := by
  induction count with
  | zero => rw [List.replicate_zero, List.append_nil]
  | succ count ih => rw [List.replicate_succ', ← List.append_assoc, leNat_append_zero, ih]

theorem leNat_rdropWhile_zero (bytes : Bytes) :
    leNat (bytes.rdropWhile (· == 0)) = leNat bytes := by
  induction bytes using List.reverseRecOn with
  | nil => rfl
  | append_singleton bytes byte ih =>
      rw [List.rdropWhile_concat]
      split_ifs with hzero
      · rw [ih, eq_of_beq hzero, leNat_append_zero]
      · rfl

theorem rdropWhile_zero_eq_digitBytes (bytes : Bytes) :
    bytes.rdropWhile (· == 0) = digitBytes (leNat bytes) := by
  rw [← leNat_rdropWhile_zero, digitBytes_leNat]
  intro hne hzero
  refine List.rdropWhile_last_not (· == 0) bytes hne ?_
  rw [hzero]
  rfl

theorem getLast_digitBytes_ne_zero {value : Nat} (hne : digitBytes value ≠ []) :
    (digitBytes value).getLast hne ≠ 0 := by
  have hsame : (digitBytes value).rdropWhile (· == 0) = digitBytes value := by
    rw [rdropWhile_zero_eq_digitBytes, leNat_digitBytes]
  intro hzero
  exact (List.rdropWhile_eq_self_iff.mp hsame) hne (by rw [hzero]; rfl)

/-- How long a number is in one base, from its length in another: if `p` digits to the first base
hold as much as `q` to the second, `n` digits become at most `n * p / q + 1`. -/
theorem length_digits_le_of_pow_le {base other p q : Nat} (hbase : 1 < base) (hq : q ≠ 0)
    (hpow : other ^ q ≤ base ^ p) {value n : Nat} (hvalue : value < other ^ n) :
    (Nat.digits base value).length ≤ n * p / q + 1 := by
  have hround : n * p ≤ (n * p / q + 1) * q := by
    rw [Nat.add_one_mul]
    exact (Nat.lt_div_mul_add (Nat.pos_of_ne_zero hq)).le
  rw [Nat.digits_length_le_iff hbase]
  refine lt_of_lt_of_le hvalue ((Nat.pow_le_pow_iff_left hq).mp ?_)
  calc (other ^ n) ^ q = (other ^ q) ^ n := by rw [← Nat.pow_mul, ← Nat.pow_mul, Nat.mul_comm]
    _ ≤ (base ^ p) ^ n := Nat.pow_le_pow_left hpow n
    _ = base ^ (n * p) := by rw [← Nat.pow_mul, Nat.mul_comm]
    _ ≤ base ^ ((n * p / q + 1) * q) := Nat.pow_le_pow_right (by omega) hround
    _ = (base ^ (n * p / q + 1)) ^ q := Nat.pow_mul ..

/-! ### Leading items -/

section Leading

variable {α : Type*} [BEq α] [LawfulBEq α]

theorem replicate_append_dropWhile (first : α) (items : List α) :
    List.replicate (items.takeWhile (· == first)).length first ++
      items.dropWhile (· == first) = items := by
  have hfirst : items.takeWhile (· == first) =
      List.replicate (items.takeWhile (· == first)).length first := by
    rw [List.eq_replicate_iff]
    refine ⟨rfl, fun item hitem => ?_⟩
    have hequal := List.mem_takeWhile_imp hitem
    exact eq_of_beq hequal
  rw [← hfirst, List.takeWhile_append_dropWhile]

theorem takeWhile_replicate_append (first : α) (count : Nat) {items : List α}
    (hhead : ∀ item ∈ items.head?, item ≠ first) :
    (List.replicate count first ++ items).takeWhile (· == first) =
      List.replicate count first := by
  rw [List.takeWhile_append_of_pos (by simp)]
  cases items with
  | nil => rw [List.takeWhile_nil, List.append_nil]
  | cons item items =>
      have hitem : (item == first) = false := beq_false_of_ne (hhead item rfl)
      rw [List.takeWhile_cons, hitem, if_neg Bool.false_ne_true, List.append_nil]

end Leading

end Poseidon
