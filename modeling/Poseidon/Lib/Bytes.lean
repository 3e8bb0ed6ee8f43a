import Mathlib.Data.List.Basic
import Mathlib.Tactic.NormNum
import Mathlib.Tactic.Ring

/-!
# Fixed-width integers as bytes

Big-endian and little-endian encodings of a natural number in a given number of bytes, and the
cutting of a byte string at an offset. A number that fits its width is read back unchanged from
either form, and every string of bytes is the form of the number read from it. Strings filled up
with zeros to one width, and the comparison of memory.
-/

namespace Poseidon

/-- A string of bytes, as a program passes it by pointer and length. -/
abbrev Bytes := List UInt8

/-- The `width` bytes of `value`, the most significant one first. -/
def beBytes : Nat → Nat → Bytes
  | 0, _ => []
  | width + 1, value => UInt8.ofNat (value / 256 ^ width) :: beBytes width value

/-- The number whose digits in base 256 are `bytes`, the most significant one first. -/
def beNat : Bytes → Nat
  | [] => 0
  | byte :: bytes => byte.toNat * 256 ^ bytes.length + beNat bytes

/-- The `width` bytes of `value`, the least significant one first. -/
def leBytes : Nat → Nat → Bytes
  | 0, _ => []
  | width + 1, value => UInt8.ofNat value :: leBytes width (value / 256)

/-- The number whose digits in base 256 are `bytes`, the least significant one first. -/
def leNat : Bytes → Nat
  | [] => 0
  | byte :: bytes => byte.toNat + 256 * leNat bytes

@[simp]
theorem length_beBytes (width value : Nat) : (beBytes width value).length = width := by
  induction width with
  | zero => rfl
  | succ width ih => rw [beBytes, List.length_cons, ih]

theorem beNat_beBytes_mod (width value : Nat) :
    beNat (beBytes width value) = value % 256 ^ width := by
  induction width with
  | zero => simp [beBytes, beNat, Nat.mod_one]
  | succ width ih =>
      have hbyte : (UInt8.ofNat (value / 256 ^ width)).toNat = value / 256 ^ width % 256 := by simp
      rw [beBytes, beNat, length_beBytes, ih, hbyte, Nat.pow_succ, Nat.mod_mul, Nat.add_comm,
        Nat.mul_comm]

variable {width : Nat}

theorem beNat_beBytes {value : Nat} (hfits : value < 256 ^ width) :
    beNat (beBytes width value) = value := by
  rw [beNat_beBytes_mod, Nat.mod_eq_of_lt hfits]

theorem beNat_lt (bytes : Bytes) : beNat bytes < 256 ^ bytes.length := by
  induction bytes with
  | nil => exact Nat.one_pos
  | cons byte bytes ih =>
      have hbyte : byte.toNat ≤ 255 := Nat.le_of_lt_succ byte.toNat_lt
      calc beNat (byte :: bytes) < byte.toNat * 256 ^ bytes.length + 256 ^ bytes.length :=
            Nat.add_lt_add_left ih _
        _ = (byte.toNat + 1) * 256 ^ bytes.length := by ring
        _ ≤ 256 * 256 ^ bytes.length := Nat.mul_le_mul_right _ (Nat.succ_le_succ hbyte)
        _ = 256 ^ (byte :: bytes).length := by rw [List.length_cons, Nat.pow_succ, Nat.mul_comm]

theorem beBytes_add_mul (width value carry : Nat) :
    beBytes width (carry * 256 ^ width + value) = beBytes width value := by
  induction width generalizing carry with
  | zero => rfl
  | succ width ih =>
      have hpos : 0 < 256 ^ width := Nat.pow_pos (by norm_num)
      have hsplit : carry * 256 ^ (width + 1) + value =
          carry * 256 * 256 ^ width + value := by
        rw [Nat.pow_succ]
        ring
      have hbyte : UInt8.ofNat (carry * 256 + value / 256 ^ width) =
          UInt8.ofNat (value / 256 ^ width) := by
        apply UInt8.toNat_inj.mp
        rw [UInt8.toNat_ofNat', UInt8.toNat_ofNat', Nat.add_comm, Nat.add_mul_mod_self_right]
      rw [beBytes, beBytes, hsplit, ih, Nat.mul_comm (carry * 256), Nat.mul_add_div hpos, hbyte]

theorem beBytes_beNat (bytes : Bytes) : beBytes bytes.length (beNat bytes) = bytes := by
  induction bytes with
  | nil => rfl
  | cons byte bytes ih =>
      have hpos : 0 < 256 ^ bytes.length := Nat.pow_pos (by norm_num)
      have hbyte : UInt8.ofNat ((byte.toNat * 256 ^ bytes.length + beNat bytes) /
          256 ^ bytes.length) = byte := by
        rw [Nat.mul_comm, Nat.mul_add_div hpos, Nat.div_eq_of_lt (beNat_lt bytes), Nat.add_zero,
          UInt8.ofNat_toNat]
      rw [beNat, List.length_cons, beBytes, beBytes_add_mul, ih, hbyte]

@[simp]
theorem length_leBytes (width value : Nat) : (leBytes width value).length = width := by
  induction width generalizing value with
  | zero => rfl
  | succ width ih => rw [leBytes, List.length_cons, ih]

theorem leNat_leBytes_mod (width value : Nat) :
    leNat (leBytes width value) = value % 256 ^ width := by
  induction width generalizing value with
  | zero => simp [leBytes, leNat, Nat.mod_one]
  | succ width ih =>
      have hbyte : (UInt8.ofNat value).toNat = value % 256 := by simp
      rw [leBytes, leNat, ih, hbyte, Nat.pow_succ, Nat.mul_comm (256 ^ width), Nat.mod_mul]

theorem leNat_leBytes {value : Nat} (hfits : value < 256 ^ width) :
    leNat (leBytes width value) = value := by
  rw [leNat_leBytes_mod, Nat.mod_eq_of_lt hfits]

theorem eq_of_leBytes_eq {left right : Nat} (hleft : left < 256 ^ width)
    (hright : right < 256 ^ width) (hbytes : leBytes width left = leBytes width right) :
    left = right := by
  rw [← leNat_leBytes hleft, hbytes, leNat_leBytes hright]

theorem leBytes_leNat (bytes : Bytes) : leBytes bytes.length (leNat bytes) = bytes := by
  induction bytes with
  | nil => rfl
  | cons byte bytes ih =>
      have hbyte : UInt8.ofNat (byte.toNat + 256 * leNat bytes) = byte := by
        apply UInt8.toNat_inj.mp
        rw [UInt8.toNat_ofNat', Nat.add_mul_mod_self_left, Nat.mod_eq_of_lt byte.toNat_lt]
      have hrest : (byte.toNat + 256 * leNat bytes) / 256 = leNat bytes := by
        rw [Nat.add_mul_div_left _ _ (by norm_num), Nat.div_eq_of_lt byte.toNat_lt, Nat.zero_add]
      rw [leNat, List.length_cons, leBytes, hbyte, hrest, ih]

theorem leNat_lt (bytes : Bytes) : leNat bytes < 256 ^ bytes.length := by
  have hmod := leNat_leBytes_mod bytes.length (leNat bytes)
  rw [leBytes_leNat] at hmod
  rw [hmod]
  exact Nat.mod_lt _ (Nat.pow_pos (by norm_num))

/-- The `length` bytes from `offset` on, fewer where the string ends. -/
def slice (bytes : Bytes) (offset length : Nat) : Bytes :=
  (bytes.drop offset).take length

theorem slice_append_right (front rest : Bytes) (offset length : Nat)
    (hoffset : front.length ≤ offset) :
    slice (front ++ rest) offset length = slice rest (offset - front.length) length := by
  rw [slice, slice, List.drop_append, List.drop_eq_nil_of_le hoffset, List.nil_append]

theorem slice_append_left (front rest : Bytes) (length : Nat) (hlength : length = front.length) :
    slice (front ++ rest) 0 length = front := by
  rw [slice, List.drop_zero, hlength, List.take_left]

theorem slice_all (bytes : Bytes) (length : Nat) (hlength : length = bytes.length) :
    slice bytes 0 length = bytes := by
  rw [slice, List.drop_zero, hlength, List.take_length]

theorem length_slice {bytes : Bytes} {offset length : Nat}
    (hlong : offset + length ≤ bytes.length) : (slice bytes offset length).length = length := by
  rw [slice, List.length_take, List.length_drop]
  omega

theorem slice_middle {front middle rest : Bytes} {offset length : Nat}
    (hoffset : offset = front.length) (hlength : length = middle.length) :
    slice (front ++ (middle ++ rest)) offset length = middle := by
  rw [slice_append_right _ _ _ _ hoffset.ge, hoffset, Nat.sub_self]
  exact slice_append_left _ _ _ hlength

theorem slice_add (bytes : Bytes) (offset front back : Nat) :
    slice bytes offset (front + back) =
      slice bytes offset front ++ slice bytes (offset + front) back := by
  rw [slice, slice, slice, List.take_add, List.drop_drop]

theorem slice_mul (bytes : Bytes) (offset width count : Nat) :
    slice bytes offset (width * count) =
      (List.range count).flatMap fun i => slice bytes (offset + width * i) width := by
  induction count with
  | zero => simp [slice]
  | succ count ih => rw [Nat.mul_succ, slice_add, ih, List.range_succ, List.flatMap_append,
      List.flatMap_singleton]

theorem slice_flatMap {α : Type*} {piece : α → Bytes}
    (hwidth : ∀ item, (piece item).length = width) (rest : Bytes) {items : List α} {i : Nat}
    {item : α} (hitem : items[i]? = some item) :
    slice (items.flatMap piece ++ rest) (width * i) width = piece item := by
  induction items generalizing i with
  | nil => exact absurd hitem (by simp)
  | cons first items ih =>
      rw [List.flatMap_cons, List.append_assoc]
      cases i with
      | zero =>
          obtain rfl := Option.some.inj hitem
          exact slice_append_left _ _ _ (hwidth first).symm
      | succ i =>
          have hfront : width * (i + 1) - (piece first).length = width * i := by
            rw [hwidth, Nat.mul_succ, Nat.add_sub_cancel]
          have hpast : (piece first).length ≤ width * (i + 1) := by
            rw [hwidth, Nat.mul_succ]
            exact Nat.le_add_left _ _
          rw [slice_append_right _ _ _ _ hpast, hfront]
          exact ih hitem

theorem length_flatMap_of_width {α : Type*} {piece : α → Bytes}
    (hwidth : ∀ item, (piece item).length = width) (items : List α) :
    (items.flatMap piece).length = width * items.length := by
  induction items with
  | nil => rfl
  | cons first items ih =>
      rw [List.flatMap_cons, List.length_append, hwidth, ih, List.length_cons, Nat.mul_succ,
        Nat.add_comm]

/-! ### Filling up with zeros -/

def padTo (width : Nat) (bytes : Bytes) : Bytes :=
  bytes ++ List.replicate (width - bytes.length) 0

/-- The longer string is the shorter one with zeros behind it, at least one. -/
def ZeroExtends (shorter longer : Bytes) : Prop :=
  ∃ count, 0 < count ∧ longer = shorter ++ List.replicate count 0

theorem length_padTo {bytes : Bytes} (hfits : bytes.length ≤ width) :
    (padTo width bytes).length = width := by
  rw [padTo, List.length_append, List.length_replicate]
  omega

theorem ZeroExtends.length_lt {shorter longer : Bytes} (hextends : ZeroExtends shorter longer) :
    shorter.length < longer.length := by
  obtain ⟨count, hpos, rfl⟩ := hextends
  rw [List.length_append, List.length_replicate]
  omega

theorem ZeroExtends.ne {shorter longer : Bytes} (hextends : ZeroExtends shorter longer) :
    shorter ≠ longer :=
  fun hsame => absurd hextends.length_lt (hsame ▸ lt_irrefl _)

theorem padTo_eq_of_zeroExtends {shorter longer : Bytes} (hextends : ZeroExtends shorter longer)
    (hfits : longer.length ≤ width) : padTo width shorter = padTo width longer := by
  obtain ⟨count, -, rfl⟩ := hextends
  rw [List.length_append, List.length_replicate] at hfits
  unfold padTo
  rw [List.length_append, List.length_replicate, List.append_assoc,
    List.replicate_append_replicate]
  congr 2
  omega

theorem eq_or_zeroExtends_of_padTo_eq {shorter longer : Bytes}
    (hlength : shorter.length ≤ longer.length) (hfits : longer.length ≤ width)
    (hsame : padTo width shorter = padTo width longer) :
    shorter = longer ∨ ZeroExtends shorter longer := by
  have hlonger : longer = shorter ++ List.replicate (longer.length - shorter.length) 0 := by
    have htake := congrArg (List.take longer.length) hsame
    rw [padTo, padTo, List.take_append, List.take_of_length_le hlength, List.take_replicate,
      List.take_left, Nat.min_eq_left (by omega)] at htake
    exact htake.symm
  by_cases hequal : longer.length = shorter.length
  · rw [hequal, Nat.sub_self, List.replicate_zero, List.append_nil] at hlonger
    exact Or.inl hlonger.symm
  · exact Or.inr ⟨longer.length - shorter.length, by omega, hlonger⟩

/-- Two strings filled up to one width are told apart, unless one extends the other by zeros. -/
theorem padTo_eq_iff {left right : Bytes} (hleft : left.length ≤ width)
    (hright : right.length ≤ width) :
    padTo width left = padTo width right ↔
      left = right ∨ ZeroExtends left right ∨ ZeroExtends right left := by
  constructor
  · intro hsame
    rcases Nat.le_total left.length right.length with hlength | hlength
    · rcases eq_or_zeroExtends_of_padTo_eq hlength hright hsame with hequal | hextends
      · exact Or.inl hequal
      · exact Or.inr (Or.inl hextends)
    · rcases eq_or_zeroExtends_of_padTo_eq hlength hleft hsame.symm with hequal | hextends
      · exact Or.inl hequal.symm
      · exact Or.inr (Or.inr hextends)
  · rintro (rfl | hextends | hextends)
    · rfl
    · exact padTo_eq_of_zeroExtends hextends hright
    · exact (padTo_eq_of_zeroExtends hextends hleft).symm

/-! ### Comparing memory -/

/-- `memcmp` of memory of one size: the difference of the first bytes that differ. -/
def memcmp : Bytes → Bytes → Int
  | left :: lefts, right :: rights =>
      if left = right then memcmp lefts rights else left.toNat - right.toNat
  | _, _ => 0

theorem memcmp_eq_zero_iff {left right : Bytes} (hlength : left.length = right.length) :
    memcmp left right = 0 ↔ left = right := by
  induction left generalizing right with
  | nil => simp [memcmp, List.eq_nil_of_length_eq_zero hlength.symm]
  | cons byte left ih =>
      cases right with
      | nil => simp at hlength
      | cons other right =>
          rw [memcmp, List.cons.injEq]
          split_ifs with hbyte
          · rw [ih (Nat.succ.inj hlength)]
            exact (and_iff_right hbyte).symm
          · refine iff_of_false (fun hzero => hbyte ?_) fun hboth => hbyte hboth.1
            exact UInt8.toNat_inj.mp (by omega)

end Poseidon
