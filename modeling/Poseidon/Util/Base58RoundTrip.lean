import Poseidon.Lib.Digits
import Poseidon.Util.Base58

/-!
# Base58 is read back

The big integers of the codec are the bytes of the numbers they stand for, so each loop over them
computes on numbers: multiplying, adding and dividing with a carry, and taking out the digits to
some base. What `encode` writes, `decode` reads back, the leading zeros included.
-/

namespace Poseidon.Base58

/-! ### Big integers compute on numbers -/

theorem pushCarry_eq {fuel carry : Nat} (hcarry : carry < 256 ^ fuel) :
    pushCarry fuel carry = digitBytes carry := by
  induction fuel generalizing carry with
  | zero =>
      obtain rfl : carry = 0 := Nat.lt_one_iff.mp hcarry
      exact digitBytes_zero.symm
  | succ fuel ih =>
      have hrest : carry / 256 < 256 ^ fuel := by
        rw [Nat.pow_succ] at hcarry
        exact Nat.div_lt_of_lt_mul (by rwa [Nat.mul_comm])
      unfold pushCarry
      split_ifs with hzero
      · rw [hzero, digitBytes_zero]
      · rw [ih hrest, digitBytes_of_pos (Nat.pos_of_ne_zero hzero)]

theorem bigintMultiply_eq {factor : Nat} (hpos : 0 < factor) (hfactor : factor ≤ 256)
    (value : Nat) {carry : Nat} (hcarry : carry < 256 ^ 4) :
    bigintMultiply factor (digitBytes value) carry = digitBytes (value * factor + carry) := by
  induction value using Nat.strongRecOn generalizing carry with
  | ind value ih =>
      by_cases hzero : value = 0
      · rw [hzero, digitBytes_zero, bigintMultiply, pushCarry_eq hcarry, Nat.zero_mul,
          Nat.zero_add]
      · have hvalue : 0 < value := Nat.pos_of_ne_zero hzero
        have hdigit : (UInt8.ofNat value).toNat = value % 256 := by simp
        have hlow : value % 256 * factor ≤ 255 * 256 := by
          exact Nat.mul_le_mul (Nat.le_of_lt_succ (Nat.mod_lt _ (by norm_num))) hfactor
        have hsum : value * factor + carry =
            (value % 256 * factor + carry) + 256 * (value / 256 * factor) := by
          conv_lhs => rw [← Nat.mod_add_div value 256]
          ring
        have hsumPos : 0 < value * factor + carry :=
          Nat.add_pos_left (Nat.mul_pos hvalue hpos) carry
        rw [digitBytes_of_pos hvalue, bigintMultiply, hdigit,
          ih (value / 256) (Nat.div_lt_self hvalue (by norm_num)) (by omega),
          cons_digitBytes (by omega), hsum]

theorem bigintAdd_eq (value : Nat) {carry : Nat} (hcarry : carry < 256 ^ 4) :
    bigintAdd (digitBytes value) carry = digitBytes (value + carry) := by
  induction value using Nat.strongRecOn generalizing carry with
  | ind value ih =>
      by_cases hzero : value = 0
      · rw [hzero, digitBytes_zero, bigintAdd, pushCarry_eq hcarry, Nat.zero_add]
      · have hvalue : 0 < value := Nat.pos_of_ne_zero hzero
        have hdigit : (UInt8.ofNat value).toNat = value % 256 := by simp
        have hsum : value + carry = (value % 256 + carry) + 256 * (value / 256) := by omega
        rw [digitBytes_of_pos hvalue, bigintAdd]
        split_ifs with hdone
        · rw [hdone, Nat.add_zero, digitBytes_of_pos hvalue]
        · rw [hdigit]
          dsimp only
          rw [ih (value / 256) (Nat.div_lt_self hvalue (by norm_num)) (by omega),
            cons_digitBytes (by omega), hsum]

variable (input : Bytes) {divisor : Nat}

theorem divmodDigits_eq (hpos : 0 < divisor) (digits : Bytes) :
    leNat (divmodDigits divisor digits).1 = leNat digits / divisor ∧
      (divmodDigits divisor digits).2 = leNat digits % divisor := by
  induction digits with
  | nil => simp [divmodDigits, leNat]
  | cons digit digits ih =>
      obtain ⟨hquotient, hremainder⟩ := ih
      have hdigit : digit.toNat < 256 := digit.toNat_lt
      have hrest : leNat digits % divisor < divisor := Nat.mod_lt _ hpos
      have hsplit : leNat (digit :: digits) =
          (leNat digits % divisor * 256 + digit.toNat) +
            divisor * (256 * (leNat digits / divisor)) := by
        rw [leNat]
        conv_lhs => rw [← Nat.mod_add_div (leNat digits) divisor]
        ring
      have hbyte : (leNat digits % divisor * 256 + digit.toNat) / divisor < 256 :=
        Nat.div_lt_of_lt_mul (by omega)
      constructor
      · rw [divmodDigits, leNat, hquotient, hremainder, UInt8.toNat_ofNat',
          Nat.mod_eq_of_lt hbyte, hsplit, Nat.add_mul_div_left _ _ hpos]
      · rw [divmodDigits, hremainder, hsplit, Nat.add_mul_mod_self_left]

theorem bigintDivmod_eq (hpos : 0 < divisor) (value : Nat) :
    bigintDivmod divisor (digitBytes value) = (digitBytes (value / divisor), value % divisor) := by
  obtain ⟨hquotient, hremainder⟩ := divmodDigits_eq hpos (digitBytes value)
  rw [leNat_digitBytes] at hquotient hremainder
  unfold bigintDivmod
  dsimp only
  rw [hremainder, ← hquotient, ← rdropWhile_zero_eq_digitBytes, List.rdropWhile]

theorem extractDigits_eq (hdivisor : 1 < divisor) {fuel value : Nat}
    (hfuel : (Nat.digits divisor value).length ≤ fuel) :
    extractDigits divisor fuel (digitBytes value) = Nat.digits divisor value := by
  induction fuel generalizing value with
  | zero => rw [extractDigits, List.length_eq_zero_iff.mp (Nat.le_zero.mp hfuel)]
  | succ fuel ih =>
      by_cases hzero : value = 0
      · rw [hzero, digitBytes_zero, Nat.digits_zero, extractDigits]
      · have hvalue : 0 < value := Nat.pos_of_ne_zero hzero
        have hdigits := Nat.digits_def' hdivisor hvalue
        rw [hdigits, List.length_cons] at hfuel
        rw [hdigits, ← ih (Nat.le_of_succ_le_succ hfuel)]
        rw [digitBytes_of_pos hvalue, extractDigits, ← digitBytes_of_pos hvalue,
          bigintDivmod_eq (by omega)]

/-! ### Reading a number -/

theorem foldl_bytes :
    input.foldl (fun bigint byte => bigintAdd (bigintMultiply 256 bigint 0) byte.toNat) [] =
      digitBytes (leNat input.reverse) := by
  induction input using List.reverseRecOn with
  | nil => exact digitBytes_zero.symm
  | append_singleton input byte ih =>
      have hbyte : byte.toNat < 256 ^ 4 := lt_trans byte.toNat_lt (by norm_num)
      rw [List.foldl_append, ih, List.foldl_cons, List.foldl_nil,
        bigintMultiply_eq (by norm_num) (by norm_num) _ (by norm_num), Nat.add_zero,
        bigintAdd_eq _ hbyte, List.reverse_append, List.reverse_singleton, List.singleton_append,
        leNat, Nat.add_comm, Nat.mul_comm]

theorem charDigit_digitChar {digit : Nat} (hdigit : digit < 58) :
    charDigit (digitChar digit) = some digit := by
  have hall : ∀ digit < 58, charDigit (digitChar digit) = some digit := by decide +kernel
  exact hall digit hdigit

theorem digitChar_ne_one {digit : Nat} (hdigit : digit < 58) (hne : digit ≠ 0) :
    digitChar digit ≠ one := by
  intro heq
  have hsame := charDigit_digitChar hdigit
  rw [heq] at hsame
  exact hne (Option.some.inj (hsame.symm.trans (by decide)))

theorem readDigits_map_digitChar {digits : List Nat} (hdigits : ∀ digit ∈ digits, digit < 58) :
    readDigits (digits.map digitChar) = some (digitBytes (Nat.ofDigits 58 digits.reverse)) := by
  induction digits using List.reverseRecOn with
  | nil => rw [List.reverse_nil, Nat.ofDigits_nil, digitBytes_zero]; rfl
  | append_singleton digits digit ih =>
      have hdigit : digit < 58 := hdigits digit (by simp)
      have hfront := ih fun other hother => hdigits other (by simp [hother])
      unfold readDigits at hfront ⊢
      rw [List.map_append, List.foldlM_append, hfront, List.map_singleton, Option.bind_eq_bind,
        Option.bind_some, List.foldlM_cons, charDigit_digitChar hdigit,
        Option.map_some, Option.bind_eq_bind, Option.bind_some, List.foldlM_nil, Option.pure_def,
        bigintMultiply_eq (by norm_num) (by norm_num) _ (by norm_num), Nat.add_zero,
        bigintAdd_eq _ (lt_trans hdigit (by norm_num)), List.reverse_append,
        List.reverse_singleton, List.singleton_append, Nat.ofDigits_cons, Nat.add_comm,
        Nat.mul_comm]

/-! ### Round trip -/

def numberOf (input : Bytes) : Nat :=
  leNat input.reverse

def leadingZeros (input : Bytes) : Nat :=
  (input.takeWhile (· == 0)).length

theorem digitBytes_numberOf : (digitBytes (numberOf input)).reverse = input.dropWhile (· == 0) := by
  unfold numberOf
  rw [← rdropWhile_zero_eq_digitBytes, List.rdropWhile, List.reverse_reverse,
    List.reverse_reverse]

theorem length_digits_numberOf :
    leadingZeros input + (Nat.digits 256 (numberOf input)).length = input.length := by
  have hlength := congrArg List.length (digitBytes_numberOf input)
  rw [List.length_reverse, digitBytes, List.length_map] at hlength
  rw [hlength, leadingZeros, ← List.length_append, List.takeWhile_append_dropWhile]

/-- Two digits to base 58 hold more than a byte. -/
theorem length_digits_le (value : Nat) :
    (Nat.digits 58 value).length ≤ 2 * (Nat.digits 256 value).length := by
  rw [Nat.digits_length_le_iff (by norm_num)]
  calc value < 256 ^ (Nat.digits 256 value).length := Nat.lt_base_pow_length_digits (by norm_num)
    _ ≤ (58 ^ 2) ^ (Nat.digits 256 value).length := Nat.pow_le_pow_left (by norm_num) _
    _ = 58 ^ (2 * (Nat.digits 256 value).length) := by rw [Nat.pow_mul]

def chars (input : Bytes) : Bytes :=
  List.replicate (leadingZeros input) one ++
    (Nat.digits 58 (numberOf input)).reverse.map digitChar

theorem length_chars_le : (chars input).length ≤ 2 * input.length := by
  have hbytes := length_digits_numberOf input
  have hdigits := length_digits_le (numberOf input)
  rw [chars, List.length_append, List.length_replicate, List.length_map, List.length_reverse]
  omega

theorem extractDigits_foldl_bytes {input : Bytes} (hlength : input.length ≤ bigintSize / 2) :
    extractDigits 58 bigintSize
        (input.foldl (fun bigint byte => bigintAdd (bigintMultiply 256 bigint 0) byte.toNat) []) =
      Nat.digits 58 (numberOf input) := by
  have hbytes := length_digits_numberOf input
  have hwritten := length_digits_le (numberOf input)
  have hroom : (Nat.digits 58 (numberOf input)).length ≤ bigintSize := by
    unfold bigintSize at hlength ⊢
    omega
  rw [foldl_bytes, show leNat input.reverse = numberOf input from rfl,
    extractDigits_eq (by norm_num) hroom]

theorem eq_chars_of_encode {input output : Bytes} {outputSize : Nat}
    (hencode : encode input outputSize = some output) :
    output = chars input ∧ input.length ≤ bigintSize / 2 := by
  obtain ⟨rfl, rfl⟩ | ⟨digits, hdigits, hlength, -, rfl⟩ := encode_cases hencode
  · exact ⟨by simp [chars, leadingZeros, numberOf, leNat], Nat.zero_le _⟩
  · rw [hdigits, extractDigits_foldl_bytes hlength]
    exact ⟨rfl, hlength⟩

theorem takeWhile_chars : ((chars input).takeWhile (· == one)).length = leadingZeros input := by
  unfold chars
  rw [takeWhile_replicate_append, List.length_replicate]
  intro char hchar
  rw [List.head?_map, List.head?_reverse] at hchar
  obtain ⟨digit, hdigit, rfl⟩ := Option.map_eq_some_iff.mp hchar
  obtain ⟨hne, rfl⟩ := List.mem_getLast?_eq_getLast hdigit
  refine digitChar_ne_one (Nat.digits_lt_base (by norm_num) (List.getLast_mem hne)) ?_
  exact Nat.getLast_digit_ne_zero 58 (Nat.digits_ne_nil_iff_ne_zero.mp hne)

/-- **Round trip.** What was encoded is decoded to the bytes it was made from, if there is room for
them. -/
theorem decode_encode {input output : Bytes} {outputSize decodedSize : Nat}
    (hencode : encode input outputSize = some output) (hroom : input.length ≤ decodedSize) :
    decode output decodedSize = some input := by
  obtain ⟨rfl, hlong⟩ := eq_chars_of_encode hencode
  have hlength := length_digits_numberOf input
  have hchars := length_chars_le input
  have hread : readDigits ((chars input).drop (leadingZeros input)) =
      some (digitBytes (numberOf input)) := by
    rw [chars, List.drop_left' List.length_replicate, readDigits_map_digitChar,
      List.reverse_reverse, Nat.ofDigits_digits]
    intro digit hdigit
    exact Nat.digits_lt_base (by norm_num) (List.mem_reverse.mp hdigit)
  have hdigits : (Nat.digits 256 (numberOf input)).reverse.map UInt8.ofNat =
      input.dropWhile (· == 0) := by
    rw [List.map_reverse, ← digitBytes_numberOf, digitBytes]
  unfold bigintSize at hlong
  unfold decode
  rw [if_neg (by unfold bigintSize; omega)]
  dsimp only
  rw [takeWhile_chars, hread]
  dsimp only
  rw [extractDigits_eq (by norm_num) (by unfold bigintSize; omega), if_neg (by omega), hdigits]
  exact congrArg some (replicate_append_dropWhile 0 input)

end Poseidon.Base58
