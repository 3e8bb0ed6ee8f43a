import Poseidon.Util.Base58RoundTrip

/-!
# Base58 is canonical

The other direction: the bytes a string is decoded to are encoded to the same string. With the
number a string stands for, what `decode` accepts and writes is said without its loops, and the
estimates of the lengths of a result are compared with the exact ones. A leading `1` is a whole byte
of the result, which the estimate of the decoded length does not count.
-/

namespace Poseidon.Base58

/-! ### Reading a string -/

def IsBase58 (string : Bytes) : Prop :=
  ∀ char ∈ string, char ∈ alphabet

instance (string : Bytes) : Decidable (IsBase58 string) :=
  inferInstanceAs (Decidable (∀ char ∈ string, char ∈ alphabet))

def leadingOnes (string : Bytes) : Nat :=
  (string.takeWhile (· == one)).length

def digitsOf (string : Bytes) : List Nat :=
  string.map (alphabet.idxOf ·)

/-- The number a string stands for; leading ones count nothing. -/
def valueOf (string : Bytes) : Nat :=
  Nat.ofDigits 58 (digitsOf string).reverse

theorem idxOf_alphabet {char : UInt8} (hchar : char ∈ alphabet) :
    alphabet.idxOf char < 58 ∧ digitChar (alphabet.idxOf char) = char := by
  have hall : ∀ char ∈ alphabet,
      alphabet.idxOf char < 58 ∧ digitChar (alphabet.idxOf char) = char := by decide +kernel
  exact hall char hchar

variable {string : Bytes} {outputSize : Nat}

theorem digitsOf_lt (hstring : IsBase58 string) {digit : Nat} (hdigit : digit ∈ digitsOf string) :
    digit < 58 := by
  obtain ⟨char, hchar, rfl⟩ := List.mem_map.mp hdigit
  exact (idxOf_alphabet (hstring char hchar)).1

theorem map_digitsOf (hstring : IsBase58 string) : (digitsOf string).map digitChar = string := by
  unfold digitsOf
  rw [List.map_map]
  refine (List.map_congr_left fun char hchar => ?_).trans (List.map_id string)
  exact (idxOf_alphabet (hstring char hchar)).2

theorem readDigits_of_isBase58 (hstring : IsBase58 string) :
    readDigits string = some (digitBytes (valueOf string)) := by
  conv_lhs => rw [← map_digitsOf hstring]
  exact readDigits_map_digitChar fun digit hdigit => digitsOf_lt hstring hdigit

theorem isBase58_of_readDigits {bigint : Bytes} (hread : readDigits string = some bigint) :
    IsBase58 string := by
  induction string using List.reverseRecOn generalizing bigint with
  | nil => exact fun char hchar => absurd hchar List.not_mem_nil
  | append_singleton string last ih =>
      unfold readDigits at hread
      rw [List.foldlM_append] at hread
      obtain ⟨front, hfront, hlast⟩ := Option.bind_eq_some_iff.mp hread
      rw [List.foldlM_cons] at hlast
      obtain ⟨next, hnext, -⟩ := Option.bind_eq_some_iff.mp hlast
      obtain ⟨digit, hdigit, -⟩ := Option.map_eq_some_iff.mp hnext
      intro char hchar
      obtain hmem | hmem := List.mem_append.mp hchar
      · exact ih hfront char hmem
      · rw [List.mem_singleton.mp hmem]
        by_contra habsent
        rw [charDigit, List.idxOf?_eq_none_iff.mpr habsent] at hdigit
        exact Option.some_ne_none digit hdigit.symm

/-! ### What is decoded -/

def significant (string : Bytes) : Bytes :=
  string.dropWhile (· == one)

theorem replicate_append_significant (string : Bytes) :
    List.replicate (leadingOnes string) one ++ significant string = string :=
  replicate_append_dropWhile one string

theorem drop_leadingOnes (string : Bytes) :
    string.drop (leadingOnes string) = significant string := by
  have hdrop := congrArg (List.drop (leadingOnes string)) (replicate_append_significant string)
  rw [List.drop_left' List.length_replicate] at hdrop
  exact hdrop.symm

theorem length_significant (string : Bytes) :
    leadingOnes string + (significant string).length = string.length := by
  have hlength := congrArg List.length (replicate_append_significant string)
  rwa [List.length_append, List.length_replicate] at hlength

theorem isBase58_iff_significant (string : Bytes) :
    IsBase58 string ↔ IsBase58 (significant string) := by
  constructor
  · intro hstring char hchar
    exact hstring char ((List.dropWhile_sublist _).subset hchar)
  · intro hrest char hchar
    rw [← replicate_append_significant string] at hchar
    obtain hones | hmem := List.mem_append.mp hchar
    · rw [List.eq_of_mem_replicate hones]
      decide
    · exact hrest char hmem

theorem valueOf_significant (string : Bytes) : valueOf (significant string) = valueOf string := by
  have hone : alphabet.idxOf one = 0 := by decide
  conv_rhs => rw [← replicate_append_significant string]
  unfold valueOf digitsOf
  rw [List.map_append, List.map_replicate, hone, List.reverse_append, List.reverse_replicate,
    Nat.ofDigits_append_replicate_zero]

theorem valueOf_lt (hstring : IsBase58 string) :
    valueOf string < 58 ^ (significant string).length := by
  rw [← valueOf_significant]
  have hdigits : ∀ digit ∈ (digitsOf (significant string)).reverse, digit < 58 := by
    intro digit hdigit
    exact digitsOf_lt ((isBase58_iff_significant string).mp hstring) (List.mem_reverse.mp hdigit)
  have hvalue := Nat.ofDigits_lt_base_pow_length (by norm_num) hdigits
  rwa [List.length_reverse, digitsOf, List.length_map] at hvalue

def decoded (string : Bytes) : Bytes :=
  List.replicate (leadingOnes string) 0 ++ (digitBytes (valueOf string)).reverse

theorem length_decoded (string : Bytes) :
    (decoded string).length = leadingOnes string + (Nat.digits 256 (valueOf string)).length := by
  rw [decoded, List.length_append, List.length_replicate, List.length_reverse, digitBytes,
    List.length_map]

theorem length_digits_valueOf_le (hstring : IsBase58 string) :
    (Nat.digits 256 (valueOf string)).length ≤ (significant string).length := by
  rw [Nat.digits_length_le_iff (by norm_num)]
  exact lt_of_lt_of_le (valueOf_lt hstring) (Nat.pow_le_pow_left (by norm_num) _)

theorem decode_of_isBase58 (hlength : string.length ≤ bigintSize) (hstring : IsBase58 string)
    (outputSize : Nat) :
    decode string outputSize =
      if outputSize < (decoded string).length then none else some (decoded string) := by
  have hfuel : (Nat.digits 256 (valueOf string)).length ≤ bigintSize := by
    have hshort := length_digits_valueOf_le hstring
    have hwhole := length_significant string
    omega
  unfold decode
  rw [if_neg (Nat.not_lt.mpr hlength)]
  dsimp only
  rw [show (string.takeWhile (· == one)).length = leadingOnes string from rfl, drop_leadingOnes,
    readDigits_of_isBase58 ((isBase58_iff_significant string).mp hstring), valueOf_significant]
  dsimp only
  rw [extractDigits_eq (by norm_num) hfuel, ← length_decoded, List.map_reverse]
  rfl

theorem isBase58_of_decode {output : Bytes} (hdecode : decode string outputSize = some output) :
    string.length ≤ bigintSize ∧ IsBase58 string := by
  unfold decode at hdecode
  split_ifs at hdecode with hlong
  refine ⟨Nat.le_of_not_lt hlong, ?_⟩
  dsimp only at hdecode
  rw [show (string.takeWhile (· == one)).length = leadingOnes string from rfl,
    drop_leadingOnes] at hdecode
  cases hread : readDigits (significant string) with
  | none =>
      rw [hread] at hdecode
      cases hdecode
  | some bigint =>
      exact (isBase58_iff_significant string).mpr (isBase58_of_readDigits hread)

theorem decode_eq_some_iff {output : Bytes} :
    decode string outputSize = some output ↔
      string.length ≤ bigintSize ∧ IsBase58 string ∧ (decoded string).length ≤ outputSize ∧
        output = decoded string := by
  constructor
  · intro hdecode
    obtain ⟨hlength, hstring⟩ := isBase58_of_decode hdecode
    rw [decode_of_isBase58 hlength hstring] at hdecode
    split_ifs at hdecode with hroom
    exact ⟨hlength, hstring, Nat.le_of_not_lt hroom, (Option.some.inj hdecode).symm⟩
  · rintro ⟨hlength, hstring, hroom, rfl⟩
    rw [decode_of_isBase58 hlength hstring, if_neg (Nat.not_lt.mpr hroom)]

/-! ### What is encoded -/

theorem chars_ne_nil {input : Bytes} (hinput : input ≠ []) : chars input ≠ [] := by
  intro hnil
  have hlength := length_digits_numberOf input
  obtain ⟨hzeros, hdigits⟩ := List.append_eq_nil_iff.mp hnil
  have hnumber : numberOf input = 0 := by
    rwa [List.map_eq_nil_iff, List.reverse_eq_nil_iff, Nat.digits_eq_nil_iff_eq_zero] at hdigits
  rw [hnumber, Nat.digits_zero, List.length_nil,
    (List.replicate_eq_nil_iff one).mp hzeros] at hlength
  exact hinput (List.eq_nil_of_length_eq_zero hlength.symm)

theorem encode_eq_some_iff {input output : Bytes} :
    encode input outputSize = some output ↔
      input.length ≤ bigintSize / 2 ∧ 0 < outputSize ∧ (chars input).length ≤ outputSize ∧
        output = chars input := by
  constructor
  · intro hencode
    obtain ⟨rfl, hlength⟩ := eq_chars_of_encode hencode
    have hroom := length_le_of_encode hencode
    refine ⟨hlength, ?_, hroom, rfl⟩
    by_cases hinput : input = []
    · subst hinput
      by_contra hnone
      rw [encode, if_pos rfl, if_pos (by omega)] at hencode
      exact Option.some_ne_none _ hencode.symm
    · exact lt_of_lt_of_le (List.length_pos_iff.mpr (chars_ne_nil hinput)) hroom
  · rintro ⟨hlength, hsize, hroom, rfl⟩
    have hwritten : (chars input).length =
        leadingZeros input + (Nat.digits 58 (numberOf input)).length := by
      rw [chars, List.length_append, List.length_replicate, List.length_map, List.length_reverse]
    unfold encode
    split_ifs with hempty hnone hlong
    · omega
    · subst hempty
      simp [chars, leadingZeros, numberOf, leNat]
    · omega
    · dsimp only
      rw [extractDigits_foldl_bytes hlength, if_neg]
      · rfl
      · rw [hwritten] at hroom
        exact Nat.not_lt.mpr hroom

/-! ### The same string again -/

theorem leadingZeros_decoded (string : Bytes) :
    leadingZeros (decoded string) = leadingOnes string := by
  unfold leadingZeros decoded
  rw [takeWhile_replicate_append, List.length_replicate]
  intro byte hbyte
  rw [List.head?_reverse] at hbyte
  obtain ⟨hne, rfl⟩ := List.mem_getLast?_eq_getLast hbyte
  exact getLast_digitBytes_ne_zero hne

theorem numberOf_decoded (string : Bytes) : numberOf (decoded string) = valueOf string := by
  unfold numberOf decoded
  rw [List.reverse_append, List.reverse_reverse, List.reverse_replicate,
    leNat_append_replicate_zero, leNat_digitBytes]

/-- The first significant character is not a one, so the digits have no leading zero. -/
theorem digits_valueOf (hstring : IsBase58 string) :
    Nat.digits 58 (valueOf string) = (digitsOf (significant string)).reverse := by
  have hrest := (isBase58_iff_significant string).mp hstring
  rw [← valueOf_significant, valueOf]
  refine Nat.digits_ofDigits 58 (by norm_num) _ ?_ ?_
  · intro digit hdigit
    exact digitsOf_lt hrest (List.mem_reverse.mp hdigit)
  · intro hne hzero
    rw [List.getLast_reverse] at hzero
    cases hsignificant : significant string with
    | nil => simp [hsignificant, digitsOf] at hne
    | cons first others =>
        have hfirst : alphabet.idxOf first = 0 := by
          simpa [hsignificant, digitsOf] using hzero
        have hmem : first ∈ alphabet := hrest first (by rw [hsignificant]; exact List.mem_cons_self)
        have hone : first = one := by
          rw [← (idxOf_alphabet hmem).2, hfirst]
          rfl
        have hhead := List.head?_dropWhile_not (· == one) string
        rw [show string.dropWhile (· == one) = first :: others from hsignificant] at hhead
        simp [hone] at hhead

/-- **Canonical.** The bytes of a string are encoded to the string. -/
theorem chars_decoded (hstring : IsBase58 string) : chars (decoded string) = string := by
  have hrest := (isBase58_iff_significant string).mp hstring
  unfold chars
  rw [leadingZeros_decoded, numberOf_decoded, digits_valueOf hstring, List.reverse_reverse,
    map_digitsOf hrest, replicate_append_significant]

/-- **Bijection.** Up to 100 bytes are encoded to a string without a zero byte, which is decoded to
the same bytes; and what a string was decoded to, if it has up to 100 bytes, is encoded to the same
string. Each time the output buffer has room for the result. -/
theorem base58_bijection :
    (∀ (input : Bytes) (outputSize decodedSize : Nat), input.length ≤ 100 →
      0 < outputSize → (chars input).length ≤ outputSize → input.length ≤ decodedSize →
      ∃ output, encode input outputSize = some output ∧ (0 : UInt8) ∉ output ∧
        decode output decodedSize = some input) ∧
    ∀ (string output : Bytes) (decodedSize outputSize : Nat),
      decode string decodedSize = some output → output.length ≤ 100 →
      0 < outputSize → string.length ≤ outputSize → encode output outputSize = some string := by
  constructor
  · intro input outputSize decodedSize hlength hsize hroom hdecoded
    have hencode : encode input outputSize = some (chars input) :=
      encode_eq_some_iff.mpr ⟨hlength, hsize, hroom, rfl⟩
    exact ⟨chars input, hencode, zero_not_mem_encode hencode, decode_encode hencode hdecoded⟩
  · intro string output decodedSize outputSize hdecode hlength hsize hroom
    obtain ⟨-, hstring, -, rfl⟩ := decode_eq_some_iff.mp hdecode
    have hsame := chars_decoded hstring
    exact encode_eq_some_iff.mpr ⟨hlength, hsize, by rwa [hsame], hsame.symm⟩

/-- A zero byte and a one, and their string `12`. -/
theorem base58_bijection_zeroOne :
    (∃ output, encode [0, 1] 2 = some output ∧ (0 : UInt8) ∉ output ∧
      decode output 2 = some [0, 1]) ∧ encode [0, 1] 2 = some [49, 50] :=
  ⟨base58_bijection.1 [0, 1] 2 2 (by decide) (by decide) (by decide +kernel) (by decide),
    base58_bijection.2 [49, 50] [0, 1] 2 2 (by decide +kernel) (by decide) (by decide) (by decide)⟩

/-! ### The estimates of the lengths -/

theorem length_chars_le_encodedLength (input : Bytes) :
    (chars input).length ≤ encodedLength input.length := by
  have hbytes := length_digits_numberOf input
  have hnumber : numberOf input < 256 ^ (Nat.digits 256 (numberOf input)).length :=
    Nat.lt_base_pow_length_digits (by norm_num)
  have hratio : 256 ^ 100 ≤ 58 ^ 138 := by decide +kernel
  have hdigits := length_digits_le_of_pow_le (by norm_num) (by norm_num) hratio hnumber
  rw [chars, List.length_append, List.length_replicate, List.length_map, List.length_reverse,
    encodedLength]
  omega

theorem length_digits_valueOf_le_decodedLength (hstring : IsBase58 string) :
    (Nat.digits 256 (valueOf string)).length ≤ decodedLength (significant string).length := by
  have hratio : 58 ^ 1000 ≤ 256 ^ 733 := by decide +kernel
  exact length_digits_le_of_pow_le (by norm_num) (by norm_num) hratio (valueOf_lt hstring)

theorem isSome_decode_iff (hlength : string.length ≤ bigintSize) (hstring : IsBase58 string)
    (outputSize : Nat) :
    (decode string outputSize).isSome = true ↔ (decoded string).length ≤ outputSize := by
  rw [Option.isSome_iff_exists]
  constructor
  · rintro ⟨output, hdecode⟩
    exact (decode_eq_some_iff.mp hdecode).2.2.1
  · intro hroom
    exact ⟨_, decode_eq_some_iff.mpr ⟨hlength, hstring, hroom, rfl⟩⟩

/-- **Lengths.** `encodedLength` is enough for every input. `decodedLength` is enough exactly if the
number of the string fits what the leading ones leave of it; so it is without leading ones. -/
theorem base58_lengths (input string : Bytes) (hinput : input.length ≤ 100)
    (hlength : string.length ≤ 200) (hstring : IsBase58 string) :
    (encode input (encodedLength input.length)).isSome = true ∧
      ((decode string (decodedLength string.length)).isSome = true ↔
        leadingOnes string ≤ decodedLength string.length ∧
          valueOf string < 256 ^ (decodedLength string.length - leadingOnes string)) ∧
      (leadingOnes string = 0 →
        (decode string (decodedLength string.length)).isSome = true) := by
  refine ⟨?_, ?_, fun hones => ?_⟩
  · have hroom := length_chars_le_encodedLength input
    exact Option.isSome_iff_exists.mpr
      ⟨_, encode_eq_some_iff.mpr ⟨hinput, Nat.succ_pos _, hroom, rfl⟩⟩
  · rw [isSome_decode_iff hlength hstring, length_decoded, ← Nat.digits_length_le_iff (by norm_num)]
    omega
  · have hdigits := length_digits_valueOf_le_decodedLength hstring
    have hlengths := length_significant string
    rw [hones, Nat.zero_add] at hlengths
    rw [isSome_decode_iff hlength hstring, length_decoded, hones, Nat.zero_add, ← hlengths]
    exact hdigits

/-- The estimates at two bytes and at the string `2z`. -/
theorem base58_lengths_twoBytes :
    (encode [255, 255] (encodedLength 2)).isSome = true ∧
      (decode [50, 122] (decodedLength 2)).isSome = true := by
  have hlengths := base58_lengths [255, 255] [50, 122] (by decide) (by decide) (by decide +kernel)
  exact ⟨hlengths.1, hlengths.2.2 (by decide)⟩

/-- The string `1111`: four zero bytes, with an estimate of three. -/
theorem decodedLength_fourOnes :
    IsBase58 [49, 49, 49, 49] ∧ decodedLength 4 = 3 ∧
      decode [49, 49, 49, 49] (decodedLength 4) = none ∧
      decode [49, 49, 49, 49] 4 = some [0, 0, 0, 0] := by
  decide +kernel

end Poseidon.Base58
