import Poseidon.Lib.Bytes

/-!
# Base58

`base58_encode` and `base58_decode` with the big integers they compute with: buffers of bytes, the
least significant one first, without a zero at the end. Intermediate values fit the `uint32_t`
they are held in, and the 200 bytes of a buffer bound the number of digits ever taken out of one.
-/

namespace Poseidon.Base58

def bigintSize : Nat := 200

/-! ### Big integers -/

/-- The bytes that the carry left at the end of a loop adds; it has at most four. -/
def pushCarry : Nat → Nat → Bytes
  | 0, _ => []
  | fuel + 1, carry =>
      if carry = 0 then [] else UInt8.ofNat carry :: pushCarry fuel (carry / 256)

def bigintMultiply (factor : Nat) : Bytes → Nat → Bytes
  | [], carry => pushCarry 4 carry
  | digit :: digits, carry =>
      let val := digit.toNat * factor + carry
      UInt8.ofNat val :: bigintMultiply factor digits (val / 256)

def bigintAdd : Bytes → Nat → Bytes
  | [], carry => pushCarry 4 carry
  | digit :: digits, carry =>
      if carry = 0 then digit :: digits
      else
        let val := digit.toNat + carry
        UInt8.ofNat val :: bigintAdd digits (val / 256)

/-- The division loop, from the most significant byte down: the quotient and the remainder. -/
def divmodDigits (divisor : Nat) : Bytes → Bytes × Nat
  | [] => ([], 0)
  | digit :: digits =>
      let rest := divmodDigits divisor digits
      let val := rest.2 * 256 + digit.toNat
      (UInt8.ofNat (val / divisor) :: rest.1, val % divisor)

def bigintDivmod (divisor : Nat) (digits : Bytes) : Bytes × Nat :=
  let result := divmodDigits divisor digits
  ((result.1.reverse.dropWhile (· == 0)).reverse, result.2)

def extractDigits (divisor : Nat) : Nat → Bytes → List Nat
  | 0, _ => []
  | _ + 1, [] => []
  | fuel + 1, digit :: digits =>
      let result := bigintDivmod divisor (digit :: digits)
      result.2 :: extractDigits divisor fuel result.1

/-! ### Encoding and decoding -/

/-- `BASE58_ALPHABET`; `BASE58_MAP` is its inverse. -/
def alphabet : Bytes :=
  [49, 50, 51, 52, 53, 54, 55, 56, 57, 65, 66, 67, 68, 69, 70, 71, 72, 74, 75, 76, 77, 78, 80, 81,
    82, 83, 84, 85, 86, 87, 88, 89, 90, 97, 98, 99, 100, 101, 102, 103, 104, 105, 106, 107, 109,
    110, 111, 112, 113, 114, 115, 116, 117, 118, 119, 120, 121, 122]

def one : UInt8 := 49

def digitChar (digit : Nat) : UInt8 :=
  alphabet.getD digit one

def charDigit (char : UInt8) : Option Nat :=
  alphabet.idxOf? char

def encodedLength (inputLen : Nat) : Nat :=
  inputLen * 138 / 100 + 1

def decodedLength (strLen : Nat) : Nat :=
  strLen * 733 / 1000 + 1

def encode (input : Bytes) (outputSize : Nat) : Option Bytes :=
  if input = [] then if outputSize < 1 then none else some []
  else if input.length > bigintSize / 2 then none
  else
    let leadingZeros := (input.takeWhile (· == 0)).length
    let bigint := input.foldl (fun bigint byte => bigintAdd (bigintMultiply 256 bigint 0)
      byte.toNat) []
    let digits := extractDigits 58 bigintSize bigint
    if outputSize < leadingZeros + digits.length then none
    else some (List.replicate leadingZeros one ++ digits.reverse.map digitChar)

def readDigits (chars : Bytes) : Option Bytes :=
  chars.foldlM (fun bigint char =>
    (charDigit char).map fun digit => bigintAdd (bigintMultiply 58 bigint 0) digit) []

def decode (input : Bytes) (outputSize : Nat) : Option Bytes :=
  if input.length > bigintSize then none
  else
    let leadingOnes := (input.takeWhile (· == one)).length
    match readDigits (input.drop leadingOnes) with
    | none => none
    | some bigint =>
        let bytes := extractDigits 256 bigintSize bigint
        if outputSize < leadingOnes + bytes.length then none
        else some (List.replicate leadingOnes 0 ++ bytes.reverse.map UInt8.ofNat)

theorem encode_cases {input output : Bytes} {outputSize : Nat}
    (hencode : encode input outputSize = some output) :
    (input = [] ∧ output = []) ∨
      ∃ digits, digits = extractDigits 58 bigintSize
          (input.foldl (fun bigint byte => bigintAdd (bigintMultiply 256 bigint 0) byte.toNat) []) ∧
        input.length ≤ bigintSize / 2 ∧
        (input.takeWhile (· == 0)).length + digits.length ≤ outputSize ∧
        output = List.replicate (input.takeWhile (· == 0)).length one ++
          digits.reverse.map digitChar := by
  unfold encode at hencode
  split_ifs at hencode with hempty hroom hlong
  · exact Or.inl ⟨hempty, (Option.some.inj hencode).symm⟩
  · dsimp only at hencode
    split_ifs at hencode with hfits
    exact Or.inr ⟨_, rfl, Nat.le_of_not_lt hlong, Nat.le_of_not_lt hfits,
      (Option.some.inj hencode).symm⟩

theorem length_le_of_encode {input output : Bytes} {outputSize : Nat}
    (hencode : encode input outputSize = some output) : output.length ≤ outputSize := by
  obtain ⟨-, rfl⟩ | ⟨digits, -, -, hfits, rfl⟩ := encode_cases hencode
  · exact Nat.zero_le _
  · simpa only [List.length_append, List.length_replicate, List.length_map,
      List.length_reverse] using hfits

theorem digitChar_ne_zero (digit : Nat) : digitChar digit ≠ 0 := by
  have halphabet : ∀ char ∈ alphabet, char ≠ 0 := by decide +kernel
  unfold digitChar
  rw [List.getD_eq_getElem?_getD]
  cases hget : alphabet[digit]? with
  | none => decide
  | some char => exact halphabet char (List.mem_of_getElem? hget)

theorem zero_not_mem_encode {input output : Bytes} {outputSize : Nat}
    (hencode : encode input outputSize = some output) : (0 : UInt8) ∉ output := by
  obtain ⟨-, rfl⟩ | ⟨digits, -, -, -, rfl⟩ := encode_cases hencode
  · exact List.not_mem_nil
  · intro hmem
    obtain hzeros | hdigits := List.mem_append.mp hmem
    · exact absurd (List.eq_of_mem_replicate hzeros) (by decide)
    · obtain ⟨digit, -, hdigit⟩ := List.mem_map.mp hdigits
      exact digitChar_ne_zero digit hdigit

end Poseidon.Base58
