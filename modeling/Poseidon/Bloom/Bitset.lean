import Mathlib.Tactic.IntervalCases
import Poseidon.Lib.Bytes

/-!
# The byte-backed bit set

`bitset_t` keeps its bits in an array of bytes, bit `i` at offset `i % 8` of byte `i / 8`.
A read past the array is `false` and a write past it grows the array with zero bytes, so a set is
an infinite sequence of bits and its operations are those of the sequence. The two rules `get_set`
and `get_or` are all the filters built on top of it use.
-/

namespace Poseidon

def bitMask (offset : Nat) : UInt8 :=
  1 <<< UInt8.ofNat offset

def testBit (byte : UInt8) (offset : Nat) : Bool :=
  byte &&& bitMask offset != 0

def writeBit (byte : UInt8) (offset : Nat) (value : Bool) : UInt8 :=
  if value then byte ||| bitMask offset else byte &&& ~~~bitMask offset

variable {offset : Nat}

theorem bitMask_toBitVec (hoffset : offset < 8) :
    (bitMask offset).toBitVec = BitVec.twoPow 8 offset := by
  interval_cases offset <;> rfl

theorem testBit_eq_getLsbD (byte : UInt8) (hoffset : offset < 8) :
    testBit byte offset = byte.toBitVec.getLsbD offset := by
  have hzero : (byte &&& bitMask offset = 0) ↔ byte.toBitVec.getLsbD offset = false := by
    rw [← UInt8.toBitVec_inj, UInt8.toBitVec_and, bitMask_toBitVec hoffset, BitVec.and_twoPow]
    cases hbit : byte.toBitVec.getLsbD offset with
    | false => simp
    | true =>
        have hne : BitVec.twoPow 8 offset ≠ 0#8 := by
          interval_cases offset <;> decide
        simp [hne]
  rw [testBit, Bool.eq_iff_iff, bne_iff_ne, ne_eq, hzero, Bool.not_eq_false]

theorem testBit_zero (hoffset : offset < 8) : testBit 0 offset = false := by
  interval_cases offset <;> rfl

theorem testBit_writeBit (byte : UInt8) {other : Nat} (hoffset : offset < 8) (hother : other < 8)
    (value : Bool) :
    testBit (writeBit byte offset value) other =
      if other = offset then value else testBit byte other := by
  rw [testBit_eq_getLsbD _ hother, testBit_eq_getLsbD _ hother]
  cases value with
  | true =>
      simp only [writeBit, if_true, UInt8.toBitVec_or, BitVec.getLsbD_or,
        bitMask_toBitVec hoffset, BitVec.getLsbD_twoPow]
      grind
  | false =>
      simp only [writeBit, Bool.false_eq_true, if_false, UInt8.toBitVec_and,
        UInt8.toBitVec_not, BitVec.getLsbD_and, BitVec.getLsbD_not,
        bitMask_toBitVec hoffset, BitVec.getLsbD_twoPow]
      grind

theorem testBit_or (left right : UInt8) (hoffset : offset < 8) :
    testBit (left ||| right) offset = (testBit left offset || testBit right offset) := by
  simp only [testBit_eq_getLsbD _ hoffset, UInt8.toBitVec_or, BitVec.getLsbD_or]

theorem testBit_and (left right : UInt8) (hoffset : offset < 8) :
    testBit (left &&& right) offset = (testBit left offset && testBit right offset) := by
  simp only [testBit_eq_getLsbD _ hoffset, UInt8.toBitVec_and, BitVec.getLsbD_and]

theorem testBit_xor (left right : UInt8) (hoffset : offset < 8) :
    testBit (left ^^^ right) offset = (testBit left offset ^^ testBit right offset) := by
  simp only [testBit_eq_getLsbD _ hoffset, UInt8.toBitVec_xor, BitVec.getLsbD_xor]

/-- `bitset_t`: the allocated bytes, whose number is `size`. -/
structure Bitset where
  data : Bytes
deriving DecidableEq, Repr

namespace Bitset

def create (byteSize : Nat) : Bitset :=
  ⟨List.replicate byteSize 0⟩

def size (set : Bitset) : Nat :=
  set.data.length

def ensureCapacity (set : Bitset) (byteIndex : Nat) : Bitset :=
  if byteIndex < set.size then set
  else ⟨set.data ++ List.replicate (byteIndex + 1 - set.size) 0⟩

def get (set : Bitset) (bitIndex : Nat) : Bool :=
  if bitIndex / 8 ≥ set.size then false else testBit (set.data.getD (bitIndex / 8) 0) (bitIndex % 8)

def set (bits : Bitset) (bitIndex : Nat) (value : Bool) : Bitset :=
  let grown := bits.ensureCapacity (bitIndex / 8)
  ⟨grown.data.modify (bitIndex / 8) fun byte => writeBit byte (bitIndex % 8) value⟩

/-- The bit that `bitset_set` returns: it is read after the array has grown and before the write. -/
def setOld (bits : Bitset) (bitIndex : Nat) : Bool :=
  testBit ((bits.ensureCapacity (bitIndex / 8)).data.getD (bitIndex / 8) 0) (bitIndex % 8)

/-- The order of the sizes or bytes that a comparison ends with. -/
def compareTails (aTail bTail : Nat) : Int :=
  if aTail > bTail then 1 else if bTail > aTail then -1 else 0

/-- The loop stops at the first byte that differs. -/
def compare (a b : Bitset) : Int :=
  let length := if a.size < b.size then a.size else b.size
  match (List.range length).find? fun i => a.data.getD i 0 != b.data.getD i 0 with
  | some i => compareTails (a.data.getD i 0).toNat (b.data.getD i 0).toNat
  | none => compareTails a.size b.size

/-- `bitset_bitwise_op`: the tail of the longer operand is combined with zero bytes. -/
def bitwiseOp (op : UInt8 → UInt8 → UInt8) (a b : Bitset) : Bitset :=
  let shorter := min a.size b.size
  let longer := if a.size ≥ b.size then a else b
  ⟨List.zipWith op a.data b.data ++ (longer.data.drop shorter).map (op · 0)⟩

def xor (a b : Bitset) : Bitset :=
  bitwiseOp (· ^^^ ·) a b

def and (a b : Bitset) : Bitset :=
  bitwiseOp (· &&& ·) a b

def or (a b : Bitset) : Bitset :=
  bitwiseOp (· ||| ·) a b

/-- The loop of `bitset_compact` over the size. -/
def compactSize (data : Bytes) : Nat → Nat
  | 0 => 0
  | size + 1 =>
      if size + 1 > 1 ∧ data.getD size 0 = 0 then compactSize data size else size + 1

def compact (set : Bitset) : Bitset :=
  ⟨set.data.take (compactSize set.data set.size)⟩

theorem get_eq_testBit (set : Bitset) (bitIndex : Nat) :
    set.get bitIndex = testBit (set.data.getD (bitIndex / 8) 0) (bitIndex % 8) := by
  unfold get size
  split_ifs with hpast
  · rw [List.getD_eq_getElem?_getD, List.getElem?_eq_none hpast]
    exact (testBit_zero (Nat.mod_lt _ (by norm_num))).symm
  · rfl

@[simp]
theorem get_create (byteSize bitIndex : Nat) : (create byteSize).get bitIndex = false := by
  have hbyte : (create byteSize).data.getD (bitIndex / 8) 0 = 0 := by
    simp [create, List.getD_eq_getElem?_getD, List.getElem?_replicate]
    split_ifs <;> rfl
  rw [get_eq_testBit, hbyte, testBit_zero (Nat.mod_lt _ (by norm_num))]

theorem getD_ensureCapacity (set : Bitset) (byteIndex other : Nat) :
    (set.ensureCapacity byteIndex).data.getD other 0 = set.data.getD other 0 := by
  unfold ensureCapacity size
  split_ifs with hfits
  · rfl
  · simp only [List.getD_eq_getElem?_getD, List.getElem?_append, List.getElem?_replicate]
    split_ifs with hin hpad
    · rfl
    · rw [List.getElem?_eq_none (Nat.le_of_not_lt hin)]
      rfl
    · rw [List.getElem?_eq_none (Nat.le_of_not_lt hin)]

theorem lt_size_ensureCapacity (set : Bitset) (byteIndex : Nat) :
    byteIndex < (set.ensureCapacity byteIndex).data.length := by
  unfold ensureCapacity size
  split_ifs with hfits
  · exact hfits
  · simp only [List.length_append, List.length_replicate]
    omega

@[simp]
theorem size_create (byteSize : Nat) : (create byteSize).size = byteSize :=
  List.length_replicate

theorem size_set {bits : Bitset} {bitIndex : Nat} (hfits : bitIndex / 8 < bits.size)
    (value : Bool) : (bits.set bitIndex value).size = bits.size := by
  simp only [set, size, List.length_modify]
  rw [ensureCapacity, if_pos hfits]

/-- **Writing a bit.** The written bit takes the new value and every other bit keeps its own. -/
theorem get_set (bits : Bitset) (bitIndex other : Nat) (value : Bool) :
    (bits.set bitIndex value).get other = if other = bitIndex then value else bits.get other := by
  have hoffset : bitIndex % 8 < 8 := Nat.mod_lt _ (by norm_num)
  have hother : other % 8 < 8 := Nat.mod_lt _ (by norm_num)
  have hbyte : (bits.set bitIndex value).data.getD (other / 8) 0 =
      if other / 8 = bitIndex / 8 then
        writeBit (bits.data.getD (other / 8) 0) (bitIndex % 8) value
      else bits.data.getD (other / 8) 0 := by
    rw [← getD_ensureCapacity bits (bitIndex / 8) (other / 8)]
    by_cases hsame : other / 8 = bitIndex / 8
    · have hlt := lt_size_ensureCapacity bits (bitIndex / 8)
      simp [set, hsame, List.getD_eq_getElem?_getD, List.getElem?_eq_getElem hlt]
    · simp [set, hsame, List.getD_eq_getElem?_getD, Ne.symm hsame]
  rw [get_eq_testBit, get_eq_testBit, hbyte]
  by_cases hsame : other / 8 = bitIndex / 8
  · rw [if_pos hsame, testBit_writeBit _ hoffset hother]
    by_cases heq : other % 8 = bitIndex % 8
    · rw [if_pos heq, if_pos (by omega)]
    · rw [if_neg heq, if_neg (by omega)]
  · rw [if_neg hsame, if_neg (by omega)]

theorem getD_bitwiseOp {op : UInt8 → UInt8 → UInt8} (hzero : op 0 0 = 0)
    (hleft : ∀ byte, op 0 byte = op byte 0) (a b : Bitset) (byteIndex : Nat) :
    (bitwiseOp op a b).data.getD byteIndex 0 =
      op (a.data.getD byteIndex 0) (b.data.getD byteIndex 0) := by
  simp only [bitwiseOp, size, List.getD_eq_getElem?_getD, List.getElem?_append,
    List.length_zipWith, List.getElem?_zipWith, List.getElem?_map, List.getElem?_drop]
  by_cases hin : byteIndex < min a.data.length b.data.length
  · have ha : byteIndex < a.data.length := by omega
    have hb : byteIndex < b.data.length := by omega
    simp [hin, ha, hb]
  · have hindex : min a.data.length b.data.length + (byteIndex - min a.data.length b.data.length) =
        byteIndex := by omega
    rw [if_neg hin, hindex]
    by_cases hlong : a.data.length ≥ b.data.length
    · have hb : b.data[byteIndex]? = none := List.getElem?_eq_none (by omega)
      cases ha : a.data[byteIndex]? <;> simp [hb, ha, hlong, hzero]
    · have ha : a.data[byteIndex]? = none := List.getElem?_eq_none (by omega)
      cases hb : b.data[byteIndex]? <;> simp [ha, hb, hlong, hzero, hleft]

theorem get_bitwiseOp {op : UInt8 → UInt8 → UInt8} {opBit : Bool → Bool → Bool}
    (hop : ∀ left right : UInt8, ∀ offset < 8,
      testBit (op left right) offset = opBit (testBit left offset) (testBit right offset))
    (hzero : op 0 0 = 0) (hleft : ∀ byte, op 0 byte = op byte 0) (a b : Bitset)
    (bitIndex : Nat) :
    (bitwiseOp op a b).get bitIndex = opBit (a.get bitIndex) (b.get bitIndex) := by
  simp only [get_eq_testBit, getD_bitwiseOp hzero hleft]
  exact hop _ _ _ (Nat.mod_lt _ (by norm_num))

/-- **Union.** A bit of the union is set exactly when it is set in one of the operands. -/
theorem get_or (a b : Bitset) (bitIndex : Nat) :
    (a.or b).get bitIndex = (a.get bitIndex || b.get bitIndex) :=
  get_bitwiseOp (fun left right _ => testBit_or left right) (by decide)
    (fun byte => UInt8.or_comm 0 byte) a b bitIndex

theorem get_and (a b : Bitset) (bitIndex : Nat) :
    (a.and b).get bitIndex = (a.get bitIndex && b.get bitIndex) :=
  get_bitwiseOp (fun left right _ => testBit_and left right) (by decide)
    (fun byte => UInt8.and_comm 0 byte) a b bitIndex

theorem get_xor (a b : Bitset) (bitIndex : Nat) :
    (a.xor b).get bitIndex = (a.get bitIndex ^^ b.get bitIndex) :=
  get_bitwiseOp (fun left right _ => testBit_xor left right) (by decide)
    (fun byte => UInt8.xor_comm 0 byte) a b bitIndex

theorem size_or {a b : Bitset} (hsize : a.size = b.size) : (a.or b).size = a.size := by
  have hshorter : min a.size b.size = a.size := by rw [← hsize, Nat.min_self]
  have hlonger : (if a.size ≥ b.size then a else b).data.length = a.size := by
    rw [if_pos (Nat.le_of_eq hsize.symm)]
    rfl
  simp only [or, bitwiseOp, size, List.length_append, List.length_zipWith, List.length_map,
    List.length_drop] at hshorter hlonger ⊢
  omega

theorem ext_get {a b : Bitset} (hsize : a.size = b.size) (hget : ∀ i, a.get i = b.get i) :
    a = b := by
  have hdata : a.data = b.data := by
    refine List.ext_getElem hsize fun k hka hkb => ?_
    apply UInt8.toBitVec_inj.mp
    refine BitVec.eq_of_getLsbD_eq fun offset hoffset => ?_
    have hbit := hget (8 * k + offset)
    have hbyte : (8 * k + offset) / 8 = k := by omega
    have hrest : (8 * k + offset) % 8 = offset := by omega
    rw [get_eq_testBit, get_eq_testBit, hbyte, hrest, testBit_eq_getLsbD _ hoffset,
      testBit_eq_getLsbD _ hoffset] at hbit
    simpa [List.getD_eq_getElem?_getD, List.getElem?_eq_getElem hka,
      List.getElem?_eq_getElem hkb] using hbit
  cases a
  cases b
  exact congrArg Bitset.mk hdata

theorem setOld_eq_get (bits : Bitset) (bitIndex : Nat) :
    bits.setOld bitIndex = bits.get bitIndex := by
  rw [setOld, getD_ensureCapacity, get_eq_testBit]

theorem get_of_size_le {bits : Bitset} {bitIndex : Nat} (hpast : bits.size ≤ bitIndex / 8) :
    bits.get bitIndex = false :=
  if_pos hpast

theorem getD_take_compactSize (data : Bytes) (size byteIndex : Nat) :
    (data.take (compactSize data size)).getD byteIndex 0 = (data.take size).getD byteIndex 0 := by
  induction size with
  | zero => rfl
  | succ size ih =>
      rw [compactSize]
      split_ifs with hzero
      · rw [ih]
        simp only [List.getD_eq_getElem?_getD, List.getElem?_take]
        by_cases hlast : byteIndex = size
        · rw [if_neg (by omega), if_pos (by omega), hlast, ← List.getD_eq_getElem?_getD]
          exact hzero.2.symm
        · by_cases hbefore : byteIndex < size
          · rw [if_pos hbefore, if_pos (by omega)]
          · rw [if_neg hbefore, if_neg (by omega)]
      · rfl

theorem get_compact (set : Bitset) (bitIndex : Nat) :
    set.compact.get bitIndex = set.get bitIndex := by
  rw [get_eq_testBit, get_eq_testBit, compact, getD_take_compactSize, size, List.take_length]

/-- **Sequences of bits.** The operations on sets of any sizes are those on their sequences of bits,
which are zero from the end of the array on. -/
theorem get_operations (a b : Bitset) (bitIndex : Nat) (value : Bool) :
    (a.or b).get = (fun i => a.get i || b.get i) ∧ (a.and b).get = (fun i => a.get i && b.get i) ∧
      (a.xor b).get = (fun i => a.get i ^^ b.get i) ∧
      (a.set bitIndex value).get = Function.update a.get bitIndex value ∧
      a.setOld bitIndex = a.get bitIndex ∧ a.compact.get = a.get ∧
      ∀ i, a.size ≤ i / 8 → a.get i = false := by
  refine ⟨funext (get_or a b), funext (get_and a b), funext (get_xor a b), ?_,
    setOld_eq_get a bitIndex, funext (get_compact a), fun i => get_of_size_le⟩
  funext i
  rw [get_set, Function.update_apply]

end Bitset

end Poseidon
