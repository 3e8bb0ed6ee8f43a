import Poseidon.Bloom.Bitset

/-!
# The Bloom filter

`bloom_filter_t` hashes an item twice, with `seed_a` and `seed_b`, and probes the `hash_count`
bits `(a + i * b + i * i) % size`, the sum taken in 64-bit arithmetic. It serves as the
`visited` set of a routed message and as the `seen` set that discards duplicates. Items are
never taken out again, so membership only grows.
-/

namespace Poseidon

/-- `XXH3_64bits_withSeed`. No result depends on which function it is. -/
abbrev HashFn := Bytes → UInt64 → UInt64

/-- The fields of `bloom_filter_t`. -/
structure BloomFilter where
  bits : Bitset
  size : Nat
  hashCount : Nat
  seedA : UInt64
  seedB : UInt64
  count : Nat
deriving DecidableEq, Repr

namespace BloomFilter

def byteSize (size : Nat) : Nat :=
  if size % 8 > 0 then size / 8 + 1 else size / 8

theorem div_lt_byteSize {index size : Nat} (hindex : index < size) : index / 8 < byteSize size := by
  unfold byteSize
  split_ifs <;> omega

def create (size hashCount : Nat) : BloomFilter where
  bits := Bitset.create (byteSize size)
  size := size
  hashCount := hashCount
  seedA := 1
  seedB := 2
  count := 0

variable (H : HashFn)

def index (filter : BloomFilter) (data : Bytes) (i : Nat) : Nat :=
  let a := H data filter.seedA
  let b := H data filter.seedB
  (a + UInt64.ofNat i * b + UInt64.ofNat i * UInt64.ofNat i).toNat % filter.size

def indices (filter : BloomFilter) (data : Bytes) : List Nat :=
  (List.range filter.hashCount).map (filter.index H data)

def add (filter : BloomFilter) (data : Bytes) : BloomFilter :=
  let marked := (filter.indices H data).foldl
    (fun (state : Bitset × Bool) index => (state.1.set index true, state.2 || !state.1.get index))
    (filter.bits, false)
  { filter with
    bits := marked.1
    count := if marked.2 then filter.count + 1 else filter.count }

def contains (filter : BloomFilter) (data : Bytes) : Bool :=
  (filter.indices H data).all filter.bits.get

variable (filter : BloomFilter)

@[simp]
theorem indices_add (item data : Bytes) :
    (filter.add H item).indices H data = filter.indices H data := rfl

theorem get_foldl_set (indices : List Nat) (bits : Bitset) (isNew : Bool) (other : Nat) :
    (indices.foldl (fun (state : Bitset × Bool) index =>
      (state.1.set index true, state.2 || !state.1.get index)) (bits, isNew)).1.get other =
      (bits.get other || decide (other ∈ indices)) := by
  induction indices generalizing bits isNew with
  | nil => simp
  | cons index indices ih =>
      rw [List.foldl_cons, ih, Bitset.get_set]
      by_cases heq : other = index <;> simp [heq]

theorem get_bits_add (item : Bytes) (other : Nat) :
    (filter.add H item).bits.get other =
      (filter.bits.get other || decide (other ∈ filter.indices H item)) :=
  get_foldl_set _ _ _ _

theorem contains_iff (data : Bytes) :
    filter.contains H data = true ↔ ∀ index ∈ filter.indices H data, filter.bits.get index := by
  simp [contains]

theorem contains_add_self (item : Bytes) : (filter.add H item).contains H item = true := by
  rw [contains_iff]
  intro index hindex
  rw [indices_add] at hindex
  simp [get_bits_add, hindex]

theorem contains_add_of_contains {item other : Bytes} (hother : filter.contains H other = true) :
    (filter.add H item).contains H other = true := by
  rw [contains_iff] at hother ⊢
  intro index hindex
  rw [get_bits_add, hother index hindex, Bool.true_or]

end BloomFilter

end Poseidon
