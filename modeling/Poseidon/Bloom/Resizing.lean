import Mathlib.Data.List.Infix
import Poseidon.Bloom.Recorded
import Poseidon.Lib.Runs

/-!
# Elements under resizing

An element stays reported for as long as its entries have known bits to lose. The balance of an
element is `fp_bits` when it is added; each expansion takes one from it and each compression that
takes place gives one back, up to the 32 bits of a stored fingerprint. The expansion that an
addition triggers and the compression that a removal triggers count like explicit ones.
-/

namespace Poseidon.ElasticBloomFilter

inductive Change where
  | add (item : Bytes)
  | remove (item : Bytes)
  | expand
  | compress
deriving DecidableEq, Repr

variable (H : HashFn)

/-- `elastic_bloom_filter_add`, given whether the ratio came out above `omega`. -/
def addGiven (filter : ElasticBloomFilter) (data : Bytes) (above : Bool) : ElasticBloomFilter :=
  if above then (filter.insert H data).expand else filter.insert H data

/-- `elastic_bloom_filter_remove`, given whether the ratio came out below a quarter of `omega`. -/
def removeGiven (filter : ElasticBloomFilter) (data : Bytes) (below : Bool) : ElasticBloomFilter :=
  if below then (filter.erase H data).compress else filter.erase H data

/-- What the comparisons of `float`s give for a filter: that its ratio is above `omega`, and that it
is below a quarter of it. -/
structure Comparisons where
  above : ElasticBloomFilter → Bool
  below : ElasticBloomFilter → Bool

/-- As `ratio` has it, which is exact if the size is a power of two. -/
def Comparisons.exactly : Comparisons where
  above filter := decide (filter.ratio > filter.omega)
  below filter := decide (filter.ratio < filter.omega / 4)

def changeGiven (given : Comparisons) (filter : ElasticBloomFilter) :
    Change → ElasticBloomFilter
  | .add item => filter.addGiven H item (given.above (filter.insert H item))
  | .remove item => filter.removeGiven H item (given.below (filter.erase H item))
  | .expand => filter.expand
  | .compress => filter.compress

def change (filter : ElasticBloomFilter) : Change → ElasticBloomFilter
  | .add item => filter.add H item
  | .remove item => filter.remove H item
  | .expand => filter.expand
  | .compress => filter.compress

theorem changeGiven_exactly : changeGiven H .exactly = change H := by
  funext filter change
  cases change <;>
    simp [changeGiven, ElasticBloomFilter.change, addGiven, removeGiven, add, remove,
      Comparisons.exactly]

def compressedBalance (filter : ElasticBloomFilter) (balance : Int) : Int :=
  if filter.bucketCount < 2 then balance else min (balance + 1) 32

/-- What a change does to the balance of an element that was added before. -/
def changeBalance (filter : ElasticBloomFilter) (balance : Int) : Change → Int
  | .add item =>
      let inserted := filter.insert H item
      if inserted.ratio > inserted.omega then balance - 1 else balance
  | .remove item =>
      let erased := filter.erase H item
      if erased.ratio < erased.omega / 4 then erased.compressedBalance balance else balance
  | .expand => balance - 1
  | .compress => filter.compressedBalance balance

/-- A filter with the balance of one element. -/
def balanceStep (state : ElasticBloomFilter × Int) (change : Change) : ElasticBloomFilter × Int :=
  (state.1.change H change, state.1.changeBalance H state.2 change)

/-- The balance of `item`, added to `filter`, behind the changes that follow. -/
def balance (filter : ElasticBloomFilter) (item : Bytes) (changes : List Change) : Int :=
  (Runs.run (balanceStep H) (filter, (filter.fpBits : Int)) (.add item :: changes)).2

theorem fst_run_balanceStep (state : ElasticBloomFilter × Int) (changes : List Change) :
    (Runs.run (balanceStep H) state changes).1 = Runs.run (change H) state.1 changes := by
  induction changes generalizing state with
  | nil => rfl
  | cons first changes ih => exact ih (balanceStep H state first)

/-! ### Filters whose size is a power of two -/

structure Sized (fpBits : Nat) (filter : ElasticBloomFilter) : Prop where
  wellFormed : filter.WellFormed
  size_eq : ∃ k, filter.size = 2 ^ k
  fpBits_eq : filter.fpBits = fpBits

theorem Sized.create (k hashCount : Nat) (omega : Rat) (fpBits : Nat) :
    Sized fpBits (create (2 ^ k) hashCount omega fpBits) :=
  ⟨WellFormed.create (Nat.two_pow_pos k) hashCount omega fpBits, ⟨k, rfl⟩, rfl⟩

variable {filter : ElasticBloomFilter} {fpBits : Nat} {data : Bytes}

section

variable (hsized : filter.Sized fpBits)

include hsized

theorem Sized.of_sameParameters {after : ElasticBloomFilter} (hsame : SameParameters filter after)
    (hwf : after.WellFormed) : after.Sized fpBits := by
  obtain ⟨k, hsize⟩ := hsized.size_eq
  exact ⟨hwf, ⟨k, hsame.size.trans hsize⟩, hsame.fpBits.trans hsized.fpBits_eq⟩

theorem Sized.insert (item : Bytes) : (filter.insert H item).Sized fpBits :=
  hsized.of_sameParameters (sameParameters_insert H filter item)
    (hsized.wellFormed.insert H item)

theorem Sized.erase (item : Bytes) : (filter.erase H item).Sized fpBits :=
  hsized.of_sameParameters (sameParameters_erase H filter item) (hsized.wellFormed.erase H item)

theorem Sized.expand : filter.expand.Sized fpBits := by
  obtain ⟨k, hsize⟩ := hsized.size_eq
  refine ⟨hsized.wellFormed.expand, ⟨k + 1, ?_⟩, hsized.fpBits_eq⟩
  calc filter.expand.size = filter.size * 2 := rfl
    _ = 2 ^ (k + 1) := by rw [hsize, Nat.pow_succ]

theorem Sized.exists_half (hbig : ¬filter.bucketCount < 2) : ∃ k, filter.size = 2 ^ k * 2 := by
  obtain ⟨k, hsize⟩ := hsized.size_eq
  rw [hsized.wellFormed.bucketCount_eq, hsize] at hbig
  cases k with
  | zero => exact absurd Nat.one_lt_two hbig
  | succ k => exact ⟨k, by rw [hsize, Nat.pow_succ]⟩

theorem Sized.compress : filter.compress.Sized fpBits := by
  have hwf := hsized.wellFormed.compress
  by_cases hsmall : filter.bucketCount < 2
  · have hsame : filter.compress = filter := by
      rw [ElasticBloomFilter.compress, if_pos hsmall]
    rw [hsame]
    exact hsized
  · obtain ⟨k, hsize⟩ := hsized.exists_half hsmall
    refine ⟨hwf, ⟨k, ?_⟩, ?_⟩
    · rw [ElasticBloomFilter.compress, if_neg hsmall]
      change filter.size / 2 = 2 ^ k
      rw [hsize, Nat.mul_div_cancel _ Nat.two_pos]
    · rw [ElasticBloomFilter.compress, if_neg hsmall]
      exact hsized.fpBits_eq

theorem Sized.changeGiven (given : Comparisons) (change : Change) :
    (filter.changeGiven H given change).Sized fpBits := by
  cases change with
  | add item =>
      have hinserted := hsized.insert H item
      simp only [ElasticBloomFilter.changeGiven, addGiven]
      split_ifs
      · exact hinserted.expand
      · exact hinserted
  | remove item =>
      have herased := hsized.erase H item
      simp only [ElasticBloomFilter.changeGiven, removeGiven]
      split_ifs
      · exact herased.compress
      · exact herased
  | expand => exact hsized.expand
  | compress => exact hsized.compress

theorem Sized.change (change : Change) : (filter.change H change).Sized fpBits :=
  changeGiven_exactly H ▸ hsized.changeGiven H .exactly change

end

/-! ### One change -/

theorem Recorded.expand_balance (hwf : filter.WellFormed) {b : Nat}
    (hrecorded : filter.Recorded H data b) (hbalance : 0 ≤ (b : Int) - 1) :
    filter.expand.Recorded H data ((b : Int) - 1).toNat := by
  obtain ⟨known, rfl⟩ : ∃ known, b = known + 1 := ⟨b - 1, by omega⟩
  have hnext : (((known + 1 : Nat) : Int) - 1).toNat = known := by omega
  rw [hnext]
  exact hrecorded.expand H hwf

theorem Recorded.compress_balance (hsized : filter.Sized fpBits) {b : Nat}
    (hrecorded : filter.Recorded H data b) :
    filter.compress.Recorded H data (filter.compressedBalance b).toNat := by
  unfold compressedBalance
  split_ifs with hsmall
  · rw [ElasticBloomFilter.compress, if_pos hsmall, Int.toNat_natCast]
    exact hrecorded
  · obtain ⟨k, hsize⟩ := hsized.exists_half hsmall
    have hnext : (min ((b : Int) + 1) 32).toNat = min (b + 1) 32 := by omega
    rw [hnext]
    exact hrecorded.compress H hsized.wellFormed hsize

/-- An element recorded with as many known bits as its balance says is so behind every change
that removes nothing and leaves the balance non-negative. -/
theorem Recorded.change (hsized : filter.Sized fpBits) {b : Nat}
    (hrecorded : filter.Recorded H data b) {change : Change}
    (hkeeps : ∀ item, change ≠ .remove item) (hbalance : 0 ≤ filter.changeBalance H b change) :
    (filter.change H change).Recorded H data (filter.changeBalance H b change).toNat := by
  have hwf := hsized.wellFormed
  cases change with
  | add item =>
      have hinserted := hrecorded.insert H hwf item
      simp only [changeBalance] at hbalance
      simp only [ElasticBloomFilter.change, ElasticBloomFilter.add, changeBalance]
      split_ifs at hbalance ⊢
      · exact hinserted.expand_balance H (hwf.insert H item) hbalance
      · rw [Int.toNat_natCast]
        exact hinserted
  | remove item => exact absurd rfl (hkeeps item)
  | expand => exact hrecorded.expand_balance H hwf hbalance
  | compress => exact hrecorded.compress_balance H hsized

theorem recorded_add_self (hsized : filter.Sized fpBits) (hbits : fpBits ≤ 32) {item : Bytes}
    (hbalance : 0 ≤ filter.changeBalance H filter.fpBits (.add item)) :
    (filter.add H item).Recorded H item
      (filter.changeBalance H filter.fpBits (.add item)).toNat := by
  have hwf := hsized.wellFormed
  have hself := recorded_insert_self H hwf (by rw [hsized.fpBits_eq]; exact hbits) item
  simp only [changeBalance] at hbalance
  simp only [ElasticBloomFilter.add, changeBalance]
  split_ifs at hbalance ⊢
  · exact hself.expand_balance H (hwf.insert H item) hbalance
  · rw [Int.toNat_natCast]
    exact hself

/-! ### Every run -/

/-- A filter that records an element with as many known bits as its balance says. -/
def Tracked (fpBits : Nat) (item : Bytes) (state : ElasticBloomFilter × Int) : Prop :=
  state.1.Sized fpBits ∧ 0 ≤ state.2 ∧ state.1.Recorded H item state.2.toNat

theorem Tracked.balanceStep {item : Bytes} {state : ElasticBloomFilter × Int}
    (htracked : Tracked H fpBits item state) {change : Change}
    (hkeeps : ∀ other, change ≠ .remove other) (hbalance : 0 ≤ (balanceStep H state change).2) :
    Tracked H fpBits item (ElasticBloomFilter.balanceStep H state change) := by
  obtain ⟨hsized, hnonneg, hrecorded⟩ := htracked
  have hcast : ((state.2.toNat : Nat) : Int) = state.2 := Int.toNat_of_nonneg hnonneg
  refine ⟨hsized.change H change, hbalance, ?_⟩
  have hnext := hrecorded.change H hsized hkeeps (by rw [hcast]; exact hbalance)
  rw [hcast] at hnext
  exact hnext

/-- **No false negatives under resizing.** An element stays reported through every sequence of
additions, expansions and compressions in which its balance does not fall below zero. -/
theorem contains_of_balance_nonneg (k hashCount : Nat) (omega : Rat) {fpBits : Nat}
    (hbits : fpBits ≤ 32) (before after : List Change) (item : Bytes)
    (hkeeps : ∀ other, .remove other ∉ after)
    (hbalance : ∀ front, front <+: after → 0 ≤ balance H
      (Runs.run (change H) (create (2 ^ k) hashCount omega fpBits) before) item front) :
    (Runs.run (change H) (create (2 ^ k) hashCount omega fpBits)
      (before ++ .add item :: after)).contains H item = true := by
  rw [Runs.run_append]
  have hsized : (Runs.run (change H) (create (2 ^ k) hashCount omega fpBits) before).Sized
      fpBits :=
    Runs.invariant (change H) (Sized fpBits) (fun _ change hsized => hsized.change H change)
      (Sized.create k hashCount omega fpBits)
  generalize Runs.run (change H) (create (2 ^ k) hashCount omega fpBits) before = filter
    at hsized hbalance ⊢
  have hadded : Tracked H fpBits item (balanceStep H (filter, (filter.fpBits : Int)) (.add item)) :=
    ⟨hsized.change H (.add item), hbalance [] List.nil_prefix,
      recorded_add_self H hsized hbits (hbalance [] List.nil_prefix)⟩
  have hmeets : Runs.Meets (balanceStep H)
      (fun state change => (∀ other, change ≠ .remove other) ∧ 0 ≤ (balanceStep H state change).2)
      (balanceStep H (filter, (filter.fpBits : Int)) (.add item)) after := by
    rw [Runs.meets_iff_forall_split]
    rintro front change back rfl
    refine ⟨?_, ?_⟩
    · rintro other rfl
      exact hkeeps other (List.mem_append_right front List.mem_cons_self)
    · have hnext := hbalance (front ++ [change]) ⟨back, by rw [List.append_assoc]; rfl⟩
      rw [balance, Runs.run_cons, Runs.run_append] at hnext
      exact hnext
  have hlast := Runs.invariant_of_meets (balanceStep H) (Tracked H fpBits item)
    (fun _ _ htracked hok => htracked.balanceStep H hok.1 hok.2) hadded hmeets
  have hrun := fst_run_balanceStep H (filter, (filter.fpBits : Int)) (.add item :: after)
  rw [← hrun]
  exact contains_of_recorded H hlast.1.wellFormed hlast.2.2

def mixHash : HashFn := fun data seed =>
  data.foldl (fun hash byte => hash * 31 + byte.toUInt64 * 17 + 5) (seed * 7)

/-- Two explicit expansions use up both known bits of an element added before; a compression gives
one back for the expansion that the last addition triggers. -/
def reusedBits : List Change :=
  [.expand, .expand, .compress, .add [2], .add [3], .add [4], .add [5]]

theorem contains_of_balance_nonneg_reusedBits :
    balance mixHash (create (2 ^ 2) 2 (3 / 4) 2) [1] reusedBits = 0 ∧
      (Runs.run (change mixHash) (create (2 ^ 2) 2 (3 / 4) 2)
        ([] ++ .add [1] :: reusedBits)).contains mixHash [1] = true := by
  have hinits : ∀ front ∈ reusedBits.inits,
      0 ≤ balance mixHash (create (2 ^ 2) 2 (3 / 4) 2) [1] front := by
    decide +kernel
  have hcontains := contains_of_balance_nonneg mixHash 2 2 (3 / 4) (show 2 ≤ 32 by decide) []
    reusedBits [1] (by simp [reusedBits])
    (fun front hfront => hinits front ((List.mem_inits _ _).mpr hfront))
  exact ⟨by decide +kernel, hcontains⟩

end Poseidon.ElasticBloomFilter
