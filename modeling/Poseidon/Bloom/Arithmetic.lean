import Poseidon.Bloom.Merge
import Poseidon.Bloom.Recorded
import Poseidon.Lib.Runs

/-!
# The arithmetic of the filters

A filter divides by its size, shifts by its fingerprint width and, where it takes another filter
in, counts its levels down. None of these operands is checked where it is used. Here each call
comes with the list of the operations it makes on fields of the filter, and a filter is *safe* if
they are all defined in every sequence of calls.
-/

namespace Poseidon

inductive Arith where
  | divide (divisor : Nat)
  | shift (amount : Nat)
  | decrement (count : Nat)
deriving DecidableEq, Repr

namespace Arith

/-- The counter of `decrement` is unsigned: it wraps around at zero. -/
def Defined : Arith → Prop
  | .divide divisor => divisor ≠ 0
  | .shift amount => amount < 64
  | .decrement count => 1 ≤ count

def AllDefined (operations : List Arith) : Prop :=
  ∀ operation ∈ operations, operation.Defined

theorem allDefined_nil : AllDefined [] :=
  fun _ hmem => absurd hmem List.not_mem_nil

theorem allDefined_cons {operation : Arith} {operations : List Arith} :
    AllDefined (operation :: operations) ↔ operation.Defined ∧ AllDefined operations :=
  List.forall_mem_cons

theorem allDefined_append {front back : List Arith} :
    AllDefined (front ++ back) ↔ AllDefined front ∧ AllDefined back :=
  List.forall_mem_append

theorem allDefined_flatMap {α : Type*} {operations : α → List Arith} {rounds : List α} :
    AllDefined (rounds.flatMap operations) ↔ ∀ round ∈ rounds, AllDefined (operations round) := by
  constructor
  · intro hall round hround operation hoperation
    exact hall operation (List.mem_flatMap.mpr ⟨round, hround, hoperation⟩)
  · intro hall operation hoperation
    obtain ⟨round, hround, hmem⟩ := List.mem_flatMap.mp hoperation
    exact hall round hround operation hmem

theorem allDefined_flatMap_const {α : Type*} {operations : List Arith} {rounds : List α} :
    AllDefined (rounds.flatMap fun _ => operations) ↔ rounds = [] ∨ AllDefined operations := by
  rw [allDefined_flatMap]
  cases rounds with
  | nil => simp
  | cons first rest =>
      constructor
      · exact fun hall => .inr (hall first List.mem_cons_self)
      · rintro (hnil | hall) _ _
        · exact absurd hnil (List.cons_ne_nil first rest)
        · exact hall

end Arith

open Arith

/-- The rounds a loop makes before it returns at the first that fails its test. -/
def roundsUntil {α : Type*} (passes : α → Bool) : List α → List α
  | [] => []
  | first :: rest => first :: if passes first then roundsUntil passes rest else []

theorem roundsUntil_eq_nil_iff {α : Type*} {passes : α → Bool} {rounds : List α} :
    roundsUntil passes rounds = [] ↔ rounds = [] := by
  cases rounds <;> simp [roundsUntil]

theorem mem_of_mem_roundsUntil {α : Type*} {passes : α → Bool} {rounds : List α} {round : α}
    (hround : round ∈ roundsUntil passes rounds) : round ∈ rounds := by
  induction rounds with
  | nil => exact hround
  | cons first rest ih =>
      obtain rfl | hmem := List.mem_cons.mp hround
      · exact List.mem_cons_self
      · split_ifs at hmem
        · exact List.mem_cons_of_mem first (ih hmem)
        · exact absurd hmem List.not_mem_nil

/-! ### Bloom filters -/

namespace BloomFilter

variable (H : HashFn)

inductive Call where
  | add (data : Bytes)
  | contains (data : Bytes)
deriving DecidableEq, Repr

def call (filter : BloomFilter) : Call → BloomFilter
  | .add data => filter.add H data
  | .contains _ => filter

def callArith (filter : BloomFilter) : Call → List Arith
  | .add _ => (List.range filter.hashCount).flatMap fun _ => [.divide filter.size]
  | .contains data =>
      (roundsUntil (fun i => filter.bits.get (filter.index H data i))
        (List.range filter.hashCount)).flatMap fun _ => [.divide filter.size]

def Safe (filter : BloomFilter) : Prop :=
  ∀ calls, Runs.Meets (call H) (fun filter call => AllDefined (filter.callArith H call)) filter
    calls

def Guarded (filter : BloomFilter) : Prop :=
  filter.hashCount = 0 ∨ filter.size ≠ 0

theorem allDefined_divide_size {filter : BloomFilter} :
    AllDefined [.divide filter.size] ↔ filter.size ≠ 0 := by
  rw [allDefined_cons]
  exact and_iff_left allDefined_nil

theorem allDefined_callArith_iff (filter : BloomFilter) (call : Call) :
    AllDefined (filter.callArith H call) ↔ filter.Guarded := by
  cases call with
  | add data =>
      rw [callArith, allDefined_flatMap_const, allDefined_divide_size, List.range_eq_nil]
      exact Iff.rfl
  | contains data =>
      rw [callArith, allDefined_flatMap_const, allDefined_divide_size, roundsUntil_eq_nil_iff,
        List.range_eq_nil]
      exact Iff.rfl

theorem Guarded.call {filter : BloomFilter} (hguarded : filter.Guarded) (call : Call) :
    (filter.call H call).Guarded := by
  cases call with
  | add data => exact hguarded
  | contains data => exact hguarded

theorem safe_iff (filter : BloomFilter) : filter.Safe H ↔ filter.Guarded := by
  constructor
  · intro hsafe
    exact (allDefined_callArith_iff H filter (.contains [])).mp (hsafe [.contains []]).1
  · intro hguarded calls
    apply Runs.meets_of_invariant (BloomFilter.call H) Guarded
    · exact fun _ call hfilter => hfilter.call H call
    · exact fun filter call hfilter => (allDefined_callArith_iff H filter call).mpr hfilter
    · exact hguarded

end BloomFilter

/-! ### Elastic filters -/

namespace ElasticBloomFilter

variable (H : HashFn)

/-- The operations of `compute_hash_pair`. The last one reduces by the result of the shift. -/
def roundArith (filter : ElasticBloomFilter) : List Arith :=
  [.divide filter.size, .divide filter.size, .shift filter.fpBits,
    .divide (2 ^ filter.fpBits % 2 ^ 64)]

def ratioArith (filter : ElasticBloomFilter) : List Arith :=
  if filter.bucketCount = 0 then [] else [.divide filter.bucketCount]

def containsArith (filter : ElasticBloomFilter) (data : Bytes) : List Arith :=
  (roundsUntil (fun i => filter.bits.get (filter.computeHashPair H data i).2)
    (List.range filter.hashCount)).flatMap fun _ => filter.roundArith

/-- The rounds of adding or removing an item, and the ratio of the filter they lead to. -/
def updateArith (filter updated : ElasticBloomFilter) : List Arith :=
  ((List.range filter.hashCount).flatMap fun _ => filter.roundArith) ++ updated.ratioArith

def addArith (filter : ElasticBloomFilter) (data : Bytes) : List Arith :=
  filter.updateArith (filter.insert H data)

def removeArith (filter : ElasticBloomFilter) (data : Bytes) : List Arith :=
  filter.updateArith (filter.erase H data)

def Guarded (filter : ElasticBloomFilter) : Prop :=
  filter.hashCount = 0 ∨ filter.size ≠ 0 ∧ filter.fpBits < 64

variable (filter : ElasticBloomFilter)

theorem allDefined_roundArith_iff :
    AllDefined filter.roundArith ↔ filter.size ≠ 0 ∧ filter.fpBits < 64 := by
  have hpower : filter.fpBits < 64 → 2 ^ filter.fpBits % 2 ^ 64 ≠ 0 := by
    intro hbits
    rw [Nat.mod_eq_of_lt (Nat.pow_lt_pow_right Nat.one_lt_two hbits)]
    exact (Nat.two_pow_pos _).ne'
  simp only [roundArith, allDefined_cons, Defined]
  constructor
  · rintro ⟨hsize, -, hbits, -⟩
    exact ⟨hsize, hbits⟩
  · rintro ⟨hsize, hbits⟩
    exact ⟨hsize, hsize, hbits, hpower hbits, allDefined_nil⟩

theorem allDefined_ratioArith : AllDefined filter.ratioArith := by
  unfold ratioArith
  split_ifs with hcount
  · exact allDefined_nil
  · exact allDefined_cons.mpr ⟨hcount, allDefined_nil⟩

theorem allDefined_containsArith_iff (data : Bytes) :
    AllDefined (filter.containsArith H data) ↔ filter.Guarded := by
  rw [containsArith, allDefined_flatMap_const, allDefined_roundArith_iff, roundsUntil_eq_nil_iff,
    List.range_eq_nil]
  exact Iff.rfl

theorem allDefined_updateArith_iff (updated : ElasticBloomFilter) :
    AllDefined (filter.updateArith updated) ↔ filter.Guarded := by
  rw [updateArith, allDefined_append, allDefined_flatMap_const, allDefined_roundArith_iff,
    List.range_eq_nil]
  exact and_iff_left updated.allDefined_ratioArith

/-- There is a bucket for each bit, so that halving leaves no filter without bits. -/
structure Usable (filter : ElasticBloomFilter) : Prop where
  bucketCount : filter.bucketCount = filter.size
  guarded : filter.Guarded

variable {filter : ElasticBloomFilter}

theorem Usable.of_sameParameters {after : ElasticBloomFilter} (husable : filter.Usable)
    (hsame : SameParameters filter after) (hcount : after.bucketCount = filter.bucketCount) :
    after.Usable := by
  refine ⟨?_, ?_⟩
  · rw [hcount, husable.bucketCount, hsame.size]
  · rw [Guarded, hsame.hashCount, hsame.size, hsame.fpBits]
    exact husable.guarded

theorem bucketCount_foldl {change : ElasticBloomFilter → Nat × Nat → ElasticBloomFilter}
    (hchange : ∀ filter pair, (change filter pair).bucketCount = filter.bucketCount)
    (pairs : List (Nat × Nat)) (filter : ElasticBloomFilter) :
    (pairs.foldl change filter).bucketCount = filter.bucketCount := by
  induction pairs generalizing filter with
  | nil => rfl
  | cons pair pairs ih => exact (ih (change filter pair)).trans (hchange filter pair)

section

variable (husable : filter.Usable)

include husable

variable (data : Bytes)

theorem Usable.insert : (filter.insert H data).Usable := by
  apply husable.of_sameParameters (sameParameters_insert H filter data)
  exact @bucketCount_foldl insertPair (fun _ _ => rfl) (filter.hashPairs H data) filter

theorem Usable.erase : (filter.erase H data).Usable := by
  apply husable.of_sameParameters (sameParameters_erase H filter data)
  exact @bucketCount_foldl erasePair (fun _ _ => rfl) (filter.hashPairs H data) filter

theorem Usable.expand : filter.expand.Usable := by
  refine ⟨congrArg (· * 2) husable.bucketCount, husable.guarded.imp_right ?_⟩
  rintro ⟨hsize, hbits⟩
  exact ⟨Nat.mul_ne_zero hsize Nat.two_pos.ne', hbits⟩

theorem Usable.compress : filter.compress.Usable := by
  unfold ElasticBloomFilter.compress
  split_ifs with hsmall
  · exact husable
  · have hbig : 2 ≤ filter.size := husable.bucketCount ▸ Nat.le_of_not_lt hsmall
    refine ⟨congrArg (· / 2) husable.bucketCount, husable.guarded.imp_right ?_⟩
    rintro ⟨-, hbits⟩
    exact ⟨(Nat.div_pos hbig Nat.two_pos).ne', hbits⟩

theorem Usable.add : (filter.add H data).Usable := by
  have hinserted := husable.insert H data
  simp only [ElasticBloomFilter.add]
  split_ifs
  · exact hinserted.expand
  · exact hinserted

theorem Usable.remove : (filter.remove H data).Usable := by
  have herased := husable.erase H data
  simp only [ElasticBloomFilter.remove]
  split_ifs
  · exact herased.compress
  · exact herased

end

theorem Usable.mergeLevel {dest : ElasticBloomFilter} (husable : dest.Usable)
    (src : ElasticBloomFilter) : (AttenuatedBloomFilter.mergeLevel dest src).Usable := by
  unfold AttenuatedBloomFilter.mergeLevel ElasticBloomFilter.merge
  split_ifs
  · exact husable
  · exact ⟨husable.bucketCount, husable.guarded⟩

end ElasticBloomFilter

/-! ### Attenuated filters -/

namespace AttenuatedBloomFilter

variable (H : HashFn)

/-- `contains` is the lookup at one level that the routing operations make. -/
inductive Call where
  | subscribe (topic : Bytes)
  | unsubscribe (topic : Bytes)
  | check (topic : Bytes)
  | contains (level : Nat) (item : Bytes)
  | merge (src : AttenuatedBloomFilter)
deriving DecidableEq, Repr

def call (filter : AttenuatedBloomFilter) : Call → AttenuatedBloomFilter
  | .subscribe topic => filter.subscribe H topic
  | .unsubscribe topic => filter.unsubscribe H topic
  | .check _ | .contains _ _ => filter
  | .merge src => filter.merge src

def levelArith (filter : AttenuatedBloomFilter) (level : Nat)
    (operations : ElasticBloomFilter → List Arith) : List Arith :=
  match filter.getLevel level with
  | none => []
  | some filter => operations filter

def callArith (filter : AttenuatedBloomFilter) : Call → List Arith
  | .subscribe topic => filter.levelArith 0 (·.addArith H topic)
  | .unsubscribe topic => filter.levelArith 0 (·.removeArith H topic)
  | .check topic =>
      (roundsUntil (fun level => !level.contains H topic) filter.levels).flatMap
        (·.containsArith H topic)
  | .contains level item => filter.levelArith level (·.containsArith H item)
  | .merge _ => [.decrement filter.levelCount]

def Safe (filter : AttenuatedBloomFilter) : Prop :=
  ∀ calls, Runs.Meets (call H) (fun filter call => AllDefined (filter.callArith H call)) filter
    calls

/-- The lookups alone, which are all that is done with a neighbour's filter. -/
def LookupsSafe (filter : AttenuatedBloomFilter) : Prop :=
  (∀ topic, AllDefined (filter.callArith H (.check topic))) ∧
    ∀ level item, AllDefined (filter.callArith H (.contains level item))

variable {filter : AttenuatedBloomFilter}

theorem Safe.call (hsafe : filter.Safe H) (call : Call) : (filter.call H call).Safe H :=
  fun calls => (hsafe (call :: calls)).2

theorem allDefined_levelArith {operations : ElasticBloomFilter → List Arith}
    (hlevels : ∀ level ∈ filter.levels, AllDefined (operations level)) (level : Nat) :
    AllDefined (filter.levelArith level operations) := by
  unfold levelArith
  split
  · exact allDefined_nil
  · rename_i found hfound
    exact hlevels found (List.mem_of_getElem? hfound)

theorem lookupsSafe_iff (filter : AttenuatedBloomFilter) :
    filter.LookupsSafe H ↔ ∀ level ∈ filter.levels, level.Guarded := by
  constructor
  · rintro ⟨-, hcontains⟩ level hlevel
    obtain ⟨i, hi⟩ := List.getElem?_of_mem hlevel
    have hdefined := hcontains i []
    simp only [callArith, levelArith, getLevel, hi] at hdefined
    exact (level.allDefined_containsArith_iff H []).mp hdefined
  · intro hguarded
    refine ⟨fun topic => ?_, fun level item => ?_⟩
    · apply allDefined_flatMap.mpr
      intro level hlevel
      apply (level.allDefined_containsArith_iff H topic).mpr
      exact hguarded level (mem_of_mem_roundsUntil hlevel)
    · apply allDefined_levelArith
      intro level hlevel
      exact (level.allDefined_containsArith_iff H item).mpr (hguarded level hlevel)

def Usable (filter : AttenuatedBloomFilter) : Prop :=
  ∀ level ∈ filter.levels, level.Usable

theorem Usable.create {size hashCount fpBits : Nat}
    (hguarded : hashCount = 0 ∨ size ≠ 0 ∧ fpBits < 64) (levels : Nat) (omega : Rat) :
    (create levels size hashCount omega fpBits).Usable := by
  intro level hlevel
  obtain rfl := List.eq_of_mem_replicate hlevel
  exact ⟨rfl, hguarded⟩

theorem Usable.modify_zero (husable : filter.Usable)
    {change : ElasticBloomFilter → ElasticBloomFilter}
    (hchange : ∀ level : ElasticBloomFilter, level.Usable → (change level).Usable) :
    AttenuatedBloomFilter.Usable ⟨filter.levels.modify 0 change⟩ := by
  intro level hlevel
  cases hlevels : filter.levels with
  | nil =>
      rw [hlevels] at hlevel
      exact absurd hlevel List.not_mem_nil
  | cons own upper =>
      have hall : ∀ level ∈ own :: upper, level.Usable := hlevels ▸ husable
      rw [hlevels] at hlevel
      obtain rfl | hmem := List.mem_cons.mp hlevel
      · exact hchange own (hall own List.mem_cons_self)
      · exact hall level (List.mem_cons_of_mem own hmem)

theorem Usable.merge (husable : filter.Usable) (src : AttenuatedBloomFilter) :
    (filter.merge src).Usable := by
  intro level hlevel
  obtain ⟨i, hi⟩ := List.getElem?_of_mem hlevel
  cases i with
  | zero =>
      rw [getElem?_levels_merge_zero] at hi
      exact husable level (List.mem_of_getElem? hi)
  | succ i =>
      rw [getElem?_levels_merge_succ] at hi
      obtain ⟨dest, hdest, rfl⟩ := Option.map_eq_some_iff.mp hi
      have hlevel := husable dest (List.mem_of_getElem? hdest)
      split
      · exact hlevel
      · exact hlevel.mergeLevel _

theorem Usable.call (husable : filter.Usable) (call : Call) : (filter.call H call).Usable := by
  cases call with
  | subscribe topic => exact husable.modify_zero fun _ hlevel => hlevel.add H topic
  | unsubscribe topic => exact husable.modify_zero fun _ hlevel => hlevel.remove H topic
  | check topic => exact husable
  | contains level item => exact husable
  | merge src => exact husable.merge src

theorem levelCount_call (filter : AttenuatedBloomFilter) (call : Call) :
    (filter.call H call).levelCount = filter.levelCount := by
  cases call with
  | subscribe topic => exact List.length_modify _ _ _
  | unsubscribe topic => exact List.length_modify _ _ _
  | check topic => rfl
  | contains level item => rfl
  | merge src => exact levelCount_merge filter src

theorem Usable.allDefined_callArith (husable : filter.Usable) (hcount : 1 ≤ filter.levelCount)
    (call : Call) : AllDefined (filter.callArith H call) := by
  have hguarded : ∀ level ∈ filter.levels, level.Guarded :=
    fun level hlevel => (husable level hlevel).guarded
  have hlookups := (filter.lookupsSafe_iff H).mpr hguarded
  cases call with
  | subscribe topic =>
      apply allDefined_levelArith
      exact fun level hlevel => (level.allDefined_updateArith_iff _).mpr (hguarded level hlevel)
  | unsubscribe topic =>
      apply allDefined_levelArith
      exact fun level hlevel => (level.allDefined_updateArith_iff _).mpr (hguarded level hlevel)
  | check topic => exact hlookups.1 topic
  | contains level item => exact hlookups.2 level item
  | merge src => exact allDefined_cons.mpr ⟨hcount, allDefined_nil⟩

theorem Usable.safe_iff (husable : filter.Usable) : filter.Safe H ↔ 1 ≤ filter.levelCount := by
  constructor
  · intro hsafe
    exact (allDefined_cons.mp (hsafe [.merge ⟨[]⟩]).1).1
  · intro hcount calls
    apply Runs.meets_of_invariant (AttenuatedBloomFilter.call H)
      fun filter => filter.Usable ∧ 1 ≤ filter.levelCount
    · rintro filter call ⟨hfilter, hlevels⟩
      exact ⟨hfilter.call H call, (filter.levelCount_call H call).symm ▸ hlevels⟩
    · rintro filter call ⟨hfilter, hlevels⟩
      exact hfilter.allDefined_callArith H hlevels call
    · exact ⟨husable, hcount⟩

end AttenuatedBloomFilter

end Poseidon
