import Poseidon.Lib.FreeList
import Poseidon.Lib.Runs

/-!
# The memory pool

Small objects are allocated from three static arrays of equal blocks. The free blocks of a class are
linked through their first words; each thread keeps up to 32 freed blocks of a class in a cache of
its own and allocates from it first. What no class can serve comes from `malloc`.

A call touches the shared lists at most once, under the lock of a class, so that a step of a run is
one call; a drain gives its blocks back one at a time, and a step is one of them. The counters of
`memory_pool_stats_t` are changed without a lock and read by nothing in the pool, and are left out.
-/

namespace Poseidon

open FreeList (Chain Enumerates)

/-- `memory_pool_size_class_e` without `MEMORY_POOL_FALLBACK`. -/
inductive SizeClass where
  | small
  | medium
  | large
deriving DecidableEq, Repr

namespace SizeClass

def blockSize : SizeClass → Nat
  | small => 64
  | medium => 256
  | large => 1024

def totalBlocks : SizeClass → Nat
  | small => 10000
  | medium => 5000
  | large => 2000

/-- The classes in the order of `g_pool.classes`. -/
def all : List SizeClass := [small, medium, large]

theorem small_ne_medium : small ≠ medium := by decide

theorem small_ne_large : small ≠ large := by decide

theorem medium_ne_large : medium ≠ large := by decide

variable (cls : SizeClass)

theorem mem_all : cls ∈ all := by
  cases cls <;> decide

theorem le_blockSize : 64 ≤ cls.blockSize := by
  cases cls <;> decide

theorem blockSize_pos : 0 < cls.blockSize :=
  Nat.lt_of_lt_of_le (by decide) cls.le_blockSize

theorem totalBlocks_pos : 0 < cls.totalBlocks := by
  cases cls <;> decide

end SizeClass

/-- `none` is `MEMORY_POOL_FALLBACK`. -/
def memoryPoolGetClass (size : Nat) : Option SizeClass :=
  if size ≤ SizeClass.blockSize .small then some .small
  else if size ≤ SizeClass.blockSize .medium then some .medium
  else if size ≤ SizeClass.blockSize .large then some .large
  else none

theorem le_blockSize_of_getClass {size : Nat} {cls : SizeClass}
    (hclass : memoryPoolGetClass size = some cls) : size ≤ cls.blockSize := by
  unfold memoryPoolGetClass at hclass
  split_ifs at hclass with hsmall hmedium hlarge
  · rwa [← Option.some.inj hclass]
  · rwa [← Option.some.inj hclass]
  · rwa [← Option.some.inj hclass]

theorem SizeClass.getClass_blockSize (cls : SizeClass) :
    memoryPoolGetClass cls.blockSize = some cls := by
  cases cls <;> rfl

/-- `TLS_CACHE_SIZE`. -/
def tlsCacheSize : Nat := 32

/-- The static arrays `g_small_pool`, `g_medium_pool` and `g_large_pool` in memory. -/
structure PoolArrays where
  start : SizeClass → Nat
  start_pos : ∀ cls, 0 < start cls
  apart : ∀ cls other, cls ≠ other →
    start cls + cls.blockSize * cls.totalBlocks ≤ start other ∨
      start other + other.blockSize * other.totalBlocks ≤ start cls

namespace PoolArrays

variable (arrays : PoolArrays)

def finish (cls : SizeClass) : Nat :=
  arrays.start cls + cls.blockSize * cls.totalBlocks

def blocks (cls : SizeClass) : List Nat :=
  FreeList.blocks (arrays.start cls) cls.blockSize cls.totalBlocks

/-- `memory_pool_ptr_in_class`. -/
def ptrInClass (cls : SizeClass) (ptr : Nat) : Bool :=
  decide (arrays.start cls ≤ ptr ∧ ptr < arrays.finish cls)

/-- `memory_pool_ptr_in_any_pool`. -/
def ptrInAnyPool (ptr : Nat) : Bool :=
  SizeClass.all.any fun cls => arrays.ptrInClass cls ptr

end PoolArrays

namespace PoolArrays

variable {arrays : PoolArrays} {cls other : SizeClass} {address : Nat}

theorem le_of_mem_blocks (hmem : address ∈ arrays.blocks cls) : arrays.start cls ≤ address :=
  FreeList.le_of_mem_blocks hmem

theorem add_blockSize_le_finish (hmem : address ∈ arrays.blocks cls) :
    address + cls.blockSize ≤ arrays.finish cls :=
  FreeList.add_size_le_of_mem_blocks hmem

theorem pos_of_mem_blocks (hmem : address ∈ arrays.blocks cls) : 0 < address :=
  Nat.lt_of_lt_of_le (arrays.start_pos cls) (le_of_mem_blocks hmem)

theorem ptrInClass_iff :
    arrays.ptrInClass cls address = true ↔
      arrays.start cls ≤ address ∧ address < arrays.finish cls :=
  decide_eq_true_iff

theorem ptrInClass_of_mem (hmem : address ∈ arrays.blocks cls) :
    arrays.ptrInClass cls address = true := by
  have hle := add_blockSize_le_finish hmem
  have hpos := cls.blockSize_pos
  exact ptrInClass_iff.mpr ⟨le_of_mem_blocks hmem, by omega⟩

theorem class_unique (hin : arrays.ptrInClass cls address = true)
    (hother : arrays.ptrInClass other address = true) : cls = other := by
  rw [ptrInClass_iff] at hin hother
  by_contra hne
  have happart := arrays.apart cls other hne
  unfold finish at hin hother
  omega

theorem class_unique_of_mem (hmem : address ∈ arrays.blocks cls)
    (hother : address ∈ arrays.blocks other) : cls = other :=
  class_unique (ptrInClass_of_mem hmem) (ptrInClass_of_mem hother)

theorem ptrInAnyPool_iff :
    arrays.ptrInAnyPool address = true ↔ ∃ cls, arrays.ptrInClass cls address = true := by
  unfold ptrInAnyPool
  rw [List.any_eq_true]
  exact ⟨fun ⟨cls, _, hin⟩ => ⟨cls, hin⟩, fun ⟨cls, hin⟩ => ⟨cls, cls.mem_all, hin⟩⟩

theorem ptrInAnyPool_of_mem (hmem : address ∈ arrays.blocks cls) :
    arrays.ptrInAnyPool address = true :=
  ptrInAnyPool_iff.mpr ⟨cls, ptrInClass_of_mem hmem⟩

end PoolArrays

/-- `memory_pool_class_t`: the head of the free list, where 0 is null, and the number of blocks. -/
structure PoolClass where
  freeList : Nat
  freeBlocks : Nat
deriving DecidableEq, Repr

/-- `g_pool`, the first words of the blocks, and the caches of the threads, last entry first. -/
structure MemoryPool where
  classes : SizeClass → PoolClass
  initialized : Bool
  memory : Nat → Nat
  tls : Nat → SizeClass → List Nat

namespace MemoryPool

def boot (memory : Nat → Nat) : MemoryPool where
  classes := fun _ => ⟨0, 0⟩
  initialized := false
  memory := memory
  tls := fun _ _ => []

def setCache (pool : MemoryPool) (thread : Nat) (cls : SizeClass) (cache : List Nat) :
    MemoryPool :=
  { pool with
    tls := Function.update pool.tls thread (Function.update (pool.tls thread) cls cache) }

def popFree (pool : MemoryPool) (cls : SizeClass) : MemoryPool :=
  { pool with
    classes := Function.update pool.classes cls
      ⟨pool.memory (pool.classes cls).freeList, (pool.classes cls).freeBlocks - 1⟩ }

def pushFree (pool : MemoryPool) (cls : SizeClass) (ptr : Nat) : MemoryPool :=
  { pool with
    classes := Function.update pool.classes cls ⟨ptr, (pool.classes cls).freeBlocks + 1⟩
    memory := Function.update pool.memory ptr (pool.classes cls).freeList }

@[simp]
theorem tls_setCache (pool : MemoryPool) (thread : Nat) (cls : SizeClass) (cache : List Nat)
    (other : Nat) (cls' : SizeClass) :
    (pool.setCache thread cls cache).tls other cls' =
      if other = thread ∧ cls' = cls then cache else pool.tls other cls' := by
  unfold setCache
  by_cases hthread : other = thread
  · subst hthread
    by_cases hclass : cls' = cls
    · subst hclass
      simp
    · simp [hclass]
  · simp [hthread]

section Calls

variable (arrays : PoolArrays)

/-- `memory_pool_class_init`. -/
def classInit (pool : MemoryPool) (cls : SizeClass) : MemoryPool :=
  { pool with
    classes := Function.update pool.classes cls ⟨arrays.start cls, cls.totalBlocks⟩
    memory := FreeList.linkAll pool.memory (arrays.start cls) cls.blockSize cls.totalBlocks }

/-- `memory_pool_init`. -/
def init (pool : MemoryPool) : MemoryPool :=
  if pool.initialized then pool
  else
    { ((pool.classInit arrays .small).classInit arrays .medium).classInit arrays .large with
      initialized := true }

/-- `memory_pool_class_alloc`; there is no block if the free list is empty. -/
def classAlloc (pool : MemoryPool) (cls : SizeClass) : Option (Nat × MemoryPool) :=
  if (pool.classes cls).freeList = 0 then none
  else some ((pool.classes cls).freeList, pool.popFree cls)

/-- `memory_pool_class_free`; there is no result if the pointer is not in the array. -/
def classFree (pool : MemoryPool) (cls : SizeClass) (ptr : Nat) : Option MemoryPool :=
  if arrays.ptrInClass cls ptr then some (pool.pushFree cls ptr) else none

/-- One round of a loop of `memory_pool_tls_drain`. -/
def drainOne (pool : MemoryPool) (thread : Nat) (cls : SizeClass) : MemoryPool :=
  if pool.initialized then
    match pool.tls thread cls with
    | [] => pool
    | ptr :: cache =>
        ((pool.setCache thread cls cache).classFree arrays cls ptr).getD
          (pool.setCache thread cls cache)
  else pool

def drainCache (pool : MemoryPool) (thread : Nat) (cls : SizeClass) : MemoryPool :=
  Nat.iterate (fun pool => pool.drainOne arrays thread cls) (pool.tls thread cls).length pool

/-- `memory_pool_tls_drain`. -/
def tlsDrain (pool : MemoryPool) (thread : Nat) : MemoryPool :=
  ((pool.drainCache arrays thread .small).drainCache arrays thread .medium).drainCache arrays
    thread .large

/-- `memory_pool_destroy`. -/
def destroy (pool : MemoryPool) (thread : Nat) : MemoryPool :=
  if pool.initialized then { pool.tlsDrain arrays thread with initialized := false } else pool

/-- `memory_pool_alloc`; `fresh` is what `malloc` returns if it is called. -/
def alloc (pool : MemoryPool) (thread size fresh : Nat) : Nat × MemoryPool :=
  if pool.initialized then
    match memoryPoolGetClass size with
    | none => (fresh, pool)
    | some cls =>
        match pool.tls thread cls with
        | ptr :: cache => (ptr, pool.setCache thread cls cache)
        | [] => (pool.classAlloc cls).getD (fresh, pool)
  else (fresh, pool)

/-- The last part of `memory_pool_free`: the block goes back to the class it lies in. The flag says
that the pointer is passed to `free`. -/
def freeToClass (pool : MemoryPool) (ptr : Nat) : MemoryPool × Bool :=
  match SizeClass.all.findSome? fun cls => pool.classFree arrays cls ptr with
  | some freed => (freed, false)
  | none => (pool, true)

/-- `memory_pool_free`. -/
def free (pool : MemoryPool) (thread ptr size : Nat) : MemoryPool × Bool :=
  if ptr = 0 then (pool, false)
  else if !pool.initialized then (pool, true)
  else if arrays.ptrInAnyPool ptr then
    match memoryPoolGetClass size with
    | none => pool.freeToClass arrays ptr
    | some cls =>
        if (pool.tls thread cls).length < tlsCacheSize then
          (pool.setCache thread cls (ptr :: pool.tls thread cls), false)
        else pool.freeToClass arrays ptr
  else (pool, true)

/-! ### What the calls change -/

variable {pool : MemoryPool} {thread size fresh : Nat} {cls : SizeClass}

omit arrays in
theorem alloc_of_cache (hinit : pool.initialized = true)
    (hclass : memoryPoolGetClass size = some cls) {ptr : Nat} {cache : List Nat}
    (hcache : pool.tls thread cls = ptr :: cache) :
    pool.alloc thread size fresh = (ptr, pool.setCache thread cls cache) := by
  simp [alloc, hinit, hclass, hcache]

omit arrays in
theorem alloc_of_freeList (hinit : pool.initialized = true)
    (hclass : memoryPoolGetClass size = some cls) (hcache : pool.tls thread cls = [])
    (hnull : (pool.classes cls).freeList ≠ 0) (fresh : Nat) :
    pool.alloc thread size fresh = ((pool.classes cls).freeList, pool.popFree cls) := by
  simp [alloc, hinit, hclass, hcache, classAlloc, hnull]

theorem classFree_eq_none {ptr : Nat} (hout : arrays.ptrInClass cls ptr = false) :
    pool.classFree arrays cls ptr = none := by
  rw [classFree, if_neg (by simp [hout])]

theorem freeToClass_of_mem (pool : MemoryPool) {ptr : Nat} (hmem : ptr ∈ arrays.blocks cls) :
    pool.freeToClass arrays ptr = (pool.pushFree cls ptr, false) := by
  have hin := PoolArrays.ptrInClass_of_mem hmem
  have hother : ∀ {other}, other ≠ cls → pool.classFree arrays other ptr = none := fun hne =>
    classFree_eq_none arrays (Bool.eq_false_iff.mpr fun hin' =>
      hne (PoolArrays.class_unique hin' hin))
  have hself : pool.classFree arrays cls ptr = some (pool.pushFree cls ptr) := if_pos hin
  unfold freeToClass SizeClass.all
  cases cls with
  | small => rw [List.findSome?_cons, hself]
  | medium => rw [List.findSome?_cons, hother SizeClass.small_ne_medium, List.findSome?_cons, hself]
  | large =>
      rw [List.findSome?_cons, hother SizeClass.small_ne_large, List.findSome?_cons,
        hother SizeClass.medium_ne_large, List.findSome?_cons, hself]

@[simp]
theorem drainOne_initialized (pool : MemoryPool) (thread : Nat) (cls : SizeClass) :
    (pool.drainOne arrays thread cls).initialized = pool.initialized := by
  unfold drainOne
  split_ifs with hinit
  · cases pool.tls thread cls with
    | nil => rfl
    | cons ptr cache =>
        dsimp only
        unfold classFree
        split_ifs <;> rfl
  · rfl

theorem tls_drainOne (hinit : pool.initialized = true) (thread : Nat) (cls : SizeClass) :
    (pool.drainOne arrays thread cls).tls =
      (pool.setCache thread cls (pool.tls thread cls).tail).tls := by
  unfold drainOne
  rw [if_pos hinit]
  cases hcache : pool.tls thread cls with
  | nil =>
      funext other cls'
      rw [tls_setCache]
      split_ifs with hsame
      · rw [hsame.1, hsame.2, hcache]
        rfl
      · rfl
  | cons ptr cache =>
      dsimp only
      unfold classFree
      split_ifs <;> rfl

theorem tls_drainCache (hinit : pool.initialized = true) (thread : Nat) (cls : SizeClass) :
    (pool.drainCache arrays thread cls).initialized = true ∧
      (pool.drainCache arrays thread cls).tls = (pool.setCache thread cls []).tls := by
  unfold drainCache
  generalize hrounds : (pool.tls thread cls).length = rounds
  induction rounds generalizing pool with
  | zero =>
      refine ⟨hinit, ?_⟩
      funext other cls'
      rw [tls_setCache]
      split_ifs with hsame
      · rw [hsame.1, hsame.2]
        exact List.length_eq_zero_iff.mp hrounds
      · rfl
  | succ rounds ih =>
      have htls := tls_drainOne arrays hinit thread cls
      have hinit' : (pool.drainOne arrays thread cls).initialized = true := by
        rw [drainOne_initialized, hinit]
      have hlength : ((pool.drainOne arrays thread cls).tls thread cls).length = rounds := by
        rw [htls, tls_setCache, if_pos ⟨rfl, rfl⟩, List.length_tail, hrounds, Nat.add_sub_cancel]
      obtain ⟨hinit'', hall⟩ := ih hinit' hlength
      refine ⟨hinit'', hall.trans ?_⟩
      funext other cls'
      rw [tls_setCache, tls_setCache, htls, tls_setCache]
      split_ifs <;> rfl

theorem tls_tlsDrain (hinit : pool.initialized = true) (thread other : Nat) (cls : SizeClass) :
    (pool.tlsDrain arrays thread).tls other cls =
      if other = thread then [] else pool.tls other cls := by
  obtain ⟨hsmall, hsmallTls⟩ := tls_drainCache arrays hinit thread .small
  obtain ⟨hmedium, hmediumTls⟩ := tls_drainCache arrays hsmall thread .medium
  obtain ⟨-, hlargeTls⟩ := tls_drainCache arrays hmedium thread .large
  rw [tlsDrain, hlargeTls, tls_setCache, hmediumTls, tls_setCache, hsmallTls, tls_setCache]
  by_cases hother : other = thread
  · cases cls <;> simp [hother]
  · simp [hother]

def AllFree (pool : MemoryPool) (cls : SizeClass) : Prop :=
  Chain pool.memory (pool.classes cls).freeList (arrays.blocks cls) ∧
    (pool.classes cls).freeBlocks = cls.totalBlocks

theorem allFree_classInit (pool : MemoryPool) (cls : SizeClass) :
    (pool.classInit arrays cls).AllFree arrays cls := by
  unfold AllFree classInit
  dsimp only
  rw [Function.update_self]
  exact ⟨FreeList.chain_linkAll (arrays.start_pos cls) cls.blockSize_pos cls.totalBlocks_pos, rfl⟩

theorem AllFree.classInit {other : SizeClass} (hall : pool.AllFree arrays cls)
    (hne : cls ≠ other) : (pool.classInit arrays other).AllFree arrays cls := by
  unfold AllFree MemoryPool.classInit
  dsimp only
  rw [Function.update_of_ne hne]
  refine ⟨hall.1.congr fun a ha => ?_, hall.2⟩
  refine FreeList.linkAll_of_not_mem other.totalBlocks_pos fun hmem => hne ?_
  exact PoolArrays.class_unique_of_mem ha hmem

theorem init_of_not_initialized (hinit : pool.initialized = false) :
    (pool.init arrays).tls = pool.tls ∧ (pool.init arrays).initialized = true := by
  rw [init, if_neg (by simp [hinit])]
  exact ⟨rfl, rfl⟩

theorem allFree_init (hinit : pool.initialized = false) (cls : SizeClass) :
    (pool.init arrays).AllFree arrays cls := by
  have hclasses : (((pool.classInit arrays .small).classInit arrays .medium).classInit arrays
      .large).AllFree arrays cls := by
    cases cls with
    | small =>
        have hsmall := allFree_classInit arrays pool .small
        have hmedium := hsmall.classInit arrays SizeClass.small_ne_medium
        exact hmedium.classInit arrays SizeClass.small_ne_large
    | medium =>
        have hmedium := allFree_classInit arrays (pool.classInit arrays .small) .medium
        exact hmedium.classInit arrays SizeClass.medium_ne_large
    | large => exact allFree_classInit arrays _ .large
  rw [init, if_neg (by simp [hinit])]
  exact hclasses

end Calls

end MemoryPool

/-! ### Runs -/

/-- What a caller has been given and not yet freed. -/
structure Allocation where
  address : Nat
  size : Nat
deriving DecidableEq, Repr

namespace Allocation

/-- An allocation of no bytes still has an address of its own. -/
def extent (allocation : Allocation) : Nat := max allocation.size 1

def Apart (first second : Allocation) : Prop :=
  first.address + first.extent ≤ second.address ∨ second.address + second.extent ≤ first.address

instance (first second : Allocation) : Decidable (Apart first second) :=
  inferInstanceAs (Decidable (_ ∨ _))

def Foreign (arrays : PoolArrays) (allocation : Allocation) : Prop :=
  0 < allocation.address ∧
    ∀ cls, allocation.address + allocation.extent ≤ arrays.start cls ∨
      arrays.finish cls ≤ allocation.address

instance : Std.Symm Apart := ⟨fun _ _ => Or.symm⟩

theorem one_le_extent (allocation : Allocation) : 1 ≤ allocation.extent := le_max_right _ _

theorem size_le_extent (allocation : Allocation) : allocation.size ≤ allocation.extent :=
  le_max_left _ _

theorem Apart.address_ne {first second : Allocation} (hapart : Apart first second) :
    first.address ≠ second.address := by
  have hfirst := first.one_le_extent
  have hsecond := second.one_le_extent
  rcases hapart with hle | hle <;> omega

end Allocation

/-- The pool with what its callers hold; `fault` says that `free` was given a static address. -/
structure PoolRun where
  pool : MemoryPool
  live : List Allocation
  fault : Bool

inductive AllocAction where
  | init
  | alloc (thread size fresh : Nat)
  | free (thread address size : Nat)
  | drain (thread : Nat) (cls : SizeClass)
  | destroy (thread : Nat)
  /-- The callers write to memory; these are the words afterwards. -/
  | write (words : Nat → Nat)

namespace PoolRun

variable (arrays : PoolArrays)

def boot (memory : Nat → Nat) : PoolRun := ⟨.boot memory, [], false⟩

def step (s : PoolRun) : AllocAction → PoolRun
  | .init => { s with pool := s.pool.init arrays }
  | .alloc thread size fresh =>
      { s with
        pool := (s.pool.alloc thread size fresh).2
        live :=
          if (s.pool.alloc thread size fresh).1 = 0 then s.live
          else ⟨(s.pool.alloc thread size fresh).1, size⟩ :: s.live }
  | .free thread address size =>
      { pool := (s.pool.free arrays thread address size).1
        live := s.live.erase ⟨address, size⟩
        fault := s.fault ||
          ((s.pool.free arrays thread address size).2 && arrays.ptrInAnyPool address) }
  | .drain thread cls => { s with pool := s.pool.drainOne arrays thread cls }
  | .destroy thread => { s with pool := s.pool.destroy arrays thread }
  | .write words => { s with pool := { s.pool with memory := words } }

/-- What the callers and `malloc` keep to: `malloc` returns null or fresh memory, a pointer is freed
once and with the size it was allocated with, and only what is held is written to, where a word has
eight bytes. The pool is destroyed when no block is held and, as its header says, the caches of all
other threads have been drained. -/
def Allowed (s : PoolRun) : AllocAction → Prop
  | .init => True
  | .alloc _ size fresh =>
      fresh = 0 ∨ Allocation.Foreign arrays ⟨fresh, size⟩ ∧
        ∀ known ∈ s.live, Allocation.Apart ⟨fresh, size⟩ known
  | .free _ address size => address = 0 ∨ ⟨address, size⟩ ∈ s.live
  | .drain _ _ => True
  | .destroy thread => s.pool.initialized = true →
      (∀ known ∈ s.live, arrays.ptrInAnyPool known.address = false) ∧
        ∀ other ≠ thread, ∀ cls, s.pool.tls other cls = []
  | .write words => ∀ address, words address ≠ s.pool.memory address →
      ∃ known ∈ s.live, known.address < address + 8 ∧ address < known.address + known.size

end PoolRun

end Poseidon
