import Mathlib.Data.List.Pairwise
import Poseidon.Util.MemoryPool

/-!
# Who has a block of the memory pool

Every block of the three arrays is in one place: free, in the cache of one thread, or held by a
caller. The lists of the pool represent such a distribution, and each call moves at most one block.
-/

namespace Poseidon

open Function (update update_self update_of_ne)

open FreeList (Chain Enumerates)

structure Allocation.Block (arrays : PoolArrays) (cls : SizeClass) (allocation : Allocation) :
    Prop where
  mem : allocation.address ∈ arrays.blocks cls
  getClass : memoryPoolGetClass allocation.size = some cls

namespace Allocation

variable {arrays : PoolArrays} {cls other : SizeClass} {first second : Allocation}

theorem Foreign.ptrInAnyPool (hforeign : Foreign arrays first) :
    arrays.ptrInAnyPool first.address = false := by
  rw [Bool.eq_false_iff, ne_eq, PoolArrays.ptrInAnyPool_iff]
  rintro ⟨cls, hin⟩
  rw [PoolArrays.ptrInClass_iff] at hin
  have hextent := first.one_le_extent
  have := hforeign.2 cls
  omega

theorem Block.extent_le (hblock : Block arrays cls first) : first.extent ≤ cls.blockSize := by
  have hsize := le_blockSize_of_getClass hblock.getClass
  exact max_le hsize cls.blockSize_pos

theorem Block.ptrInAnyPool (hblock : Block arrays cls first) :
    arrays.ptrInAnyPool first.address = true :=
  PoolArrays.ptrInAnyPool_of_mem hblock.mem

theorem Block.apart_foreign (hblock : Block arrays cls first) (hforeign : Foreign arrays second) :
    Apart first second := by
  have hle := PoolArrays.le_of_mem_blocks hblock.mem
  have hfinish := PoolArrays.add_blockSize_le_finish hblock.mem
  have hextent := hblock.extent_le
  unfold Apart
  rcases hforeign.2 cls with hbefore | hbehind <;> omega

theorem Block.apart_block (hfirst : Block arrays cls first) (hsecond : Block arrays other second)
    (hne : first.address ≠ second.address) : Apart first second := by
  have hextent := hfirst.extent_le
  have hextent' := hsecond.extent_le
  unfold Apart
  by_cases hclass : cls = other
  · subst hclass
    rcases FreeList.add_size_le_or_of_mem_blocks hfirst.mem hsecond.mem hne with hle | hle <;> omega
  · have hle := PoolArrays.le_of_mem_blocks hfirst.mem
    have hle' := PoolArrays.le_of_mem_blocks hsecond.mem
    have hfinish := PoolArrays.add_blockSize_le_finish hfirst.mem
    have hfinish' := PoolArrays.add_blockSize_le_finish hsecond.mem
    unfold PoolArrays.finish at hfinish hfinish'
    rcases arrays.apart cls other hclass with hbefore | hbehind <;> omega

end Allocation

/-! ### Places -/

inductive BlockPlace where
  /-- The pool has not been initialized. -/
  | unused
  | free
  | cached (thread : Nat)
  | held
deriving DecidableEq, Repr

theorem BlockPlace.held_ne_cached (thread : Nat) : held ≠ cached thread :=
  BlockPlace.noConfusion

theorem BlockPlace.held_ne_free : held ≠ free :=
  BlockPlace.noConfusion

theorem BlockPlace.free_ne_cached (thread : Nat) : free ≠ cached thread :=
  BlockPlace.noConfusion

/-- The free list of each class has the free blocks of the class. -/
def FreeLists (arrays : PoolArrays) (place : Nat → BlockPlace) (pool : MemoryPool) : Prop :=
  ∀ cls, ∃ entries, Chain pool.memory (pool.classes cls).freeList entries ∧
    Enumerates entries (fun a => a ∈ arrays.blocks cls ∧ place a = .free) ∧
    (pool.classes cls).freeBlocks = entries.length

def Caches (arrays : PoolArrays) (place : Nat → BlockPlace) (pool : MemoryPool) : Prop :=
  ∀ thread cls, Enumerates (pool.tls thread cls)
    fun a => a ∈ arrays.blocks cls ∧ place a = .cached thread

structure Holding (arrays : PoolArrays) (place : Nat → BlockPlace) (allocations : List Allocation) :
    Prop where
  held : ∀ cls, ∀ a ∈ arrays.blocks cls,
    place a = .held ↔ ∃ known ∈ allocations, known.address = a
  live : ∀ known ∈ allocations, known.Foreign arrays ∨ ∃ cls, known.Block arrays cls
  apart : allocations.Pairwise Allocation.Apart

/-- The lists of the pool and of the callers represent the distribution of the blocks. -/
structure Represents (arrays : PoolArrays) (place : Nat → BlockPlace) (s : PoolRun) : Prop
    extends Holding arrays place s.live where
  free : FreeLists arrays place s.pool
  cached : Caches arrays place s.pool
  room : ∀ thread cls, (s.pool.tls thread cls).length ≤ tlsCacheSize
  idle : s.pool.initialized = false →
    ∀ cls, ∀ a ∈ arrays.blocks cls, place a = .unused ∨ place a = .free
  started : s.pool.initialized = true → ∀ cls, ∀ a ∈ arrays.blocks cls, place a ≠ .unused
  fault : s.fault = false

namespace Represents

variable {arrays : PoolArrays} {place : Nat → BlockPlace} {s : PoolRun}

theorem nodup_live (hrep : Represents arrays place s) : s.live.Nodup :=
  hrep.apart.imp fun happart => mt (congrArg Allocation.address) happart.address_ne

theorem boot (arrays : PoolArrays) (memory : Nat → Nat) :
    Represents arrays (fun _ => .unused) (PoolRun.boot memory) where
  free cls := ⟨[], rfl, ⟨List.nodup_nil, by simp⟩, rfl⟩
  cached thread cls := ⟨List.nodup_nil, by simp [PoolRun.boot, MemoryPool.boot]⟩
  room thread cls := Nat.zero_le _
  held cls a _ := iff_of_false (by simp) (by simp [PoolRun.boot])
  live := by simp [PoolRun.boot]
  apart := List.Pairwise.nil
  idle _ _ _ _ := Or.inl rfl
  started hinit := absurd hinit (by simp [PoolRun.boot, MemoryPool.boot])
  fault := rfl

section

variable (hrep : Represents arrays place s)

include hrep

variable {new : Allocation} {cls : SizeClass}

theorem cons_foreign (hforeign : new.Foreign arrays) (happart : ∀ known ∈ s.live, new.Apart known) :
    Represents arrays place { s with live := new :: s.live } :=
  { hrep with
    held := by
      intro cls a ha
      rw [hrep.held cls a ha]
      refine ⟨fun ⟨known, hknown, haddress⟩ => ⟨known, List.mem_cons_of_mem _ hknown, haddress⟩, ?_⟩
      rintro ⟨known, hknown, rfl⟩
      rcases List.mem_cons.mp hknown with rfl | hmem
      · exact absurd (PoolArrays.ptrInAnyPool_of_mem ha) (by simp [hforeign.ptrInAnyPool])
      · exact ⟨known, hmem, rfl⟩
    live := List.forall_mem_cons.mpr ⟨Or.inl hforeign, hrep.live⟩
    apart := List.pairwise_cons.mpr ⟨happart, hrep.apart⟩ }

theorem block_apart (hblock : new.Block arrays cls) (hplace : place new.address ≠ .held) :
    ∀ known ∈ s.live, new.Apart known := by
  intro known hknown
  rcases hrep.live known hknown with hforeign | ⟨other, hother⟩
  · exact hblock.apart_foreign hforeign
  · refine hblock.apart_block hother fun haddress => hplace ?_
    exact (hrep.held cls _ hblock.mem).mpr ⟨known, hknown, haddress.symm⟩

theorem holding_take (hblock : new.Block arrays cls) (hplace : place new.address ≠ .held) :
    Holding arrays (update place new.address .held) (new :: s.live) := by
  refine ⟨fun other a ha => ?_, List.forall_mem_cons.mpr ⟨Or.inr ⟨cls, hblock⟩, hrep.live⟩,
    List.pairwise_cons.mpr ⟨hrep.block_apart hblock hplace, hrep.apart⟩⟩
  by_cases haddress : a = new.address
  · subst haddress
    rw [update_self]
    exact iff_of_true rfl ⟨new, List.mem_cons_self, rfl⟩
  · rw [update_of_ne haddress, hrep.held other a ha]
    constructor
    · rintro ⟨known, hknown, rfl⟩
      exact ⟨known, List.mem_cons_of_mem _ hknown, rfl⟩
    · rintro ⟨known, hknown, rfl⟩
      rcases List.mem_cons.mp hknown with rfl | hmem
      · exact absurd rfl haddress
      · exact ⟨known, hmem, rfl⟩

theorem holding_give {old : Allocation} (hold : old ∈ s.live) {new : BlockPlace}
    (hnew : new ≠ .held) :
    Holding arrays (update place old.address new) (s.live.erase old) := by
  refine ⟨fun cls a ha => ?_, fun known hknown => hrep.live known (List.mem_of_mem_erase hknown),
    hrep.apart.sublist List.erase_sublist⟩
  have hmem : ∀ known, known ∈ s.live.erase old ↔ known ≠ old ∧ known ∈ s.live :=
    fun known => hrep.nodup_live.mem_erase_iff
  by_cases haddress : a = old.address
  · subst haddress
    rw [update_self]
    refine iff_of_false hnew ?_
    rintro ⟨known, hknown, hsame⟩
    obtain ⟨hne, hknown⟩ := (hmem known).mp hknown
    have happart := hrep.apart.forall hknown hold hne
    exact happart.address_ne hsame
  · rw [update_of_ne haddress, hrep.held cls a ha]
    constructor
    · rintro ⟨known, hknown, rfl⟩
      refine ⟨known, (hmem known).mpr ⟨?_, hknown⟩, rfl⟩
      rintro rfl
      exact haddress rfl
    · rintro ⟨known, hknown, rfl⟩
      exact ⟨known, ((hmem known).mp hknown).2, rfl⟩

theorem holding_keep {a : Nat} {there : BlockPlace} (hbefore : place a ≠ .held)
    (hafter : there ≠ .held) : Holding arrays (update place a there) s.live := by
  refine ⟨fun cls b hb => ?_, hrep.live, hrep.apart⟩
  rw [← hrep.held cls b hb]
  by_cases hba : b = a
  · subst hba
    rw [update_self]
    exact iff_of_false hafter hbefore
  · rw [update_of_ne hba]

theorem held_of_mem {known : Allocation} (hknown : known ∈ s.live)
    (hmem : known.address ∈ arrays.blocks cls) : place known.address = .held :=
  (hrep.held cls _ hmem).mpr ⟨known, hknown, rfl⟩

theorem erase_foreign {old : Allocation} (hforeign : old.Foreign arrays) :
    Represents arrays place { s with live := s.live.erase old } :=
  { hrep with
    held := by
      intro cls a ha
      rw [hrep.held cls a ha]
      constructor
      · rintro ⟨known, hknown, rfl⟩
        refine ⟨known, hrep.nodup_live.mem_erase_iff.mpr ⟨?_, hknown⟩, rfl⟩
        rintro rfl
        exact absurd (PoolArrays.ptrInAnyPool_of_mem ha) (by simp [hforeign.ptrInAnyPool])
      · rintro ⟨known, hknown, rfl⟩
        exact ⟨known, List.mem_of_mem_erase hknown, rfl⟩
    live := fun known hknown => hrep.live known (List.mem_of_mem_erase hknown)
    apart := hrep.apart.sublist List.erase_sublist }

end

/-! ### Moves of one block -/

section Moves

variable {cls : SizeClass} {a thread : Nat} {there : BlockPlace}

section

variable (hrep : Represents arrays place s)

include hrep

theorem free_of_moved (hbefore : place a ≠ .free) (hafter : there ≠ .free) :
    FreeLists arrays (update place a there) s.pool := by
  intro cls
  obtain ⟨entries, hchain, henum, hlength⟩ := hrep.free cls
  exact ⟨entries, hchain, henum.update_of_ne (fun _ => hbefore) (fun _ => hafter), hlength⟩

theorem free_pushed (ha : a ∈ arrays.blocks cls) (hbefore : place a ≠ .free) :
    FreeLists arrays (update place a .free) (s.pool.pushFree cls a) := by
  intro other
  unfold MemoryPool.pushFree
  dsimp only
  obtain ⟨entries, hchain, henum, hlength⟩ := hrep.free other
  have hfresh : a ∉ entries := fun hmem => hbefore ((henum.mem_iff a).mp hmem).2
  by_cases hother : other = cls
  · subst hother
    rw [update_self]
    refine ⟨a :: entries, hchain.push (Nat.ne_of_gt (PoolArrays.pos_of_mem_blocks ha)) hfresh,
      henum.update_push ha hbefore, ?_⟩
    rw [List.length_cons, hlength]
  · rw [update_of_ne hother]
    refine ⟨entries, hchain.congr fun b hb => update_of_ne ?_ _ _, ?_, hlength⟩
    · rintro rfl
      exact hfresh hb
    · have hnotMem : a ∉ arrays.blocks other :=
        fun hmem => hother (PoolArrays.class_unique_of_mem hmem ha)
      exact henum.update_of_ne (fun hmem => absurd hmem hnotMem)
        (fun hmem => absurd hmem hnotMem)

theorem free_popped (hhead : (s.pool.classes cls).freeList = a) (hnull : a ≠ 0)
    (hafter : there ≠ .free) :
    (a ∈ arrays.blocks cls ∧ place a = .free) ∧
      FreeLists arrays (update place a there) (s.pool.popFree cls) := by
  unfold MemoryPool.popFree
  rw [hhead]
  obtain ⟨entries, hchain, henum, hlength⟩ := hrep.free cls
  cases entries with
  | nil => exact absurd (hhead.symm.trans hchain) hnull
  | cons head rest =>
      obtain rfl : a = head := hhead.symm.trans hchain.1
      have ha := (henum.mem_iff a).mp List.mem_cons_self
      refine ⟨ha, fun other => ?_⟩
      dsimp only
      by_cases hother : other = cls
      · subst hother
        rw [update_self]
        refine ⟨rest, hchain.2.2, henum.update_pop hafter, ?_⟩
        rw [hlength, List.length_cons, Nat.add_sub_cancel]
      · rw [update_of_ne hother]
        obtain ⟨others, hchain', henum', hlength'⟩ := hrep.free other
        have hnotMem : a ∉ arrays.blocks other :=
          fun hmem => hother (PoolArrays.class_unique_of_mem hmem ha.1)
        exact ⟨others, hchain', henum'.update_of_ne (fun hmem => absurd hmem hnotMem)
          (fun hmem => absurd hmem hnotMem), hlength'⟩

theorem cached_of_moved (hbefore : ∀ thread, place a ≠ .cached thread)
    (hafter : ∀ thread, there ≠ .cached thread) :
    Caches arrays (update place a there) s.pool :=
  fun thread cls => (hrep.cached thread cls).update_of_ne (fun _ => hbefore thread)
    (fun _ => hafter thread)

theorem cached_pushed (ha : a ∈ arrays.blocks cls) (hbefore : ∀ thread, place a ≠ .cached thread) :
    Caches arrays (update place a (.cached thread))
      (s.pool.setCache thread cls (a :: s.pool.tls thread cls)) := by
  intro other cls'
  rw [MemoryPool.tls_setCache]
  split_ifs with hsame
  · obtain ⟨rfl, rfl⟩ := hsame
    exact (hrep.cached other cls').update_push ha (hbefore other)
  · refine (hrep.cached other cls').update_of_ne (fun _ => hbefore other) fun hmem heq => hsame ?_
    exact ⟨(BlockPlace.cached.inj heq).symm, PoolArrays.class_unique_of_mem hmem ha⟩

end

variable {cache : List Nat}

variable (hrep : Represents arrays place s)

include hrep

theorem cached_head (hcache : s.pool.tls thread cls = a :: cache) :
    a ∈ arrays.blocks cls ∧ place a = .cached thread := by
  apply ((hrep.cached thread cls).mem_iff a).mp
  rw [hcache]
  exact List.mem_cons_self

theorem cached_popped (hcache : s.pool.tls thread cls = a :: cache)
    (hafter : ∀ thread, there ≠ .cached thread) :
    (a ∈ arrays.blocks cls ∧ place a = .cached thread) ∧
      Caches arrays (update place a there) (s.pool.setCache thread cls cache) := by
  have ha := hrep.cached_head hcache
  have henum := hrep.cached thread cls
  rw [hcache] at henum
  refine ⟨ha, fun other cls' => ?_⟩
  rw [MemoryPool.tls_setCache]
  split_ifs with hsame
  · obtain ⟨rfl, rfl⟩ := hsame
    exact henum.update_pop (hafter other)
  · refine (hrep.cached other cls').update_of_ne (fun hmem heq => hsame ?_) fun _ => hafter other
    exact ⟨BlockPlace.cached.inj (heq.symm.trans ha.2), PoolArrays.class_unique_of_mem hmem ha.1⟩

theorem room_setCache (hlength : cache.length ≤ tlsCacheSize) :
    ∀ other cls', ((s.pool.setCache thread cls cache).tls other cls').length ≤ tlsCacheSize := by
  intro other cls'
  rw [MemoryPool.tls_setCache]
  split_ifs with hsame
  · exact hlength
  · exact hrep.room other cls'

variable (hinit : s.pool.initialized = true)

include hinit

theorem moved {pool : MemoryPool} {live : List Allocation} (hpool : pool.initialized = true)
    (hafter : there ≠ .unused) (hfree : FreeLists arrays (update place a there) pool)
    (hcached : Caches arrays (update place a there) pool)
    (hroom : ∀ thread cls, (pool.tls thread cls).length ≤ tlsCacheSize)
    (hholding : Holding arrays (update place a there) live) :
    Represents arrays (update place a there) { s with pool := pool, live := live } := by
  refine ⟨hholding, hfree, hcached, hroom, fun hfalse => ?_, fun _ cls b hb => ?_, hrep.fault⟩
  · exact absurd hpool (Bool.eq_false_iff.mp hfalse)
  · by_cases hba : b = a
    · subst hba
      rwa [update_self]
    · rw [update_of_ne hba]
      exact hrep.started hinit cls b hb

theorem takeCached {size : Nat} (hclass : memoryPoolGetClass size = some cls)
    (hcache : s.pool.tls thread cls = a :: cache) :
    Represents arrays (update place a .held)
      { s with pool := s.pool.setCache thread cls cache, live := ⟨a, size⟩ :: s.live } := by
  obtain ⟨ha, hcached⟩ := hrep.cached_popped hcache BlockPlace.held_ne_cached
  have hroom := hrep.room thread cls
  rw [hcache, List.length_cons] at hroom
  have hblock : Allocation.Block arrays cls ⟨a, size⟩ := ⟨ha.1, hclass⟩
  exact hrep.moved hinit hinit (by simp) (hrep.free_of_moved (by simp [ha.2]) (by simp)) hcached
    (hrep.room_setCache (by omega)) (hrep.holding_take hblock (by simp [ha.2]))

theorem takeFree {size : Nat} (hclass : memoryPoolGetClass size = some cls)
    (hhead : (s.pool.classes cls).freeList = a) (hnull : a ≠ 0) :
    Represents arrays (update place a .held)
      { s with pool := s.pool.popFree cls, live := ⟨a, size⟩ :: s.live } := by
  obtain ⟨ha, hfree⟩ := hrep.free_popped hhead hnull BlockPlace.held_ne_free
  have hblock : Allocation.Block arrays cls ⟨a, size⟩ := ⟨ha.1, hclass⟩
  exact hrep.moved hinit hinit (by simp) hfree (hrep.cached_of_moved (by simp [ha.2]) (by simp))
    hrep.room (hrep.holding_take hblock (by simp [ha.2]))

theorem giveCached {old : Allocation} (hold : old ∈ s.live) (hblock : old.Block arrays cls)
    (hroom : (s.pool.tls thread cls).length < tlsCacheSize) :
    Represents arrays (update place old.address (.cached thread))
      { s with
        pool := s.pool.setCache thread cls (old.address :: s.pool.tls thread cls)
        live := s.live.erase old } := by
  have hheld := hrep.held_of_mem hold hblock.mem
  exact hrep.moved hinit hinit (by simp) (hrep.free_of_moved (by simp [hheld]) (by simp))
    (hrep.cached_pushed hblock.mem (by simp [hheld])) (hrep.room_setCache hroom)
    (hrep.holding_give hold (by simp))

theorem giveFree {old : Allocation} (hold : old ∈ s.live) (hblock : old.Block arrays cls) :
    Represents arrays (update place old.address .free)
      { s with pool := s.pool.pushFree cls old.address, live := s.live.erase old } := by
  have hheld := hrep.held_of_mem hold hblock.mem
  exact hrep.moved hinit hinit (by simp) (hrep.free_pushed hblock.mem (by simp [hheld]))
    (hrep.cached_of_moved (by simp [hheld]) (by simp)) hrep.room
    (hrep.holding_give hold (by simp))

theorem drainFree (hcache : s.pool.tls thread cls = a :: cache) :
    Represents arrays (update place a .free)
      { s with pool := (s.pool.setCache thread cls cache).pushFree cls a } := by
  obtain ⟨ha, hcached⟩ := hrep.cached_popped hcache BlockPlace.free_ne_cached
  have hroom := hrep.room thread cls
  rw [hcache, List.length_cons] at hroom
  exact hrep.moved hinit hinit (by simp) (hrep.free_pushed ha.1 (by simp [ha.2])) hcached
    (hrep.room_setCache (by omega)) (hrep.holding_keep (by simp [ha.2]) (by simp))

end Moves

/-! ### Calls -/

variable (hrep : Represents arrays place s)

include hrep

theorem drainOne (thread : Nat) (cls : SizeClass) :
    ∃ after, Represents arrays after { s with pool := s.pool.drainOne arrays thread cls } := by
  unfold MemoryPool.drainOne
  by_cases hinit : s.pool.initialized = true
  · rw [if_pos hinit]
    cases hcache : s.pool.tls thread cls with
    | nil => exact ⟨place, hrep⟩
    | cons a cache =>
        have hclass := PoolArrays.ptrInClass_of_mem (hrep.cached_head hcache).1
        have hfree := hrep.drainFree hinit hcache
        refine ⟨update place a .free, ?_⟩
        dsimp only
        rw [MemoryPool.classFree, if_pos hclass]
        exact hfree
  · rw [if_neg hinit]
    exact ⟨place, hrep⟩

theorem drainCache (thread : Nat) (cls : SizeClass) :
    ∃ after, Represents arrays after { s with pool := s.pool.drainCache arrays thread cls } := by
  unfold MemoryPool.drainCache
  generalize (s.pool.tls thread cls).length = rounds
  induction rounds generalizing s place with
  | zero => exact ⟨place, hrep⟩
  | succ rounds ih =>
      obtain ⟨after, hafter⟩ := hrep.drainOne thread cls
      exact ih hafter

theorem tlsDrain (thread : Nat) :
    ∃ after, Represents arrays after { s with pool := s.pool.tlsDrain arrays thread } := by
  obtain ⟨small, hsmall⟩ := hrep.drainCache thread .small
  obtain ⟨medium, hmedium⟩ := hsmall.drainCache thread .medium
  exact hmedium.drainCache thread .large

theorem destroy {thread : Nat} (hallowed : PoolRun.Allowed arrays s (.destroy thread)) :
    ∃ after, Represents arrays after { s with pool := s.pool.destroy arrays thread } := by
  unfold MemoryPool.destroy
  by_cases hinit : s.pool.initialized = true
  · rw [if_pos hinit]
    obtain ⟨hlive, hothers⟩ := hallowed hinit
    obtain ⟨after, hafter⟩ := hrep.tlsDrain thread
    refine ⟨after, { hafter with idle := fun _ cls a ha => ?_, started := ?_ }⟩
    · cases hplace : after a with
      | unused => exact Or.inl rfl
      | free => exact Or.inr rfl
      | held =>
          obtain ⟨known, hknown, rfl⟩ := (hafter.held cls a ha).mp hplace
          exact absurd (PoolArrays.ptrInAnyPool_of_mem ha) (by simp [hlive known hknown])
      | cached owner =>
          have hmem := ((hafter.cached owner cls).mem_iff a).mpr ⟨ha, hplace⟩
          dsimp only at hmem
          rw [MemoryPool.tls_tlsDrain arrays hinit] at hmem
          split_ifs at hmem with howner
          · exact absurd hmem List.not_mem_nil
          · rw [hothers owner howner cls] at hmem
            exact absurd hmem List.not_mem_nil
    · exact fun htrue => Bool.noConfusion htrue
  · rw [if_neg hinit]
    exact ⟨place, hrep⟩

theorem init : ∃ after, Represents arrays after { s with pool := s.pool.init arrays } := by
  by_cases hinit : s.pool.initialized = true
  · rw [MemoryPool.init, if_pos hinit]
    exact ⟨place, hrep⟩
  · have hfalse := Bool.eq_false_iff.mpr hinit
    have hidle := hrep.idle hfalse
    obtain ⟨htls, hstarted⟩ := MemoryPool.init_of_not_initialized arrays hfalse
    refine ⟨fun _ => .free, { hrep with
      held := ?_, free := ?_, cached := ?_, room := ?_, idle := ?_, started := ?_ }⟩
    · intro cls a ha
      rw [← hrep.held cls a ha]
      refine iff_of_false BlockPlace.held_ne_free.symm ?_
      rcases hidle cls a ha with hplace | hplace <;> simp [hplace]
    · intro cls
      obtain ⟨hchain, hblocks⟩ := MemoryPool.allFree_init arrays hfalse cls
      refine ⟨arrays.blocks cls, hchain, ⟨FreeList.nodup_blocks cls.blockSize_pos, ?_⟩, ?_⟩
      · exact fun a => ⟨fun ha => ⟨ha, rfl⟩, And.left⟩
      · rw [hblocks, PoolArrays.blocks, FreeList.length_blocks]
    · intro thread cls
      dsimp only
      rw [htls]
      refine (hrep.cached thread cls).congr fun a => and_congr_right fun ha => ?_
      refine iff_of_false ?_ (BlockPlace.free_ne_cached thread)
      rcases hidle cls a ha with hplace | hplace <;> simp [hplace]
    · dsimp only
      rw [htls]
      exact hrep.room
    · exact fun hnot => absurd hstarted (Bool.eq_false_iff.mp hnot)
    · exact fun _ _ _ _ => BlockPlace.noConfusion

theorem alloc {thread size fresh : Nat}
    (hallowed : PoolRun.Allowed arrays s (.alloc thread size fresh)) :
    ∃ after, Represents arrays after (s.step arrays (.alloc thread size fresh)) := by
  -- where the pool has no block to give, the caller gets what `malloc` returns
  have hmalloc : s.pool.alloc thread size fresh = (fresh, s.pool) →
      ∃ after, Represents arrays after (s.step arrays (.alloc thread size fresh)) := by
    intro heq
    refine ⟨place, ?_⟩
    simp only [PoolRun.step, heq]
    split_ifs with hnull
    · exact hrep
    · obtain ⟨hforeign, happart⟩ := hallowed.resolve_left hnull
      exact hrep.cons_foreign hforeign happart
  by_cases hinit : s.pool.initialized = true
  · cases hclass : memoryPoolGetClass size with
    | none => exact hmalloc (by simp [MemoryPool.alloc, hclass])
    | some cls =>
        cases hcache : s.pool.tls thread cls with
        | cons a cache =>
            have hne := Nat.ne_of_gt (PoolArrays.pos_of_mem_blocks (hrep.cached_head hcache).1)
            have heq : s.pool.alloc thread size fresh = (a, s.pool.setCache thread cls cache) :=
              MemoryPool.alloc_of_cache hinit hclass hcache
            refine ⟨update place a .held, ?_⟩
            simp only [PoolRun.step, heq, if_neg hne]
            exact hrep.takeCached hinit hclass hcache
        | nil =>
            by_cases hnull : (s.pool.classes cls).freeList = 0
            · exact hmalloc (by
                simp [MemoryPool.alloc, hclass, hcache, MemoryPool.classAlloc, hnull])
            · have heq := MemoryPool.alloc_of_freeList hinit hclass hcache hnull fresh
              refine ⟨update place (s.pool.classes cls).freeList .held, ?_⟩
              simp only [PoolRun.step, heq, if_neg hnull]
              exact hrep.takeFree hinit hclass rfl hnull
  · exact hmalloc (by simp [MemoryPool.alloc, hinit])

theorem address_pos {known : Allocation} (hknown : known ∈ s.live) : 0 < known.address := by
  rcases hrep.live known hknown with hforeign | ⟨cls, hblock⟩
  · exact hforeign.1
  · exact PoolArrays.pos_of_mem_blocks hblock.mem

theorem initialized_of_block {known : Allocation} (hknown : known ∈ s.live) {cls : SizeClass}
    (hblock : known.Block arrays cls) : s.pool.initialized = true := by
  by_contra hinit
  have hheld := hrep.held_of_mem hknown hblock.mem
  rcases hrep.idle (Bool.eq_false_iff.mpr hinit) cls _ hblock.mem with hplace | hplace <;>
    simp [hplace] at hheld

theorem free_call {thread address size : Nat}
    (hallowed : PoolRun.Allowed arrays s (.free thread address size)) :
    ∃ after, Represents arrays after (s.step arrays (.free thread address size)) := by
  rcases hallowed with rfl | hold
  · have hnull : (⟨0, size⟩ : Allocation) ∉ s.live :=
      fun hmem => absurd (hrep.address_pos hmem) (Nat.lt_irrefl 0)
    refine ⟨place, ?_⟩
    simpa [PoolRun.step, MemoryPool.free, List.erase_of_not_mem hnull] using hrep
  · have hne : address ≠ 0 := Nat.ne_of_gt (hrep.address_pos hold)
    rcases hrep.live _ hold with hforeign | ⟨cls, hblock⟩
    · have hout : arrays.ptrInAnyPool address = false := hforeign.ptrInAnyPool
      have hpool : (s.pool.free arrays thread address size).1 = s.pool := by
        simp [MemoryPool.free, hne, hout]
      refine ⟨place, ?_⟩
      simp only [PoolRun.step, hpool, hout, Bool.and_false, Bool.or_false]
      exact hrep.erase_foreign hforeign
    · have hinit := hrep.initialized_of_block hold hblock
      have hin : arrays.ptrInAnyPool address = true := hblock.ptrInAnyPool
      have hclass : memoryPoolGetClass size = some cls := hblock.getClass
      by_cases hroom : (s.pool.tls thread cls).length < tlsCacheSize
      · have heq : s.pool.free arrays thread address size =
            (s.pool.setCache thread cls (address :: s.pool.tls thread cls), false) := by
          simp [MemoryPool.free, hne, hinit, hin, hclass, hroom]
        refine ⟨update place address (.cached thread), ?_⟩
        simp only [PoolRun.step, heq, Bool.false_and, Bool.or_false]
        exact hrep.giveCached hinit hold hblock hroom
      · have heq : s.pool.free arrays thread address size = s.pool.freeToClass arrays address := by
          simp [MemoryPool.free, hne, hinit, hin, hclass, hroom]
        refine ⟨update place address .free, ?_⟩
        simp only [PoolRun.step, heq, MemoryPool.freeToClass_of_mem arrays s.pool hblock.mem,
          Bool.false_and, Bool.or_false]
        exact hrep.giveFree hinit hold hblock

theorem write {words : Nat → Nat} (hallowed : PoolRun.Allowed arrays s (.write words)) :
    Represents arrays place (s.step arrays (.write words)) := by
  refine { hrep with free := fun cls => ?_ }
  obtain ⟨entries, hchain, henum, hlength⟩ := hrep.free cls
  refine ⟨entries, hchain.congr fun a ha => ?_, henum, hlength⟩
  obtain ⟨hmem, hplace⟩ := (henum.mem_iff a).mp ha
  by_contra hchanged
  obtain ⟨known, hknown, hbefore, hbehind⟩ := hallowed a hchanged
  -- the word that changed lies in the free block `a`
  have hword : Allocation.Block arrays cls ⟨a, cls.blockSize⟩ :=
    ⟨hmem, by cases cls <;> rfl⟩
  have happart := hrep.block_apart hword (by simp [hplace]) known hknown
  have hsize := cls.le_blockSize
  have hextent := known.size_le_extent
  have hextent' := Allocation.size_le_extent ⟨a, cls.blockSize⟩
  unfold Allocation.Apart at happart
  dsimp only at happart hextent'
  omega

end Represents

namespace PoolRun

variable {arrays : PoolArrays} {memory : Nat → Nat} {actions : List AllocAction}

theorem represents_step {place : Nat → BlockPlace} {s : PoolRun} (hrep : Represents arrays place s)
    {action : AllocAction} (hallowed : s.Allowed arrays action) :
    ∃ after, Represents arrays after (s.step arrays action) := by
  cases action with
  | init => exact hrep.init
  | alloc thread size fresh => exact hrep.alloc hallowed
  | free thread address size => exact hrep.free_call hallowed
  | drain thread cls => exact hrep.drainOne thread cls
  | destroy thread => exact hrep.destroy hallowed
  | write words => exact ⟨place, hrep.write hallowed⟩

theorem represents_run
    (hallowed : Runs.Meets (step arrays) (Allowed arrays) (boot memory) actions) :
    ∃ place, Represents arrays place (Runs.run (step arrays) (boot memory) actions) := by
  apply Runs.invariant_of_meets (step arrays) (fun s => ∃ place, Represents arrays place s) ?_
    ⟨_, Represents.boot arrays memory⟩ hallowed
  rintro s action ⟨place, hrep⟩ hallowed
  exact represents_step hrep hallowed

/-- **Exclusive blocks.** Whatever the threads do, and whatever they write into what they hold, what
is held never overlaps, a block is large enough for what it was asked for, and no block that is held
can be reached from a cache or a free list; `free` gets no static address. -/
theorem memoryPool_exclusive
    (hallowed : Runs.Meets (step arrays) (Allowed arrays) (boot memory) actions) :
    let s := Runs.run (step arrays) (boot memory) actions
    s.fault = false ∧ s.live.Pairwise Allocation.Apart ∧
      ∀ known ∈ s.live, known.Foreign arrays ∨
        ∃ cls, known.address ∈ arrays.blocks cls ∧ known.size ≤ cls.blockSize ∧
          (∀ thread other, known.address ∉ s.pool.tls thread other) ∧
          ∀ other, ∃ entries, Chain s.pool.memory (s.pool.classes other).freeList entries ∧
            known.address ∉ entries := by
  intro s
  obtain ⟨place, hrep⟩ := represents_run hallowed
  refine ⟨hrep.fault, hrep.apart, fun known hknown => ?_⟩
  refine (hrep.live known hknown).imp_right ?_
  rintro ⟨cls, hblock⟩
  have hheld := hrep.held_of_mem hknown hblock.mem
  refine ⟨cls, hblock.mem, le_blockSize_of_getClass hblock.getClass, fun thread other hmem => ?_,
    fun other => ?_⟩
  · have hcached := (((hrep.cached thread other).mem_iff _).mp hmem).2
    exact BlockPlace.held_ne_cached thread (hheld.symm.trans hcached)
  · obtain ⟨entries, hchain, henum, -⟩ := hrep.free other
    refine ⟨entries, hchain, fun hmem => BlockPlace.held_ne_free ?_⟩
    exact hheld.symm.trans ((henum.mem_iff _).mp hmem).2

def adjacentStart : SizeClass → Nat
  | .small => 64
  | .medium => 640064
  | .large => 1920064

theorem adjacentStart_apart (cls other : SizeClass) (hne : cls ≠ other) :
    adjacentStart cls + cls.blockSize * cls.totalBlocks ≤ adjacentStart other ∨
      adjacentStart other + other.blockSize * other.totalBlocks ≤ adjacentStart cls := by
  cases cls <;> cases other <;> first | exact absurd rfl hne | decide

theorem adjacentStart_pos (cls : SizeClass) : 0 < adjacentStart cls := by
  cases cls <;> decide

def adjacentArrays : PoolArrays := ⟨adjacentStart, adjacentStart_pos, adjacentStart_apart⟩

def sampleActions : List AllocAction :=
  [.init, .alloc 0 40 0, .alloc 1 2000 4000000, .free 0 64 40]

theorem sampleActions_allowed :
    Runs.Meets (step adjacentArrays) (Allowed adjacentArrays) (boot fun _ => 0) sampleActions := by
  refine ⟨trivial, Or.inl rfl, Or.inr ⟨⟨by decide, fun cls => ?_⟩, ?_⟩, Or.inr ?_, trivial⟩
  · cases cls <;> decide
  · decide
  · decide

theorem sampleActions_tls {other : Nat} (hother : other ≠ 0) (cls : SizeClass) :
    (Runs.run (step adjacentArrays) (boot fun _ => 0) sampleActions).pool.tls other cls = [] := by
  simp only [sampleActions, Runs.run_cons, Runs.run_nil]
  exact congrFun (update_of_ne hother (update (fun _ => []) .small [64])
    (fun _ _ => [])) cls

theorem sampleActions_initialized :
    (Runs.run (step adjacentArrays) (boot fun _ => 0) sampleActions).pool.initialized = true := by
  decide +kernel

theorem sampleActions_cached :
    (Runs.run (step adjacentArrays) (boot fun _ => 0) sampleActions).pool.tls 0 .small ≠ [] := by
  decide +kernel

/-- Two threads hold a block each. -/
def heldActions : List AllocAction :=
  [.init, .alloc 0 40 0, .alloc 1 40 0]

def heldRun : PoolRun :=
  Runs.run (step adjacentArrays) (boot fun _ => 0) heldActions

theorem live_heldRun : heldRun.live = [⟨128, 40⟩, ⟨64, 40⟩] := by
  decide +kernel

/-- The link that was in the first block is overwritten. -/
def overwritten : Nat → Nat :=
  update heldRun.pool.memory 64 7

theorem memoryPool_exclusive_sample :
    let s := Runs.run (step adjacentArrays) (boot fun _ => 0) (heldActions ++ [.write overwritten])
    s.live = [⟨128, 40⟩, ⟨64, 40⟩] ∧ s.pool.memory 64 = 7 ∧ s.fault = false ∧
      s.live.Pairwise Allocation.Apart := by
  have hwrite : heldRun.Allowed adjacentArrays (.write overwritten) := by
    intro address hchanged
    obtain rfl : address = 64 := by
      by_contra hne
      exact hchanged (update_of_ne hne _ _)
    refine ⟨⟨64, 40⟩, ?_, by decide, by decide⟩
    rw [live_heldRun]
    exact List.mem_cons_of_mem _ List.mem_cons_self
  have hallowed : Runs.Meets (step adjacentArrays) (Allowed adjacentArrays) (boot fun _ => 0)
      (heldActions ++ [.write overwritten]) :=
    (Runs.meets_append (step adjacentArrays)).mpr
      ⟨⟨trivial, Or.inl rfl, Or.inl rfl, trivial⟩, hwrite, trivial⟩
  obtain ⟨hfault, hapart, -⟩ := memoryPool_exclusive hallowed
  have hwritten : ∀ held : PoolRun,
      (Runs.run (step adjacentArrays) held [.write overwritten]).live = held.live ∧
        (Runs.run (step adjacentArrays) held [.write overwritten]).pool.memory = overwritten :=
    fun _ => ⟨rfl, rfl⟩
  refine ⟨?_, ?_, hfault, hapart⟩
  · rw [Runs.run_append, (hwritten _).1]
    exact live_heldRun
  · rw [Runs.run_append, (hwritten _).2]
    exact update_self _ _ _

end PoolRun

end Poseidon
