import Mathlib.Algebra.BigOperators.Group.Finset.Basic
import Poseidon.Util.PoolCustody

/-!
# What the memory pool owes its callers, and they to it

No block is ever lost: those in the free list of a class, in the caches and with the callers are all
its blocks, and an allocation comes from `malloc` only if the thread's own cache and the free list
are empty. The rule of the header, that every thread drains its caches before the pool is destroyed,
cannot be relaxed: after any other destruction the pool hands out a block twice.
-/

namespace Poseidon

open FreeList (Chain Enumerates)

namespace Represents

variable {arrays : PoolArrays} {place : Nat → BlockPlace} {s : PoolRun}

variable (hrep : Represents arrays place s)

include hrep

theorem block_of_ptrInClass {known : Allocation} (hknown : known ∈ s.live) {cls : SizeClass}
    (hin : arrays.ptrInClass cls known.address = true) : known.Block arrays cls := by
  rcases hrep.live known hknown with hforeign | ⟨other, hblock⟩
  · have hany := PoolArrays.ptrInAnyPool_iff.mpr ⟨cls, hin⟩
    rw [hforeign.ptrInAnyPool] at hany
    cases hany
  · rwa [← PoolArrays.class_unique (PoolArrays.ptrInClass_of_mem hblock.mem) hin]

theorem enumerates_held (cls : SizeClass) :
    Enumerates
      ((s.live.filter fun known => arrays.ptrInClass cls known.address).map Allocation.address)
      fun a => a ∈ arrays.blocks cls ∧ place a = .held := by
  refine ⟨?_, fun a => ?_⟩
  · refine List.Pairwise.map Allocation.address (fun _ _ => Allocation.Apart.address_ne) ?_
    exact hrep.apart.sublist List.filter_sublist
  · simp only [List.mem_map, List.mem_filter]
    constructor
    · rintro ⟨known, ⟨hknown, hin⟩, rfl⟩
      have hblock := hrep.block_of_ptrInClass hknown hin
      exact ⟨hblock.mem, hrep.held_of_mem hknown hblock.mem⟩
    · rintro ⟨hmem, hheld⟩
      obtain ⟨known, hknown, rfl⟩ := (hrep.held cls a hmem).mp hheld
      exact ⟨known, ⟨hknown, PoolArrays.ptrInClass_of_mem hmem⟩, rfl⟩

theorem count_blocks (hinit : s.pool.initialized = true) {threads : Finset Nat}
    (hthreads : ∀ thread cls, s.pool.tls thread cls ≠ [] → thread ∈ threads) (cls : SizeClass) :
    (s.pool.classes cls).freeBlocks + ∑ thread ∈ threads, (s.pool.tls thread cls).length +
      (s.live.filter fun known => arrays.ptrInClass cls known.address).length =
      cls.totalBlocks := by
  have hwithin : ∀ (here : BlockPlace) a, a ∈ arrays.blocks cls ∧ place a = here →
      a ∈ (arrays.blocks cls).toFinset := fun _ a ha => List.mem_toFinset.mpr ha.1
  -- the number of blocks in a place
  have hcard : ∀ (here : BlockPlace) (entries : List Nat),
      Enumerates entries (fun a => a ∈ arrays.blocks cls ∧ place a = here) →
      ((arrays.blocks cls).toFinset.filter fun a => place a = here).card = entries.length := by
    intro here entries henum
    rw [henum.length_eq_card (hwithin here)]
    congr 1
    ext a
    simp only [Finset.mem_filter, List.mem_toFinset, and_self_left]
  obtain ⟨entries, -, hfree, hlength⟩ := hrep.free cls
  have hplaces : ∀ a ∈ (arrays.blocks cls).toFinset,
      place a ∈ insert .free (insert .held (threads.image .cached)) := by
    intro a ha
    rw [List.mem_toFinset] at ha
    cases hplace : place a with
    | unused => exact absurd hplace (hrep.started hinit cls a ha)
    | free => exact Finset.mem_insert_self _ _
    | held => exact Finset.mem_insert_of_mem (Finset.mem_insert_self _ _)
    | cached thread =>
        refine Finset.mem_insert_of_mem (Finset.mem_insert_of_mem (Finset.mem_image_of_mem _ ?_))
        apply hthreads thread cls
        exact List.ne_nil_of_mem (((hrep.cached thread cls).mem_iff a).mpr ⟨ha, hplace⟩)
  have htotal : (arrays.blocks cls).toFinset.card = cls.totalBlocks := by
    rw [PoolArrays.blocks, List.toFinset_card_of_nodup (FreeList.nodup_blocks cls.blockSize_pos),
      FreeList.length_blocks]
  have hsum : ∑ thread ∈ threads, ((arrays.blocks cls).toFinset.filter fun a =>
      place a = .cached thread).card = ∑ thread ∈ threads, (s.pool.tls thread cls).length :=
    Finset.sum_congr rfl fun thread _ => hcard _ _ (hrep.cached thread cls)
  have hheld := hcard _ _ (hrep.enumerates_held cls)
  rw [List.length_map] at hheld
  calc (s.pool.classes cls).freeBlocks + ∑ thread ∈ threads, (s.pool.tls thread cls).length +
        (s.live.filter fun known => arrays.ptrInClass cls known.address).length
      = ∑ here ∈ insert BlockPlace.free (insert .held (threads.image .cached)),
          ((arrays.blocks cls).toFinset.filter fun a => place a = here).card := by
        rw [Finset.sum_insert (by simp), Finset.sum_insert (by simp),
          Finset.sum_image fun _ _ _ _ => BlockPlace.cached.inj, hcard _ _ hfree, hheld, hsum,
          hlength]
        omega
    _ = (arrays.blocks cls).toFinset.card :=
        (Finset.card_eq_sum_card_fiberwise hplaces).symm
    _ = cls.totalBlocks := htotal

end Represents

namespace PoolRun

variable {arrays : PoolArrays} {memory : Nat → Nat} {actions : List AllocAction}

/-- **No block is lost.** While the pool is initialized, the free blocks, those in the caches and
those in use are all blocks of a class, and an allocation is served by `malloc` only if the cache of
the thread and the free list are empty. -/
theorem memoryPool_accounting
    (hallowed : Runs.Meets (step arrays) (Allowed arrays) (boot memory) actions) {s : PoolRun}
    (hs : s = Runs.run (step arrays) (boot memory) actions) (hinit : s.pool.initialized = true)
    (threads : Finset Nat) (hthreads : ∀ thread cls, s.pool.tls thread cls ≠ [] → thread ∈ threads)
    (cls : SizeClass) :
    (s.pool.classes cls).freeBlocks + ∑ thread ∈ threads, (s.pool.tls thread cls).length +
        (s.live.filter fun known => arrays.ptrInClass cls known.address).length =
        cls.totalBlocks ∧
      ∀ thread size fresh, memoryPoolGetClass size = some cls →
        (s.pool.alloc thread size fresh).1 ∈ arrays.blocks cls ∨
          s.pool.alloc thread size fresh = (fresh, s.pool) ∧ s.pool.tls thread cls = [] ∧
            (s.pool.classes cls).freeBlocks = 0 := by
  subst hs
  obtain ⟨place, hrep⟩ := represents_run hallowed
  refine ⟨hrep.count_blocks hinit hthreads cls, fun thread size fresh hclass => ?_⟩
  generalize Runs.run (step arrays) (boot memory) actions = s at hrep hinit
  obtain ⟨entries, hchain, henum, hlength⟩ := hrep.free cls
  cases hcache : s.pool.tls thread cls with
  | cons a cache =>
      rw [MemoryPool.alloc_of_cache hinit hclass hcache]
      exact Or.inl (hrep.cached_head hcache).1
  | nil =>
      by_cases hnull : (s.pool.classes cls).freeList = 0
      · refine Or.inr ⟨?_, rfl, ?_⟩
        · simp [MemoryPool.alloc, hclass, hcache, MemoryPool.classAlloc, hnull]
        · rw [hlength, hchain.eq_zero_iff.mp hnull, List.length_nil]
      · rw [MemoryPool.alloc_of_freeList hinit hclass hcache hnull fresh]
        exact Or.inl (hrep.free_popped rfl hnull BlockPlace.held_ne_free).1.1

theorem memoryPool_accounting_sample :
    let s := Runs.run (step adjacentArrays) (boot fun _ => 0) sampleActions
    (s.pool.classes .small).freeBlocks + ∑ thread ∈ {0}, (s.pool.tls thread .small).length +
      (s.live.filter fun known => adjacentArrays.ptrInClass .small known.address).length =
      10000 := by
  intro s
  refine (memoryPool_accounting sampleActions_allowed rfl sampleActions_initialized {0}
    (fun thread cls hne => ?_) .small).1
  by_contra hother
  rw [Finset.mem_singleton] at hother
  exact hne (sampleActions_tls hother cls)

/-! ### Destruction without draining -/

section Reinitialized

variable {cls : SizeClass} {thread size : Nat}

/-- As long as they last, allocations take what the cache of the thread holds and then what the free
list holds, in this order. -/
theorem live_run_alloc (hclass : memoryPoolGetClass size = some cls) {cache entries : List Nat} :
    ∀ s : PoolRun, s.pool.initialized = true → s.pool.tls thread cls = cache →
      (∀ a ∈ cache, a ≠ 0) → Chain s.pool.memory (s.pool.classes cls).freeList entries →
      (Runs.run (step arrays) s (List.replicate (cache.length + entries.length)
        (.alloc thread size 0))).live =
        ((cache ++ entries).map fun a => Allocation.mk a size).reverse ++ s.live := by
  induction cache with
  | cons a cache ih =>
      intro s hinit hcache hne hchain
      rw [List.forall_mem_cons] at hne
      have hstep : step arrays s (.alloc thread size 0) =
          { s with pool := s.pool.setCache thread cls cache, live := ⟨a, size⟩ :: s.live } := by
        simp only [step, MemoryPool.alloc_of_cache hinit hclass hcache, if_neg hne.1]
      rw [List.length_cons, Nat.add_right_comm, List.replicate_succ, Runs.run_cons, hstep]
      refine (ih { s with pool := s.pool.setCache thread cls cache, live := ⟨a, size⟩ :: s.live }
        hinit ?_ hne.2 hchain).trans ?_
      · rw [MemoryPool.tls_setCache, if_pos ⟨rfl, rfl⟩]
      · simp
  | nil =>
      induction entries with
      | nil => intros; rfl
      | cons a entries ih =>
          intro s hinit hcache hne hchain
          obtain ⟨hhead, hnull, hrest⟩ := hchain
          have hstep : step arrays s (.alloc thread size 0) =
              { s with pool := s.pool.popFree cls, live := ⟨a, size⟩ :: s.live } := by
            simp only [step, MemoryPool.alloc_of_freeList hinit hclass hcache (hhead ▸ hnull) 0,
              hhead, if_neg hnull]
          rw [List.length_cons, ← Nat.add_assoc, List.replicate_succ, Runs.run_cons, hstep]
          have hchain' : Chain (s.pool.popFree cls).memory
              ((s.pool.popFree cls).classes cls).freeList entries := by
            unfold MemoryPool.popFree
            dsimp only
            rw [Function.update_self, hhead]
            exact hrest
          refine (ih { s with pool := s.pool.popFree cls, live := ⟨a, size⟩ :: s.live }
            hinit hcache hne hchain').trans ?_
          simp

theorem reinitialized {s : PoolRun} (hinit : s.pool.initialized = true) (destroyer : Nat)
    (cls : SizeClass) :
    let again := step arrays (step arrays s (.destroy destroyer)) .init
    again.pool.initialized = true ∧ again.pool.AllFree arrays cls ∧
      ∀ other cls, again.pool.tls other cls =
        if other = destroyer then [] else s.pool.tls other cls := by
  intro again
  have hdestroyed : (step arrays s (.destroy destroyer)).pool.initialized = false := by
    simp [step, MemoryPool.destroy, hinit]
  obtain ⟨htls, hagain⟩ := MemoryPool.init_of_not_initialized arrays hdestroyed
  refine ⟨hagain, MemoryPool.allFree_init arrays hdestroyed cls, fun other cls => ?_⟩
  calc again.pool.tls other cls = (s.pool.destroy arrays destroyer).tls other cls :=
        congrFun (congrFun htls other) cls
    _ = (s.pool.tlsDrain arrays destroyer).tls other cls := by
        rw [MemoryPool.destroy, if_pos hinit]
    _ = if other = destroyer then [] else s.pool.tls other cls :=
        MemoryPool.tls_tlsDrain arrays hinit destroyer other cls

theorem live_reinitialized {s : PoolRun} (hinit : s.pool.initialized = true) {destroyer : Nat}
    {cache : List Nat}
    (hcache : (if thread = destroyer then [] else s.pool.tls thread cls) = cache)
    (hblocks : ∀ a ∈ cache, a ∈ arrays.blocks cls) :
    (Runs.run (step arrays) (step arrays (step arrays s (.destroy destroyer)) .init)
      (List.replicate (cache.length + (arrays.blocks cls).length)
        (.alloc thread cls.blockSize 0))).live =
      ((cache ++ arrays.blocks cls).map fun a => Allocation.mk a cls.blockSize).reverse ++
        s.live := by
  obtain ⟨hagain, hall, htls⟩ := reinitialized hinit destroyer cls
  exact live_run_alloc cls.getClass_blockSize _ hagain ((htls thread cls).trans hcache)
    (fun a ha => Nat.ne_of_gt (PoolArrays.pos_of_mem_blocks (hblocks a ha))) hall.1

/-- **The caches must be drained.** A destruction that the rule of the header excludes, because a
block is still held or lies in the cache of another thread, is followed by a run in which the pool,
initialized again, hands out memory that is in use. -/
theorem memoryPool_destroy_undrained
    (hallowed : Runs.Meets (step arrays) (Allowed arrays) (boot memory) actions) {destroyer : Nat}
    (hviolated : ¬ (Runs.run (step arrays) (boot memory) actions).Allowed arrays
      (.destroy destroyer)) :
    ∃ thread size count, ¬ (Runs.run (step arrays) (boot memory)
      (actions ++ .destroy destroyer :: .init ::
        List.replicate count (.alloc thread size 0))).live.Pairwise Allocation.Apart := by
  obtain ⟨place, hrep⟩ := represents_run hallowed
  simp only [Runs.run_append, Runs.run_cons]
  generalize Runs.run (step arrays) (boot memory) actions = s at hrep hviolated
  obtain ⟨hinit, hboth⟩ := Classical.not_imp.mp hviolated
  by_cases hcached : ∀ other ≠ destroyer, ∀ cls, s.pool.tls other cls = []
  · have hheld : ∃ known ∈ s.live, arrays.ptrInAnyPool known.address = true := by
      by_contra hnone
      refine hboth ⟨fun known hknown => ?_, hcached⟩
      exact Bool.eq_false_iff.mpr fun hin => hnone ⟨known, hknown, hin⟩
    obtain ⟨known, hknown, hin⟩ := hheld
    obtain ⟨cls, hin⟩ := PoolArrays.ptrInAnyPool_iff.mp hin
    have hblock := hrep.block_of_ptrInClass hknown hin
    refine ⟨destroyer, cls.blockSize, ([] : List Nat).length + (arrays.blocks cls).length, ?_⟩
    intro hpairwise
    rw [live_reinitialized hinit (if_pos rfl) (by simp)] at hpairwise
    have happart := (List.pairwise_append.mp hpairwise).2.2 ⟨known.address, cls.blockSize⟩ ?_
      known hknown
    · exact happart.address_ne rfl
    · exact List.mem_reverse.mpr (List.mem_map_of_mem hblock.mem)
  · simp only [not_forall] at hcached
    obtain ⟨other, hother, cls, hne⟩ := hcached
    have hblocks : ∀ a ∈ s.pool.tls other cls, a ∈ arrays.blocks cls :=
      fun a ha => (((hrep.cached other cls).mem_iff a).mp ha).1
    obtain ⟨a, ha⟩ := List.exists_mem_of_ne_nil _ hne
    refine ⟨other, cls.blockSize, (s.pool.tls other cls).length + (arrays.blocks cls).length, ?_⟩
    intro hpairwise
    rw [live_reinitialized hinit (if_neg hother) hblocks] at hpairwise
    have hgiven := (List.pairwise_append.mp hpairwise).1
    rw [List.pairwise_reverse, List.pairwise_map] at hgiven
    have hnodup : (s.pool.tls other cls ++ arrays.blocks cls).Nodup :=
      hgiven.imp fun happart => Ne.symm happart.address_ne
    exact (List.nodup_append'.mp hnodup).2.2 ha (hblocks a ha)

theorem memoryPool_destroy_undrained_sample :
    ∃ thread size count, ¬ (Runs.run (step adjacentArrays) (boot fun _ => 0)
      (sampleActions ++ .destroy 1 :: .init ::
        List.replicate count (.alloc thread size 0))).live.Pairwise Allocation.Apart := by
  refine memoryPool_destroy_undrained sampleActions_allowed fun hallowed => ?_
  have hdrained := (hallowed sampleActions_initialized).2 0 Nat.zero_ne_one .small
  exact absurd hdrained sampleActions_cached

end Reinitialized

end PoolRun

end Poseidon
