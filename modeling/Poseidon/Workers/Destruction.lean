import Poseidon.Workers.Custody

/-!
# Every accepted item runs once

The destruction of the pool follows the join of all workers, so nobody but the destroying thread has
an item then. It goes through the queues in order, and an item that was accepted before is in none
of the queues it has left behind: what is appended later was not accepted.
-/

namespace Poseidon

open Threads (Turn calls goes)

namespace WorkPool

/-- What was taken from each queue is what was appended to it first. -/
def Ordered (pool : WorkPool) : Prop :=
  ∀ shard, pool.pushed shard = pool.taken shard ++ pool.queues shard

theorem Ordered.pop {pool : WorkPool} (hpool : pool.Ordered) {shard : Shard} {work : Nat}
    {rest : List Nat} (hqueue : pool.queues shard = work :: rest) :
    (pool.pop shard work rest).Ordered := by
  intro other
  by_cases hother : other = shard
  · subst hother
    simpa [WorkPool.pop, hqueue] using hpool other
  · simpa [WorkPool.pop, hother] using hpool other

theorem Ordered.enqueue {pool : WorkPool} (hpool : pool.Ordered) (shard : Shard) (work : Nat) :
    (pool.enqueue shard work).Ordered := by
  intro other
  by_cases hother : other = shard
  · subst hother
    simp [WorkPool.enqueue, hpool other]
  · simpa [WorkPool.enqueue, hother] using hpool other

end WorkPool

namespace PoolAction

def sweeps : PoolAction → Option Nat
  | .drain i | .abort i _ => some i
  | _ => none

namespace Does

variable {thread : Nat} {pool pool' : WorkPool} {action : PoolAction} {place : Option PoolAction}

variable (hdoes : Does thread pool action pool' place)

include hdoes

theorem ordered (hpool : pool.Ordered) : pool'.Ordered := by
  cases hdoes with
  | finds phase start i work rest hqueue => exact hpool.pop hqueue
  | drains i work rest hi hqueue => exact hpool.pop hqueue
  | pushes work shard wakes => exact hpool.enqueue shard work
  | _ => exact hpool

theorem exited_subset : pool.exited ⊆ pool'.exited := by
  cases hdoes with
  | exits => exact Finset.subset_insert thread pool.exited
  | _ => exact subset_rfl

theorem mem_exited {other : Nat} (hother : other ∈ pool'.exited) :
    other ∈ pool.exited ∨ other = thread ∧ place = none := by
  cases hdoes with
  | exits => exact (Finset.mem_insert.mp hother).symm.imp_right fun hthread => ⟨hthread, rfl⟩
  | _ => exact Or.inl hother

theorem exited_of_destroy (hplace : place = some .destroy) :
    ∀ worker < pool'.size, worker ∈ pool'.exited := by
  cases hdoes with
  | joins hexited => exact hexited
  | finds phase => cases phase <;> cases hplace
  | exhausts phase => cases phase <;> cases hplace
  | _ => cases hplace

theorem mem_accepted {work : Nat} (hwork : work ∈ pool.accepted) : work ∈ pool'.accepted := by
  cases hdoes with
  | signalsNobody => exact List.mem_append_left _ hwork
  | signals => exact List.mem_append_left _ hwork
  | _ => exact hwork

theorem mem_done {work : Nat} (hwork : work ∈ pool.executed ++ pool.aborted) :
    work ∈ pool'.executed ++ pool'.aborted := by
  rw [List.mem_append] at hwork ⊢
  cases hdoes with
  | aborts => exact hwork.imp_right (List.mem_append_left _)
  | executes => exact hwork.imp_left (List.mem_append_left _)
  | abortsLeft => exact hwork.imp_right (List.mem_append_left _)
  | _ => exact hwork

theorem draining_eq {destruction : Nat × List Nat} (hdraining : pool.draining = some destruction) :
    pool'.draining = some destruction := by
  cases hdoes with
  | destroys hfirst => exact absurd (hfirst.symm.trans hdraining) nofun
  | _ => exact hdraining

theorem of_draining {destruction : Nat × List Nat} (hdraining : pool'.draining = some destruction) :
    pool.draining = some destruction ∨
      action = .destroy ∧ destruction = (thread, pool.accepted) := by
  cases hdoes with
  | destroys => exact Or.inr ⟨rfl, (Option.some.inj hdraining).symm⟩
  | _ => exact Or.inl hdraining

/-- A thread begins with the first queue, and leaves a queue behind only if it is empty. -/
theorem of_sweeps {i : Nat} (hsweeps : place.bind sweeps = some i) :
    i = 0 ∧ pool'.draining = some (thread, pool.accepted) ∨
      ∃ j, action.sweeps = some j ∧
        ∀ shard : Shard, shard.val < i → shard.val < j ∨ pool'.queues shard = [] := by
  cases hdoes with
  | destroys => exact Or.inl ⟨(Option.some.inj hsweeps).symm, rfl⟩
  | drains j => exact Or.inr ⟨j, rfl, fun shard hshard => Or.inl (Option.some.inj hsweeps ▸ hshard)⟩
  | abortsLeft j =>
      exact Or.inr ⟨j, rfl, fun shard hshard => Or.inl (Option.some.inj hsweeps ▸ hshard)⟩
  | drained j hj hempty =>
      obtain rfl : j + 1 = i := Option.some.inj hsweeps
      refine Or.inr ⟨j, rfl, fun shard hshard => ?_⟩
      rcases Nat.lt_succ_iff_lt_or_eq.mp hshard with hlt | rfl
      · exact Or.inl hlt
      · rw [Fin.ofNat_val_eq_self] at hempty
        exact Or.inr hempty
  | finds phase => cases phase <;> cases hsweeps
  | exhausts phase => cases phase <;> cases hsweeps
  | _ => cases hsweeps

theorem of_destroyed (hdestroyed : pool'.destroyed = true) :
    pool.destroyed = true ∨ ∃ i, 16 ≤ i ∧ action = .drain i := by
  cases hdoes with
  | finishes i hi => exact Or.inr ⟨i, hi, rfl⟩
  | _ => exact Or.inl hdestroyed

end Does

end PoolAction

structure Ending (pool : WorkPool) (place : Nat → Option PoolAction) : Prop where
  worker_lt : ∀ thread action, place thread = some action → action.OfWorker = true →
    thread < pool.size
  exited : ∀ thread ∈ pool.exited, ∀ action, place thread = some action → action.OfWorker = false
  joined : ∀ thread, place thread = some .destroy → ∀ worker < pool.size, worker ∈ pool.exited
  sweeper : ∀ thread i, (place thread).bind PoolAction.sweeps = some i →
    ∃ owed, pool.draining = some (thread, owed) ∧
      ∀ work ∈ owed, ∀ shard, shard.val < i → work ∉ pool.queues shard
  ended : ∀ thread owed, pool.draining = some (thread, owed) →
    (∀ worker < pool.size, worker ∈ pool.exited) ∧ ∀ work ∈ owed, work ∈ pool.accepted
  destroyed : pool.destroyed = true → ∃ thread owed, pool.draining = some (thread, owed) ∧
    ∀ work ∈ owed, work ∈ pool.executed ++ pool.aborted

namespace Ending

variable {custody : Nat → Custody} {pool pool' : WorkPool} {place : Nat → Option PoolAction}
  {thread : Nat} {action : PoolAction} {next : Option PoolAction}

theorem launch (size : Nat) :
    Ending (.create size) fun thread => if thread < size then some (.scan .fast 0 0) else none := by
  constructor
  case worker_lt =>
    intro thread action hplace hworker
    by_contra hthread
    exact absurd hplace (by simp [show ¬ thread < size from hthread])
  case exited => exact fun thread hthread => absurd hthread (Finset.notMem_empty thread)
  case joined =>
    intro thread hplace
    split_ifs at hplace
    cases hplace
  case sweeper =>
    intro thread i hplace
    split_ifs at hplace <;> cases hplace
  case ended => exact nofun
  case destroyed => exact nofun

theorem call (hpool : Ending pool place) (hnone : place thread = none) (call : PoolCall) :
    Ending pool (Function.update place thread (some call.first)) := by
  have hback : ∀ other action, Function.update place thread (some call.first) other = some action →
      place other = some action ∨ action = call.first := by
    intro other action hother
    rcases Threads.of_update_eq hother with ⟨rfl, hnext⟩ | ⟨-, hplace⟩
    · exact Or.inr (Option.some.inj hnext).symm
    · exact Or.inl hplace
  constructor
  case worker_lt =>
    intro other action hother hworker
    rcases hback other action hother with hplace | rfl
    · exact hpool.worker_lt other action hplace hworker
    · cases call <;> cases hworker
  case exited =>
    intro other hexited action hother
    rcases hback other action hother with hplace | rfl
    · exact hpool.exited other hexited action hplace
    · cases call <;> rfl
  case joined =>
    intro other hother
    rcases hback other _ hother with hplace | hfirst
    · exact hpool.joined other hplace
    · cases call <;> cases hfirst
  case sweeper =>
    intro other i hother
    obtain ⟨action, hplace, hsweeps⟩ := Option.bind_eq_some_iff.mp hother
    rcases hback other action hplace with hold | rfl
    · exact hpool.sweeper other i (by rw [hold]; exact hsweeps)
    · cases call <;> cases hsweeps
  case ended => exact hpool.ended
  case destroyed => exact hpool.destroyed

theorem notMem_queues (htracks : Tracks custody pool place) (hat : place thread = some action)
    (hdoes : PoolAction.Does thread pool action pool' next) {work : Nat} {shard : Shard}
    (haccepted : work ∈ pool.accepted) (hwork : work ∉ pool.queues shard) :
    work ∉ pool'.queues shard := by
  intro hmem
  rcases hdoes.mem_queues hmem with hold | ⟨wakes, rfl⟩
  · exact hwork hold
  · exact htracks.notMem_accepted_of_push hat haccepted

/-- Once the destroying thread has passed all queues, the items it owes have been run or aborted. -/
theorem mem_done_of_swept (hpool : Ending pool place) (htracks : Tracks custody pool place)
    {i : Nat} (hi : 16 ≤ i) (hat : place thread = some (.drain i)) {owed : List Nat}
    (hdraining : pool.draining = some (thread, owed))
    (hswept : ∀ work ∈ owed, ∀ shard, shard.val < i → work ∉ pool.queues shard) :
    ∀ work ∈ owed, work ∈ pool.executed ++ pool.aborted := by
  intro work hwork
  obtain ⟨hexited, haccepted⟩ := hpool.ended thread owed hdraining
  rcases htracks.whereabouts (haccepted work hwork) with
    ⟨shard, hqueued⟩ | ⟨holder, hholder⟩ | hdone
  · exact absurd hqueued (hswept work hwork shard (by omega))
  · obtain ⟨action, hplace, hcarries⟩ := Option.bind_eq_some_iff.mp hholder
    by_cases hworker : action.OfWorker = true
    · have hgone := hexited holder (hpool.worker_lt holder action hplace hworker)
      rw [hpool.exited holder hgone action hplace] at hworker
      cases hworker
    · -- Besides the workers, only the destroying thread takes items, and it is between two queues.
      cases action with
      | abort j item =>
          obtain ⟨other, hother, -⟩ := hpool.sweeper holder j (by rw [hplace]; rfl)
          obtain ⟨rfl, -⟩ := Prod.mk.inj (Option.some.inj (hdraining.symm.trans hother))
          rw [hat] at hplace
          cases hplace
      | _ => first | exact absurd rfl hworker | cases hcarries
  · exact hdone

theorem does (hpool : Ending pool place) (htracks : Tracks custody pool place)
    (hat : place thread = some action) (hdoes : PoolAction.Does thread pool action pool' next) :
    Ending pool' (Function.update place thread next) := by
  constructor
  case worker_lt => exact hdoes.worker_lt hat hpool.worker_lt
  case exited =>
    intro other hexited later hother
    by_contra hworker
    rcases Threads.of_update_eq hother with ⟨rfl, hnext⟩ | ⟨hthread, hplace⟩
    · have haction := hdoes.ofWorker hnext (Bool.not_eq_false _ ▸ hworker)
      rcases hdoes.mem_exited hexited with hold | ⟨-, hnone⟩
      · rw [hpool.exited other hold action hat] at haction
        cases haction
      · exact absurd (hnone.symm.trans hnext) nofun
    · rcases hdoes.mem_exited hexited with hold | ⟨hself, -⟩
      · exact hworker (hpool.exited other hold later hplace)
      · exact hthread hself
  case joined =>
    intro other hother worker hworker
    rcases Threads.of_update_eq hother with ⟨rfl, hnext⟩ | ⟨-, hplace⟩
    · exact hdoes.exited_of_destroy hnext worker hworker
    · exact hdoes.exited_subset (hpool.joined other hplace worker (hdoes.size_eq ▸ hworker))
  case sweeper =>
    intro other i hother
    by_cases hthread : other = thread
    · subst hthread
      rw [Function.update_self] at hother
      rcases hdoes.of_sweeps hother with ⟨rfl, hdraining⟩ | ⟨j, hsweeps, hbehind⟩
      · exact ⟨pool.accepted, hdraining, fun _ _ shard hshard => absurd hshard (Nat.not_lt_zero _)⟩
      · obtain ⟨owed, hdraining, hswept⟩ := hpool.sweeper other j (by rw [hat]; exact hsweeps)
        refine ⟨owed, hdoes.draining_eq hdraining, fun work hwork shard hshard => ?_⟩
        rcases hbehind shard hshard with hlt | hempty
        · exact notMem_queues htracks hat hdoes ((hpool.ended other owed hdraining).2 work hwork)
            (hswept work hwork shard hlt)
        · simp [hempty]
    · rw [Function.update_of_ne hthread] at hother
      obtain ⟨owed, hdraining, hswept⟩ := hpool.sweeper other i hother
      refine ⟨owed, hdoes.draining_eq hdraining, fun work hwork shard hshard => ?_⟩
      exact notMem_queues htracks hat hdoes ((hpool.ended other owed hdraining).2 work hwork)
        (hswept work hwork shard hshard)
  case ended =>
    intro other owed hdraining
    rw [hdoes.size_eq]
    rcases hdoes.of_draining hdraining with hold | ⟨rfl, howed⟩
    · obtain ⟨hexited, haccepted⟩ := hpool.ended other owed hold
      exact ⟨fun worker hworker => hdoes.exited_subset (hexited worker hworker),
        fun work hwork => hdoes.mem_accepted (haccepted work hwork)⟩
    · obtain ⟨rfl, rfl⟩ := Prod.mk.inj howed
      exact ⟨fun worker hworker => hdoes.exited_subset (hpool.joined other hat worker hworker),
        fun work hwork => hdoes.mem_accepted hwork⟩
  case destroyed =>
    intro hdestroyed
    rcases hdoes.of_destroyed hdestroyed with hold | ⟨i, hi, rfl⟩
    · obtain ⟨other, owed, hdraining, hdone⟩ := hpool.destroyed hold
      exact ⟨other, owed, hdoes.draining_eq hdraining,
        fun work hwork => hdoes.mem_done (hdone work hwork)⟩
    · obtain ⟨owed, hdraining, hswept⟩ := hpool.sweeper thread i (by rw [hat]; rfl)
      have hdone := hpool.mem_done_of_swept htracks hi hat hdraining hswept
      exact ⟨thread, owed, hdoes.draining_eq hdraining,
        fun work hwork => hdoes.mem_done (hdone work hwork)⟩

end Ending

namespace PoolSystem

theorem accounted_run (size : Nat) (turns : List (Turn PoolCall)) :
    (∃ custody, Tracks custody ((launch size).run turns).shared
      ((launch size).run turns).place) ∧
      Ending ((launch size).run turns).shared ((launch size).run turns).place := by
  have hmeets : Runs.Meets (Threads.step poolCode) (fun _ _ => True) (launch size) turns :=
    Runs.meets_of_forall _ fun _ _ _ => trivial
  refine invariant_run
    (fun pool place => (∃ custody, Tracks custody pool place) ∧ Ending pool place)
    ⟨⟨_, Tracks.launch size⟩, Ending.launch size⟩ ?_ ?_ hmeets
  · rintro s thread call ⟨⟨custody, htracks⟩, hending⟩ hnone
    exact ⟨⟨custody, htracks.call hnone call⟩, hending.call hnone call⟩
  · rintro s thread action pool place ⟨⟨custody, htracks⟩, hending⟩ - hat hdoes
    exact ⟨htracks.does hat hdoes, hending.does htracks hat hdoes⟩

theorem ordered_run (size : Nat) (turns : List (Turn PoolCall)) :
    ((launch size).run turns).shared.Ordered :=
  invariant_pool WorkPool.Ordered (fun _ _ _ _ _ hdoes => hdoes.ordered) (fun _ => rfl) turns

theorem mem_owed_run {s : PoolSystem} {work : Nat} (hwork : work ∈ s.shared.accepted)
    (hbefore : s.shared.draining = none) (turns : List (Turn PoolCall)) {thread : Nat}
    {owed : List Nat} (hdraining : (s.run turns).shared.draining = some (thread, owed)) :
    work ∈ owed := by
  refine (invariant_pool (fun pool => work ∈ pool.accepted ∧
    ∀ thread owed, pool.draining = some (thread, owed) → work ∈ owed) ?_ ⟨hwork, ?_⟩ turns).2
    thread owed hdraining
  · rintro thread pool action pool' place hdoes ⟨haccepted, howed⟩
    refine ⟨hdoes.mem_accepted haccepted, fun other owed hdraining => ?_⟩
    rcases hdoes.of_draining hdraining with hold | ⟨-, hdestruction⟩
    · exact howed other owed hold
    · obtain ⟨rfl, rfl⟩ := Prod.mk.inj hdestruction
      exact haccepted
  · exact fun thread owed hsome => absurd (hbefore.symm.trans hsome) nofun

/-- **Exactly once, in order.** In every run of a pool of any size: the items taken from a queue are
the first ones that were appended to it, in that order; no item is run or aborted twice; and when
the pool has been destroyed, every item that was accepted before the destruction began has been run
or aborted. -/
theorem exactly_once_run (size : Nat) (turns : List (Turn PoolCall)) :
    (∀ shard, ((launch size).run turns).shared.pushed shard =
      ((launch size).run turns).shared.taken shard ++
        ((launch size).run turns).shared.queues shard) ∧
    (∀ work, (((launch size).run turns).shared.executed ++
      ((launch size).run turns).shared.aborted).count work ≤ 1) ∧
    ∀ front back work, turns = front ++ back →
      work ∈ ((launch size).run front).shared.accepted →
      ((launch size).run front).shared.draining = none →
      ((launch size).run turns).shared.destroyed = true →
      (((launch size).run turns).shared.executed ++
        ((launch size).run turns).shared.aborted).count work = 1 := by
  obtain ⟨⟨custody, htracks⟩, hending⟩ := accounted_run size turns
  refine ⟨ordered_run size turns, htracks.count_le_one, ?_⟩
  intro front back work hturns haccepted hbefore hdestroyed
  obtain ⟨thread, owed, hdraining, hdone⟩ := hending.destroyed hdestroyed
  have howed : work ∈ owed := by
    have hrun : (launch size).run turns = ((launch size).run front).run back := by
      rw [hturns]
      exact Runs.run_append _ _ front back
    rw [hrun] at hdraining
    exact mem_owed_run haccepted hbefore back hdraining
  exact Nat.le_antisymm (htracks.count_le_one work) (List.count_pos_iff.mpr (hdone work howed))

/-- The worker runs one item; another one is admitted, but appended only after the shutdown, when
the worker has returned. -/
def lateItem : List (Turn PoolCall) :=
  calls 1 (PoolCall.enqueue 0) 7 ++ goes 0 2 ++ calls 2 (PoolCall.enqueue 0) 4 ++
    calls 3 PoolCall.shutdown 3 ++ goes 0 37 ++ goes 2 3

def destruction : List (Turn PoolCall) :=
  calls 3 .joinAndDestroy 21

theorem exactly_once_lateItem :
    ((launch 1).run (lateItem ++ destruction)).shared.executed = [0] ∧
      ((launch 1).run (lateItem ++ destruction)).shared.aborted = [1] ∧
      (((launch 1).run (lateItem ++ destruction)).shared.executed ++
        ((launch 1).run (lateItem ++ destruction)).shared.aborted).count 1 = 1 :=
  ⟨by decide +kernel, by decide +kernel,
    (exactly_once_run 1 (lateItem ++ destruction)).2.2 lateItem destruction 1 rfl
      (by decide +kernel) (by decide +kernel) (by decide +kernel)⟩

end PoolSystem

end Poseidon
