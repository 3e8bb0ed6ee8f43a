import Poseidon.Workers.Pool

/-!
# What a step of a pool thread can be

Every thread of the pool has at most one action in front of it, so a thread is at a place. `Does`
says once what becomes of the pool and of the place.
-/

namespace Poseidon

open Threads (Turn)

namespace WorkPool

def pop (pool : WorkPool) (shard : Shard) (work : Nat) (rest : List Nat) : WorkPool :=
  { pool with
    queues := Function.update pool.queues shard rest
    taken := Function.update pool.taken shard (pool.taken shard ++ [work]) }

theorem dequeue_eq_none_iff {pool : WorkPool} {shard : Shard} :
    pool.dequeue shard = none ↔ pool.queues shard = [] := by
  unfold dequeue
  cases pool.queues shard <;> simp

theorem of_dequeue_eq_some {pool pool' : WorkPool} {shard : Shard} {work : Nat}
    (hdequeue : pool.dequeue shard = some (work, pool')) :
    ∃ rest, pool.queues shard = work :: rest ∧ pool' = pool.pop shard work rest := by
  unfold dequeue at hdequeue
  cases hqueue : pool.queues shard with
  | nil =>
      rw [hqueue] at hdequeue
      exact absurd hdequeue.symm (Option.some_ne_none _)
  | cons first rest =>
      rw [hqueue] at hdequeue
      obtain ⟨rfl, rfl⟩ := Prod.mk.inj (Option.some.inj hdequeue)
      exact ⟨rest, rfl, rfl⟩

theorem signal_cases (pool : WorkPool) (wakes : Nat) :
    (pool.waiting = [] ∧ pool.signal wakes = pool) ∨
      ∃ sleeper ∈ pool.waiting, pool.signal wakes = pool.wake sleeper := by
  unfold signal
  cases hget : pool.waiting[wakes % pool.waiting.length]? with
  | some sleeper => exact Or.inr ⟨sleeper, List.mem_of_getElem? hget, rfl⟩
  | none =>
      refine Or.inl ⟨?_, rfl⟩
      by_contra hne
      have hlength : 0 < pool.waiting.length := List.length_pos_iff.mpr hne
      have hle := List.getElem?_eq_none_iff.mp hget
      exact absurd (Nat.mod_lt wakes hlength) (Nat.not_lt.mpr hle)

theorem mem_of_mem_pop {pool : WorkPool} {shard other : Shard} {work item : Nat}
    {rest : List Nat} (hqueue : pool.queues shard = work :: rest)
    (hitem : item ∈ (pool.pop shard work rest).queues other) : item ∈ pool.queues other := by
  by_cases hother : other = shard
  · subst hother
    simp only [WorkPool.pop, Function.update_self] at hitem
    exact hqueue ▸ List.mem_cons_of_mem work hitem
  · simpa only [WorkPool.pop, Function.update_of_ne hother] using hitem

end WorkPool

namespace PoolAction

/-- Where a worker goes with an item it has found. -/
def taking (start : Shard) (work : Nat) : Scan → PoolAction
  | .fast => .perform start work
  | .recheck => .leave start (some work)
  | .afterWait => .leave start (some work)

/-- Where a worker goes that has found all queues empty. -/
def emptyHanded (start : Shard) : Scan → PoolAction
  | .fast => .scan .recheck (shardAfter start 1) 0
  | .recheck => .checkStop start
  | .afterWait => .leave start none

inductive Does (thread : Nat) (pool : WorkPool) :
    PoolAction → WorkPool → Option PoolAction → Prop where
  | finds (phase : Scan) (start : Shard) (i work : Nat) (rest : List Nat)
      (hqueue : pool.queues (shardAfter start i) = work :: rest) :
      Does thread pool (.scan phase start i) (pool.pop (shardAfter start i) work rest)
        (some (taking start work phase))
  | passes (phase : Scan) (start : Shard) (i : Nat)
      (hempty : pool.queues (shardAfter start i) = []) (hmore : i + 1 < 16) :
      Does thread pool (.scan phase start i) pool (some (.scan phase start (i + 1)))
  | exhausts (phase : Scan) (start : Shard) (i : Nat)
      (hempty : pool.queues (shardAfter start i) = []) (hlast : 16 ≤ i + 1) :
      Does thread pool (.scan phase start i) pool (some (emptyHanded start phase))
  | turnsBack (start : Shard) (hstop : pool.stop = true) :
      Does thread pool (.checkStop start) pool (some (.leave start none))
  | idles (start : Shard) (hrunning : pool.stop = false) :
      Does thread pool (.checkStop start) { pool with idleCount := pool.idleCount + 1 }
        (some (.wait start))
  | waits (start : Shard) :
      Does thread pool (.wait start) { pool with waiting := pool.waiting ++ [thread] }
        (some (.park start))
  | wakes (start : Shard) (hwoken : thread ∈ pool.woken) :
      Does thread pool (.park start) { pool with woken := pool.woken.erase thread }
        (some (.resume start))
  | resumes (start : Shard) :
      Does thread pool (.resume start) { pool with idleCount := pool.idleCount - 1 }
        (some (.scan .afterWait (shardAfter start 1) 0))
  | takes (start : Shard) (work : Nat) :
      Does thread pool (.leave start (some work)) pool (some (.perform start work))
  | stops (start : Shard) (hstop : pool.stop = true) :
      Does thread pool (.leave start none) pool (some .exit)
  | loops (start : Shard) (hrunning : pool.stop = false) :
      Does thread pool (.leave start none) pool (some (.scan .fast (shardAfter start 1) 0))
  | aborts (start : Shard) (work : Nat) (hstop : pool.stop = true) :
      Does thread pool (.perform start work) { pool with aborted := pool.aborted ++ [work] }
        (some (.scan .fast (shardAfter start 1) 0))
  | executes (start : Shard) (work : Nat) (hrunning : pool.stop = false) :
      Does thread pool (.perform start work) { pool with executed := pool.executed ++ [work] }
        (some (.scan .fast (shardAfter start 1) 0))
  | exits : Does thread pool .exit { pool with exited := insert thread pool.exited } none
  | creates (wakes : Nat) :
      Does thread pool (.create wakes) { pool with created := pool.created + 1 }
        (some (.readStop pool.created wakes))
  | rejects (work wakes : Nat) (hstop : pool.stop = true) :
      Does thread pool (.readStop work wakes) pool none
  | admits (work wakes : Nat) (hrunning : pool.stop = false) :
      Does thread pool (.readStop work wakes) pool (some (.takeShard work wakes))
  | takesShard (work wakes : Nat) :
      Does thread pool (.takeShard work wakes) { pool with nextShard := pool.nextShard + 1 }
        (some (.push work (Fin.ofNat 16 pool.nextShard.toNat) wakes))
  | pushes (work : Nat) (shard : Shard) (wakes : Nat) :
      Does thread pool (.push work shard wakes) (pool.enqueue shard work)
        (some (.signal work wakes))
  | signalsNobody (work wakes : Nat) (hnone : pool.waiting = []) :
      Does thread pool (.signal work wakes) { pool with accepted := pool.accepted ++ [work] } none
  | signals (work wakes sleeper : Nat) (hwaiting : sleeper ∈ pool.waiting) :
      Does thread pool (.signal work wakes)
        { pool.wake sleeper with accepted := pool.accepted ++ [work] } none
  | shutsDown : Does thread pool .shutdown { pool.broadcast with stop := true } none
  | joins (hexited : ∀ worker < pool.size, worker ∈ pool.exited) :
      Does thread pool .join pool (some .destroy)
  | destroys (hfirst : pool.draining = none) :
      Does thread pool .destroy { pool with draining := some (thread, pool.accepted) }
        (some (.drain 0))
  | drains (i work : Nat) (rest : List Nat) (hi : i < 16)
      (hqueue : pool.queues (Fin.ofNat 16 i) = work :: rest) :
      Does thread pool (.drain i) (pool.pop (Fin.ofNat 16 i) work rest) (some (.abort i work))
  | drained (i : Nat) (hi : i < 16) (hempty : pool.queues (Fin.ofNat 16 i) = []) :
      Does thread pool (.drain i) pool (some (.drain (i + 1)))
  | finishes (i : Nat) (hi : 16 ≤ i) :
      Does thread pool (.drain i) { pool with destroyed := true } none
  | abortsLeft (i work : Nat) :
      Does thread pool (.abort i work) { pool with aborted := pool.aborted ++ [work] }
        (some (.drain i))
  | rouses (sleeper : Nat) (hwaiting : sleeper ∈ pool.waiting) :
      Does thread pool (.wakeUp sleeper) (pool.wake sleeper) none
  | sleepsOn (sleeper : Nat) : Does thread pool (.wakeUp sleeper) pool none

end PoolAction

namespace PoolAction

variable {thread : Nat} {pool pool' : WorkPool} {next : List PoolInstr}

theorem does_scanFrom (phase : Scan) (start : Shard) (i : Nat) :
    Does thread pool (.scan phase start i) (scanFrom pool phase start i).1
        (Threads.actions (scanFrom pool phase start i).2).head? ∧
      (Threads.actions (scanFrom pool phase start i).2).length ≤ 1 := by
  unfold scanFrom
  cases hdequeue : pool.dequeue (shardAfter start i) with
  | some found =>
      obtain ⟨work, pool'⟩ := found
      obtain ⟨rest, hqueue, rfl⟩ := WorkPool.of_dequeue_eq_some hdequeue
      cases phase <;> exact ⟨.finds _ start i work rest hqueue, le_rfl⟩
  | none =>
      have hempty := WorkPool.dequeue_eq_none_iff.mp hdequeue
      by_cases hmore : i + 1 < 16
      · simp only [if_pos hmore]
        exact ⟨.passes phase start i hempty hmore, le_rfl⟩
      · simp only [if_neg hmore]
        cases phase <;> exact ⟨.exhausts _ start i hempty (Nat.not_lt.mp hmore), le_rfl⟩

theorem does_drainFrom (i : Nat) :
    Does thread pool (.drain i) (drainFrom pool i).1
        (Threads.actions (drainFrom pool i).2).head? ∧
      (Threads.actions (drainFrom pool i).2).length ≤ 1 := by
  unfold drainFrom
  by_cases hi : i < 16
  · simp only [if_pos hi]
    cases hdequeue : pool.dequeue (Fin.ofNat 16 i) with
    | some found =>
        obtain ⟨work, pool'⟩ := found
        obtain ⟨rest, hqueue, rfl⟩ := WorkPool.of_dequeue_eq_some hdequeue
        exact ⟨.drains i work rest hi hqueue, le_rfl⟩
    | none => exact ⟨.drained i hi (WorkPool.dequeue_eq_none_iff.mp hdequeue), le_rfl⟩
  · simp only [if_neg hi]
    exact ⟨.finishes i (Nat.not_lt.mp hi), Nat.zero_le 1⟩

theorem does_of_exec {action : PoolAction}
    (hexec : exec thread action pool = some (pool', next)) :
    Does thread pool action pool' (Threads.actions next).head? ∧
      (Threads.actions next).length ≤ 1 := by
  cases action with
  | scan phase start i =>
      obtain ⟨rfl, rfl⟩ := Prod.mk.inj (Option.some.inj hexec)
      exact does_scanFrom phase start i
  | drain i =>
      obtain ⟨rfl, rfl⟩ := Prod.mk.inj (Option.some.inj hexec)
      exact does_drainFrom i
  | checkStop start =>
      simp only [exec] at hexec
      split_ifs at hexec with hstop
      · obtain ⟨rfl, rfl⟩ := Prod.mk.inj (Option.some.inj hexec)
        exact ⟨.turnsBack start hstop, le_rfl⟩
      · obtain ⟨rfl, rfl⟩ := Prod.mk.inj (Option.some.inj hexec)
        exact ⟨.idles start (Bool.not_eq_true _ ▸ hstop), le_rfl⟩
  | park start =>
      simp only [exec] at hexec
      split_ifs at hexec with hwoken
      obtain ⟨rfl, rfl⟩ := Prod.mk.inj (Option.some.inj hexec)
      exact ⟨.wakes start hwoken, le_rfl⟩
  | leave start work =>
      cases work with
      | some work =>
          obtain ⟨rfl, rfl⟩ := Prod.mk.inj (Option.some.inj hexec)
          exact ⟨.takes start work, le_rfl⟩
      | none =>
          obtain ⟨rfl, rfl⟩ := Prod.mk.inj (Option.some.inj hexec)
          by_cases hstop : pool.stop = true
          · simp only [if_pos hstop]
            exact ⟨.stops start hstop, le_rfl⟩
          · simp only [if_neg hstop]
            exact ⟨.loops start (Bool.not_eq_true _ ▸ hstop), le_rfl⟩
  | perform start work =>
      obtain ⟨rfl, rfl⟩ := Prod.mk.inj (Option.some.inj hexec)
      by_cases hstop : pool.stop = true
      · simp only [if_pos hstop]
        exact ⟨.aborts start work hstop, le_rfl⟩
      · simp only [if_neg hstop]
        exact ⟨.executes start work (Bool.not_eq_true _ ▸ hstop), le_rfl⟩
  | readStop work wakes =>
      obtain ⟨rfl, rfl⟩ := Prod.mk.inj (Option.some.inj hexec)
      by_cases hstop : pool.stop = true
      · simp only [if_pos hstop]
        exact ⟨.rejects work wakes hstop, Nat.zero_le 1⟩
      · simp only [if_neg hstop]
        exact ⟨.admits work wakes (Bool.not_eq_true _ ▸ hstop), le_rfl⟩
  | join =>
      simp only [exec] at hexec
      split_ifs at hexec with hexited
      obtain ⟨rfl, rfl⟩ := Prod.mk.inj (Option.some.inj hexec)
      exact ⟨.joins hexited, le_rfl⟩
  | destroy =>
      simp only [exec] at hexec
      split_ifs at hexec with hfirst
      obtain ⟨rfl, rfl⟩ := Prod.mk.inj (Option.some.inj hexec)
      exact ⟨.destroys hfirst, le_rfl⟩
  | wakeUp sleeper =>
      obtain ⟨rfl, rfl⟩ := Prod.mk.inj (Option.some.inj hexec)
      by_cases hwaiting : sleeper ∈ pool.waiting
      · simp only [if_pos hwaiting]
        exact ⟨.rouses sleeper hwaiting, Nat.zero_le 1⟩
      · simp only [if_neg hwaiting]
        exact ⟨.sleepsOn sleeper, Nat.zero_le 1⟩
  | wait start =>
      obtain ⟨rfl, rfl⟩ := Prod.mk.inj (Option.some.inj hexec)
      exact ⟨.waits start, le_rfl⟩
  | resume start =>
      obtain ⟨rfl, rfl⟩ := Prod.mk.inj (Option.some.inj hexec)
      exact ⟨.resumes start, le_rfl⟩
  | exit =>
      obtain ⟨rfl, rfl⟩ := Prod.mk.inj (Option.some.inj hexec)
      exact ⟨.exits, Nat.zero_le 1⟩
  | create wakes =>
      obtain ⟨rfl, rfl⟩ := Prod.mk.inj (Option.some.inj hexec)
      exact ⟨.creates wakes, le_rfl⟩
  | takeShard work wakes =>
      obtain ⟨rfl, rfl⟩ := Prod.mk.inj (Option.some.inj hexec)
      exact ⟨.takesShard work wakes, le_rfl⟩
  | push work shard wakes =>
      obtain ⟨rfl, rfl⟩ := Prod.mk.inj (Option.some.inj hexec)
      exact ⟨.pushes work shard wakes, le_rfl⟩
  | signal work wakes =>
      obtain ⟨rfl, rfl⟩ := Prod.mk.inj (Option.some.inj hexec)
      rcases pool.signal_cases wakes with ⟨hnone, hsignal⟩ | ⟨sleeper, hwaiting, hsignal⟩
      · rw [hsignal]
        exact ⟨.signalsNobody work wakes hnone, Nat.zero_le 1⟩
      · rw [hsignal]
        exact ⟨.signals work wakes sleeper hwaiting, Nat.zero_le 1⟩
  | shutdown =>
      obtain ⟨rfl, rfl⟩ := Prod.mk.inj (Option.some.inj hexec)
      exact ⟨.shutsDown, Nat.zero_le 1⟩
  | abort i work =>
      obtain ⟨rfl, rfl⟩ := Prod.mk.inj (Option.some.inj hexec)
      exact ⟨.abortsLeft i work, le_rfl⟩

def OfWorker : PoolAction → Bool
  | .scan _ _ _ | .checkStop _ | .wait _ | .park _ | .resume _ | .leave _ _ | .perform _ _
  | .exit => true
  | _ => false

namespace Does

variable {action : PoolAction} {place : Option PoolAction}

variable (hdoes : Does thread pool action pool' place)

include hdoes

theorem ofWorker {later : PoolAction} (hplace : place = some later)
    (hlater : later.OfWorker = true) : action.OfWorker = true := by
  cases hdoes with
  | _ => first | rfl | (cases hplace <;> exact absurd hlater (by simp [OfWorker]))

theorem size_eq : pool'.size = pool.size := by
  cases hdoes with
  | _ => rfl

theorem worker_lt {places : Nat → Option PoolAction} (hat : places thread = some action)
    (hworkers : ∀ other earlier, places other = some earlier → earlier.OfWorker = true →
      other < pool.size) (other : Nat) (later : PoolAction)
    (hother : Function.update places thread place other = some later)
    (hlater : later.OfWorker = true) : other < pool'.size := by
  rw [hdoes.size_eq]
  rcases Threads.of_update_eq hother with ⟨rfl, hnext⟩ | ⟨-, hplace⟩
  · exact hworkers other action hat (hdoes.ofWorker hnext hlater)
  · exact hworkers other later hplace hlater

theorem mem_queues {shard : Shard} {work : Nat} (hwork : work ∈ pool'.queues shard) :
    work ∈ pool.queues shard ∨ ∃ wakes, action = .push work shard wakes := by
  cases hdoes with
  | finds phase start i work rest hqueue => exact Or.inl (WorkPool.mem_of_mem_pop hqueue hwork)
  | drains i work rest hi hqueue => exact Or.inl (WorkPool.mem_of_mem_pop hqueue hwork)
  | pushes item other wakes =>
      by_cases hshard : shard = other
      · subst hshard
        simp only [WorkPool.enqueue, Function.update_self, List.mem_append,
          List.mem_singleton] at hwork
        exact hwork.imp_right fun hitem => ⟨wakes, by rw [hitem]⟩
      · simp only [WorkPool.enqueue, Function.update_of_ne hshard] at hwork
        exact Or.inl hwork
  | _ => exact Or.inl hwork

end Does

end PoolAction

def PoolCall.first : PoolCall → PoolAction
  | .enqueue wakes => .create wakes
  | .shutdown => .shutdown
  | .joinAndDestroy => .join
  | .wakeUp thread => .wakeUp thread

theorem sequential_poolCode : Threads.Sequential poolCode where
  program := fun call => by cases call <;> exact le_rfl
  exec := fun _ _ _ _ _ hexec => (PoolAction.does_of_exec hexec).2

namespace PoolSystem

/-- **Invariant rule.** An invariant of the pool and the places is one of every run, if it is kept
when a thread starts a call and when it does something. -/
theorem invariant_run {size : Nat} {ok : PoolSystem → Turn PoolCall → Prop}
    (Inv : WorkPool → (Nat → Option PoolAction) → Prop)
    (hlaunch : Inv (.create size)
      fun thread => if thread < size then some (.scan .fast 0 0) else none)
    (hcalls : ∀ (s : PoolSystem) thread (call : PoolCall), Inv s.shared s.place →
      s.place thread = none → Inv s.shared (Function.update s.place thread (some call.first)))
    (hdoes : ∀ (s : PoolSystem) thread action pool place, Inv s.shared s.place →
      ok s (.go thread) → s.place thread = some action →
      PoolAction.Does thread s.shared action pool place →
      Inv pool (Function.update s.place thread place))
    {turns : List (Turn PoolCall)}
    (hmeets : Runs.Meets (Threads.step poolCode) ok (launch size) turns) :
    Inv ((launch size).run turns).shared ((launch size).run turns).place := by
  have hplace : (launch size).place =
      fun thread => if thread < size then some (.scan .fast 0 0) else none := by
    funext thread
    unfold Threads.System.place launch
    by_cases hthread : thread < size
    · simp [hthread, Threads.actions]
    · simp [hthread, Threads.actions]
  have hone : Threads.AtMostOne (launch size) := by
    intro thread
    unfold launch
    by_cases hthread : thread < size
    · simp [hthread, Threads.actions]
    · simp [hthread, Threads.actions]
  refine Threads.invariant_of_jumps sequential_poolCode Inv ?_ hone (hplace ▸ hlaunch) hmeets
  intro s turn shared place hinv hok hjumps
  cases hjumps with
  | stays => exact hinv
  | starts thread call hnone =>
      have hfirst : (Threads.actions (poolCode.program call)).head? = some call.first := by
        cases call <;> rfl
      rw [hfirst]
      exact hcalls s thread call hinv hnone
  | acts thread action shared next hat hexec =>
      exact hdoes s thread action shared _ hinv hok hat (PoolAction.does_of_exec hexec).1

/-- **Invariant rule for the pool alone**, from any state of the threads. -/
theorem invariant_pool (Inv : WorkPool → Prop)
    (hdoes : ∀ thread pool action pool' place, PoolAction.Does thread pool action pool' place →
      Inv pool → Inv pool') {s : PoolSystem} (hs : Inv s.shared) (turns : List (Turn PoolCall)) :
    Inv (s.run turns).shared := by
  apply Runs.invariant (Threads.step poolCode) (fun s => Inv s.shared) ?_ hs
  intro s turn hinv
  have hmoves := Threads.moves_step poolCode s turn
  generalize Threads.step poolCode s turn = s' at hmoves ⊢
  cases hmoves with
  | acts thread action rest shared next htodo hexec =>
      exact hdoes thread s.shared action shared _ (PoolAction.does_of_exec hexec).1 hinv
  | _ => exact hinv

end PoolSystem

end Poseidon
