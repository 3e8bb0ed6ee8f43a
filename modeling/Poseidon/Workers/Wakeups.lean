import Poseidon.Workers.Steps

/-!
# Wake-ups of the workers

A worker that has found nothing under the lock of the pool goes to sleep on the condition. An item
that is appended behind its back is announced by a signal; but the signal is given without the lock,
so it may come before the worker sleeps and wake nobody. If no signal falls into that window, every
item in a queue is either about to be announced or still to be seen by some worker.
-/

namespace Poseidon

open Function (update update_self update_of_ne)

open Threads (Turn calls goes)

namespace WorkPool

theorem mem_wake {pool : WorkPool} {thread sleeper : Nat}
    (hthread : thread ∈ pool.waiting ∨ thread ∈ pool.woken) :
    thread ∈ (pool.wake sleeper).waiting ∨ thread ∈ (pool.wake sleeper).woken := by
  unfold wake
  by_cases hsleeper : thread = sleeper
  · exact Or.inr (hsleeper ▸ Finset.mem_insert_self sleeper pool.woken)
  · exact hthread.imp (List.mem_erase_of_ne hsleeper).mpr (Finset.mem_insert_of_mem ·)

end WorkPool

namespace PoolAction

def Signalling : PoolAction → Bool
  | .signal _ _ => true
  | _ => false

/-- The worker is looking at the queues for the last time before it sleeps, and has found the first
of them empty; or it has found all of them empty. -/
def Closing : PoolAction → Bool
  | .scan .recheck _ (_ + 1) | .checkStop _ | .wait _ => true
  | _ => false

/-- The worker will look at the queue before it sleeps. -/
def Covers (shard : Shard) : PoolAction → Prop
  | .scan .recheck start i => ∃ j, i ≤ j ∧ j < 16 ∧ shardAfter start j = shard
  | .scan .fast _ _ | .scan .afterWait _ _ | .resume _ | .leave _ _ | .perform _ _ => True
  | _ => False

theorem exists_shard (start shard : Shard) :
    ∃ j, 0 ≤ j ∧ j < 16 ∧ shardAfter start j = shard := by
  refine ⟨(shard - start).val, Nat.zero_le _, (shard - start).isLt, ?_⟩
  rw [shardAfter, Fin.ext_iff, Fin.val_add, Fin.val_ofNat, Fin.val_sub]
  omega

theorem covers_of_not_closing {action : PoolAction} (hworker : action.OfWorker = true)
    (hclosing : action.Closing = false) (hexit : action ≠ .exit)
    (hpark : ∀ start, action ≠ .park start) (shard : Shard) : action.Covers shard := by
  cases action with
  | scan phase start i =>
      cases phase with
      | fast => trivial
      | afterWait => trivial
      | recheck =>
          cases i with
          | zero => exact exists_shard start shard
          | succ i => exact absurd hclosing (by simp [Closing])
  | resume start => trivial
  | leave start work => trivial
  | perform start work => trivial
  | exit => exact absurd rfl hexit
  | park start => exact absurd rfl (hpark start)
  | checkStop start => exact absurd hclosing (by simp [Closing])
  | wait start => exact absurd hclosing (by simp [Closing])
  | _ => exact absurd hworker (by simp [OfWorker])

namespace Does

variable {thread : Nat} {pool pool' : WorkPool} {action : PoolAction} {place : Option PoolAction}

variable (hdoes : Does thread pool action pool' place)

include hdoes

theorem exists_ofWorker (haction : action.OfWorker = true) (hne : action ≠ .exit) :
    ∃ later, place = some later ∧ later.OfWorker = true := by
  cases hdoes with
  | finds phase => cases phase <;> exact ⟨_, rfl, rfl⟩
  | exhausts phase => cases phase <;> exact ⟨_, rfl, rfl⟩
  | exits => exact absurd rfl hne
  | _ => first | exact ⟨_, rfl, rfl⟩ | exact absurd haction (by simp [OfWorker])

theorem stop_of_exit (hplace : place = some .exit) : pool'.stop = true := by
  cases hdoes with
  | stops start hstop => exact hstop
  | finds phase => cases phase <;> cases hplace
  | exhausts phase => cases phase <;> cases hplace
  | _ => cases hplace

theorem covers {shard : Shard} (hcovers : action.Covers shard) (hqueue : pool'.queues shard ≠ [])
    (hrunning : pool.stop = false) : ∃ later, place = some later ∧ later.Covers shard := by
  cases hdoes with
  | finds phase => cases phase <;> exact ⟨_, rfl, trivial⟩
  | passes phase start i hempty hmore =>
      refine ⟨_, rfl, ?_⟩
      cases phase with
      | fast => trivial
      | afterWait => trivial
      | recheck =>
          obtain ⟨j, hij, hj, rfl⟩ := hcovers
          have hne : i ≠ j := by
            rintro rfl
            exact hqueue hempty
          exact ⟨j, by omega, hj, rfl⟩
  | exhausts phase start i hempty hlast =>
      refine ⟨_, rfl, ?_⟩
      cases phase with
      | fast => exact exists_shard (shardAfter start 1) shard
      | afterWait => trivial
      | recheck =>
          obtain ⟨j, hij, hj, rfl⟩ := hcovers
          obtain rfl : j = i := by omega
          exact absurd hempty hqueue
  | resumes start => exact ⟨_, rfl, trivial⟩
  | takes start work => exact ⟨_, rfl, trivial⟩
  | loops start hrunning => exact ⟨_, rfl, trivial⟩
  | stops start hstop => exact absurd hstop (by simp [hrunning])
  | aborts start work hstop => exact ⟨_, rfl, trivial⟩
  | executes start work hrunning => exact ⟨_, rfl, trivial⟩
  | _ => exact absurd hcovers (by simp [Covers])

theorem stop_eq_false (hrunning : pool'.stop = false) : pool.stop = false := by
  cases hdoes with
  | shutsDown => exact absurd hrunning (by simp)
  | _ => exact hrunning

theorem mem_waiting {other : Nat} (hother : other ∈ pool'.waiting) :
    other ∈ pool.waiting ∨ other = thread ∧ action.OfWorker = true := by
  cases hdoes with
  | waits start =>
      rcases List.mem_append.mp hother with hmem | hmem
      · exact Or.inl hmem
      · exact Or.inr ⟨List.mem_singleton.mp hmem, rfl⟩
  | signals work wakes sleeper => exact Or.inl (List.mem_of_mem_erase hother)
  | rouses sleeper => exact Or.inl (List.mem_of_mem_erase hother)
  | shutsDown => exact absurd hother List.not_mem_nil
  | _ => exact Or.inl hother

theorem sleeps {other : Nat} (hne : other ≠ thread)
    (hother : other ∈ pool.waiting ∨ other ∈ pool.woken) :
    other ∈ pool'.waiting ∨ other ∈ pool'.woken := by
  cases hdoes with
  | waits start => exact hother.imp_left (List.mem_append_left [thread])
  | wakes start => exact hother.imp_right fun hwoken => Finset.mem_erase.mpr ⟨hne, hwoken⟩
  | signals work wakes sleeper => exact WorkPool.mem_wake hother
  | rouses sleeper => exact WorkPool.mem_wake hother
  | shutsDown =>
      refine Or.inr (Finset.mem_union.mpr ?_)
      exact hother.symm.imp_right List.mem_toFinset.mpr
  | _ => exact hother

theorem woken {other : Nat} (hother : other ∈ pool.woken) :
    other ∈ pool'.woken ∨ other = thread ∧ ∃ start, place = some (.resume start) := by
  cases hdoes with
  | wakes start hwoken =>
      by_cases hne : other = thread
      · exact Or.inr ⟨hne, start, rfl⟩
      · exact Or.inl (Finset.mem_erase.mpr ⟨hne, hother⟩)
  | signals work wakes sleeper => exact Or.inl (Finset.mem_insert_of_mem hother)
  | rouses sleeper => exact Or.inl (Finset.mem_insert_of_mem hother)
  | shutsDown => exact Or.inl (Finset.mem_union_left _ hother)
  | _ => exact Or.inl hother

theorem mem_waiting_of_park {start : Shard} (hplace : place = some (.park start)) :
    thread ∈ pool'.waiting := by
  cases hdoes with
  | waits start => exact List.mem_append_right pool.waiting (List.mem_singleton_self thread)
  | finds phase => cases phase <;> cases hplace
  | exhausts phase => cases phase <;> cases hplace
  | _ => cases hplace

/-- When a queue gets its first item, the signal is still to come. -/
theorem queue_ne_nil {shard : Shard} (hqueue : pool'.queues shard ≠ []) :
    pool.queues shard ≠ [] ∨ ∃ work wakes, place = some (.signal work wakes) := by
  obtain ⟨work, hwork⟩ := List.exists_mem_of_ne_nil _ hqueue
  rcases hdoes.mem_queues hwork with hold | ⟨wakes, rfl⟩
  · exact Or.inl (List.ne_nil_of_mem hold)
  · cases hdoes with
    | pushes => exact Or.inr ⟨work, wakes, rfl⟩

end Does

end PoolAction

/-- What holds of the pool and the places of the threads, if no signal is lost. While the pool is
running, an item in a queue is about to be announced, or a worker has a wake-up, or a worker will
look at the queue. -/
structure Watched (pool : WorkPool) (place : Nat → Option PoolAction) : Prop where
  worker_lt : ∀ thread action, place thread = some action → action.OfWorker = true →
    thread < pool.size
  waiting_lt : ∀ thread ∈ pool.waiting, thread < pool.size
  exits : ∀ thread, place thread = some .exit → pool.stop = true
  parked : ∀ thread start, place thread = some (.park start) →
    thread ∈ pool.waiting ∨ thread ∈ pool.woken
  working : pool.stop = false → ∀ worker < pool.size, ∃ action, place worker = some action ∧
    action.OfWorker = true
  attended : pool.stop = false → ∀ shard, pool.queues shard ≠ [] →
    (∃ thread work wakes, place thread = some (.signal work wakes)) ∨
      (∃ worker < pool.size, worker ∈ pool.woken) ∨
      ∃ worker < pool.size, ∃ action, place worker = some action ∧ action.Covers shard

namespace Watched

variable {pool pool' : WorkPool} {place : Nat → Option PoolAction} {thread : Nat}
  {action : PoolAction} {next : Option PoolAction}

variable (hpool : Watched pool place)

include hpool

theorem call (hnone : place thread = none) (call : PoolCall) :
    Watched pool (update place thread (some call.first)) := by
  have hkeeps : ∀ other action, place other = some action →
      update place thread (some call.first) other = some action := by
    intro other action hother
    have hne : other ≠ thread := by
      rintro rfl
      exact absurd (hnone.symm.trans hother) (by simp)
    rwa [update_of_ne hne]
  have hback : ∀ other action, action.OfWorker = true →
      update place thread (some call.first) other = some action →
      place other = some action := by
    intro other action hworker hother
    by_cases hthread : other = thread
    · subst hthread
      rw [update_self] at hother
      obtain rfl := Option.some.inj hother
      cases call <;> exact absurd hworker (by simp [PoolCall.first, PoolAction.OfWorker])
    · rwa [update_of_ne hthread] at hother
  constructor
  case worker_lt =>
    intro other action hother hworker
    exact hpool.worker_lt other action (hback other action hworker hother) hworker
  case waiting_lt => exact hpool.waiting_lt
  case exits => exact fun other hother => hpool.exits other (hback other _ rfl hother)
  case parked => exact fun other start hother => hpool.parked other start (hback other _ rfl hother)
  case working =>
    intro hrunning worker hworker
    obtain ⟨action, hplace, hof⟩ := hpool.working hrunning worker hworker
    exact ⟨action, hkeeps worker action hplace, hof⟩
  case attended =>
    intro hrunning shard hqueue
    rcases hpool.attended hrunning shard hqueue with
      ⟨other, work, wakes, hother⟩ | hwoken | ⟨worker, hworker, action, hplace, hcovers⟩
    · exact Or.inl ⟨other, work, wakes, hkeeps other _ hother⟩
    · exact Or.inr (Or.inl hwoken)
    · exact Or.inr (Or.inr ⟨worker, hworker, action, hkeeps worker action hplace, hcovers⟩)

/-- A signal that is given while some worker is not closing leaves every queue attended. -/
theorem attended_of_signal {work wakes : Nat}
    (hdoes : PoolAction.Does thread pool (.signal work wakes) pool' next)
    (hat : place thread = some (.signal work wakes)) {worker : Nat} (hworker : worker < pool.size)
    (hopen : ∀ action, place worker = some action → action.Closing = false)
    (hrunning : pool.stop = false) (shard : Shard) :
    (∃ worker < pool.size, worker ∈ pool'.woken) ∨
      ∃ worker < pool.size, ∃ action, update place thread next worker = some action ∧
        action.Covers shard := by
  obtain ⟨action, hplace, hof⟩ := hpool.working hrunning worker hworker
  have hne : worker ≠ thread := by
    rintro rfl
    obtain rfl := Option.some.inj (hplace.symm.trans hat)
    exact absurd hof (by simp [PoolAction.OfWorker])
  by_cases hpark : ∃ start, action = .park start
  · -- A sleeping worker: it has a wake-up already, or the signal finds somebody.
    obtain ⟨start, rfl⟩ := hpark
    refine Or.inl ?_
    rcases hpool.parked worker start hplace with hwaiting | hwoken
    · cases hdoes with
      | signalsNobody _ _ hnone => exact absurd hwaiting (by simp [hnone])
      | signals _ _ sleeper hsleeper =>
          exact ⟨sleeper, hpool.waiting_lt sleeper hsleeper,
            Finset.mem_insert_self sleeper pool.woken⟩
    · rcases hdoes.woken hwoken with hstill | ⟨hthread, -⟩
      · exact ⟨worker, hworker, hstill⟩
      · exact absurd hthread hne
  · refine Or.inr ⟨worker, hworker, action, ?_, ?_⟩
    · rwa [update_of_ne hne]
    · apply PoolAction.covers_of_not_closing hof (hopen action hplace)
      · rintro rfl
        exact absurd (hpool.exits worker hplace) (by simp [hrunning])
      · exact fun start haction => hpark ⟨start, haction⟩

theorem attended_of_does (hdoes : PoolAction.Does thread pool action pool' next)
    (hat : place thread = some action)
    (hopen : ∀ work wakes, action = .signal work wakes → ∃ worker < pool.size,
      ∀ action, place worker = some action → action.Closing = false)
    (hrunning : pool.stop = false) {shard : Shard} (hqueue : pool'.queues shard ≠ []) :
    (∃ other work wakes, update place thread next other = some (.signal work wakes)) ∨
      (∃ worker < pool.size, worker ∈ pool'.woken) ∨
      ∃ worker < pool.size, ∃ action, update place thread next worker = some action ∧
        action.Covers shard := by
  rcases hdoes.queue_ne_nil hqueue with hold | ⟨work, wakes, rfl⟩
  · rcases hpool.attended hrunning shard hold with
      ⟨other, work, wakes, hother⟩ | ⟨worker, hworker, hwoken⟩ |
        ⟨worker, hworker, covering, hplace, hcovers⟩
    · by_cases hthread : other = thread
      · subst hthread
        obtain rfl := Option.some.inj (hat.symm.trans hother)
        obtain ⟨worker, hworker, hclosing⟩ := hopen work wakes rfl
        exact Or.inr (hpool.attended_of_signal hdoes hat hworker hclosing hrunning shard)
      · exact Or.inl ⟨other, work, wakes, by rwa [update_of_ne hthread]⟩
    · rcases hdoes.woken hwoken with hstill | ⟨rfl, start, rfl⟩
      · exact Or.inr (Or.inl ⟨worker, hworker, hstill⟩)
      · exact Or.inr (Or.inr ⟨worker, hworker, _, update_self .., trivial⟩)
    · by_cases hthread : worker = thread
      · subst hthread
        obtain rfl := Option.some.inj (hat.symm.trans hplace)
        obtain ⟨later, rfl, hlater⟩ := hdoes.covers hcovers hqueue hrunning
        exact Or.inr (Or.inr ⟨worker, hworker, later, update_self .., hlater⟩)
      · refine Or.inr (Or.inr ⟨worker, hworker, covering, ?_, hcovers⟩)
        rwa [update_of_ne hthread]
  · exact Or.inl ⟨thread, work, wakes, update_self ..⟩

theorem does (hdoes : PoolAction.Does thread pool action pool' next)
    (hat : place thread = some action)
    (hopen : ∀ work wakes, action = .signal work wakes → ∃ worker < pool.size,
      ∀ action, place worker = some action → action.Closing = false) :
    Watched pool' (update place thread next) := by
  constructor
  case worker_lt => exact hdoes.worker_lt hat hpool.worker_lt
  case waiting_lt =>
    intro other hother
    rw [hdoes.size_eq]
    rcases hdoes.mem_waiting hother with hold | ⟨rfl, hworker⟩
    · exact hpool.waiting_lt other hold
    · exact hpool.worker_lt other action hat hworker
  case exits =>
    intro other hother
    rcases Threads.of_update_eq hother with ⟨rfl, hnext⟩ | ⟨-, hplace⟩
    · exact hdoes.stop_of_exit hnext
    · by_contra hrunning
      have hstop := hpool.exits other hplace
      rw [hdoes.stop_eq_false (Bool.not_eq_true _ ▸ hrunning)] at hstop
      exact absurd hstop (by simp)
  case parked =>
    intro other start hother
    rcases Threads.of_update_eq hother with ⟨rfl, hnext⟩ | ⟨hthread, hplace⟩
    · exact Or.inl (hdoes.mem_waiting_of_park hnext)
    · exact hdoes.sleeps hthread (hpool.parked other start hplace)
  case working =>
    intro hrunning worker hworker
    have hbefore := hdoes.stop_eq_false hrunning
    obtain ⟨earlier, hplace, hof⟩ := hpool.working hbefore worker (hdoes.size_eq ▸ hworker)
    by_cases hthread : worker = thread
    · subst hthread
      obtain rfl := Option.some.inj (hat.symm.trans hplace)
      rw [update_self]
      apply hdoes.exists_ofWorker hof
      rintro rfl
      exact absurd (hpool.exits worker hat) (by simp [hbefore])
    · exact ⟨earlier, by rwa [update_of_ne hthread], hof⟩
  case attended =>
    intro hrunning shard hqueue
    rw [hdoes.size_eq]
    exact hpool.attended_of_does hdoes hat hopen (hdoes.stop_eq_false hrunning) hqueue

end Watched

namespace PoolSystem

/-- A state in which nobody will look at an item: the pool is running and a queue has one, every
worker is blocked on the condition without a wake-up, and no signal is still to come. -/
structure Stranded (s : PoolSystem) : Prop where
  running : s.shared.stop = false
  queued : ∃ shard, s.shared.queues shard ≠ []
  asleep : ∀ worker < s.shared.size,
    (∃ start, s.todo worker = [.act (.park start)]) ∧ worker ∉ s.shared.woken
  silent : ∀ thread work wakes, s.place thread ≠ some (.signal work wakes)

/-- When a signal is given, some worker is not between its second look at the first queue and its
wait. -/
def SignalsInTime (s : PoolSystem) : Turn PoolCall → Prop
  | .call _ _ => True
  | .go thread => (s.place thread).any PoolAction.Signalling = true →
      ∃ worker < s.shared.size, ∀ action ∈ s.place worker, action.Closing = false

instance decidableSignalsInTime (s : PoolSystem) : ∀ turn, Decidable (SignalsInTime s turn)
  | .call _ _ => inferInstanceAs (Decidable True)
  | .go thread => inferInstanceAs (Decidable ((s.place thread).any PoolAction.Signalling = true →
      ∃ worker < s.shared.size, ∀ action ∈ s.place worker, action.Closing = false))

theorem watched_run {size : Nat} {turns : List (Turn PoolCall)}
    (hmeets : Runs.Meets (Threads.step poolCode) SignalsInTime (launch size) turns) :
    Watched ((launch size).run turns).shared ((launch size).run turns).place := by
  refine invariant_run Watched ?_ ?_ ?_ hmeets
  · constructor
    case worker_lt =>
      intro thread action hplace hworker
      by_contra hthread
      exact absurd hplace (by simp [show ¬ thread < size from hthread])
    case waiting_lt => exact fun thread hthread => absurd hthread List.not_mem_nil
    case exits =>
      intro thread hplace
      split_ifs at hplace
      cases hplace
    case parked =>
      intro thread start hplace
      split_ifs at hplace
      cases hplace
    case working =>
      intro hrunning worker hworker
      exact ⟨.scan .fast 0 0, if_pos hworker, rfl⟩
    case attended => exact fun _ shard hqueue => absurd rfl hqueue
  · intro s thread call hpool hnone
    exact hpool.call hnone call
  · intro s thread action pool place hpool hok hat hdoes
    apply hpool.does hdoes hat
    rintro work wakes rfl
    exact hok (by rw [hat]; rfl)

/-- **No stranded work.** If whenever a signal is given some worker is not just about to wait, no
run of a pool of any size leads to a state with an item in a queue, all workers asleep and no signal
to come. -/
theorem not_stranded_run {size : Nat} {turns : List (Turn PoolCall)}
    (hmeets : Runs.Meets (Threads.step poolCode) SignalsInTime (launch size) turns) :
    ¬ Stranded ((launch size).run turns) := by
  intro hstranded
  obtain ⟨shard, hqueue⟩ := hstranded.queued
  rcases (watched_run hmeets).attended hstranded.running shard hqueue with
    ⟨thread, work, wakes, hplace⟩ | ⟨worker, hworker, hwoken⟩ |
      ⟨worker, hworker, action, hplace, hcovers⟩
  · exact hstranded.silent thread work wakes hplace
  · exact (hstranded.asleep worker hworker).2 hwoken
  · obtain ⟨⟨start, htodo⟩, -⟩ := hstranded.asleep worker hworker
    rw [Threads.System.place, htodo] at hplace
    obtain rfl := Option.some.inj hplace
    exact hcovers

/-- An enqueuer reads the stop flag; the worker finds all queues empty twice and is to wait next. -/
def untilWait : List (Turn PoolCall) :=
  calls 1 (PoolCall.enqueue 0) 4 ++ goes 0 34

/-- The item is appended and announced once the worker sleeps. -/
def signalAfterWait : List (Turn PoolCall) :=
  untilWait ++ goes 0 2 ++ goes 1 3

/-- The item is appended and announced before the worker sleeps. -/
def signalBeforeWait : List (Turn PoolCall) :=
  untilWait ++ goes 1 3 ++ goes 0 2

theorem not_stranded_signalAfterWait :
    ((launch 1).run signalAfterWait).shared.queues 0 = [0] ∧
      ((launch 1).run signalAfterWait).shared.woken = {0} ∧
      ¬ Stranded ((launch 1).run signalAfterWait) :=
  ⟨by decide +kernel, by decide +kernel, not_stranded_run (by decide +kernel)⟩

/-- The signal falls between the last look and the wait of the only worker, and its item stays. -/
theorem stranded_signalBeforeWait : Stranded ((launch 1).run signalBeforeWait) where
  running := by decide +kernel
  queued := ⟨0, by decide +kernel⟩
  asleep := by decide +kernel
  silent := by
    intro thread work wakes hplace
    by_cases hthread : thread < 2
    · have hplaces : ∀ thread < 2, (((launch 1).run signalBeforeWait).place thread).any
          PoolAction.Signalling = false := by decide +kernel
      have hsignal := hplaces thread hthread
      rw [hplace] at hsignal
      exact absurd hsignal (by simp [PoolAction.Signalling])
    · have hturns : ∀ turn ∈ signalBeforeWait, turn.thread < 2 := by decide +kernel
      have hidle : ((launch 1).run signalBeforeWait).todo thread = (launch 1).todo thread := by
        apply Threads.todo_run_of_forall_ne
        rintro turn hturn rfl
        exact hthread (hturns turn hturn)
      have htodo : (launch 1).todo thread = [] := if_neg (by omega)
      rw [Threads.System.place, hidle, htodo] at hplace
      cases hplace

end PoolSystem

end Poseidon
