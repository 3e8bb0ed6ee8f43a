import Poseidon.Time.Steps

/-!
# Where the timers are

A timer is in a slot of a wheel or in the hands of a thread that moves it on. Ids are given in
order, so an id that is still to be given occurs nowhere.
-/

namespace Poseidon

open Threads (Throughout Turn)

namespace TimerAction

def ids : TimerAction → List Nat
  | .maintenance _ rest expired => (rest ++ expired).map Timer.timerId
  | .expire _ timer rest expired => (timer :: rest ++ expired).map Timer.timerId
  | .fireExpired expired => expired.map Timer.timerId
  | .enqueue (.callback timerId) => [timerId]
  | .insert _ timer => [timer.timerId]
  | _ => []

theorem eq_timerId_of_mem_ids_work {timer : Timer} {id : Nat}
    (hid : id ∈ (enqueue timer.work).ids) : id = timer.timerId := by
  unfold Timer.work at hid
  cases hcallback : timer.callback with
  | user =>
      rw [hcallback] at hid
      exact List.mem_singleton.mp hid
  | onTick wheel =>
      rw [hcallback] at hid
      exact absurd hid List.not_mem_nil

end TimerAction

namespace HierarchicalTimingWheel

variable {n : Nat}

def OnWheels (hierarchy : HierarchicalTimingWheel n) (P : Timer → Prop) : Prop :=
  ∀ id slot, ∀ timer ∈ (hierarchy.wheels id).slots slot, P timer

theorem OnWheels.setWheel {hierarchy : HierarchicalTimingWheel n} {P : Timer → Prop}
    (hold : hierarchy.OnWheels P) {id : WheelId} {wheel : TimingWheel n}
    (hnew : ∀ slot, ∀ timer ∈ wheel.slots slot, P timer) :
    (hierarchy.setWheel id wheel).OnWheels P :=
  fun other => @forall_setWheel n hierarchy
    (fun _ wheel => ∀ slot, ∀ timer ∈ wheel.slots slot, P timer) hold id wheel hnew other

structure Fresh (hierarchy : HierarchicalTimingWheel n) : Prop where
  pos : 0 < hierarchy.nextId
  slots : hierarchy.OnWheels fun timer => timer.timerId < hierarchy.nextId
  timers : ∀ id ∈ hierarchy.timers, id < hierarchy.nextId
  enqueued : ∀ id, .callback id ∈ hierarchy.enqueued → id < hierarchy.nextId

def Known (hierarchy : HierarchicalTimingWheel n) (action : TimerAction) : Prop :=
  ∀ id ∈ action.ids, id < hierarchy.nextId

section Exec

variable [NeZero n] {hierarchy : HierarchicalTimingWheel n} {action : TimerAction}

theorem Fresh.slots_exec (hfresh : hierarchy.Fresh) (hknown : hierarchy.Known action) :
    (action.exec hierarchy).1.OnWheels fun timer => timer.timerId < hierarchy.nextId := by
  have hslots := hfresh.slots
  have heffect := TimerAction.effect_exec action hierarchy
  generalize (action.exec hierarchy).1 = hierarchy' at heffect ⊢
  cases heffect with
  | advances wheel =>
      refine hslots.setWheel fun slot timer htimer => ?_
      exact hslots wheel slot timer (TimingWheel.mem_slots_advance.mp htimer).1
  | keeps wheel timer kept rest expired hvisit =>
      refine hslots.setWheel fun slot entry hentry => ?_
      rcases TimingWheel.mem_slots_place.mp hentry with hold | ⟨-, rfl⟩
      · exact hslots wheel slot entry hold
      · rw [Timer.timerId_of_visit_keep hvisit]
        exact hknown _ List.mem_cons_self
  | inserts wheel timer =>
      refine hslots.setWheel fun slot entry hentry => ?_
      rcases TimingWheel.mem_slots_place.mp hentry with hold | ⟨-, rfl⟩
      · exact hslots wheel slot entry hold
      · exact hknown _ (List.mem_singleton_self _)
  | restarts wheel => exact hslots.setWheel (hslots wheel)
  | halts wheel => exact hslots.setWheel (hslots wheel)
  | _ => exact hslots

theorem Fresh.known_next (hfresh : hierarchy.Fresh) (hknown : hierarchy.Known action)
    {later : TimerAction} (hlater : .act later ∈ (action.exec hierarchy).2) :
    (action.exec hierarchy).1.Known later := by
  have hle := (TimerAction.effect_exec action hierarchy).nextId_le
  intro id hid
  cases TimerAction.next_of_mem_exec hlater with
  | ticks wheel => exact absurd hid List.not_mem_nil
  | advances wheel => exact absurd hid List.not_mem_nil
  | reruns wheel expired => exact absurd hid List.not_mem_nil
  | enqueuesTick wheel => exact absurd hid List.not_mem_nil
  | visits wheel =>
      obtain ⟨timer, htimer, rfl⟩ : ∃ timer ∈ (hierarchy.wheels wheel).advance.2,
          timer.timerId = id := by
        simpa [TimerAction.ids] using hid
      exact (hfresh.slots wheel _ timer htimer).trans_le hle
  | passes wheel timer rest expired =>
      exact (hknown id (List.mem_cons_of_mem _ hid)).trans_le hle
  | expires wheel timer expiring rest expired hvisit =>
      refine (hknown id ?_).trans_le hle
      rw [TimerAction.ids, List.cons_append, List.map_cons,
        Timer.timerId_of_visit_expire hvisit] at hid
      exact hid
  | forgets wheel timer rest expired =>
      refine (hknown id ?_).trans_le hle
      simpa [TimerAction.ids, or_comm, or_left_comm] using hid
  | fires wheel expired => exact (hknown id hid).trans_le hle
  | setsTick wheel finer =>
      rw [List.mem_singleton.mp hid]
      exact hfresh.pos.trans_le hle
  | goesOn timer rest => exact (hknown id (List.mem_cons_of_mem _ hid)).trans_le hle
  | enqueues timer rest hlive =>
      rw [TimerAction.eq_timerId_of_mem_ids_work hid]
      exact (hknown _ List.mem_cons_self).trans_le hle
  | cascades timer rest step steps hplan =>
      rw [List.mem_singleton.mp hid]
      exact (hknown timer.timerId List.mem_cons_self).trans_le hle
  | places duration wheel =>
      rw [List.mem_singleton.mp hid]
      exact Nat.lt_succ_self _

theorem Fresh.exec (hfresh : hierarchy.Fresh) (hknown : hierarchy.Known action) :
    (action.exec hierarchy).1.Fresh ∧
    (∀ later, .act later ∈ (action.exec hierarchy).2 → (action.exec hierarchy).1.Known later) ∧
    ∀ other, hierarchy.Known other → (action.exec hierarchy).1.Known other := by
  have heffect := TimerAction.effect_exec action hierarchy
  have hle := heffect.nextId_le
  refine ⟨⟨hfresh.pos.trans_le hle, fun id slot timer htimer => ?_, fun id hid => ?_,
    fun id hid => ?_⟩, fun later hlater => hfresh.known_next hknown hlater,
    fun other hother id hid => (hother id hid).trans_le hle⟩
  · exact (hfresh.slots_exec hknown id slot timer htimer).trans_le hle
  · rcases heffect.map_cases with ⟨duration, -, hsucc, htimers⟩ | ⟨-, hsubset⟩
    · rw [htimers] at hid
      rcases Finset.mem_insert.mp hid with rfl | hold
      · omega
      · exact (hfresh.timers id hold).trans_le hle
    · exact (hfresh.timers id (hsubset hid)).trans_le hle
  · rcases heffect.mem_enqueued hid with hold | rfl
    · exact (hfresh.enqueued id hold).trans_le hle
    · exact (hknown id (List.mem_singleton_self id)).trans_le hle

end Exec

end HierarchicalTimingWheel

theorem TimerCall.ids_program (call : TimerCall) :
    ∀ action, .act action ∈ call.program → action.ids = [] := by
  cases call <;> simp [program, wheels, stopWheel, TimerAction.ids]

theorem TimerSystem.fresh_run {n : Nat} [NeZero n] (turns : List (Turn TimerCall)) :
    Throughout HierarchicalTimingWheel.Fresh HierarchicalTimingWheel.Known
      ((start n).run turns) := by
  refine Runs.invariant _ (Throughout _ _) (fun s turn hs => ?_) ?_
  · refine Threads.throughout_step ?_ ?_ hs turn
    · intro call hierarchy action _ haction id hid
      exact absurd (call.ids_program action haction ▸ hid) List.not_mem_nil
    · rintro thread action hierarchy hierarchy' next hexec hfresh hknown
      obtain ⟨rfl, rfl⟩ := Prod.mk.inj (Option.some.inj hexec)
      exact hfresh.exec hknown
  · refine ⟨⟨Nat.one_pos, ?_, ?_, ?_⟩, ?_⟩ <;>
      simp [start, HierarchicalTimingWheel.create, HierarchicalTimingWheel.OnWheels,
        TimingWheel.create]

end Poseidon
