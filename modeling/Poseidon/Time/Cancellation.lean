import Poseidon.Time.Identity

/-!
# Cancelled timers

A timer is cancelled through the map: `hierarchical_timing_wheel_cancel_timer` looks the id up and
sets the flag of the timer it finds. The map forgets a timer as soon as it leaves the slot of the
first wheel of its plan, so only a timer that is still there is cancelled. From then on the call
finds nothing, and the timer fires.
-/

namespace Poseidon

open Threads (Throughout Turn calls)

namespace TimerAction

/-- The ids of the timers an action carries that have left the map. -/
def passed : TimerAction → List Nat
  | .maintenance _ _ expired => expired.map Timer.timerId
  | .expire _ _ _ expired => expired.map Timer.timerId
  | .fireExpired expired => expired.map Timer.timerId
  | .enqueue (.callback timerId) => [timerId]
  | _ => []

theorem ids_of_passed {action : TimerAction} {id : Nat} (hid : id ∈ action.passed) :
    id ∈ action.ids := by
  cases action with
  | maintenance wheel rest expired =>
      rw [ids, List.map_append]
      exact List.mem_append_right _ hid
  | expire wheel timer rest expired =>
      rw [ids, List.map_append]
      exact List.mem_append_right _ hid
  | fireExpired expired => exact hid
  | enqueue work =>
      cases work with
      | onTick wheel => exact absurd hid List.not_mem_nil
      | callback timerId => exact hid
  | _ => exact absurd hid List.not_mem_nil

theorem passed_next {n : Nat} [NeZero n] {hierarchy : HierarchicalTimingWheel n}
    {action later : TimerAction} (hpassed : ∀ id ∈ action.passed, id ∉ hierarchy.timers)
    (hlater : .act later ∈ (action.exec hierarchy).2) :
    ∀ id ∈ later.passed, id ∉ (action.exec hierarchy).1.timers := by
  intro id hid hmem
  cases next_of_mem_exec hlater with
  | ticks wheel => exact List.not_mem_nil hid
  | advances wheel => exact List.not_mem_nil hid
  | reruns wheel expired => exact List.not_mem_nil hid
  | enqueuesTick wheel => exact List.not_mem_nil hid
  | setsTick wheel finer => exact List.not_mem_nil hid
  | cascades timer rest step steps hplan => exact List.not_mem_nil hid
  | places duration wheel => exact List.not_mem_nil hid
  | visits wheel => exact List.not_mem_nil hid
  | passes wheel timer rest expired =>
      rw [exec, timers_maintain] at hmem
      exact hpassed id hid hmem
  | expires wheel timer expiring rest expired hvisit =>
      rw [exec, timers_maintain] at hmem
      exact hpassed id hid hmem
  | forgets wheel timer rest expired =>
      obtain ⟨hne, hold⟩ := Finset.mem_erase.mp hmem
      have hcases : id ∈ expired.map Timer.timerId ∨ id = timer.timerId := by
        simpa [passed] using hid
      exact hcases.elim (fun hexpired => hpassed id hexpired hold) hne
  | fires wheel expired => exact hpassed id hid hmem
  | goesOn timer rest => exact hpassed id (List.mem_cons_of_mem _ hid) hmem
  | enqueues timer rest hlive =>
      rw [eq_timerId_of_mem_ids_work (ids_of_passed hid)] at hmem
      exact hpassed _ List.mem_cons_self hmem

end TimerAction

namespace HierarchicalTimingWheel

variable {n : Nat} [NeZero n]

/-- The callback of a timer that is in the map has not been enqueued. -/
structure Mapped (hierarchy : HierarchicalTimingWheel n) : Prop where
  fresh : hierarchy.Fresh
  waiting : ∀ id ∈ hierarchy.timers, .callback id ∉ hierarchy.enqueued

/-- What an action carries past the map is not in it. -/
def PastMap (hierarchy : HierarchicalTimingWheel n) (action : TimerAction) : Prop :=
  hierarchy.Known action ∧ ∀ id ∈ action.passed, id ∉ hierarchy.timers

theorem exec_mapped {hierarchy : HierarchicalTimingWheel n} {action : TimerAction}
    (hmapped : hierarchy.Mapped) (hpast : hierarchy.PastMap action) :
    (action.exec hierarchy).1.Mapped ∧
    (∀ later, .act later ∈ (action.exec hierarchy).2 → (action.exec hierarchy).1.PastMap later) ∧
    ∀ other, hierarchy.PastMap other → (action.exec hierarchy).1.PastMap other := by
  have heffect := TimerAction.effect_exec action hierarchy
  obtain ⟨hfresh, hlater, hother⟩ := hmapped.fresh.exec hpast.1
  refine ⟨⟨hfresh, fun id hid hwork => ?_⟩, fun later hmem => ?_, fun other hpastOther => ?_⟩
  · rcases heffect.map_cases with ⟨duration, rfl, -, htimers⟩ | ⟨-, hsubset⟩
    · rw [htimers] at hid
      rcases Finset.mem_insert.mp hid with rfl | hold
      · exact (hmapped.fresh.enqueued _ hwork).false
      · exact hmapped.waiting id hold hwork
    · rcases heffect.mem_enqueued hwork with hold | rfl
      · exact hmapped.waiting id (hsubset hid) hold
      · exact hpast.2 id (List.mem_singleton_self id) (hsubset hid)
  · exact ⟨hlater later hmem, TimerAction.passed_next hpast.2 hmem⟩
  · refine ⟨hother other hpastOther.1, fun id hid hmem => ?_⟩
    rcases heffect.map_cases with ⟨duration, rfl, -, htimers⟩ | ⟨-, hsubset⟩
    · rw [htimers] at hmem
      rcases Finset.mem_insert.mp hmem with rfl | hold
      · exact (hpastOther.1 _ (TimerAction.ids_of_passed hid)).false
      · exact hpastOther.2 id hid hold
    · exact hpastOther.2 id hid (hsubset hmem)

/-- The timer is cancelled and its callback has not been enqueued. -/
def Silenced (timerId : Nat) (hierarchy : HierarchicalTimingWheel n) : Prop :=
  timerId ∈ hierarchy.removed ∧ .callback timerId ∉ hierarchy.enqueued

theorem exec_silenced {timerId : Nat} {hierarchy : HierarchicalTimingWheel n}
    {action : TimerAction} (hsilenced : hierarchy.Silenced timerId)
    (haction : action ≠ .enqueue (.callback timerId)) :
    (action.exec hierarchy).1.Silenced timerId ∧
    ∀ later, .act later ∈ (action.exec hierarchy).2 → later ≠ .enqueue (.callback timerId) := by
  have heffect := TimerAction.effect_exec action hierarchy
  refine ⟨⟨heffect.removed_subset hsilenced.1, fun hwork => ?_⟩, ?_⟩
  · exact (heffect.mem_enqueued hwork).elim hsilenced.2 haction
  · rintro later hlater hcallback
    have hid : timerId ∈ later.ids := hcallback ▸ List.mem_singleton_self timerId
    cases TimerAction.next_of_mem_exec hlater with
    | enqueues timer rest hlive =>
        rw [← TimerAction.eq_timerId_of_mem_ids_work hid] at hlive
        exact hlive hsilenced.1
    | enqueuesTick wheel => exact List.not_mem_nil hid
    | _ => exact TimerAction.noConfusion hcallback

end HierarchicalTimingWheel

namespace TimerSystem

variable {n : Nat} [NeZero n]

theorem mapped_run (turns : List (Turn TimerCall)) :
    Throughout HierarchicalTimingWheel.Mapped HierarchicalTimingWheel.PastMap
      ((start n).run turns) := by
  refine Runs.invariant _ (Throughout _ _) (fun s turn hs => ?_) ?_
  · refine Threads.throughout_step ?_ ?_ hs turn
    · intro call hierarchy action _ haction
      have hids := call.ids_program action haction
      exact ⟨fun id hid => absurd (hids ▸ hid) List.not_mem_nil, fun id hid =>
        absurd (hids ▸ TimerAction.ids_of_passed hid) List.not_mem_nil⟩
    · rintro thread action hierarchy hierarchy' next hexec hmapped hpast
      obtain ⟨rfl, rfl⟩ := Prod.mk.inj (Option.some.inj hexec)
      exact HierarchicalTimingWheel.exec_mapped hmapped hpast
  · exact ⟨⟨(fresh_run []).1, fun id hid => absurd hid (Finset.notMem_empty id)⟩,
      fun other action haction => absurd haction List.not_mem_nil⟩

theorem silenced_run {timerId : Nat} {s : TimerSystem n}
    (hs : Throughout (HierarchicalTimingWheel.Silenced timerId)
      (fun _ action => action ≠ .enqueue (.callback timerId)) s)
    (turns : List (Turn TimerCall)) :
    .callback timerId ∉ (s.run turns).shared.enqueued := by
  refine (Runs.invariant _ (Throughout (HierarchicalTimingWheel.Silenced timerId)
    (fun _ action => action ≠ .enqueue (.callback timerId))) (fun s turn hs => ?_) hs).1.2
  refine Threads.throughout_step ?_ ?_ hs turn
  · rintro call hierarchy action - haction rfl
    exact absurd (call.ids_program _ haction) (List.cons_ne_nil _ _)
  · rintro thread action hierarchy hierarchy' next hexec hsilenced haction
    obtain ⟨rfl, rfl⟩ := Prod.mk.inj (Option.some.inj hexec)
    obtain ⟨hsilenced', hlater⟩ := HierarchicalTimingWheel.exec_silenced hsilenced haction
    exact ⟨hsilenced', hlater, fun other hother => hother⟩

/-- **Cancelled timers.** If `hierarchical_timing_wheel_cancel_timer` finds the timer in the map,
its callback is never enqueued, whatever the other threads are doing and do later. -/
theorem silenced_of_cancel {turns : List (Turn TimerCall)} {thread timerId : Nat}
    {rest : List TimerInstr}
    (htodo : ((start n).run turns).todo thread = .act (.cancel timerId) :: rest)
    (hmapped : timerId ∈ ((start n).run turns).shared.timers)
    (later : List (Turn TimerCall)) :
    .callback timerId ∉ ((start n).run (turns ++ .go thread :: later)).shared.enqueued := by
  obtain ⟨hgood, hall⟩ := @mapped_run n _ turns
  have hnone : ∀ other, .act (.enqueue (.callback timerId)) ∉ ((start n).run turns).todo other :=
    fun other hmem => (hall other _ hmem).2 timerId (List.mem_singleton_self _) hmapped
  have hrun : (start n).run (turns ++ .go thread :: later) =
      run (Threads.step (timerCode n) ((start n).run turns) (.go thread)) later := by
    unfold run
    rw [Runs.run_append, Runs.run_cons]
  rw [hrun]
  apply silenced_run
  simp only [Threads.step, Threads.go, htodo, timerCode, TimerAction.exec, if_pos hmapped]
  refine ⟨⟨Finset.mem_insert_self _ _, hgood.waiting timerId hmapped⟩, ?_⟩
  rintro other action haction rfl
  rcases Threads.mem_or_mem_of_mem_update haction with hrest | hold
  · exact hnone thread (htodo ▸ List.mem_cons_of_mem _ hrest)
  · exact hnone other hold

/-- The finest wheel is started, a timer is set for the next millisecond and cancelled, up to the
point where the call has the lock. -/
def cancelAtMap : List (Turn TimerCall) :=
  calls 0 TimerCall.run 2 ++ calls 1 (TimerCall.setTimer ⟨0, 0, 0, 0, 1⟩) 6 ++
    calls 1 (TimerCall.cancelTimer 1) 1

theorem silenced_cancelAtMap :
    .callback 1 ∉ ((start 1).run (cancelAtMap ++ .go 1 :: .go 1 ::
      .call 2 (.tick .milliseconds) :: List.replicate 17 (.go 2))).shared.enqueued :=
  @silenced_of_cancel 1 _ cancelAtMap 1 1 [.unlock .hierarchical] (by decide +kernel)
    (by decide +kernel) _

/-- All wheels are started and a timer is set for a second and a millisecond. The first tick of the
seconds has moved it to the finest wheel when it is cancelled. -/
def cancelCascaded : List (Turn TimerCall) :=
  calls 0 TimerCall.run 18 ++ calls 1 (TimerCall.setTimer ⟨0, 0, 0, 1, 1⟩) 6 ++
    calls 2 (TimerCall.tick .milliseconds) 17 ++ calls 2 (TimerCall.tick .seconds) 22 ++
    calls 1 (TimerCall.cancelTimer 1) 3

/-- The call has returned and the callback has not been enqueued. The next tick enqueues it. -/
theorem fires_after_cancelCascaded :
    ((start 999).run cancelCascaded).todo 1 = [] ∧
    .callback 1 ∉ ((start 999).run cancelCascaded).shared.enqueued ∧
    .callback 1 ∈ ((start 999).run (cancelCascaded ++
      .call 2 (.tick .milliseconds) :: List.replicate 22 (.go 2))).shared.enqueued := by
  refine ⟨?_, ?_, ?_⟩ <;> decide +kernel

end TimerSystem

end Poseidon
