import Poseidon.Time.Hierarchy

/-!
# What an action of the timing wheel can do

Said once for all invariants: what a thread can go on with after each action, where a timer of a
slot can come from, and which actions change the map, the flags, the positions and what was
enqueued.
-/

namespace Poseidon

variable {n : Nat}

namespace TimingWheel

theorem mem_slots_advance [NeZero n] {wheel : TimingWheel n} {entry : Timer} {slot : Fin n} :
    entry ∈ wheel.advance.1.slots slot ↔ entry ∈ wheel.slots slot ∧ slot ≠ wheel.position + 1 := by
  unfold advance
  by_cases hslot : slot = wheel.position + 1
  · simp [hslot]
  · simp [hslot]

end TimingWheel

namespace HierarchicalTimingWheel

@[simp]
theorem setWheel_self (hierarchy : HierarchicalTimingWheel n) (id : WheelId)
    (wheel : TimingWheel n) : (hierarchy.setWheel id wheel).wheels id = wheel := by
  simp [setWheel]

@[simp]
theorem setWheel_of_ne (hierarchy : HierarchicalTimingWheel n) {id other : WheelId}
    (wheel : TimingWheel n) (hne : other ≠ id) :
    (hierarchy.setWheel id wheel).wheels other = hierarchy.wheels other := by
  simp [setWheel, hne]

theorem forall_setWheel {hierarchy : HierarchicalTimingWheel n} {P : WheelId → TimingWheel n → Prop}
    (hall : ∀ id, P id (hierarchy.wheels id)) {id : WheelId} {wheel : TimingWheel n}
    (hwheel : P id wheel) (other : WheelId) :
    P other ((hierarchy.setWheel id wheel).wheels other) := by
  by_cases hother : other = id
  · subst hother
    rwa [setWheel_self]
  · rw [setWheel_of_ne hierarchy wheel hother]
    exact hall other

end HierarchicalTimingWheel

namespace TimerAction

/-! ### The next actions -/

inductive Next [NeZero n] (hierarchy : HierarchicalTimingWheel n) :
    TimerAction → TimerAction → Prop where
  | ticks (wheel : WheelId) : Next hierarchy (.takeTick wheel) (.onTick wheel)
  | advances (wheel : WheelId) : Next hierarchy (.onTick wheel) (.advance wheel)
  | visits (wheel : WheelId) :
      Next hierarchy (.advance wheel) (.maintenance wheel (hierarchy.wheels wheel).advance.2 [])
  | passes (wheel : WheelId) (timer : Timer) (rest expired : List Timer) :
      Next hierarchy (.maintenance wheel (timer :: rest) expired) (.maintenance wheel rest expired)
  | expires (wheel : WheelId) (timer expiring : Timer) (rest expired : List Timer)
      (hvisit : timer.visit hierarchy.removed = .expire expiring) :
      Next hierarchy (.maintenance wheel (timer :: rest) expired)
        (.expire wheel expiring rest expired)
  | forgets (wheel : WheelId) (timer : Timer) (rest expired : List Timer) :
      Next hierarchy (.expire wheel timer rest expired)
        (.maintenance wheel rest (expired ++ [timer]))
  | reruns (wheel : WheelId) (expired : List Timer) :
      Next hierarchy (.maintenance wheel [] expired) (.run wheel)
  | fires (wheel : WheelId) (expired : List Timer) :
      Next hierarchy (.maintenance wheel [] expired) (.fireExpired expired)
  | enqueuesTick (wheel : WheelId) : Next hierarchy (.run wheel) (.enqueue (.onTick wheel))
  | setsTick (wheel finer : WheelId) :
      Next hierarchy (.run wheel) (.insert finer (tickTimer wheel finer))
  | goesOn (timer : Timer) (rest : List Timer) :
      Next hierarchy (.fireExpired (timer :: rest)) (.fireExpired rest)
  | enqueues (timer : Timer) (rest : List Timer) (hlive : timer.timerId ∉ hierarchy.removed) :
      Next hierarchy (.fireExpired (timer :: rest)) (.enqueue timer.work)
  | cascades (timer : Timer) (rest : List Timer) (step : PlanStep) (steps : List PlanStep)
      (hplan : timer.plan.tail.dropWhile (·.delay == 0) = step :: steps) :
      Next hierarchy (.fireExpired (timer :: rest))
        (.insert step.wheel { timer with plan := step :: steps })
  | places (duration : TimerDuration) (wheel : WheelId) :
      Next hierarchy (.allocate duration)
        (.insert wheel ⟨hierarchy.nextId, duration.rectify.plan, 0, .user⟩)

variable {later : TimerAction} {timer : Timer}

theorem eq_of_mem_setTimer {wheel : WheelId} (hlater : .act later ∈ setTimer wheel timer) :
    later = .insert wheel timer := by
  simpa [setTimer] using hlater

theorem next_of_mem_maintain [NeZero n] {hierarchy : HierarchicalTimingWheel n} {wheel : WheelId}
    {rest expired : List Timer}
    (hlater : .act later ∈ (maintain hierarchy wheel timer rest expired).2) :
    Next hierarchy (.maintenance wheel (timer :: rest) expired) later := by
  unfold maintain at hlater
  cases hvisit : timer.visit hierarchy.removed with
  | expire expiring =>
      rw [hvisit] at hlater
      obtain rfl : later = .expire wheel expiring rest expired := by simpa using hlater
      exact .expires wheel timer expiring rest expired hvisit
  | drop =>
      rw [hvisit] at hlater
      obtain rfl : later = .maintenance wheel rest expired := by simpa using hlater
      exact .passes wheel timer rest expired
  | keep kept =>
      rw [hvisit] at hlater
      obtain rfl : later = .maintenance wheel rest expired := by simpa using hlater
      exact .passes wheel timer rest expired

theorem next_of_mem_fire [NeZero n] {hierarchy : HierarchicalTimingWheel n} {rest : List Timer}
    (hlater : .act later ∈ fire hierarchy timer rest) :
    Next hierarchy (.fireExpired (timer :: rest)) later := by
  unfold fire at hlater
  split_ifs at hlater with hremoved
  · obtain rfl := Threads.Instr.act.inj (List.mem_singleton.mp hlater)
    exact .goesOn timer rest
  · split at hlater
    · rcases List.mem_pair.mp hlater with henqueue | hfire
      · obtain rfl := Threads.Instr.act.inj henqueue
        exact .enqueues timer rest hremoved
      · obtain rfl := Threads.Instr.act.inj hfire
        exact .goesOn timer rest
    · rename_i step steps hplan
      rcases List.mem_append.mp hlater with hset | hfire
      · obtain rfl := eq_of_mem_setTimer hset
        exact .cascades timer rest step steps hplan
      · obtain rfl := Threads.Instr.act.inj (List.mem_singleton.mp hfire)
        exact .goesOn timer rest

theorem next_of_mem_exec [NeZero n] {hierarchy : HierarchicalTimingWheel n} {action : TimerAction}
    (hlater : .act later ∈ (action.exec hierarchy).2) : Next hierarchy action later := by
  cases action with
  | takeTick wheel =>
      simp only [exec] at hlater
      split_ifs at hlater
      · obtain rfl := Threads.Instr.act.inj (List.mem_singleton.mp hlater)
        exact .ticks wheel
      · exact absurd hlater List.not_mem_nil
  | onTick wheel =>
      simp only [exec] at hlater
      split_ifs at hlater
      · exact absurd hlater List.not_mem_nil
      · obtain rfl : later = .advance wheel := by simpa using hlater
        exact .advances wheel
  | advance wheel =>
      obtain rfl := Threads.Instr.act.inj (List.mem_singleton.mp hlater)
      exact .visits wheel
  | maintenance wheel rest expired =>
      cases rest with
      | cons timer rest => exact next_of_mem_maintain hlater
      | nil =>
          have hcases : later = .run wheel ∨ later = .fireExpired expired := by
            simp only [exec] at hlater
            split_ifs at hlater
            · exact Or.inl (by simpa using hlater)
            · simpa using hlater
          rcases hcases with rfl | rfl
          · exact .reruns wheel expired
          · exact .fires wheel expired
  | expire wheel timer rest expired =>
      obtain rfl : later = .maintenance wheel rest (expired ++ [timer]) := by
        simpa [exec] using hlater
      exact .forgets wheel timer rest expired
  | run wheel =>
      simp only [exec] at hlater
      cases hfiner : wheel.finer with
      | none =>
          rw [hfiner] at hlater
          obtain rfl := Threads.Instr.act.inj (List.mem_singleton.mp hlater)
          exact .enqueuesTick wheel
      | some finer =>
          rw [hfiner] at hlater
          obtain rfl := eq_of_mem_setTimer hlater
          exact .setsTick wheel finer
  | fireExpired expired =>
      cases expired with
      | nil => simp [exec] at hlater
      | cons timer rest => exact next_of_mem_fire hlater
  | allocate duration =>
      have hset := (List.mem_cons.mp hlater).resolve_left (by simp)
      obtain rfl := eq_of_mem_setTimer hset
      exact .places duration _
  | cancel timerId =>
      simp only [exec] at hlater
      split_ifs at hlater <;> exact absurd hlater List.not_mem_nil
  | _ => simp [exec] at hlater

/-! ### The new state -/

@[simp]
theorem timers_maintain (hierarchy : HierarchicalTimingWheel n) (wheel : WheelId) (timer : Timer)
    (rest expired : List Timer) :
    (maintain hierarchy wheel timer rest expired).1.timers = hierarchy.timers := by
  unfold maintain
  cases timer.visit hierarchy.removed <;> rfl

inductive Effect [NeZero n] (hierarchy : HierarchicalTimingWheel n) :
    TimerAction → HierarchicalTimingWheel n → Prop where
  | unchanged (action : TimerAction) : Effect hierarchy action hierarchy
  | takes (wheel : WheelId) :
      Effect hierarchy (.takeTick wheel)
        { hierarchy with pool := hierarchy.pool.erase (.onTick wheel) }
  | advances (wheel : WheelId) :
      Effect hierarchy (.advance wheel)
        { hierarchy.setWheel wheel (hierarchy.wheels wheel).advance.1 with
          ticks := Function.update hierarchy.ticks wheel (hierarchy.ticks wheel + 1) }
  | keeps (wheel : WheelId) (timer kept : Timer) (rest expired : List Timer)
      (hvisit : timer.visit hierarchy.removed = .keep kept) :
      Effect hierarchy (.maintenance wheel (timer :: rest) expired)
        (hierarchy.setWheel wheel
          ((hierarchy.wheels wheel).place (hierarchy.wheels wheel).position kept))
  | forgets (wheel : WheelId) (timer : Timer) (rest expired : List Timer) :
      Effect hierarchy (.expire wheel timer rest expired)
        { hierarchy with timers := hierarchy.timers.erase timer.timerId }
  | restarts (wheel : WheelId) :
      Effect hierarchy (.run wheel)
        (hierarchy.setWheel wheel { hierarchy.wheels wheel with stopped := false })
  | enqueues (work : TimerWork) :
      Effect hierarchy (.enqueue work)
        { hierarchy with
          pool := hierarchy.pool ++ [work]
          enqueued := hierarchy.enqueued ++ [work] }
  | inserts (wheel : WheelId) (timer : Timer) :
      Effect hierarchy (.insert wheel timer)
        (hierarchy.setWheel wheel ((hierarchy.wheels wheel).setTimer timer))
  | allocates (duration : TimerDuration) :
      Effect hierarchy (.allocate duration)
        { hierarchy with
          timers := Insert.insert hierarchy.nextId hierarchy.timers
          nextId := hierarchy.nextId + 1 }
  | cancels (timerId : Nat) :
      Effect hierarchy (.cancel timerId)
        { hierarchy with
          timers := hierarchy.timers.erase timerId
          removed := Insert.insert timerId hierarchy.removed }
  | halts (wheel : WheelId) :
      Effect hierarchy (.halt wheel)
        (hierarchy.setWheel wheel { hierarchy.wheels wheel with stopped := true })
  | abortsAll :
      Effect hierarchy .abortAll
        { hierarchy with timers := ∅, removed := hierarchy.removed ∪ hierarchy.timers }

theorem effect_exec [NeZero n] (action : TimerAction) (hierarchy : HierarchicalTimingWheel n) :
    Effect hierarchy action (action.exec hierarchy).1 := by
  cases action with
  | takeTick wheel =>
      simp only [exec]
      split_ifs
      · exact .takes wheel
      · exact .unchanged _
  | advance wheel => exact .advances wheel
  | maintenance wheel rest expired =>
      cases rest with
      | nil => exact .unchanged _
      | cons timer rest =>
          simp only [exec, maintain]
          cases hvisit : timer.visit hierarchy.removed with
          | keep kept => exact .keeps wheel timer kept rest expired hvisit
          | drop => exact .unchanged _
          | expire expiring => exact .unchanged _
  | expire wheel timer rest expired => exact .forgets wheel timer rest expired
  | run wheel =>
      simp only [exec]
      cases wheel.finer with
      | none => exact .restarts wheel
      | some finer => exact .unchanged _
  | fireExpired expired => cases expired <;> exact .unchanged _
  | enqueue work => exact .enqueues work
  | insert wheel timer => exact .inserts wheel timer
  | allocate duration => exact .allocates duration
  | cancel timerId =>
      simp only [exec]
      split_ifs
      · exact .cancels timerId
      · exact .unchanged _
  | halt wheel => exact .halts wheel
  | abortAll => exact .abortsAll
  | onTick wheel => exact .unchanged _

namespace Effect

variable [NeZero n] {hierarchy hierarchy' : HierarchicalTimingWheel n} {action : TimerAction}

variable (heffect : Effect hierarchy action hierarchy')

include heffect

theorem removed_subset : hierarchy.removed ⊆ hierarchy'.removed := by
  cases heffect with
  | cancels timerId => exact Finset.subset_insert timerId hierarchy.removed
  | abortsAll => exact Finset.subset_union_left
  | _ => exact Finset.Subset.refl _

theorem mem_enqueued {work : TimerWork} (hwork : work ∈ hierarchy'.enqueued) :
    work ∈ hierarchy.enqueued ∨ action = .enqueue work := by
  cases heffect with
  | enqueues other =>
      rcases List.mem_append.mp hwork with hold | hnew
      · exact Or.inl hold
      · exact Or.inr (by rw [List.mem_singleton.mp hnew])
  | _ => exact Or.inl hwork

theorem map_cases :
    (∃ duration, action = .allocate duration ∧ hierarchy'.nextId = hierarchy.nextId + 1 ∧
      hierarchy'.timers = Insert.insert hierarchy.nextId hierarchy.timers) ∨
    (hierarchy'.nextId = hierarchy.nextId ∧ hierarchy'.timers ⊆ hierarchy.timers) := by
  cases heffect with
  | allocates duration => exact Or.inl ⟨duration, rfl, rfl, rfl⟩
  | forgets => exact Or.inr ⟨rfl, Finset.erase_subset _ _⟩
  | cancels => exact Or.inr ⟨rfl, Finset.erase_subset _ _⟩
  | abortsAll => exact Or.inr ⟨rfl, Finset.empty_subset _⟩
  | _ => exact Or.inr ⟨rfl, Finset.Subset.refl _⟩

theorem nextId_le : hierarchy.nextId ≤ hierarchy'.nextId := by
  rcases heffect.map_cases with ⟨duration, -, hnext, -⟩ | ⟨hnext, -⟩ <;> omega

theorem ticks_le (id : WheelId) : hierarchy.ticks id ≤ hierarchy'.ticks id := by
  cases heffect with
  | advances wheel =>
      by_cases hid : id = wheel
      · subst hid
        simp
      · simp [hid]
  | _ => exact le_rfl

end Effect

end TimerAction

end Poseidon
