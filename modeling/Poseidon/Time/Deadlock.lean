import Poseidon.Time.Hierarchy

/-!
# Lock order of the timing wheel

A tick holds the lock of its wheel while the map forgets an expired timer, and asks for the lock of
the hierarchy there. `hierarchical_timing_wheel_stop` holds the lock of the hierarchy while it goes
through the locks of the wheels. These two orders are the only way to a deadlock.
-/

namespace Poseidon

open Threads (Deadlocked Disciplined Leads Turn calls goes)

namespace TimerSystem

variable {n : Nat} [NeZero n]

/-- The locks a thread may ask for, where `stops` allows what only `stop` does. -/
def MayLock (stops : Prop) (held : List TimerLock) (lock : TimerLock) : Prop :=
  held = [] ∨ (∃ wheel, held = [.wheel wheel] ∧ lock = .hierarchical) ∨
    (stops ∧ held = [.hierarchical] ∧ ∃ wheel, lock = .wheel wheel)

/-- The locks around each action, before it and after all it goes on with. -/
def LockSpec : TimerAction → List TimerLock → List TimerLock → Prop
  | .advance wheel, before, after => before = [.wheel wheel] ∧ after = []
  | .maintenance wheel _ _, before, after => before = [.wheel wheel] ∧ after = []
  | .expire wheel _ _ _, before, after => before = [.hierarchical, .wheel wheel] ∧ after = []
  | .allocate _, before, after => before = [.hierarchical] ∧ after = []
  | .insert _ _, before, after => before = after
  | .cancel _, before, after => before = after
  | .halt _, before, after => before = after
  | .abortAll, before, after => before = after
  | _, before, after => before = [] ∧ after = []

section Discipline

variable {stops : Prop}

theorem leads_setTimer (wheel : WheelId) (timer : Timer) :
    Leads (MayLock stops) LockSpec [] (TimerAction.setTimer wheel timer) [] := by
  simp [TimerAction.setTimer, Leads, MayLock, LockSpec]

omit [NeZero n] in
theorem leads_maintain (hierarchy : HierarchicalTimingWheel n) (wheel : WheelId) (timer : Timer)
    (rest expired : List Timer) :
    Leads (MayLock stops) LockSpec [.wheel wheel]
      (TimerAction.maintain hierarchy wheel timer rest expired).2 [] := by
  unfold TimerAction.maintain
  cases timer.visit hierarchy.removed <;> simp [Leads, MayLock, LockSpec]

omit [NeZero n] in
theorem leads_fire (hierarchy : HierarchicalTimingWheel n) (timer : Timer) (rest : List Timer) :
    Leads (MayLock stops) LockSpec [] (TimerAction.fire hierarchy timer rest) [] := by
  have hrest : Leads (MayLock stops) LockSpec [] [.act (.fireExpired rest)] [] := by
    simp [Leads, LockSpec]
  unfold TimerAction.fire
  split_ifs with hremoved
  · exact hrest
  · split
    · simp [Leads, LockSpec]
    · exact (leads_setTimer _ _).append hrest

theorem leads_exec {action : TimerAction} {hierarchy : HierarchicalTimingWheel n}
    {before after : List TimerLock} (hspec : LockSpec action before after) :
    Leads (MayLock stops) LockSpec before (action.exec hierarchy).2 after := by
  cases action with
  | takeTick wheel =>
      obtain ⟨rfl, rfl⟩ := hspec
      simp only [TimerAction.exec]
      split_ifs <;> simp [Leads, LockSpec]
  | onTick wheel =>
      obtain ⟨rfl, rfl⟩ := hspec
      simp only [TimerAction.exec]
      split_ifs <;> simp [Leads, MayLock, LockSpec]
  | advance wheel =>
      obtain ⟨rfl, rfl⟩ := hspec
      simp [TimerAction.exec, Leads, LockSpec]
  | maintenance wheel rest expired =>
      obtain ⟨rfl, rfl⟩ := hspec
      cases rest with
      | nil =>
          simp only [TimerAction.exec]
          split_ifs <;> simp [Leads, LockSpec]
      | cons timer rest => exact leads_maintain hierarchy wheel timer rest expired
  | expire wheel timer rest expired =>
      obtain ⟨rfl, rfl⟩ := hspec
      simp [TimerAction.exec, Leads, LockSpec]
  | run wheel =>
      obtain ⟨rfl, rfl⟩ := hspec
      simp only [TimerAction.exec]
      cases wheel.finer with
      | none => simp [Leads, LockSpec]
      | some finer => exact leads_setTimer finer _
  | fireExpired expired =>
      obtain ⟨rfl, rfl⟩ := hspec
      cases expired with
      | nil => simp [TimerAction.exec, Leads, MayLock]
      | cons timer rest => exact leads_fire hierarchy timer rest
  | enqueue work =>
      obtain ⟨rfl, rfl⟩ := hspec
      rfl
  | insert wheel timer => exact hspec
  | allocate duration =>
      obtain ⟨rfl, rfl⟩ := hspec
      exact ⟨[], rfl, leads_setTimer _ _⟩
  | cancel timerId =>
      simp only [TimerAction.exec]
      split_ifs <;> exact hspec
  | halt wheel => exact hspec
  | abortAll => exact hspec

theorem leads_program {call : TimerCall} (hcall : stops ∨ call ≠ .stop) :
    Leads (MayLock stops) LockSpec [] call.program [] := by
  cases call with
  | stop =>
      have hstops : stops := hcall.resolve_right fun hne => hne rfl
      simp [TimerCall.program, TimerCall.wheels, TimerCall.stopWheel, Leads, MayLock, LockSpec,
        hstops]
  | tick wheel => simp [TimerCall.program, Leads, LockSpec]
  | run => simp [TimerCall.program, TimerCall.wheels, Leads, LockSpec]
  | setTimer duration => simp [TimerCall.program, Leads, MayLock, LockSpec]
  | cancelTimer timerId => simp [TimerCall.program, Leads, MayLock, LockSpec]

end Discipline

/-! ### Runs -/

theorem disciplined_start (stops : Prop) :
    Disciplined (MayLock stops) LockSpec (start n) fun _ => [] where
  leads := fun _ => rfl
  holds := fun _ _ => iff_of_false (Option.some_ne_none _).symm List.not_mem_nil
  nodup := fun _ => List.nodup_nil

/-- A thread that holds the lock of the hierarchy waits for the lock of a wheel, whose holder waits
for the lock of the hierarchy. -/
def Entangled (s : TimerSystem n) (stopper ticker : Nat) (wheel : WheelId) : Prop :=
  s.holder .hierarchical = some stopper ∧
    (∃ rest, s.todo stopper = .lock (.wheel wheel) :: rest) ∧
    s.holder (.wheel wheel) = some ticker ∧
    ∃ rest, s.todo ticker = .lock .hierarchical :: rest

omit [NeZero n] in
theorem deadlocked_of_entangled {s : TimerSystem n} {stopper ticker : Nat} {wheel : WheelId}
    (hs : s.Entangled stopper ticker wheel) : Deadlocked s := by
  obtain ⟨hhierarchical, ⟨rest, hstopper⟩, hwheel, rest', hticker⟩ := hs
  have hwaits : Threads.Waits s stopper ticker := ⟨_, rest, hstopper, hwheel⟩
  have hback : Threads.Waits s ticker stopper := ⟨_, rest', hticker, hhierarchical⟩
  exact ⟨stopper, .head hwaits (.single hback)⟩

omit [NeZero n] in
/-- From a thread of a cycle that holds the lock of the hierarchy, the next thread closes it. -/
theorem entangled_of_cycle {stops : Prop} {s : TimerSystem n} {held : Nat → List TimerLock}
    (hs : Disciplined (MayLock stops) LockSpec s held) {stopper : Nat}
    (hcycle : Relation.TransGen (Threads.Waits s) stopper stopper)
    (hholds : TimerLock.hierarchical ∈ held stopper) :
    stops ∧ ∃ ticker wheel, s.Entangled stopper ticker wheel := by
  obtain ⟨lock, rest, ticker, htodo, hticker, hmem, hmay, hne, hnext⟩ := hs.asks_of_cycle hcycle
  rcases hmay with hnone | ⟨wheel, hheld, -⟩ | ⟨hstops, -, wheel, rfl⟩
  · exact absurd hnone hne
  · rw [hheld] at hholds
    exact absurd hholds (by simp)
  · obtain ⟨lock', rest', last, htodo', hlast, -, hmay', -, -⟩ := hs.asks_of_cycle hnext
    rcases hmay' with hnone | ⟨wheel', -, rfl⟩ | ⟨-, hheld, -⟩
    · exact absurd hnone (List.ne_nil_of_mem hmem)
    · exact ⟨hstops, ticker, wheel, (hs.holds _ _).mpr hholds, ⟨rest, htodo⟩, hticker,
        ⟨rest', htodo'⟩⟩
    · rw [hheld] at hmem
      exact absurd hmem (by simp)

omit [NeZero n] in
theorem exists_entangled_of_deadlocked {stops : Prop} {s : TimerSystem n}
    {held : Nat → List TimerLock} (hs : Disciplined (MayLock stops) LockSpec s held)
    (hdeadlocked : Deadlocked s) :
    stops ∧ ∃ stopper ticker wheel, s.Entangled stopper ticker wheel := by
  obtain ⟨thread, hcycle⟩ := hdeadlocked
  obtain ⟨lock, -, next, -, -, hmem, hmay, hne, hnext⟩ := hs.asks_of_cycle hcycle
  rcases hmay with hnone | ⟨wheel, -, rfl⟩ | ⟨-, hheld, -⟩
  · exact absurd hnone hne
  · obtain ⟨hstops, hentangled⟩ := entangled_of_cycle hs hnext hmem
    exact ⟨hstops, next, hentangled⟩
  · obtain ⟨hstops, hentangled⟩ := entangled_of_cycle hs hcycle (hheld ▸ List.mem_singleton_self _)
    exact ⟨hstops, thread, hentangled⟩

theorem exists_disciplined_run {stops : Prop} {turns : List (Turn TimerCall)}
    (hstops : stops ∨ ∀ thread, .call thread .stop ∉ turns) :
    ∃ held, Disciplined (MayLock stops) LockSpec ((start n).run turns) held := by
  let ok : TimerSystem n → Turn TimerCall → Prop := fun _ turn =>
    stops ∨ ∀ thread, turn ≠ .call thread .stop
  have hmeets : Runs.Meets (Threads.step (timerCode n)) ok (start n) turns :=
    Runs.meets_of_forall _ fun _ hmem _ =>
      hstops.imp_right fun hnone thread hturn => hnone thread (hturn ▸ hmem)
  refine @Runs.invariant_of_meets _ _ _ ok
    (fun s => ∃ held, Disciplined (MayLock stops) LockSpec s held) ?_ turns _
    ⟨_, disciplined_start stops⟩ hmeets
  rintro s turn ⟨held, hs⟩ hok
  refine hs.step ?_ ?_
  · rintro thread action hierarchy hierarchy' next before after hexec hspec
    obtain rfl : (action.exec hierarchy).2 = next :=
      congrArg Prod.snd (Option.some.inj hexec)
    exact leads_exec hspec
  · rintro thread call rfl
    exact leads_program (hok.imp_right fun hne hstop => hne thread (by rw [hstop]))

/-- **Deadlock.** Threads wait for each other in a circle exactly if a thread that holds the lock of
the hierarchy waits for a wheel that a tick holds, while that tick waits for the lock of the
hierarchy. As long as `hierarchical_timing_wheel_stop` is not called this does not happen. -/
theorem deadlocked_run_iff (turns : List (Turn TimerCall)) :
    (Deadlocked ((start n).run turns) ↔
      ∃ stopper ticker wheel, ((start n).run turns).Entangled stopper ticker wheel) ∧
    ((∀ thread, .call thread .stop ∉ turns) → ¬Deadlocked ((start n).run turns)) := by
  constructor
  · constructor
    · intro hdeadlocked
      obtain ⟨held, hs⟩ := @exists_disciplined_run n _ True turns (Or.inl trivial)
      exact (exists_entangled_of_deadlocked hs hdeadlocked).2
    · rintro ⟨stopper, ticker, wheel, hentangled⟩
      exact deadlocked_of_entangled hentangled
  · intro hnone hdeadlocked
    obtain ⟨held, hs⟩ := @exists_disciplined_run n _ False turns (Or.inr hnone)
    exact (exists_entangled_of_deadlocked hs hdeadlocked).1

/-- The finest wheel is started, a timer is set for the next millisecond, and a worker runs the tick
up to the point where the map has to forget the timer. -/
def tickAtMap : List (Turn TimerCall) :=
  calls 0 TimerCall.run 2 ++ calls 1 (TimerCall.setTimer ⟨0, 0, 0, 0, 1⟩) 6 ++
    calls 2 (TimerCall.tick .milliseconds) 5

theorem not_deadlocked_tickAtMap : ¬Deadlocked ((start 1).run tickAtMap) := by
  have hnone : ∀ thread, .call thread .stop ∉ tickAtMap := by
    simp [tickAtMap, calls, goes]
  exact (@deadlocked_run_iff 1 _ tickAtMap).2 hnone

/-- A thread that now stops the wheels and the tick wait for each other. -/
theorem deadlocked_stop_tickAtMap :
    ((start 1).run (tickAtMap ++ [.call 3 .stop, .go 3])).Entangled 3 2 .milliseconds ∧
    Deadlocked ((start 1).run (tickAtMap ++ [.call 3 .stop, .go 3])) := by
  have hentangled :
      ((start 1).run (tickAtMap ++ [.call 3 .stop, .go 3])).Entangled 3 2 .milliseconds := by
    refine ⟨by decide +kernel, ⟨_, by rfl⟩, by decide +kernel, ⟨_, by rfl⟩⟩
  exact ⟨hentangled, deadlocked_of_entangled hentangled⟩

end TimerSystem

end Poseidon
