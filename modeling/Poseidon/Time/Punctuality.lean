import Poseidon.Time.Identity

/-!
# When the callback of a timer is enqueued

A timer for at most as many milliseconds as the finest wheel has slots is never early, whatever the
wheels and the other threads do. Two things make the others early. On a wheel with fewer slots than
steps a rotation is not sat out. And the seconds are counted in ticks of the seconds wheel from
where that wheel happens to be, so the first of them may be over at once.
-/

namespace Poseidon

open Threads (Throughout Turn)

namespace TimerAction

def carried : TimerAction → List Timer
  | .maintenance _ rest expired => rest ++ expired
  | .expire _ timer rest expired => timer :: rest ++ expired
  | .fireExpired expired => expired
  | _ => []

theorem ids_of_carried {action : TimerAction} {timer : Timer} (htimer : timer ∈ action.carried) :
    timer.timerId ∈ action.ids := by
  cases action with
  | maintenance wheel rest expired => exact List.mem_map_of_mem htimer
  | expire wheel entry rest expired => exact List.mem_map_of_mem htimer
  | fireExpired expired => exact List.mem_map_of_mem htimer
  | _ => exact absurd htimer List.not_mem_nil

end TimerAction

section Deadline

variable {n : Nat} [NeZero n] (timerId deadline : Nat) (steps : UInt64)

/-- On one wheel, after a number of ticks of the finest one: the timer is at most on the finest
wheel and does not expire before the deadline. -/
def TimingWheel.OnTime (ticks : Nat) (id : WheelId) (wheel : TimingWheel n) : Prop :=
  ∀ slot, ∀ timer ∈ wheel.slots slot, timer.timerId = timerId →
    id = .milliseconds ∧ timer.plan = [⟨steps, .milliseconds⟩] ∧ timer.circle ≤ 0 ∧
      deadline ≤ ticks + ticksUntil wheel.position slot

namespace HierarchicalTimingWheel

structure OnTime (hierarchy : HierarchicalTimingWheel n) : Prop where
  pos : 0 < timerId
  given : timerId < hierarchy.nextId
  wheels : ∀ id, (hierarchy.wheels id).OnTime timerId deadline steps
    (hierarchy.ticks .milliseconds) id
  enqueued : .callback timerId ∈ hierarchy.enqueued → deadline ≤ hierarchy.ticks .milliseconds

structure Due (hierarchy : HierarchicalTimingWheel n) (action : TimerAction) : Prop where
  carried : ∀ timer ∈ action.carried, timer.timerId = timerId →
    timer.plan = [⟨steps, .milliseconds⟩] ∧ timer.circle ≤ 0 ∧
      deadline ≤ hierarchy.ticks .milliseconds
  enqueued : action = .enqueue (.callback timerId) → deadline ≤ hierarchy.ticks .milliseconds
  inserted : ∀ wheel timer, action = .insert wheel timer → timer.timerId = timerId →
    wheel = .milliseconds ∧ timer.plan = [⟨steps, .milliseconds⟩] ∧
      deadline ≤ hierarchy.ticks .milliseconds + steps.toNat

variable {timerId deadline steps} {hierarchy : HierarchicalTimingWheel n} {action : TimerAction}

omit [NeZero n] in
theorem Due.of_ticks_le {hierarchy' : HierarchicalTimingWheel n}
    (hdue : hierarchy.Due timerId deadline steps action)
    (hticks : hierarchy.ticks .milliseconds ≤ hierarchy'.ticks .milliseconds) :
    hierarchy'.Due timerId deadline steps action where
  carried := fun timer htimer hid =>
    let ⟨hplan, hcircle, hle⟩ := hdue.carried timer htimer hid
    ⟨hplan, hcircle, hle.trans hticks⟩
  enqueued := fun haction => (hdue.enqueued haction).trans hticks
  inserted := fun wheel timer haction hid =>
    let ⟨hwheel, hplan, hle⟩ := hdue.inserted wheel timer haction hid
    ⟨hwheel, hplan, hle.trans (Nat.add_le_add_right hticks _)⟩

omit [NeZero n] in
theorem due_of_notMem (hid : timerId ∉ action.ids) :
    hierarchy.Due timerId deadline steps action where
  carried := fun _ htimer heq => absurd (heq ▸ TimerAction.ids_of_carried htimer) hid
  enqueued := fun heq => absurd (heq ▸ List.mem_singleton_self timerId) hid
  inserted := fun _ timer heq htimer =>
    absurd (htimer ▸ heq ▸ List.mem_singleton_self timer.timerId) hid

theorem onTime_setTimer {ticks : Nat} {id : WheelId} {wheel : TimingWheel n} {timer : Timer}
    (hpos : 0 < steps.toNat) (hslots : steps.toNat ≤ n) (hn : n ≤ 2 ^ 61)
    (hwheel : wheel.OnTime timerId deadline steps ticks id)
    (htimer : timer.timerId = timerId → id = .milliseconds ∧
      timer.plan = [⟨steps, .milliseconds⟩] ∧ deadline ≤ ticks + steps.toNat) :
    (wheel.setTimer timer).OnTime timerId deadline steps ticks id := by
  intro slot entry hentry hid
  rcases TimingWheel.mem_slots_place.mp hentry with hold | ⟨rfl, rfl⟩
  · exact hwheel slot entry hold hid
  · obtain ⟨hms, hplan, hle⟩ := htimer hid
    have hdelay : timer.delay = steps := by
      rw [Timer.delay, hplan]
      rfl
    have hzero : (steps.toNat - 1) / n = 0 := Nat.div_eq_of_lt (by omega)
    refine ⟨hms, hplan, ?_, ?_⟩
    · rw [hdelay, TimingWheel.circles_eq hpos (by omega), hzero]
      exact le_rfl
    · rw [TimingWheel.position_setTimer, hdelay, TimingWheel.ticksUntil_slotAfter hpos (by omega),
        Nat.mod_eq_of_lt (by omega)]
      omega

/-- One tick of the finest wheel brings its slots one nearer; what is in the slot it comes to is
taken out. -/
theorem onTime_advance {ticks : Nat} {id : WheelId} {wheel : TimingWheel n}
    (hwheel : wheel.OnTime timerId deadline steps ticks id) :
    wheel.advance.1.OnTime timerId deadline steps (ticks + 1) id := by
  intro slot timer htimer hid
  obtain ⟨hold, hslot⟩ := TimingWheel.mem_slots_advance.mp htimer
  obtain ⟨hms, hplan, hcircle, hle⟩ := hwheel slot timer hold hid
  have hticks := TimingWheel.ticksUntil_add_one hslot
  refine ⟨hms, hplan, hcircle, ?_⟩
  change deadline ≤ ticks + 1 + TimingWheel.ticksUntil (wheel.position + 1) slot
  omega

theorem OnTime.wheels_exec (hpos : 0 < steps.toNat) (hslots : steps.toNat ≤ n) (hn : n ≤ 2 ^ 61)
    (hontime : hierarchy.OnTime timerId deadline steps)
    (hdue : hierarchy.Due timerId deadline steps action) (id : WheelId) :
    ((action.exec hierarchy).1.wheels id).OnTime timerId deadline steps
      ((action.exec hierarchy).1.ticks .milliseconds) id := by
  have hwheels := hontime.wheels
  have heffect := TimerAction.effect_exec action hierarchy
  generalize (action.exec hierarchy).1 = hierarchy' at heffect ⊢
  cases heffect with
  | advances wheel =>
      by_cases hid : id = wheel
      · subst hid
        by_cases hms : id = .milliseconds
        · subst hms
          simpa using onTime_advance (hwheels .milliseconds)
        · intro slot timer htimer htimerId
          have hold : timer ∈ (hierarchy.wheels id).slots slot := by
            rw [setWheel_self] at htimer
            exact (TimingWheel.mem_slots_advance.mp htimer).1
          exact absurd (hwheels id slot timer hold htimerId).1 hms
      · intro slot timer htimer htimerId
        simp only [setWheel_of_ne _ _ hid] at htimer ⊢
        obtain ⟨rfl, hplan, hcircle, hle⟩ := hwheels id slot timer htimer htimerId
        rw [Function.update_of_ne hid]
        exact ⟨rfl, hplan, hcircle, hle⟩
  | keeps wheel timer kept rest expired hvisit =>
      refine forall_setWheel hwheels ?_ id
      intro slot entry hentry hid
      rcases TimingWheel.mem_slots_place.mp hentry with hold | ⟨-, rfl⟩
      · exact hwheels wheel slot entry hold hid
      · -- A timer that is due has no rotation left to sit out.
        obtain ⟨-, hcircle, rfl⟩ := Timer.of_visit_keep hvisit
        obtain ⟨-, hnonpos, -⟩ := hdue.carried timer List.mem_cons_self hid
        omega
  | inserts wheel timer =>
      refine forall_setWheel hwheels ?_ id
      exact onTime_setTimer hpos hslots hn (hwheels wheel) (hdue.inserted wheel timer rfl)
  | restarts wheel =>
      refine forall_setWheel hwheels ?_ id
      exact hwheels wheel
  | halts wheel =>
      refine forall_setWheel hwheels ?_ id
      exact hwheels wheel
  | _ => exact hwheels id

theorem OnTime.due_next (hontime : hierarchy.OnTime timerId deadline steps)
    (hdue : hierarchy.Due timerId deadline steps action) {later : TimerAction}
    (hlater : .act later ∈ (action.exec hierarchy).2) :
    (action.exec hierarchy).1.Due timerId deadline steps later := by
  have hticks := (TimerAction.effect_exec action hierarchy).ticks_le .milliseconds
  -- An action that neither enqueues nor inserts is due as far as the timers it carries are.
  have hcarries : ∀ {later : TimerAction}, (∀ timer ∈ later.carried, timer ∈ action.carried) →
      later ≠ .enqueue (.callback timerId) → (∀ wheel timer, later ≠ .insert wheel timer) →
      (action.exec hierarchy).1.Due timerId deadline steps later := by
    intro later hcarried henqueue hinsert
    refine ⟨fun timer htimer hid => ?_, fun heq => absurd heq henqueue,
      fun wheel timer heq => absurd heq (hinsert wheel timer)⟩
    obtain ⟨hplan, hcircle, hle⟩ := hdue.carried timer (hcarried timer htimer) hid
    exact ⟨hplan, hcircle, hle.trans hticks⟩
  cases TimerAction.next_of_mem_exec hlater with
  | ticks wheel => exact hcarries (by simp [TimerAction.carried]) (by simp) (by simp)
  | advances wheel => exact hcarries (by simp [TimerAction.carried]) (by simp) (by simp)
  | reruns wheel expired => exact hcarries (by simp [TimerAction.carried]) (by simp) (by simp)
  | enqueuesTick wheel => exact hcarries (by simp [TimerAction.carried]) (by simp) (by simp)
  | passes wheel timer rest expired =>
      exact hcarries (fun entry hentry => List.mem_cons_of_mem _ hentry) (by simp) (by simp)
  | fires wheel expired => exact hcarries (fun entry hentry => hentry) (by simp) (by simp)
  | goesOn timer rest =>
      exact hcarries (fun entry hentry => List.mem_cons_of_mem _ hentry) (by simp) (by simp)
  | forgets wheel timer rest expired =>
      refine hcarries (fun entry hentry => ?_) (by simp) (by simp)
      simpa [TimerAction.carried, or_comm, or_left_comm] using hentry
  | visits wheel =>
      refine ⟨fun timer htimer hid => ?_, by simp, by simp⟩
      have hslot : timer ∈ (hierarchy.wheels wheel).slots ((hierarchy.wheels wheel).position + 1) :=
        by simpa [TimerAction.carried, TimingWheel.advance] using htimer
      obtain ⟨rfl, hplan, hcircle, hle⟩ := hontime.wheels wheel _ timer hslot hid
      rw [TimingWheel.ticksUntil_eq_one_iff.mpr rfl] at hle
      exact ⟨hplan, hcircle, by simpa [TimerAction.exec] using hle⟩
  | expires wheel timer expiring rest expired hvisit =>
      refine ⟨fun entry hentry hid => ?_, by simp, by simp⟩
      rcases List.mem_cons.mp hentry with rfl | hrest
      · obtain ⟨-, -, circle, hnonpos, rfl⟩ := Timer.of_visit_expire hvisit
        obtain ⟨hplan, -, hle⟩ := hdue.carried timer List.mem_cons_self hid
        exact ⟨hplan, hnonpos, hle.trans hticks⟩
      · obtain ⟨hplan, hcircle, hle⟩ := hdue.carried entry (List.mem_cons_of_mem _ hrest) hid
        exact ⟨hplan, hcircle, hle.trans hticks⟩
  | setsTick wheel finer =>
      refine ⟨by simp [TimerAction.carried], by simp, fun other timer heq hid => ?_⟩
      obtain ⟨rfl, rfl⟩ := TimerAction.insert.inj heq
      exact absurd hid hontime.pos.ne
  | enqueues timer rest hlive =>
      refine ⟨by simp [TimerAction.carried], fun heq => ?_, by simp⟩
      have hid : timerId ∈ (TimerAction.enqueue timer.work).ids :=
        heq ▸ List.mem_singleton_self timerId
      have hcarried := hdue.carried timer List.mem_cons_self
        (TimerAction.eq_timerId_of_mem_ids_work hid).symm
      exact hcarried.2.2.trans hticks
  | cascades timer rest step rest' hplan =>
      refine ⟨by simp [TimerAction.carried], by simp, fun other entry heq hid => ?_⟩
      obtain ⟨rfl, rfl⟩ := TimerAction.insert.inj heq
      -- The only step of the plan is over.
      rw [(hdue.carried timer List.mem_cons_self hid).1] at hplan
      exact absurd hplan.symm (List.cons_ne_nil _ _)
  | places duration wheel =>
      refine ⟨by simp [TimerAction.carried], by simp, fun other timer heq hid => ?_⟩
      obtain ⟨rfl, rfl⟩ := TimerAction.insert.inj heq
      exact absurd hid hontime.given.ne'

theorem OnTime.exec (hpos : 0 < steps.toNat) (hslots : steps.toNat ≤ n) (hn : n ≤ 2 ^ 61)
    (hontime : hierarchy.OnTime timerId deadline steps)
    (hdue : hierarchy.Due timerId deadline steps action) :
    (action.exec hierarchy).1.OnTime timerId deadline steps ∧
    (∀ later, .act later ∈ (action.exec hierarchy).2 →
      (action.exec hierarchy).1.Due timerId deadline steps later) ∧
    ∀ other, hierarchy.Due timerId deadline steps other →
      (action.exec hierarchy).1.Due timerId deadline steps other := by
  have heffect := TimerAction.effect_exec action hierarchy
  have hticks := heffect.ticks_le .milliseconds
  refine ⟨⟨hontime.pos, hontime.given.trans_le heffect.nextId_le,
    hontime.wheels_exec hpos hslots hn hdue, fun hwork => ?_⟩,
    fun later hlater => hontime.due_next hdue hlater, fun other hother => hother.of_ticks_le hticks⟩
  rcases heffect.mem_enqueued hwork with hold | haction
  · exact (hontime.enqueued hold).trans hticks
  · exact (hdue.enqueued haction).trans hticks

end HierarchicalTimingWheel

end Deadline

/-- A duration of some milliseconds that one turn of a wheel of `n` slots takes in. -/
structure TimerDuration.Fits (duration : TimerDuration) (n : Nat) : Prop where
  coarse : duration.days = 0 ∧ duration.hours = 0 ∧ duration.minutes = 0 ∧ duration.seconds = 0
  pos : 0 < duration.milliseconds.toNat
  second : duration.milliseconds.toNat ≤ 1000
  slots : duration.milliseconds.toNat ≤ n

namespace TimerDuration.Fits

variable {duration : TimerDuration} {n : Nat}

theorem plan_rectify (hfits : duration.Fits n) :
    duration.rectify.plan = [⟨duration.milliseconds, .milliseconds⟩] := by
  obtain ⟨⟨hdays, hhours, hminutes, hseconds⟩, -, hsecond, -⟩ := hfits
  have hle : ¬1000 < duration.milliseconds := by
    rw [UInt64.lt_iff_toNat_lt]
    exact Nat.not_lt.mpr hsecond
  simp [rectify, plan, hdays, hhours, hminutes, hseconds, hle]

theorem total_eq (hfits : duration.Fits n) : duration.total = duration.milliseconds.toNat := by
  obtain ⟨⟨hdays, hhours, hminutes, hseconds⟩, -⟩ := hfits
  simp [total, hdays, hhours, hminutes, hseconds]

end TimerDuration.Fits

namespace TimerSystem

variable {n : Nat} [NeZero n]

theorem onTime_run {timerId deadline : Nat} {steps : UInt64} (hpos : 0 < steps.toNat)
    (hslots : steps.toNat ≤ n) (hn : n ≤ 2 ^ 61) {s : TimerSystem n}
    (hs : Throughout (HierarchicalTimingWheel.OnTime timerId deadline steps)
      (HierarchicalTimingWheel.Due timerId deadline steps) s) (turns : List (Turn TimerCall)) :
    (s.run turns).shared.OnTime timerId deadline steps := by
  refine (Runs.invariant _ (Throughout (HierarchicalTimingWheel.OnTime timerId deadline steps)
    (HierarchicalTimingWheel.Due timerId deadline steps)) (fun s turn hs => ?_) hs).1
  refine Threads.throughout_step ?_ ?_ hs turn
  · intro call hierarchy action _ haction
    apply HierarchicalTimingWheel.due_of_notMem
    rw [call.ids_program action haction]
    exact List.not_mem_nil
  · rintro thread action hierarchy hierarchy' next hexec hontime hdue
    obtain ⟨rfl, rfl⟩ := Prod.mk.inj (Option.some.inj hexec)
    exact hontime.exec hpos hslots hn hdue

/-- **Never early.** From any state of the wheels, a timer that is set for at most as many
milliseconds as there are slots is enqueued only after that many ticks of the finest wheel. -/
theorem enqueued_after_total {s : TimerSystem n}
    (hs : Throughout HierarchicalTimingWheel.Fresh HierarchicalTimingWheel.Known s)
    {duration : TimerDuration} (hfits : duration.Fits n) (hn : n ≤ 2 ^ 61) {thread : Nat}
    {rest : List TimerInstr} (htodo : s.todo thread = .act (.allocate duration) :: rest)
    {turns : List (Turn TimerCall)}
    (henqueued : .callback s.shared.nextId ∈ (s.run (.go thread :: turns)).shared.enqueued) :
    s.shared.ticks .milliseconds + duration.total ≤
      (s.run (.go thread :: turns)).shared.ticks .milliseconds := by
  obtain ⟨hfresh, hknown⟩ := hs
  have hunknown : ∀ {other action}, .act action ∈ s.todo other → s.shared.nextId ∉ action.ids :=
    fun haction hid => (hknown _ _ haction _ hid).false
  have hset : Throughout
      (HierarchicalTimingWheel.OnTime s.shared.nextId
        (s.shared.ticks .milliseconds + duration.total) duration.milliseconds)
      (HierarchicalTimingWheel.Due s.shared.nextId
        (s.shared.ticks .milliseconds + duration.total) duration.milliseconds)
      (Threads.step (timerCode n) s (.go thread)) := by
    simp only [Threads.step, Threads.go, htodo, timerCode, TimerAction.exec, hfits.plan_rectify,
      hfits.total_eq]
    refine ⟨⟨hfresh.pos, Nat.lt_succ_self _, fun id slot timer htimer hid => ?_, fun hwork => ?_⟩,
      fun other action haction => ?_⟩
    · exact absurd hid (hfresh.slots id slot timer htimer).ne
    · exact absurd rfl (hfresh.enqueued _ hwork).ne
    · rcases Threads.mem_or_mem_of_mem_update haction with hnew | hold
      · rcases List.mem_append.mp hnew with hplaced | hrest
        · have hinsert := (List.mem_cons.mp hplaced).resolve_left (by simp)
          obtain rfl := TimerAction.eq_of_mem_setTimer hinsert
          refine ⟨by simp [TimerAction.carried], by simp, fun wheel timer heq _ => ?_⟩
          obtain ⟨rfl, rfl⟩ := TimerAction.insert.inj heq
          exact ⟨rfl, rfl, le_rfl⟩
        · exact HierarchicalTimingWheel.due_of_notMem
            (hunknown (htodo ▸ List.mem_cons_of_mem _ hrest))
      · exact HierarchicalTimingWheel.due_of_notMem (hunknown hold)
  exact (onTime_run hfits.pos hfits.slots hn hset turns).enqueued henqueued

/-- The finest wheel is started and a thread is about to set a timer for two milliseconds. -/
def settingTwo (n : Nat) [NeZero n] : TimerSystem n :=
  (start n).run [.call 0 .run, .go 0, .go 0, .call 1 (.setTimer ⟨0, 0, 0, 0, 2⟩), .go 1]

def tickOf (wheel : WheelId) : List (Turn TimerCall) :=
  .call 2 (.tick wheel) :: List.replicate 17 (.go 2)

theorem enqueued_after_two :
    .callback 1 ∈ ((settingTwo 2).run (.go 1 :: (List.replicate 4 (.go 1) ++
      tickOf .milliseconds ++ tickOf .milliseconds))).shared.enqueued ∧
    0 + 2 ≤ ((settingTwo 2).run (.go 1 :: (List.replicate 4 (.go 1) ++
      tickOf .milliseconds ++ tickOf .milliseconds))).shared.ticks .milliseconds := by
  have henqueued : .callback 1 ∈ ((settingTwo 2).run (.go 1 :: (List.replicate 4 (.go 1) ++
      tickOf .milliseconds ++ tickOf .milliseconds))).shared.enqueued := by
    decide +kernel
  have hfits : TimerDuration.Fits ⟨0, 0, 0, 0, 2⟩ 2 :=
    ⟨⟨rfl, rfl, rfl, rfl⟩, by decide, by decide, by decide⟩
  exact ⟨henqueued, @enqueued_after_total 2 _ (settingTwo 2) (fresh_run _) _ hfits (by decide) 1 []
    rfl _ henqueued⟩

/-- The wheels of 1000 slots, 999 milliseconds after their start: the tick of the seconds comes with
the next one. -/
def beforeSecond : TimerSystem 1000 where
  shared :=
    { HierarchicalTimingWheel.create 1000 with
      wheels := Function.update (fun _ => .create 1000) .milliseconds
        { position := 998
          slots := Function.update (fun _ => []) 999
            [TimerAction.tickTimer .seconds .milliseconds]
          stopped := false }
      pool := [.onTick .milliseconds]
      ticks := Function.update (fun _ => 0) .milliseconds 999 }
  holder := fun _ => none
  todo := fun _ => []

/-- On one slot, two milliseconds are over after one tick. And a timer for a second that is set just
before the tick of the seconds is enqueued after one millisecond. -/
theorem enqueued_early :
    (.callback 1 ∈ ((settingTwo 1).run (List.replicate 5 (.go 1) ++
        tickOf .milliseconds)).shared.enqueued ∧
      ((settingTwo 1).run (List.replicate 5 (.go 1) ++
        tickOf .milliseconds)).shared.ticks .milliseconds = 1) ∧
    .callback 1 ∈ (beforeSecond.run (.call 1 (.setTimer ⟨0, 0, 0, 1, 0⟩) ::
      List.replicate 6 (.go 1) ++ tickOf .milliseconds ++ tickOf .seconds)).shared.enqueued ∧
    (beforeSecond.run (.call 1 (.setTimer ⟨0, 0, 0, 1, 0⟩) ::
      List.replicate 6 (.go 1) ++ tickOf .milliseconds ++
        tickOf .seconds)).shared.ticks .milliseconds = 999 + 1 := by
  refine ⟨⟨?_, ?_⟩, ?_, ?_⟩ <;> decide +kernel

end TimerSystem

end Poseidon
