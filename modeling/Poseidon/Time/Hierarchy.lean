import Poseidon.Lib.Threads
import Poseidon.Time.Wheel

/-!
# The hierarchical timing wheel and its threads

Five wheels, from milliseconds to days. The tick of a coarser wheel is itself a timer on the next
finer one; the finest one is driven by a work item that each tick enqueues again. A timer for a
longer time goes through the wheels of its plan from the coarsest to the finest.

Worker threads run ticks, and any thread may set a timer, cancel one or stop everything. Each wheel
has a lock for its slots, the hierarchy has one for the map of the timers. A step of the model is
what happens between two points at which another thread can see or change something.
-/

namespace Poseidon

open Threads (Instr)

namespace WheelId

/-- `wheel->wheel`, the wheel whose timers drive this one. -/
def finer : WheelId → Option WheelId
  | .milliseconds => none
  | .seconds => some .milliseconds
  | .minutes => some .seconds
  | .hours => some .minutes
  | .days => some .hours

def interval : WheelId → UInt64
  | .milliseconds => 1
  | .seconds => 1000
  | .minutes => 60
  | .hours => 60
  | .days => 24

end WheelId

/-- `timer_duration_t`. -/
structure TimerDuration where
  days : UInt64
  hours : UInt64
  minutes : UInt64
  seconds : UInt64
  milliseconds : UInt64
deriving DecidableEq, Repr

namespace TimerDuration

/-- `timer_duration_rectify`. -/
def rectify (duration : TimerDuration) : TimerDuration :=
  let duration :=
    if 1000 < duration.milliseconds then
      { duration with
        seconds := duration.seconds + duration.milliseconds / 1000
        milliseconds := duration.milliseconds % 1000 }
    else duration
  let duration :=
    if 60 < duration.seconds then
      { duration with
        minutes := duration.minutes + duration.seconds / 60
        seconds := duration.seconds % 60 }
    else duration
  let duration :=
    if 60 < duration.minutes then
      { duration with
        hours := duration.hours + duration.minutes / 60
        minutes := duration.minutes % 60 }
    else duration
  if 24 < duration.hours then
    { duration with
      days := duration.days + duration.hours / 24
      hours := duration.hours % 24 }
  else duration

/-- The steps of a timer, from the coarsest wheel with a nonzero part on. -/
def plan (duration : TimerDuration) : List PlanStep :=
  let milliseconds := [⟨duration.milliseconds, .milliseconds⟩]
  let seconds := ⟨duration.seconds, .seconds⟩ :: milliseconds
  let minutes := ⟨duration.minutes, .minutes⟩ :: seconds
  let hours := ⟨duration.hours, .hours⟩ :: minutes
  if 0 < duration.days then ⟨duration.days, .days⟩ :: hours
  else if 0 < duration.hours then hours
  else if 0 < duration.minutes then minutes
  else if 0 < duration.seconds then seconds
  else milliseconds

def total (duration : TimerDuration) : Nat :=
  (((duration.days.toNat * 24 + duration.hours.toNat) * 60 + duration.minutes.toNat) * 60 +
    duration.seconds.toNat) * 1000 + duration.milliseconds.toNat

end TimerDuration

/-- An item of the work pool: a tick of a wheel, or the callback of a timer. -/
inductive TimerWork where
  | onTick (wheel : WheelId)
  | callback (timerId : Nat)
deriving DecidableEq, Repr

inductive TimerLock where
  | hierarchical
  | wheel (wheel : WheelId)
deriving DecidableEq, Repr

/-- `hierarchical_timing_wheel_t` with the pool it enqueues to. `timers` are the ids in the map and
`removed` those of the timers with the flag of that name. What was enqueued so far and the number of
ticks of each wheel are recorded. -/
structure HierarchicalTimingWheel (n : Nat) where
  wheels : WheelId → TimingWheel n
  timers : Finset Nat
  nextId : Nat
  removed : Finset Nat
  pool : List TimerWork
  enqueued : List TimerWork
  ticks : WheelId → Nat

/-- The parts the functions of the timing wheel are cut into. -/
inductive TimerAction where
  -- A worker takes the tick of a wheel from the pool.
  | takeTick (wheel : WheelId)
  -- `timing_wheel_on_tick`.
  | onTick (wheel : WheelId)
  -- The position moves on.
  | advance (wheel : WheelId)
  -- `timing_wheel_maintenance` with the rest of the slot and the expired timers so far.
  | maintenance (wheel : WheelId) (rest expired : List Timer)
  -- The map forgets a timer that expires.
  | expire (wheel : WheelId) (timer : Timer) (rest expired : List Timer)
  -- `timing_wheel_run`.
  | run (wheel : WheelId)
  -- `timing_wheel_fire_expired` with the rest of the expired list.
  | fireExpired (expired : List Timer)
  -- `work_pool_enqueue`.
  | enqueue (work : TimerWork)
  -- `timing_wheel_set_timer` under the lock of the wheel.
  | insert (wheel : WheelId) (timer : Timer)
  -- `hierarchical_timing_wheel_set_timer` under the lock of the hierarchy, and its plan.
  | allocate (duration : TimerDuration)
  -- `hierarchical_timing_wheel_cancel_timer` under the lock.
  | cancel (timerId : Nat)
  -- `timing_wheel_stop` under the lock of the wheel.
  | halt (wheel : WheelId)
  -- The last part of `hierarchical_timing_wheel_stop`.
  | abortAll
deriving DecidableEq

abbrev TimerInstr := Instr TimerLock TimerAction

namespace TimerAction

/-- `timing_wheel_set_timer`. -/
def setTimer (wheel : WheelId) (timer : Timer) : List TimerInstr :=
  [.lock (.wheel wheel), .act (.insert wheel timer), .unlock (.wheel wheel)]

def tickTimer (wheel finer : WheelId) : Timer :=
  ⟨0, [⟨wheel.interval, finer⟩], 0, .onTick wheel⟩

end TimerAction

def Timer.work (timer : Timer) : TimerWork :=
  match timer.callback with
  | .user => .callback timer.timerId
  | .onTick wheel => .onTick wheel

namespace HierarchicalTimingWheel

variable {n : Nat} [NeZero n]

def setWheel (hierarchy : HierarchicalTimingWheel n) (id : WheelId) (wheel : TimingWheel n) :
    HierarchicalTimingWheel n :=
  { hierarchy with wheels := Function.update hierarchy.wheels id wheel }

/-- `hierarchical_timing_wheel_create`. -/
def create (n : Nat) [NeZero n] : HierarchicalTimingWheel n where
  wheels := fun _ => .create n
  timers := ∅
  nextId := 1
  removed := ∅
  pool := []
  enqueued := []
  ticks := fun _ => 0

end HierarchicalTimingWheel

namespace TimerAction

variable {n : Nat} [NeZero n]

/-- One turn of the loop of `timing_wheel_maintenance`. -/
def maintain (hierarchy : HierarchicalTimingWheel n) (wheel : WheelId) (timer : Timer)
    (rest expired : List Timer) : HierarchicalTimingWheel n × List TimerInstr :=
  match timer.visit hierarchy.removed with
  | .drop => (hierarchy, [.act (.maintenance wheel rest expired)])
  | .keep timer =>
      (hierarchy.setWheel wheel
        ((hierarchy.wheels wheel).place (hierarchy.wheels wheel).position timer),
        [.act (.maintenance wheel rest expired)])
  | .expire timer => (hierarchy, [.lock .hierarchical, .act (.expire wheel timer rest expired)])

/-- One turn of the loop of `timing_wheel_fire_expired`: on to the next step of the plan that is not
zero, or to the pool. -/
def fire (hierarchy : HierarchicalTimingWheel n) (timer : Timer) (rest : List Timer) :
    List TimerInstr :=
  if timer.timerId ∈ hierarchy.removed then
    [.act (.fireExpired rest)]
  else
    match timer.plan.tail.dropWhile (·.delay == 0) with
    | [] => [.act (.enqueue timer.work), .act (.fireExpired rest)]
    | next :: steps =>
        setTimer next.wheel { timer with plan := next :: steps } ++ [.act (.fireExpired rest)]

def exec : TimerAction → HierarchicalTimingWheel n → HierarchicalTimingWheel n × List TimerInstr
  | .takeTick wheel, hierarchy =>
      if .onTick wheel ∈ hierarchy.pool then
        ({ hierarchy with pool := hierarchy.pool.erase (.onTick wheel) }, [.act (.onTick wheel)])
      else
        (hierarchy, [])
  | .onTick wheel, hierarchy =>
      (hierarchy,
        if (hierarchy.wheels wheel).stopped then []
        else [.lock (.wheel wheel), .act (.advance wheel)])
  | .advance wheel, hierarchy =>
      ({ hierarchy.setWheel wheel (hierarchy.wheels wheel).advance.1 with
          ticks := Function.update hierarchy.ticks wheel (hierarchy.ticks wheel + 1) },
        [.act (.maintenance wheel (hierarchy.wheels wheel).advance.2 [])])
  | .maintenance wheel [] expired, hierarchy =>
      (hierarchy, .unlock (.wheel wheel) :: .act (.run wheel) ::
        (if expired = [] then [] else [.act (.fireExpired expired)]))
  | .maintenance wheel (timer :: rest) expired, hierarchy =>
      maintain hierarchy wheel timer rest expired
  | .expire wheel timer rest expired, hierarchy =>
      ({ hierarchy with timers := hierarchy.timers.erase timer.timerId },
        [.unlock .hierarchical, .act (.maintenance wheel rest (expired ++ [timer]))])
  | .run wheel, hierarchy =>
      match wheel.finer with
      | none =>
          (hierarchy.setWheel wheel { hierarchy.wheels wheel with stopped := false },
            [.act (.enqueue (.onTick wheel))])
      | some finer => (hierarchy, setTimer finer (tickTimer wheel finer))
  | .fireExpired [], hierarchy => (hierarchy, [.lock .hierarchical, .unlock .hierarchical])
  | .fireExpired (timer :: rest), hierarchy => (hierarchy, fire hierarchy timer rest)
  | .enqueue work, hierarchy =>
      ({ hierarchy with
          pool := hierarchy.pool ++ [work]
          enqueued := hierarchy.enqueued ++ [work] }, [])
  | .insert wheel timer, hierarchy =>
      (hierarchy.setWheel wheel ((hierarchy.wheels wheel).setTimer timer), [])
  | .allocate duration, hierarchy =>
      let plan := duration.rectify.plan
      ({ hierarchy with
          timers := Insert.insert hierarchy.nextId hierarchy.timers
          nextId := hierarchy.nextId + 1 },
        .unlock .hierarchical ::
          setTimer ((plan.head?.map PlanStep.wheel).getD .milliseconds)
            ⟨hierarchy.nextId, plan, 0, .user⟩)
  | .cancel timerId, hierarchy =>
      if timerId ∈ hierarchy.timers then
        ({ hierarchy with
            timers := hierarchy.timers.erase timerId
            removed := Insert.insert timerId hierarchy.removed }, [])
      else
        (hierarchy, [])
  | .halt wheel, hierarchy =>
      (hierarchy.setWheel wheel { hierarchy.wheels wheel with stopped := true }, [])
  | .abortAll, hierarchy =>
      ({ hierarchy with timers := ∅, removed := hierarchy.removed ∪ hierarchy.timers }, [])

end TimerAction

/-- What a thread may start: a tick from the pool, or one of the functions of the interface. -/
inductive TimerCall where
  | tick (wheel : WheelId)
  | run
  | setTimer (duration : TimerDuration)
  | cancelTimer (timerId : Nat)
  | stop
deriving DecidableEq

namespace TimerCall

def wheels : List WheelId :=
  [.milliseconds, .seconds, .minutes, .hours, .days]

/-- `timing_wheel_stop`. -/
def stopWheel (wheel : WheelId) : List TimerInstr :=
  [.lock (.wheel wheel), .act (.halt wheel), .unlock (.wheel wheel)]

def program : TimerCall → List TimerInstr
  | .tick wheel => [.act (.takeTick wheel)]
  | .run => wheels.map fun wheel => .act (.run wheel)
  | .setTimer duration => [.lock .hierarchical, .act (.allocate duration)]
  | .cancelTimer timerId =>
      [.lock .hierarchical, .act (.cancel timerId), .unlock .hierarchical]
  | .stop =>
      .lock .hierarchical :: wheels.flatMap stopWheel ++ [.act .abortAll, .unlock .hierarchical]

end TimerCall

/-- The code of the timing wheel with `n` slots on each wheel. No part of it waits for anything but
a lock. -/
def timerCode (n : Nat) [NeZero n] :
    Threads.Code TimerLock TimerAction (HierarchicalTimingWheel n) TimerCall where
  exec := fun _ action hierarchy => some (action.exec hierarchy)
  program := TimerCall.program

abbrev TimerSystem (n : Nat) := Threads.System TimerLock TimerAction (HierarchicalTimingWheel n)

namespace TimerSystem

variable {n : Nat} [NeZero n]

def start (n : Nat) [NeZero n] : TimerSystem n where
  shared := .create n
  holder := fun _ => none
  todo := fun _ => []

def run (s : TimerSystem n) (turns : List (Threads.Turn TimerCall)) : TimerSystem n :=
  Runs.run (Threads.step (timerCode n)) s turns

end TimerSystem

end Poseidon
