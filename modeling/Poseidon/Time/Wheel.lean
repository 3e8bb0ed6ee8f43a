import Mathlib.Data.Finset.Basic
import Mathlib.Data.Fin.Basic
import Mathlib.Algebra.Order.Ring.Int
import Poseidon.Lib.Runs

/-!
# One timing wheel

A wheel is a ring of slots and a position. A timer that is set to `k` steps goes into the slot `k`
places ahead with a count of the rotations it has to sit out; every tick moves the position on and
goes through the slot it comes to. The pass counts a rotation down and hands the timer over as soon
as the count is zero, so the first rotation is not sat out: with more steps than slots a timer is
early by one whole rotation.
-/

namespace Poseidon

inductive WheelId where
  | milliseconds
  | seconds
  | minutes
  | hours
  | days
deriving DecidableEq, Repr

/-- `timer_wheel_plan_step_t`. -/
structure PlanStep where
  delay : UInt64
  wheel : WheelId
deriving DecidableEq, Repr

/-- What a timer's `cb` is: the caller's function, or the tick of a coarser wheel. -/
inductive Callback where
  | user
  | onTick (wheel : WheelId)
deriving DecidableEq, Repr

/-- `timer_st`. The plan is kept from the current step on. -/
structure Timer where
  timerId : Nat
  plan : List PlanStep
  circle : Int
  callback : Callback
deriving DecidableEq, Repr

namespace Timer

/-- `plan.steps[plan.current].delay`. -/
def delay (timer : Timer) : UInt64 :=
  (timer.plan.head?.map PlanStep.delay).getD 0

inductive Visit where
  | drop
  | keep (timer : Timer)
  | expire (timer : Timer)
deriving DecidableEq, Repr

/-- One turn of the loop of `timing_wheel_maintenance`. -/
def visit (timer : Timer) (removed : Finset Nat) : Visit :=
  if timer.timerId ∈ removed then
    .drop
  else if 0 < timer.circle then
    if 0 < timer.circle - 1 then
      .keep { timer with circle := timer.circle - 1 }
    else
      .expire { timer with circle := timer.circle - 1 }
  else
    .expire timer

variable {removed : Finset Nat} {timer : Timer}

theorem visit_of_mem (hremoved : timer.timerId ∈ removed) : timer.visit removed = .drop :=
  if_pos hremoved

theorem visit_of_lt (hlive : timer.timerId ∉ removed) (hcircle : 1 < timer.circle) :
    timer.visit removed = .keep { timer with circle := timer.circle - 1 } := by
  rw [visit, if_neg hlive, if_pos (by omega), if_pos (by omega)]

theorem visit_of_le (hlive : timer.timerId ∉ removed) (hcircle : timer.circle ≤ 1) :
    ∃ circle ≤ 0, timer.visit removed = .expire { timer with circle } := by
  rw [visit, if_neg hlive]
  by_cases hrotation : 0 < timer.circle
  · exact ⟨timer.circle - 1, by omega, by rw [if_pos hrotation, if_neg (by omega)]⟩
  · exact ⟨timer.circle, by omega, if_neg hrotation⟩

theorem visit_cases (timer : Timer) (removed : Finset Nat) :
    timer.visit removed = .drop ∨ timer.timerId ∉ removed ∧
      (1 < timer.circle ∧ timer.visit removed = .keep { timer with circle := timer.circle - 1 } ∨
        timer.circle ≤ 1 ∧ ∃ circle ≤ 0, timer.visit removed = .expire { timer with circle }) := by
  by_cases hremoved : timer.timerId ∈ removed
  · exact .inl (visit_of_mem hremoved)
  · refine .inr ⟨hremoved, (Int.lt_or_le 1 timer.circle).imp ?_ ?_⟩
    · exact fun hlt => ⟨hlt, visit_of_lt hremoved hlt⟩
    · exact fun hle => ⟨hle, visit_of_le hremoved hle⟩

theorem of_visit_keep {kept : Timer} (hvisit : timer.visit removed = .keep kept) :
    timer.timerId ∉ removed ∧ 1 < timer.circle ∧
      kept = { timer with circle := timer.circle - 1 } := by
  obtain hdrop | ⟨hremoved, ⟨hlt, hkeep⟩ | ⟨-, circle, -, hexpire⟩⟩ := visit_cases timer removed
  · cases hdrop.symm.trans hvisit
  · exact ⟨hremoved, hlt, Visit.keep.inj (hvisit.symm.trans hkeep)⟩
  · cases hexpire.symm.trans hvisit

theorem of_visit_expire {expired : Timer} (hvisit : timer.visit removed = .expire expired) :
    timer.timerId ∉ removed ∧ timer.circle ≤ 1 ∧ ∃ circle ≤ 0, expired = { timer with circle } := by
  obtain hdrop | ⟨hremoved, ⟨-, hkeep⟩ | ⟨hle, circle, hcircle, hexpire⟩⟩ :=
    visit_cases timer removed
  · cases hdrop.symm.trans hvisit
  · cases hkeep.symm.trans hvisit
  · exact ⟨hremoved, hle, circle, hcircle, Visit.expire.inj (hvisit.symm.trans hexpire)⟩

theorem timerId_of_visit_keep {kept : Timer} (hvisit : timer.visit removed = .keep kept) :
    kept.timerId = timer.timerId := by
  rw [(of_visit_keep hvisit).2.2]

theorem timerId_of_visit_expire {expired : Timer} (hvisit : timer.visit removed = .expire expired) :
    expired.timerId = timer.timerId := by
  obtain ⟨-, -, circle, -, rfl⟩ := of_visit_expire hvisit
  rfl

end Timer

/-- `timing_wheel_maintenance`: what stays in the slot, and the expired list. -/
def maintenance (removed : Finset Nat) : List Timer → List Timer × List Timer
  | [] => ([], [])
  | timer :: rest =>
      let (kept, expired) := maintenance removed rest
      match timer.visit removed with
      | .drop => (kept, expired)
      | .keep timer => (timer :: kept, expired)
      | .expire timer => (kept, timer :: expired)

theorem mem_maintenance {removed : Finset Nat} {slot : List Timer} {timer : Timer} :
    (timer ∈ (maintenance removed slot).1 ↔ ∃ entry ∈ slot, entry.visit removed = .keep timer) ∧
    (timer ∈ (maintenance removed slot).2 ↔
      ∃ entry ∈ slot, entry.visit removed = .expire timer) := by
  induction slot with
  | nil => simp [maintenance]
  | cons entry rest ih =>
      simp only [maintenance, List.exists_mem_cons_iff, ← ih.1, ← ih.2]
      cases entry.visit removed <;> simp [eq_comm]

/-- `timing_wheel_t`, as far as ticking is concerned. -/
structure TimingWheel (n : Nat) where
  position : Fin n
  slots : Fin n → List Timer
  stopped : Bool

namespace TimingWheel

variable {n : Nat} [NeZero n]

def create (n : Nat) [NeZero n] : TimingWheel n where
  position := Fin.ofNat n (n - 1)
  slots := fun _ => []
  stopped := false

/-- The slot a timer goes to; the sum is taken in `size_t`. -/
def slotAfter (wheel : TimingWheel n) (steps : UInt64) : Fin n :=
  Fin.ofNat n ((wheel.position.val + steps.toNat) % 2 ^ 64)

/-- `(steps - 1) / length`, converted to `int32_t`. -/
def circles (n : Nat) (steps : UInt64) : Int :=
  (((steps - 1).toNat / n : Nat) : Int).bmod (2 ^ 32)

def place (wheel : TimingWheel n) (slot : Fin n) (timer : Timer) : TimingWheel n :=
  { wheel with slots := Function.update wheel.slots slot (wheel.slots slot ++ [timer]) }

/-- `timing_wheel_set_timer`. -/
def setTimer (wheel : TimingWheel n) (timer : Timer) : TimingWheel n :=
  wheel.place (wheel.slotAfter timer.delay) { timer with circle := circles n timer.delay }

@[simp]
theorem position_setTimer (wheel : TimingWheel n) (timer : Timer) :
    (wheel.setTimer timer).position = wheel.position := rfl

@[simp]
theorem stopped_setTimer (wheel : TimingWheel n) (timer : Timer) :
    (wheel.setTimer timer).stopped = wheel.stopped := rfl

/-- The first part of a tick: the position moves on, and the slot it comes to is taken out. -/
def advance (wheel : TimingWheel n) : TimingWheel n × List Timer :=
  ({ wheel with
      position := wheel.position + 1
      slots := Function.update wheel.slots (wheel.position + 1) [] },
    wheel.slots (wheel.position + 1))

/-- `timing_wheel_on_tick` up to the unlocking, with the expired list. -/
def onTick (wheel : TimingWheel n) (removed : Finset Nat) : TimingWheel n × List Timer :=
  if wheel.stopped then
    (wheel, [])
  else
    let (kept, expired) := maintenance removed wheel.advance.2
    ({ wheel.advance.1 with
        slots := Function.update wheel.advance.1.slots wheel.advance.1.position kept }, expired)

/-! ### How far a timer is from expiring -/

section Ring

omit [NeZero n]

def ticksUntil (position slot : Fin n) : Nat :=
  if position.val < slot.val then slot.val - position.val else slot.val + n - position.val

theorem ticksUntil_pos (position slot : Fin n) : 0 < ticksUntil position slot := by
  have hlt := position.isLt
  unfold ticksUntil
  split_ifs <;> omega

theorem ticksUntil_self (position : Fin n) : ticksUntil position position = n := by
  unfold ticksUntil
  rw [if_neg (lt_irrefl _), Nat.add_sub_cancel_left]

theorem circles_eq {steps : UInt64} (hpos : 0 < steps.toNat)
    (hcircle : (steps.toNat - 1) / n < 2 ^ 31) :
    circles n steps = ((steps.toNat - 1) / n : Nat) := by
  have hsub : (steps - 1).toNat = steps.toNat - 1 :=
    UInt64.toNat_sub_of_le _ _ (UInt64.le_iff_toNat_le.mpr hpos)
  have hnonneg : (0 : Int) ≤ ((steps.toNat - 1) / n : Nat) := Int.natCast_nonneg _
  unfold circles
  rw [hsub, Int.bmod_eq_of_le] <;> omega

end Ring

theorem val_add_one (position : Fin n) :
    (position + 1).val = if position.val + 1 = n then 0 else position.val + 1 := by
  have hlt := position.isLt
  have hmod : (position + 1).val = (position.val + 1) % n := by
    rw [Fin.val_add, Fin.coe_ofNat_eq_mod, Nat.add_mod_mod]
  rw [hmod]
  split_ifs with hlast
  · rw [hlast, Nat.mod_self]
  · exact Nat.mod_eq_of_lt (by omega)

theorem ticksUntil_eq_one_iff {position slot : Fin n} :
    ticksUntil position slot = 1 ↔ slot = position + 1 := by
  have hposition := position.isLt
  have hslot := slot.isLt
  rw [Fin.ext_iff, val_add_one]
  unfold ticksUntil
  split_ifs <;> omega

theorem ticksUntil_add_one {position slot : Fin n} (hne : slot ≠ position + 1) :
    ticksUntil (position + 1) slot + 1 = ticksUntil position slot := by
  have hposition := position.isLt
  have hslot := slot.isLt
  rw [ne_eq, Fin.ext_iff, val_add_one] at hne
  unfold ticksUntil
  rw [val_add_one]
  split_ifs at hne ⊢ <;> omega

theorem ticksUntil_slotAfter {wheel : TimingWheel n} {steps : UInt64} (hpos : 0 < steps.toNat)
    (hrange : n + steps.toNat ≤ 2 ^ 64) :
    ticksUntil wheel.position (wheel.slotAfter steps) = (steps.toNat - 1) % n + 1 := by
  have hposition := wheel.position.isLt
  have hrest : (steps.toNat - 1) % n < n := Nat.mod_lt _ (Nat.pos_of_neZero n)
  have hsum : wheel.position.val + steps.toNat =
      (wheel.position.val + (steps.toNat - 1) % n + 1) + n * ((steps.toNat - 1) / n) := by
    have := Nat.mod_add_div (steps.toNat - 1) n
    omega
  have hslot : (wheel.slotAfter steps).val =
      (wheel.position.val + (steps.toNat - 1) % n + 1) % n := by
    rw [slotAfter, Fin.val_ofNat, Nat.mod_eq_of_lt (b := 2 ^ 64) (by omega), hsum,
      Nat.add_mul_mod_self_left]
  unfold ticksUntil
  rw [hslot]
  rcases Nat.lt_or_ge (wheel.position.val + (steps.toNat - 1) % n + 1) n with hlt | hge
  · rw [Nat.mod_eq_of_lt hlt]
    split_ifs <;> omega
  · rw [Nat.mod_eq_sub_mod hge, Nat.mod_eq_of_lt (by omega)]
    split_ifs <;> omega

/-- The number of ticks after which the pass hands a timer over. -/
def remaining (position slot : Fin n) (circle : Int) : Nat :=
  ticksUntil position slot + (circle.toNat - 1) * n

/-- The tick at which a timer of `k` steps expires. -/
def due (n k : Nat) : Nat :=
  if k ≤ n then k else k - n

theorem remaining_setTimer {wheel : TimingWheel n} {steps : UInt64} (hpos : 0 < steps.toNat)
    (hrange : n + steps.toNat ≤ 2 ^ 64) (hcircle : (steps.toNat - 1) / n < 2 ^ 31) :
    remaining wheel.position (wheel.slotAfter steps) (circles n steps) = due n steps.toNat := by
  have hn := Nat.pos_of_neZero n
  have hsplit := Nat.mod_add_div (steps.toNat - 1) n
  rw [remaining, ticksUntil_slotAfter hpos hrange, circles_eq hpos hcircle, Int.toNat_natCast, due]
  rcases Nat.eq_zero_or_pos ((steps.toNat - 1) / n) with hzero | hrotations
  · have hlt := (Nat.div_eq_zero_iff_lt hn).mp hzero
    rw [hzero, if_pos (by omega), Nat.mod_eq_of_lt hlt]
    omega
  · have hle : n ≤ steps.toNat - 1 := (Nat.div_pos_iff.mp hrotations).2
    have hmul : ((steps.toNat - 1) / n - 1) * n = n * ((steps.toNat - 1) / n) - n := by
      rw [Nat.sub_mul, Nat.one_mul, Nat.mul_comm]
    rw [if_neg (by omega), hmul]
    have : n ≤ n * ((steps.toNat - 1) / n) := Nat.le_mul_of_pos_right n hrotations
    omega

/-! ### What a tick does to the timers of a slot -/

omit [NeZero n] in
theorem mem_slots_place {wheel : TimingWheel n} {slot target : Fin n} {timer entry : Timer} :
    entry ∈ (wheel.place target timer).slots slot ↔
      entry ∈ wheel.slots slot ∨ (slot = target ∧ entry = timer) := by
  unfold place
  by_cases hslot : slot = target
  · subst hslot
    simp
  · simp [hslot]

section OnTick

variable {wheel : TimingWheel n} {removed : Finset Nat} {slot : Fin n} {timer : Timer}

theorem position_onTick (hrunning : wheel.stopped = false) :
    (wheel.onTick removed).1.position = wheel.position + 1 := by
  simp [onTick, hrunning, advance]

theorem stopped_onTick (hrunning : wheel.stopped = false) :
    (wheel.onTick removed).1.stopped = false := by
  simp [onTick, hrunning, advance]

variable (hrunning : wheel.stopped = false)

include hrunning

theorem slots_onTick_of_ne (hslot : slot ≠ wheel.position + 1) :
    (wheel.onTick removed).1.slots slot = wheel.slots slot := by
  simp [onTick, hrunning, advance, hslot]

theorem mem_slots_onTick_self :
    timer ∈ (wheel.onTick removed).1.slots (wheel.position + 1) ↔
      ∃ entry ∈ wheel.slots (wheel.position + 1), entry.visit removed = .keep timer := by
  rw [← mem_maintenance.1]
  simp [onTick, hrunning, advance]

theorem mem_expired_onTick :
    timer ∈ (wheel.onTick removed).2 ↔
      ∃ entry ∈ wheel.slots (wheel.position + 1), entry.visit removed = .expire timer := by
  rw [← mem_maintenance.2]
  simp [onTick, hrunning, advance]

end OnTick

/-! ### Counting down -/

theorem remaining_of_ne {position slot : Fin n} (circle : Int) (hne : slot ≠ position + 1) :
    remaining (position + 1) slot circle + 1 = remaining position slot circle := by
  have hticks := ticksUntil_add_one hne
  unfold remaining
  omega

theorem remaining_of_le {position : Fin n} {circle : Int} (hcircle : circle ≤ 1) :
    remaining position (position + 1) circle = 1 := by
  have hzero : circle.toNat - 1 = 0 := by omega
  rw [remaining, ticksUntil_eq_one_iff.mpr rfl, hzero, Nat.zero_mul]

theorem remaining_of_lt {position : Fin n} {circle : Int} (hcircle : 1 < circle) :
    remaining (position + 1) (position + 1) (circle - 1) + 1 =
      remaining position (position + 1) circle := by
  have hrotations : circle.toNat - 1 = (circle - 1).toNat - 1 + 1 := by omega
  rw [remaining, remaining, ticksUntil_self, ticksUntil_eq_one_iff.mpr rfl, hrotations,
    Nat.succ_mul]
  omega

/-- A timer is on the wheel, and each entry of it expires at the `ticks`-th tick from now. -/
structure Armed (wheel : TimingWheel n) (timerId ticks : Nat) : Prop where
  present : ∃ slot, ∃ timer ∈ wheel.slots slot, timer.timerId = timerId
  left : ∀ slot, ∀ timer ∈ wheel.slots slot, timer.timerId = timerId →
    remaining wheel.position slot timer.circle = ticks

def Absent (wheel : TimingWheel n) (timerId : Nat) : Prop :=
  ∀ slot, ∀ timer ∈ wheel.slots slot, timer.timerId ≠ timerId

section Counting

variable {wheel : TimingWheel n} {timerId ticks : Nat} {timer : Timer} {removed : Finset Nat}

theorem armed_setTimer (habsent : wheel.Absent timer.timerId) (hpos : 0 < timer.delay.toNat)
    (hrange : n + timer.delay.toNat ≤ 2 ^ 64) (hcircle : (timer.delay.toNat - 1) / n < 2 ^ 31) :
    (wheel.setTimer timer).Armed timer.timerId (due n timer.delay.toNat) := by
  constructor
  · exact ⟨wheel.slotAfter timer.delay, _, mem_slots_place.mpr (Or.inr ⟨rfl, rfl⟩), rfl⟩
  · intro slot entry hentry hid
    rcases mem_slots_place.mp hentry with hold | ⟨rfl, rfl⟩
    · exact absurd hid (habsent slot entry hold)
    · rw [position_setTimer, ← remaining_setTimer hpos hrange hcircle]

theorem Armed.setTimer_of_ne (harmed : wheel.Armed timerId ticks) (hne : timer.timerId ≠ timerId) :
    (wheel.setTimer timer).Armed timerId ticks := by
  obtain ⟨slot, entry, hentry, hid⟩ := harmed.present
  refine ⟨⟨slot, entry, mem_slots_place.mpr (Or.inl hentry), hid⟩, ?_⟩
  intro slot entry hentry hid
  rcases mem_slots_place.mp hentry with hold | ⟨-, rfl⟩
  · exact harmed.left slot entry hold hid
  · exact absurd hid hne

theorem Absent.setTimer_of_ne (habsent : wheel.Absent timerId) (hne : timer.timerId ≠ timerId) :
    (wheel.setTimer timer).Absent timerId := by
  intro slot entry hentry
  rcases mem_slots_place.mp hentry with hold | ⟨-, rfl⟩
  · exact habsent slot entry hold
  · exact hne

theorem Absent.onTick (habsent : wheel.Absent timerId) (hrunning : wheel.stopped = false) :
    (wheel.onTick removed).1.Absent timerId ∧
      ∀ timer ∈ (wheel.onTick removed).2, timer.timerId ≠ timerId := by
  constructor
  · intro slot timer htimer
    by_cases hslot : slot = wheel.position + 1
    · subst hslot
      obtain ⟨entry, hentry, hvisit⟩ := (mem_slots_onTick_self hrunning).mp htimer
      rw [Timer.timerId_of_visit_keep hvisit]
      exact habsent _ entry hentry
    · rw [slots_onTick_of_ne hrunning hslot] at htimer
      exact habsent slot timer htimer
  · intro timer htimer
    obtain ⟨entry, hentry, hvisit⟩ := (mem_expired_onTick hrunning).mp htimer
    rw [Timer.timerId_of_visit_expire hvisit]
    exact habsent _ entry hentry

theorem Armed.onTick (harmed : wheel.Armed timerId (ticks + 2)) (hrunning : wheel.stopped = false)
    (hlive : timerId ∉ removed) :
    (wheel.onTick removed).1.Armed timerId (ticks + 1) ∧
      ∀ timer ∈ (wheel.onTick removed).2, timer.timerId ≠ timerId := by
  -- Nothing that expires now is `ticks + 2` ticks away.
  have hkept : ∀ timer ∈ wheel.slots (wheel.position + 1), timer.timerId = timerId →
      1 < timer.circle := by
    intro timer htimer hid
    by_contra hcircle
    have hleft := harmed.left _ timer htimer hid
    rw [remaining_of_le (by omega)] at hleft
    omega
  refine ⟨⟨?_, ?_⟩, ?_⟩
  · obtain ⟨slot, timer, htimer, rfl⟩ := harmed.present
    by_cases hslot : slot = wheel.position + 1
    · subst hslot
      exact ⟨_, _, (mem_slots_onTick_self hrunning).mpr
        ⟨timer, htimer, Timer.visit_of_lt hlive (hkept timer htimer rfl)⟩, rfl⟩
    · refine ⟨slot, timer, ?_, rfl⟩
      rwa [slots_onTick_of_ne hrunning hslot]
  · intro slot timer htimer hid
    rw [position_onTick hrunning]
    by_cases hslot : slot = wheel.position + 1
    · subst hslot
      obtain ⟨entry, hentry, hvisit⟩ := (mem_slots_onTick_self hrunning).mp htimer
      obtain ⟨-, hcircle, rfl⟩ := Timer.of_visit_keep hvisit
      have hnow := @remaining_of_lt n _ wheel.position _ hcircle
      rw [harmed.left _ entry hentry hid] at hnow
      exact Nat.succ.inj hnow
    · rw [slots_onTick_of_ne hrunning hslot] at htimer
      have hnow := remaining_of_ne timer.circle hslot
      rw [harmed.left slot timer htimer hid] at hnow
      exact Nat.succ.inj hnow
  · intro timer htimer hid
    obtain ⟨entry, hentry, hvisit⟩ := (mem_expired_onTick hrunning).mp htimer
    obtain ⟨-, hcircle, circle, -, rfl⟩ := Timer.of_visit_expire hvisit
    exact absurd (hkept entry hentry hid) (by omega)

theorem Armed.onTick_one (harmed : wheel.Armed timerId 1) (hrunning : wheel.stopped = false)
    (hlive : timerId ∉ removed) :
    (wheel.onTick removed).1.Absent timerId ∧
      ∃ timer ∈ (wheel.onTick removed).2, timer.timerId = timerId := by
  have hticks : ∀ slot, ∀ timer ∈ wheel.slots slot, timer.timerId = timerId →
      slot = wheel.position + 1 ∧ timer.circle ≤ 1 := by
    intro slot timer htimer hid
    have hleft := harmed.left slot timer htimer hid
    have hpos := ticksUntil_pos wheel.position slot
    have hn := Nat.pos_of_neZero n
    unfold remaining at hleft
    have hrotations : (timer.circle.toNat - 1) * n = 0 := by omega
    have hzero := (Nat.mul_eq_zero.mp hrotations).resolve_right hn.ne'
    exact ⟨ticksUntil_eq_one_iff.mp (by omega), by omega⟩
  constructor
  · intro slot timer htimer hid
    by_cases hslot : slot = wheel.position + 1
    · subst hslot
      obtain ⟨entry, hentry, hvisit⟩ := (mem_slots_onTick_self hrunning).mp htimer
      obtain ⟨-, hcircle, rfl⟩ := Timer.of_visit_keep hvisit
      exact absurd (hticks _ entry hentry hid).2 (by omega)
    · rw [slots_onTick_of_ne hrunning hslot] at htimer
      exact hslot (hticks slot timer htimer hid).1
  · obtain ⟨slot, timer, htimer, rfl⟩ := harmed.present
    obtain ⟨rfl, hcircle⟩ := hticks slot timer htimer rfl
    obtain ⟨circle, -, hvisit⟩ := Timer.visit_of_le hlive hcircle
    exact ⟨_, (mem_expired_onTick hrunning).mpr ⟨timer, htimer, hvisit⟩, rfl⟩

end Counting

/-! ### Whole runs -/

/-- What happens to a wheel: a tick, with the timers that are cancelled by then, or a timer that is
set on it. -/
inductive Event where
  | tick (removed : Finset Nat)
  | set (timer : Timer)

/-- The event neither cancels the timer nor sets it again. -/
def Event.Spares (timerId : Nat) : Event → Prop
  | .tick removed => timerId ∉ removed
  | .set timer => timer.timerId ≠ timerId

def expirations (wheel : TimingWheel n) : List Event → List (List Timer)
  | [] => []
  | .tick removed :: events =>
      (wheel.onTick removed).2 :: (wheel.onTick removed).1.expirations events
  | .set timer :: events => (wheel.setTimer timer).expirations events

/-- However the run goes on, the timer is in the expired list of the `ticks`-th tick and in no
other one. -/
def ExpiresAt (wheel : TimingWheel n) (timerId ticks : Nat) : Prop :=
  ∀ events : List Event, (∀ event ∈ events, event.Spares timerId) →
    ∀ tick expired, (wheel.expirations events)[tick]? = some expired →
      ((∃ timer ∈ expired, timer.timerId = timerId) ↔ tick + 1 = ticks)

variable {wheel : TimingWheel n}

theorem Absent.notMem_expirations {timerId : Nat} {events : List Event}
    (habsent : wheel.Absent timerId) (hrunning : wheel.stopped = false)
    (hspares : ∀ event ∈ events, event.Spares timerId) :
    ∀ expired ∈ wheel.expirations events, ∀ timer ∈ expired, timer.timerId ≠ timerId := by
  induction events generalizing wheel with
  | nil => exact fun expired hexpired => absurd hexpired List.not_mem_nil
  | cons event events ih =>
      obtain ⟨hevent, hevents⟩ := List.forall_mem_cons.mp hspares
      cases event with
      | tick removed =>
          obtain ⟨hafter, hnone⟩ := @Absent.onTick n _ wheel timerId removed habsent hrunning
          intro expired hexpired
          rcases List.mem_cons.mp hexpired with rfl | hlater
          · exact hnone
          · exact ih hafter (stopped_onTick hrunning) hevents expired hlater
      | set timer => exact ih (habsent.setTimer_of_ne hevent) hrunning hevents

theorem Armed.expiresAt {timerId ticks : Nat} (harmed : wheel.Armed timerId (ticks + 1))
    (hrunning : wheel.stopped = false) : wheel.ExpiresAt timerId (ticks + 1) := by
  intro events hspares
  induction events generalizing wheel ticks with
  | nil =>
      intro tick expired hexpired
      exact absurd hexpired (by simp [expirations])
  | cons event events ih =>
      obtain ⟨hevent, hevents⟩ := List.forall_mem_cons.mp hspares
      cases event with
      | set timer => exact ih (harmed.setTimer_of_ne hevent) hrunning hevents
      | tick removed =>
          intro tick expired hexpired
          have hafter := @stopped_onTick n _ wheel removed hrunning
          -- The tick is the due one, or it takes the timer one tick nearer.
          cases ticks with
          | zero =>
              obtain ⟨habsent, hpresent⟩ := harmed.onTick_one hrunning hevent
              cases tick with
              | zero =>
                  obtain rfl := Option.some.inj hexpired
                  exact iff_of_true hpresent rfl
              | succ tick =>
                  have hmem : expired ∈ (wheel.onTick removed).1.expirations events :=
                    List.mem_of_getElem? hexpired
                  refine iff_of_false ?_ (by omega)
                  rintro ⟨timer, htimer, hid⟩
                  exact habsent.notMem_expirations hafter hevents expired hmem timer htimer hid
          | succ ticks =>
              obtain ⟨hnext, hnone⟩ := harmed.onTick hrunning hevent
              cases tick with
              | zero =>
                  obtain rfl := Option.some.inj hexpired
                  refine iff_of_false ?_ (by omega)
                  rintro ⟨timer, htimer, hid⟩
                  exact hnone timer htimer hid
              | succ tick =>
                  rw [ih hnext hafter hevents tick expired hexpired]
                  omega

theorem length_expirations_replicate (wheel : TimingWheel n) (ticks : Nat) :
    (wheel.expirations (List.replicate ticks (.tick ∅))).length = ticks := by
  induction ticks generalizing wheel with
  | zero => rfl
  | succ ticks ih => rw [List.replicate_succ, expirations, List.length_cons, ih]

theorem ExpiresAt.eq {timerId ticks ticks' : Nat} (hticks : wheel.ExpiresAt timerId (ticks + 1))
    (hticks' : wheel.ExpiresAt timerId ticks') : ticks + 1 = ticks' := by
  have hlength := wheel.length_expirations_replicate (ticks + 1)
  have hspares : ∀ event ∈ List.replicate (ticks + 1) (Event.tick ∅), event.Spares timerId := by
    intro event hevent
    rw [List.eq_of_mem_replicate hevent]
    exact Finset.notMem_empty timerId
  have hlast := List.getElem?_eq_getElem (hlength.symm ▸ Nat.lt_succ_self ticks :
    ticks < (wheel.expirations (List.replicate (ticks + 1) (.tick ∅))).length)
  have hpresent := (hticks _ hspares ticks _ hlast).mpr rfl
  exact (hticks' _ hspares ticks _ hlast).mp hpresent

/-- **Ticks of one wheel.** A timer of `k` steps expires at the `k`-th tick exactly if the wheel has
at least `k` slots. With fewer slots it expires one rotation early. -/
theorem expiresAt_setTimer_iff {wheel : TimingWheel n} {timer : Timer}
    (hrunning : wheel.stopped = false) (habsent : wheel.Absent timer.timerId)
    (hpos : 0 < timer.delay.toNat) (hrange : n + timer.delay.toNat ≤ 2 ^ 64)
    (hcircle : (timer.delay.toNat - 1) / n < 2 ^ 31) :
    (wheel.setTimer timer).ExpiresAt timer.timerId (due n timer.delay.toNat) ∧
      ((wheel.setTimer timer).ExpiresAt timer.timerId timer.delay.toNat ↔
        timer.delay.toNat ≤ n) := by
  have hn := Nat.pos_of_neZero n
  have harmed := armed_setTimer habsent hpos hrange hcircle
  obtain ⟨ticks, hdue⟩ : ∃ ticks, due n timer.delay.toNat = ticks + 1 :=
    Nat.exists_eq_add_one_of_ne_zero (by unfold due; split_ifs <;> omega)
  rw [hdue] at harmed ⊢
  have hexpires := harmed.expiresAt (wheel.stopped_setTimer timer ▸ hrunning)
  refine ⟨hexpires, ?_⟩
  constructor
  · intro hexact
    have heq := hexpires.eq hexact
    unfold due at hdue
    split_ifs at hdue <;> omega
  · intro hle
    rw [due, if_pos hle] at hdue
    rwa [hdue]

def stepsOf (timerId : Nat) (steps : UInt64) : Timer :=
  ⟨timerId, [⟨steps, .milliseconds⟩], 0, .user⟩

theorem expiresAt_setTimer_three :
    ((create 4).setTimer (stepsOf 1 3)).ExpiresAt 1 3 := by
  have habsent : (create 4).Absent 1 := fun slot timer htimer => absurd htimer List.not_mem_nil
  exact (@expiresAt_setTimer_iff 4 _ (create 4) (stepsOf 1 3) rfl habsent (by decide) (by decide)
    (by decide)).2.mpr (by decide)

/-- On a wheel of two slots three steps are over after one tick. -/
theorem not_expiresAt_setTimer_three :
    ((create 2).setTimer (stepsOf 1 3)).expirations [.tick ∅] = [[stepsOf 1 3]] ∧
      ¬((create 2).setTimer (stepsOf 1 3)).ExpiresAt 1 3 := by
  have hfirst : ((create 2).setTimer (stepsOf 1 3)).expirations [.tick ∅] = [[stepsOf 1 3]] := by
    decide +kernel
  refine ⟨hfirst, fun hexpires => ?_⟩
  have hspares : ∀ event ∈ [Event.tick ∅], event.Spares 1 := by
    simp [Event.Spares]
  have htick := hexpires [.tick ∅] hspares 0 [stepsOf 1 3] (by rw [hfirst]; rfl)
  exact absurd (htick.mp ⟨stepsOf 1 3, List.mem_singleton_self _, rfl⟩) (by decide)

end TimingWheel

end Poseidon
