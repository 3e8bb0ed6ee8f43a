import Poseidon.Lib.Schedule
import Poseidon.Util.Timeval

/-!
# The times of gossip

A Meridian node gossips at the ticks of its protocol, in short intervals at first and in longer ones
later. The scheduler counts the intervals of the initial phase, and leaves it when it has gossiped;
so the first interval is always one of the initial phase.
-/

namespace Poseidon

/-- `meridian_gossip_scheduler_t`. -/
structure GossipScheduler where
  initIntervalS : UInt32
  numInitIntervals : UInt32
  steadyStateIntervalS : UInt32
  intervalIdx : UInt32
  isInitialPhase : Bool
  lastGossip : Timeval
deriving DecidableEq, Repr

/-- A call of `meridian_protocol_gossip`, with the reading of the clock. -/
structure GossipCall where
  now : Timeval
  numConnectedPeers : Nat
deriving DecidableEq, Repr

structure GossipOutcome where
  scheduler : GossipScheduler
  shouldGossip : Bool
  sent : Bool
deriving DecidableEq, Repr

namespace GossipScheduler

/-- `meridian_gossip_scheduler_create`. -/
def create (initIntervalS numInitIntervals steadyStateIntervalS : UInt32) (now : Timeval) :
    GossipScheduler where
  initIntervalS := initIntervalS
  numInitIntervals := numInitIntervals
  steadyStateIntervalS := steadyStateIntervalS
  intervalIdx := 0
  isInitialPhase := true
  lastGossip := now

def interval (sched : GossipScheduler) : UInt32 :=
  if sched.isInitialPhase then sched.initIntervalS else sched.steadyStateIntervalS

def gossiped (sched : GossipScheduler) (now : Timeval) : GossipScheduler :=
  if sched.isInitialPhase then
    { sched with
      lastGossip := now
      intervalIdx := sched.intervalIdx + 1
      isInitialPhase := !decide (sched.numInitIntervals ≤ sched.intervalIdx + 1) }
  else { sched with lastGossip := now }

/-- `meridian_gossip_scheduler_tick`, with `should_gossip`. -/
def tick (sched : GossipScheduler) (now : Timeval) : GossipScheduler × Bool :=
  if sched.lastGossip.add (.ofSeconds sched.interval) ≤ now then (sched.gossiped now, true)
  else (sched, false)

/-- `meridian_protocol_gossip`. -/
def protocolGossip (sched : GossipScheduler) (call : GossipCall) : GossipOutcome :=
  let ticked := sched.tick call.now
  ⟨ticked.1, ticked.2, ticked.2 && decide (0 < call.numConnectedPeers)⟩

def triggers (sched : GossipScheduler) (calls : List GossipCall) : List Bool :=
  Schedule.marks (fun sched call =>
    ((protocolGossip sched call).scheduler, (protocolGossip sched call).shouldGossip)) sched calls

/-! ### The phases -/

section Phases

variable (a n b : UInt32)

/-- When the `k`-th gossip is due, in microseconds, after a number of initial intervals. -/
def dueAfter (initial k last : Nat) : Nat :=
  last + (if k ≤ initial then a.toNat else b.toNat) * 1000000

/-- The scheduler before the `k`-th gossip: there is always one initial interval. -/
structure Before (k last : Nat) (sched : GossipScheduler) : Prop where
  initIntervalS : sched.initIntervalS = a
  numInitIntervals : sched.numInitIntervals = n
  steadyStateIntervalS : sched.steadyStateIntervalS = b
  isInitialPhase : sched.isInitialPhase = true ↔ k ≤ max n.toNat 1
  intervalIdx : sched.isInitialPhase = true → sched.intervalIdx.toNat + 1 = k
  lastGossip : sched.lastGossip.us = last

variable {a n b} {k last : Nat} {sched : GossipScheduler}

theorem before_create (now : Timeval) : Before a n b 1 now.us (create a n b now) where
  initIntervalS := rfl
  numInitIntervals := rfl
  steadyStateIntervalS := rfl
  isInitialPhase := iff_of_true rfl (le_max_right _ _)
  intervalIdx _ := rfl
  lastGossip := rfl

namespace Before

variable (hbefore : Before a n b k last sched)

include hbefore

theorem interval_eq : sched.interval.toNat = if k ≤ max n.toNat 1 then a.toNat else b.toNat := by
  unfold interval
  split_ifs with hphase hk hk
  · rw [hbefore.initIntervalS]
  · exact absurd (hbefore.isInitialPhase.mp hphase) hk
  · exact absurd (hbefore.isInitialPhase.mpr hk) hphase
  · rw [hbefore.steadyStateIntervalS]

theorem us_next :
    (sched.lastGossip.add (.ofSeconds sched.interval)).us =
      dueAfter a b (max n.toNat 1) k last := by
  rw [Timeval.us_add, Timeval.us_ofSeconds, hbefore.interval_eq, hbefore.lastGossip, dueAfter]

theorem toNat_intervalIdx (hphase : sched.isInitialPhase = true) :
    (sched.intervalIdx + 1).toNat = k := by
  have hidx := hbefore.intervalIdx hphase
  have hk := hbefore.isInitialPhase.mp hphase
  have hn := n.toNat_lt
  rw [UInt32.toNat_add, show (1 : UInt32).toNat = 1 from rfl, hidx]
  exact Nat.mod_eq_of_lt (by omega)

theorem gossiped (now : Timeval) : Before a n b (k + 1) now.us (sched.gossiped now) := by
  unfold GossipScheduler.gossiped
  split_ifs with hphase
  · have hcount := hbefore.toNat_intervalIdx hphase
    refine ⟨hbefore.initIntervalS, hbefore.numInitIntervals, hbefore.steadyStateIntervalS, ?_, ?_,
      rfl⟩
    · have hidx := hbefore.intervalIdx hphase
      rw [Bool.not_eq_true', decide_eq_false_iff_not, UInt32.le_iff_toNat_le, hcount,
        hbefore.numInitIntervals]
      omega
    · intro _
      exact congrArg (· + 1) hcount
  · refine ⟨hbefore.initIntervalS, hbefore.numInitIntervals, hbefore.steadyStateIntervalS, ?_, ?_,
      rfl⟩
    · have hk := mt hbefore.isInitialPhase.mpr hphase
      exact iff_of_false hphase fun hle => hk (Nat.le_of_succ_le hle)
    · exact fun habsurd => absurd habsurd hphase

end Before

/-! ### The schedule -/

theorem follows_triggers (a n b : UInt32) (created : Timeval) (calls : List GossipCall) :
    Schedule.Follows (dueAfter a b (max n.toNat 1)) 1 created.us (calls.map (·.now.us))
      (triggers (create a n b created) calls) := by
  apply Schedule.follows_marks _ (Before a n b)
  · intro k last sched call hbefore hearly
    rw [← hbefore.us_next, Timeval.us_lt_us_iff, ← not_le] at hearly
    have htick : sched.tick call.now = (sched, false) := if_neg hearly
    change (sched.tick call.now).2 = false ∧ Before a n b k last (sched.tick call.now).1
    rw [htick]
    exact ⟨rfl, hbefore⟩
  · intro k last sched call hbefore hreached
    rw [← hbefore.us_next, Timeval.us_le_us_iff] at hreached
    have htick : sched.tick call.now = (sched.gossiped call.now, true) := if_pos hreached
    change (sched.tick call.now).2 = true ∧
      Before a n b (k + 1) call.now.us (sched.tick call.now).1
    rw [htick]
    exact ⟨rfl, hbefore.gossiped call.now⟩
  · exact before_create created

theorem pairwise_ofSeconds (sec : UInt32) :
    [Timeval.ofSeconds 0, .ofSeconds sec].Pairwise (· ≤ ·) := by
  rw [List.pairwise_pair, ← Timeval.us_le_us_iff, Timeval.us_ofSeconds]
  exact Nat.zero_le _

/-- **The gossip schedule.** For all times of creation and of the calls, the gossips are those of
`n` intervals of `a` seconds and then of intervals of `b` seconds, exactly if there is an initial
interval or the two are equal. -/
theorem gossip_schedule_iff (a n b : UInt32) :
    (∀ (created : Timeval) (calls : List GossipCall),
      (created :: calls.map (·.now)).Pairwise (· ≤ ·) →
      Schedule.Follows (dueAfter a b n.toNat) 1 created.us (calls.map (·.now.us))
        (triggers (create a n b created) calls)) ↔
      0 < n ∨ a = b := by
  constructor
  · intro hall
    by_contra hneither
    obtain ⟨hzero, hne⟩ := not_or.mp hneither
    have hn : n.toNat = 0 := by
      rw [UInt32.lt_iff_toNat_lt] at hzero
      exact Nat.eq_zero_of_not_pos hzero
    -- a single call tells which of the two intervals comes first
    have hfirst (sec : UInt32) : b.toNat ≤ sec.toNat ↔ a.toNat ≤ sec.toNat := by
      have hclaimed := hall (.ofSeconds 0) [⟨.ofSeconds sec, 0⟩] (pairwise_ofSeconds sec)
      have hactual := follows_triggers a n b (.ofSeconds 0) [⟨.ofSeconds sec, 0⟩]
      have hsame : dueAfter a b n.toNat 1 0 ≤ (Timeval.ofSeconds sec).us ↔
          dueAfter a b (max n.toNat 1) 1 0 ≤ (Timeval.ofSeconds sec).us :=
        decide_eq_decide.mp
          (Option.some.inj (hclaimed.head?_marks.symm.trans hactual.head?_marks))
      rw [hn, Timeval.us_ofSeconds, dueAfter, dueAfter, if_neg (by decide), if_pos (by decide)]
        at hsame
      omega
    have hle := (hfirst a).mpr le_rfl
    have hge := (hfirst b).mp le_rfl
    exact hne (UInt32.toNat_inj.mp (le_antisymm hge hle))
  · intro hcases created calls _
    have hdue : dueAfter a b n.toNat = dueAfter a b (max n.toNat 1) := by
      funext k last
      rcases hcases with hpos | rfl
      · rw [max_eq_left (UInt32.lt_iff_toNat_lt.mp hpos)]
      · rw [dueAfter, dueAfter, ite_self, ite_self]
    rw [hdue]
    exact follows_triggers a n b created calls

/-- Without initial intervals, and steady ones of a second, there is no gossip after a second: the
scheduler waits for an initial interval of ten. -/
theorem gossip_schedule_no_initial :
    triggers (create 10 0 1 (.ofSeconds 0)) [⟨.ofSeconds 1, 1⟩] = [false] ∧
      ¬Schedule.Follows (dueAfter 10 1 0) 1 0 [1000000] [false] := by
  refine ⟨by decide +kernel, fun hfollows => ?_⟩
  have hhead := hfollows.head?_marks
  revert hhead
  decide

end Phases

end GossipScheduler

end Poseidon
