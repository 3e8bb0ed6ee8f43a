import Mathlib.Data.List.Nodup
import Mathlib.Data.List.Count
import Poseidon.Workers.Steps

/-!
# Where each item is

An item is with the thread that enqueues it, then in one of the queues, then with the thread that
has taken it, and in the end it has been run or aborted. The invariant is about a function that
gives the whereabouts of every item: since a function has one value, no item is in two places.
-/

namespace Poseidon

open Function (update update_self update_of_ne)

inductive Custody where
  | unborn
  | offered (thread : Nat)
  | queued (shard : Shard)
  | held (thread : Nat)
  | done
deriving DecidableEq

def Custody.Settled : Custody → Prop
  | .queued _ | .held _ | .done => True
  | .unborn | .offered _ => False

namespace PoolAction

def carries (thread : Nat) : PoolAction → Option (Nat × Custody)
  | .readStop work _ | .takeShard work _ | .push work _ _ => some (work, .offered thread)
  | .leave _ (some work) | .perform _ work | .abort _ work => some (work, .held thread)
  | _ => none

theorem of_carries_eq_some {thread work : Nat} {as : Custody} {action : PoolAction}
    (hcarries : action.carries thread = some (work, as)) :
    as = .offered thread ∨ as = .held thread := by
  unfold carries at hcarries
  split at hcarries
  case h_7 => cases hcarries
  all_goals
    obtain ⟨rfl, rfl⟩ := Prod.mk.inj (Option.some.inj hcarries)
    simp

def announces : PoolAction → Option Nat
  | .signal work _ => some work
  | _ => none

end PoolAction

structure Tracks (custody : Nat → Custody) (pool : WorkPool) (place : Nat → Option PoolAction) :
    Prop where
  nodup : ∀ shard, (pool.queues shard).Nodup
  queued : ∀ shard work, work ∈ pool.queues shard ↔ custody work = .queued shard
  carried : ∀ thread work as, (place thread).bind (PoolAction.carries thread) = some (work, as) →
    custody work = as
  held : ∀ thread work, custody work = .held thread →
    (place thread).bind (PoolAction.carries thread) = some (work, .held thread)
  count : ∀ work,
    (pool.executed ++ pool.aborted).count work = if custody work = .done then 1 else 0
  unborn : ∀ work, pool.created ≤ work → custody work = .unborn
  announced : ∀ thread work, (place thread).bind PoolAction.announces = some work →
    (custody work).Settled
  accepted : ∀ work ∈ pool.accepted, (custody work).Settled

namespace Tracks

variable {custody : Nat → Custody} {pool pool' : WorkPool} {place : Nat → Option PoolAction}
  {thread work : Nat} {action : PoolAction} {next : Option PoolAction}

theorem launch (size : Nat) :
    Tracks (fun _ => .unborn) (.create size)
      fun thread => if thread < size then some (.scan .fast 0 0) else none := by
  have hnone : ∀ {α : Type} (f : PoolAction → Option α), f (.scan .fast 0 0) = none →
      ∀ thread, (if thread < size then some (PoolAction.scan .fast 0 0) else none).bind f =
        none := by
    intro α f hf thread
    by_cases hthread : thread < size
    · simp [hthread, hf]
    · simp [hthread]
  constructor
  case nodup => exact fun shard => List.nodup_nil
  case queued => exact fun shard work => ⟨fun hmem => absurd hmem List.not_mem_nil, nofun⟩
  case carried =>
    intro thread work as hcarries
    rw [hnone _ rfl] at hcarries
    cases hcarries
  case held => exact nofun
  case count => exact fun work => rfl
  case unborn => exact fun work _ => rfl
  case announced =>
    intro thread work hannounces
    rw [hnone _ rfl] at hannounces
    cases hannounces
  case accepted => exact fun work hmem => absurd hmem List.not_mem_nil

theorem keeps (htracks : Tracks custody pool place) (hat : place thread = some action)
    (hqueues : pool'.queues = pool.queues) (hexecuted : pool'.executed = pool.executed)
    (haborted : pool'.aborted = pool.aborted) (hcreated : pool'.created = pool.created)
    (haccepted : ∀ work ∈ pool'.accepted, work ∈ pool.accepted ∨ action.announces = some work)
    (hcarries : ∀ item, next.bind (PoolAction.carries thread) = some item →
      action.carries thread = some item)
    (hheld : ∀ work, action.carries thread = some (work, .held thread) →
      next.bind (PoolAction.carries thread) = some (work, .held thread))
    (hsilent : next.bind PoolAction.announces = none) :
    Tracks custody pool' (update place thread next) := by
  constructor
  case nodup => exact fun shard => hqueues ▸ htracks.nodup shard
  case queued => exact fun shard work => hqueues ▸ htracks.queued shard work
  case carried =>
    intro other work as hother
    by_cases hthread : other = thread
    · subst hthread
      rw [update_self] at hother
      exact htracks.carried other work as (by rw [hat]; exact hcarries _ hother)
    · rw [update_of_ne hthread] at hother
      exact htracks.carried other work as hother
  case held =>
    intro other work hwork
    have hother := htracks.held other work hwork
    by_cases hthread : other = thread
    · subst hthread
      rw [hat] at hother
      rw [update_self]
      exact hheld work hother
    · rwa [update_of_ne hthread]
  case count =>
    intro work
    rw [hexecuted, haborted]
    exact htracks.count work
  case unborn => exact fun work hwork => htracks.unborn work (hcreated ▸ hwork)
  case announced =>
    intro other work hother
    by_cases hthread : other = thread
    · subst hthread
      rw [update_self, hsilent] at hother
      cases hother
    · rw [update_of_ne hthread] at hother
      exact htracks.announced other work hother
  case accepted =>
    intro work hwork
    rcases haccepted work hwork with hmem | hannounces
    · exact htracks.accepted work hmem
    · exact htracks.announced thread work (by rw [hat]; exact hannounces)

end Tracks

/-- What a step of a thread does that moves one item from where it is to somewhere else. -/
structure Hands (was : Custody) (pool : WorkPool) (thread : Nat) (action : PoolAction) (work : Nat)
    (becomes : Custody) (pool' : WorkPool) (next : Option PoolAction) : Prop where
  own : ∀ other ≠ thread, was ≠ .offered other ∧ was ≠ .held other
  before : ∀ other as, action.carries thread = some (other, as) → other = work
  after : ∀ other as, next.bind (PoolAction.carries thread) = some (other, as) →
    other = work ∧ as = becomes
  keeps : ∀ holder, becomes = .held holder →
    holder = thread ∧ next.bind (PoolAction.carries thread) = some (work, .held thread)
  nodup : ∀ shard, (pool'.queues shard).Nodup
  queues : ∀ shard, ∀ other ≠ work, other ∈ pool'.queues shard ↔ other ∈ pool.queues shard
  queue : ∀ shard, work ∈ pool'.queues shard ↔ becomes = .queued shard
  counts : ∀ other ≠ work, (pool'.executed ++ pool'.aborted).count other =
    (pool.executed ++ pool.aborted).count other
  count : (pool'.executed ++ pool'.aborted).count work = if becomes = .done then 1 else 0
  created : ∀ other, pool'.created ≤ other → other ≠ work ∧ pool.created ≤ other
  settled : was.Settled → becomes.Settled
  announces : ∀ other, next.bind PoolAction.announces = some other →
    other = work ∧ becomes.Settled
  accepted : pool'.accepted = pool.accepted

namespace Tracks

variable {custody : Nat → Custody} {pool pool' : WorkPool} {place : Nat → Option PoolAction}
  {thread work : Nat} {becomes : Custody} {action : PoolAction} {next : Option PoolAction}

theorem ne_of_hands (htracks : Tracks custody pool place)
    (hhands : Hands (custody work) pool thread action work becomes pool' next)
    {other item : Nat} {as : Custody} (hother : other ≠ thread)
    (hcarries : (place other).bind (PoolAction.carries other) = some (item, as)) :
    item ≠ work := by
  rintro rfl
  have has := htracks.carried other item as hcarries
  obtain ⟨hoffered, hheld⟩ := hhands.own other hother
  rw [has] at hoffered hheld
  obtain ⟨action, -, haction⟩ := Option.bind_eq_some_iff.mp hcarries
  rcases PoolAction.of_carries_eq_some haction with rfl | rfl
  · exact hoffered rfl
  · exact hheld rfl

theorem settled_update (hsettles : (custody work).Settled → becomes.Settled) {item : Nat}
    (hitem : (custody item).Settled) : (update custody work becomes item).Settled := by
  by_cases hwork : item = work
  · subst hwork
    rw [update_self]
    exact hsettles hitem
  · rwa [update_of_ne hwork]

variable (htracks : Tracks custody pool place)

include htracks

theorem hands (hat : place thread = some action)
    (hhands : Hands (custody work) pool thread action work becomes pool' next) :
    Tracks (update custody work becomes) pool' (update place thread next) := by
  constructor
  case nodup => exact hhands.nodup
  case queued =>
    intro shard item
    by_cases hitem : item = work
    · subst hitem
      rw [update_self]
      exact hhands.queue shard
    · rw [update_of_ne hitem, hhands.queues shard item hitem]
      exact htracks.queued shard item
  case carried =>
    intro other item as hcarries
    by_cases hother : other = thread
    · subst hother
      rw [update_self] at hcarries
      obtain ⟨rfl, rfl⟩ := hhands.after item as hcarries
      exact update_self ..
    · rw [update_of_ne hother] at hcarries
      rw [update_of_ne (htracks.ne_of_hands hhands hother hcarries)]
      exact htracks.carried other item as hcarries
  case held =>
    intro other item hitem
    by_cases hwork : item = work
    · subst hwork
      rw [update_self] at hitem
      obtain ⟨rfl, hnext⟩ := hhands.keeps other hitem
      rwa [update_self]
    · rw [update_of_ne hwork] at hitem
      have hcarries := htracks.held other item hitem
      have hother : other ≠ thread := by
        rintro rfl
        rw [hat] at hcarries
        exact hwork (hhands.before item _ hcarries)
      rwa [update_of_ne hother]
  case count =>
    intro item
    by_cases hwork : item = work
    · subst hwork
      rw [update_self]
      exact hhands.count
    · rw [update_of_ne hwork, hhands.counts item hwork]
      exact htracks.count item
  case unborn =>
    intro item hitem
    obtain ⟨hwork, hold⟩ := hhands.created item hitem
    rw [update_of_ne hwork]
    exact htracks.unborn item hold
  case announced =>
    intro other item hother
    by_cases hthread : other = thread
    · subst hthread
      rw [update_self] at hother
      obtain ⟨rfl, hsettled⟩ := hhands.announces item hother
      rwa [update_self]
    · rw [update_of_ne hthread] at hother
      exact settled_update hhands.settled (htracks.announced other item hother)
  case accepted =>
    intro item hitem
    rw [hhands.accepted] at hitem
    exact settled_update hhands.settled (htracks.accepted item hitem)

theorem ne_of_created_le {as : Custody} (hcustody : custody work = as) (has : as ≠ .unborn)
    {item : Nat} (hitem : pool.created ≤ item) : item ≠ work := by
  rintro rfl
  exact has (hcustody.symm.trans (htracks.unborn item hitem))

theorem hands_creates (thread wakes : Nat) :
    Hands (custody pool.created) pool thread (.create wakes) pool.created (.offered thread)
      { pool with created := pool.created + 1 } (some (.readStop pool.created wakes)) := by
  have hunborn := htracks.unborn pool.created le_rfl
  rw [hunborn]
  constructor
  case own => exact fun other _ => ⟨by simp, by simp⟩
  case before =>
    intro other as hcarries
    cases hcarries
  case after =>
    intro other as hafter
    obtain ⟨rfl, rfl⟩ := Prod.mk.inj (Option.some.inj hafter)
    exact ⟨rfl, rfl⟩
  case keeps =>
    intro holder hholder
    cases hholder
  case nodup => exact htracks.nodup
  case queues => exact fun shard other _ => Iff.rfl
  case queue =>
    intro shard
    refine iff_of_false (fun hmem => ?_) (by simp)
    rw [htracks.queued, hunborn] at hmem
    cases hmem
  case counts => exact fun other _ => rfl
  case count => simpa [hunborn] using htracks.count pool.created
  case created =>
    intro other (hother : pool.created + 1 ≤ other)
    exact ⟨by omega, by omega⟩
  case settled => exact False.elim
  case announces =>
    intro other hother
    cases hother
  case accepted => rfl

theorem hands_pushes (shard : Shard) (wakes : Nat) (hcustody : custody work = .offered thread) :
    Hands (custody work) pool thread (.push work shard wakes) work (.queued shard)
      (pool.enqueue shard work) (some (.signal work wakes)) := by
  have hnew : ∀ other, work ∉ pool.queues other := by
    intro other hmem
    rw [htracks.queued, hcustody] at hmem
    cases hmem
  rw [hcustody]
  constructor
  case own =>
    intro other hother
    exact ⟨fun hoffered => hother (Custody.offered.inj hoffered).symm, by simp⟩
  case before =>
    intro other as hbefore
    exact (Prod.mk.inj (Option.some.inj hbefore)).1.symm
  case after =>
    intro other as hcarries
    cases hcarries
  case keeps =>
    intro holder hholder
    cases hholder
  case nodup =>
    intro other
    by_cases hother : other = shard
    · subst hother
      simpa [WorkPool.enqueue, List.nodup_append, htracks.nodup] using fun item hitem =>
        ne_of_mem_of_not_mem hitem (hnew other)
    · simpa [WorkPool.enqueue, hother] using htracks.nodup other
  case queues =>
    intro other item hitem
    by_cases hother : other = shard
    · subst hother
      simp [WorkPool.enqueue, hitem]
    · simp [WorkPool.enqueue, hother]
  case queue =>
    intro other
    by_cases hother : other = shard
    · subst hother
      simp [WorkPool.enqueue]
    · simp [WorkPool.enqueue, hother, hnew other, Ne.symm hother]
  case counts => exact fun other _ => rfl
  case count => simpa [WorkPool.enqueue, hcustody] using htracks.count work
  case created =>
    intro other hother
    exact ⟨htracks.ne_of_created_le hcustody (by simp) hother, hother⟩
  case settled => exact False.elim
  case announces => exact fun other hother => ⟨(Option.some.inj hother).symm, trivial⟩
  case accepted => rfl

theorem hands_pops {shard : Shard} {rest : List Nat} (hqueue : pool.queues shard = work :: rest)
    (hbefore : action.carries thread = none)
    (hafter : next.bind (PoolAction.carries thread) = some (work, .held thread))
    (hsilent : next.bind PoolAction.announces = none) :
    Hands (custody work) pool thread action work (.held thread) (pool.pop shard work rest)
      next := by
  have hcustody : custody work = .queued shard := by
    rw [← htracks.queued, hqueue]
    exact List.mem_cons_self
  have hnodup : (work :: rest).Nodup := hqueue ▸ htracks.nodup shard
  have helsewhere : ∀ other ≠ shard, work ∉ pool.queues other := by
    intro other hother hmem
    rw [htracks.queued, hcustody] at hmem
    exact hother (Custody.queued.inj hmem).symm
  rw [hcustody]
  constructor
  case own => exact fun other _ => ⟨by simp, by simp⟩
  case before => exact fun other as hcarries => absurd (hbefore.symm.trans hcarries) (by simp)
  case after =>
    intro other as hcarries
    obtain ⟨rfl, rfl⟩ := Prod.mk.inj (Option.some.inj (hafter.symm.trans hcarries))
    exact ⟨rfl, rfl⟩
  case keeps =>
    intro holder hholder
    exact ⟨(Custody.held.inj hholder).symm, hafter⟩
  case nodup =>
    intro other
    by_cases hother : other = shard
    · subst hother
      simpa [WorkPool.pop] using (List.nodup_cons.mp hnodup).2
    · simpa [WorkPool.pop, hother] using htracks.nodup other
  case queues =>
    intro other item hitem
    by_cases hother : other = shard
    · subst hother
      simp [WorkPool.pop, hqueue, hitem]
    · simp [WorkPool.pop, hother]
  case queue =>
    intro other
    refine iff_of_false ?_ (by simp)
    by_cases hother : other = shard
    · subst hother
      simpa [WorkPool.pop] using (List.nodup_cons.mp hnodup).1
    · simpa [WorkPool.pop, hother] using helsewhere other hother
  case counts => exact fun other _ => rfl
  case count => simpa [WorkPool.pop, hcustody] using htracks.count work
  case created =>
    intro other hother
    exact ⟨htracks.ne_of_created_le hcustody (by simp) hother, hother⟩
  case settled => exact id
  case announces => exact fun other hother => absurd (hsilent.symm.trans hother) (by simp)
  case accepted => rfl

theorem hands_performs (hcustody : custody work = .held thread)
    (hbefore : action.carries thread = some (work, .held thread))
    (hafter : next.bind (PoolAction.carries thread) = none)
    (hsilent : next.bind PoolAction.announces = none) (hqueues : pool'.queues = pool.queues)
    (hcreated : pool'.created = pool.created) (haccepted : pool'.accepted = pool.accepted)
    (hdone : pool'.executed = pool.executed ++ [work] ∧ pool'.aborted = pool.aborted ∨
      pool'.executed = pool.executed ∧ pool'.aborted = pool.aborted ++ [work]) :
    Hands (custody work) pool thread action work .done pool' next := by
  have hcounts : ∀ item, (pool'.executed ++ pool'.aborted).count item =
      (pool.executed ++ pool.aborted).count item + [work].count item := by
    intro item
    rcases hdone with ⟨hexecuted, haborted⟩ | ⟨hexecuted, haborted⟩
    · rw [hexecuted, haborted, List.count_append, List.count_append, List.count_append]
      omega
    · rw [hexecuted, haborted, List.count_append, List.count_append, List.count_append]
      omega
  have hcount : (pool.executed ++ pool.aborted).count work = 0 := by
    rw [htracks.count, hcustody]
    rfl
  rw [hcustody]
  constructor
  case own =>
    intro other hother
    exact ⟨by simp, fun hheld => hother (Custody.held.inj hheld).symm⟩
  case before =>
    intro other as hcarries
    exact (Prod.mk.inj (Option.some.inj (hbefore.symm.trans hcarries))).1.symm
  case after => exact fun other as hcarries => absurd (hafter.symm.trans hcarries) (by simp)
  case keeps =>
    intro holder hholder
    cases hholder
  case nodup => exact fun shard => hqueues ▸ htracks.nodup shard
  case queues => exact fun shard other _ => by rw [hqueues]
  case queue =>
    intro shard
    rw [hqueues, htracks.queued, hcustody]
    exact iff_of_false (by simp) (by simp)
  case counts =>
    intro other hother
    have hzero : [work].count other = 0 := List.count_eq_zero_of_not_mem (by simpa using hother)
    rw [hcounts, hzero, Nat.add_zero]
  case count => rw [hcounts, hcount, List.count_singleton_self, if_pos rfl]
  case created =>
    intro other hother
    rw [hcreated] at hother
    exact ⟨htracks.ne_of_created_le hcustody (by simp) hother, hother⟩
  case settled => exact id
  case announces => exact fun other hother => absurd (hsilent.symm.trans hother) (by simp)
  case accepted => exact haccepted

theorem call (hnone : place thread = none) (call : PoolCall) :
    Tracks custody pool (update place thread (some call.first)) := by
  have hbind : ∀ {α : Type} (f : PoolAction → Option α), f call.first = none → ∀ other,
      (update place thread (some call.first) other).bind f = (place other).bind f := by
    intro α f hf other
    by_cases hother : other = thread
    · subst hother
      rw [update_self, hnone]
      exact hf
    · rw [update_of_ne hother]
  have hcarries : ∀ other, call.first.carries other = none := fun other => by cases call <;> rfl
  have hannounces : call.first.announces = none := by cases call <;> rfl
  constructor
  case nodup => exact htracks.nodup
  case queued => exact htracks.queued
  case carried =>
    intro other work as hother
    rw [hbind _ (hcarries other)] at hother
    exact htracks.carried other work as hother
  case held =>
    intro other work hwork
    rw [hbind _ (hcarries other)]
    exact htracks.held other work hwork
  case count => exact htracks.count
  case unborn => exact htracks.unborn
  case announced =>
    intro other work hother
    rw [hbind _ hannounces] at hother
    exact htracks.announced other work hother
  case accepted => exact htracks.accepted

theorem does (hat : place thread = some action)
    (hdoes : PoolAction.Does thread pool action pool' next) :
    ∃ custody', Tracks custody' pool' (update place thread next) := by
  have hcustody : ∀ {work as}, action.carries thread = some (work, as) → custody work = as := by
    intro work as hcarries
    exact htracks.carried thread work as (by rw [hat]; exact hcarries)
  cases hdoes with
  | finds phase start i work rest hqueue =>
      refine ⟨_, htracks.hands hat (htracks.hands_pops hqueue rfl ?_ ?_)⟩
      · cases phase <;> rfl
      · cases phase <;> rfl
  | drains i work rest hi hqueue =>
      exact ⟨_, htracks.hands hat (htracks.hands_pops hqueue rfl rfl rfl)⟩
  | creates wakes => exact ⟨_, htracks.hands hat (htracks.hands_creates thread wakes)⟩
  | pushes work shard wakes =>
      exact ⟨_, htracks.hands hat (htracks.hands_pushes shard wakes (hcustody rfl))⟩
  | aborts start work hstop =>
      exact ⟨_, htracks.hands hat
        (htracks.hands_performs (hcustody rfl) rfl rfl rfl rfl rfl rfl (.inr ⟨rfl, rfl⟩))⟩
  | executes start work hrunning =>
      exact ⟨_, htracks.hands hat
        (htracks.hands_performs (hcustody rfl) rfl rfl rfl rfl rfl rfl (.inl ⟨rfl, rfl⟩))⟩
  | abortsLeft i work =>
      exact ⟨_, htracks.hands hat
        (htracks.hands_performs (hcustody rfl) rfl rfl rfl rfl rfl rfl (.inr ⟨rfl, rfl⟩))⟩
  | exhausts phase start i hempty hlast =>
      refine ⟨custody, htracks.keeps hat rfl rfl rfl rfl (fun _ => Or.inl) ?_ nofun ?_⟩
      · cases phase <;> exact nofun
      · cases phase <;> rfl
  | takes start work =>
      exact ⟨custody, htracks.keeps hat rfl rfl rfl rfl (fun _ => Or.inl) (fun _ => id)
        (fun _ => id) rfl⟩
  | admits work wakes hrunning =>
      exact ⟨custody, htracks.keeps hat rfl rfl rfl rfl (fun _ => Or.inl) (fun _ => id)
        (fun _ => id) rfl⟩
  | takesShard work wakes =>
      exact ⟨custody, htracks.keeps hat rfl rfl rfl rfl (fun _ => Or.inl) (fun _ => id)
        (fun _ => id) rfl⟩
  | signalsNobody work wakes hnone =>
      refine ⟨custody, htracks.keeps hat rfl rfl rfl rfl (fun item hitem => ?_) nofun nofun rfl⟩
      exact (List.mem_append.mp hitem).imp_right fun hmem => by rw [List.mem_singleton.mp hmem]; rfl
  | signals work wakes sleeper hwaiting =>
      refine ⟨custody, htracks.keeps hat rfl rfl rfl rfl (fun item hitem => ?_) nofun nofun rfl⟩
      exact (List.mem_append.mp hitem).imp_right fun hmem => by rw [List.mem_singleton.mp hmem]; rfl
  | _ => exact ⟨custody, htracks.keeps hat rfl rfl rfl rfl (fun _ => Or.inl) nofun nofun rfl⟩

/-- An item whose enqueuing has returned is in a queue, or with a thread that has taken it, or it
has been run or aborted. -/
theorem whereabouts (hwork : work ∈ pool.accepted) :
    (∃ shard, work ∈ pool.queues shard) ∨
      (∃ thread, (place thread).bind (PoolAction.carries thread) = some (work, .held thread)) ∨
      work ∈ pool.executed ++ pool.aborted := by
  have hsettled := htracks.accepted work hwork
  cases hcustody : custody work with
  | unborn =>
      rw [hcustody] at hsettled
      exact hsettled.elim
  | offered thread =>
      rw [hcustody] at hsettled
      exact hsettled.elim
  | queued shard => exact Or.inl ⟨shard, (htracks.queued shard work).mpr hcustody⟩
  | held thread => exact Or.inr (Or.inl ⟨thread, htracks.held thread work hcustody⟩)
  | done =>
      refine Or.inr (Or.inr (List.count_pos_iff.mp ?_))
      rw [htracks.count, if_pos hcustody]
      exact Nat.one_pos

theorem notMem_accepted_of_push {shard : Shard} {wakes : Nat}
    (hat : place thread = some (.push work shard wakes)) : work ∉ pool.accepted := by
  intro hmem
  have hsettled := htracks.accepted work hmem
  rw [htracks.carried thread work (.offered thread) (by rw [hat]; rfl)] at hsettled
  exact hsettled

theorem count_le_one (work : Nat) : (pool.executed ++ pool.aborted).count work ≤ 1 := by
  rw [htracks.count]
  split_ifs
  · exact le_rfl
  · exact Nat.zero_le 1

end Tracks

end Poseidon
