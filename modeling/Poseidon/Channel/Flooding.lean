import Poseidon.Channel.Authority
import Poseidon.Channel.PacketRoundTrip
import Poseidon.Lib.Runs

/-!
# The flooding of notices

A handler publishes on the dial channel, and a dial channel that is itself subscribed to the topic
delivers the publication to the intercept callback at once, inside the call. The pending calls of a
node are a stack of tasks here, so that a node which never gets through with a packet is one whose
stack never empties.

A notice is redistributed whenever it is handled. Handling one returns exactly if the dial channel
is not subscribed to the notice's topic, and a node redistributes a notice at most once only as
long as every notice that arrives is one whose tombstone it still stores.
-/

namespace Poseidon

open Cbor

/-- What is left to do: a whole call of `quasar_publish` on the dial channel, or the part of one
behind the local delivery. -/
inductive Task where
  | publish (publication : Publication)
  | spread (publication : Publication)
deriving DecidableEq, Repr

def Task.publication : Task → Publication
  | .publish publication => publication
  | .spread publication => publication

def Effect.redistributes : Effect → Option Notice
  | .redistribute notice => some notice
  | _ => none

/-- A manager with the tasks it has to finish, and the notices it has redistributed so far. -/
structure DialNode (crypto : Crypto) where
  manager : Manager crypto
  tasks : List Task
  redistributed : List Notice

inductive DialStep where
  | receive (data : Bytes) (now : ClockReading)
  | work (now : ClockReading) (ids : Nat → MessageId)
  | operate (operation : Manager.Operation)

namespace DialNode

variable {crypto : Crypto} (H : HashFn)

/-- The node behind a handler: what it published comes before the tasks that were left. -/
def absorb (node : DialNode crypto) (left : List Task) (result : Manager crypto × List Effect) :
    DialNode crypto where
  manager := result.1
  tasks := (result.2.filterMap Effect.publication).map .publish ++ left
  redistributed := node.redistributed ++ result.2.filterMap Effect.redistributes

/-- Whether a publication on this topic runs the intercept callback. -/
def deliversLocally (node : DialNode crypto) (topic : Bytes) : Bool :=
  node.manager.dial.quasar.isLocallySubscribed topic && node.manager.dial.quasar.onMessage

def spread (manager : Manager crypto) (publication : Publication) (ids : Nat → MessageId) :
    Manager crypto :=
  { manager with
    dial := { manager.dial with
      quasar := (manager.dial.quasar.publish H ids publication.topic publication.data).1 } }

def step (node : DialNode crypto) : DialStep → DialNode crypto
  | .receive data now => node.absorb node.tasks (node.manager.intercept H data now).2
  | .operate operation => node.absorb node.tasks (node.manager.perform H operation)
  | .work now ids =>
      match node.tasks with
      | [] => node
      | .publish publication :: left =>
          -- the callback runs inside the call: what it publishes comes before the sending
          if node.deliversLocally publication.topic then
            node.absorb (.spread publication :: left)
              (node.manager.intercept H publication.data now).2
          else { node with tasks := .spread publication :: left }
      | .spread publication :: left =>
          { node with manager := spread H node.manager publication ids, tasks := left }

def working (turns : List (ClockReading × (Nat → MessageId))) : List DialStep :=
  turns.map fun turn => .work turn.1 turn.2

end DialNode

/-! ### What the handlers leave alone -/

namespace Manager

variable {crypto : Crypto} (H : HashFn)

variable (manager : Manager crypto)

theorem destroyChannel_frame (hash : Bytes) :
    ∃ channels, (manager.destroyChannel hash).2 = { manager with channels := channels } := by
  unfold destroyChannel
  split
  · exact ⟨manager.channels, rfl⟩
  · exact ⟨_, rfl⟩

theorem tombstones_destroyChannel (hash : Bytes) :
    (manager.destroyChannel hash).2.tombstones = manager.tombstones := by
  obtain ⟨channels, hdestroyed⟩ := manager.destroyChannel_frame hash
  rw [hdestroyed]

theorem handleNotice_frame (notice : Notice) (now : ClockReading) :
    ∃ channels, (manager.handleNotice H notice now).1 =
      { manager.addTombstone (tombstoneOf notice now) with channels := channels } := by
  unfold handleNotice
  dsimp only
  split
  · exact ⟨_, rfl⟩
  · cases notice with
    | delete body => exact destroyChannel_frame _ _
    | modify body config => exact ⟨_, rfl⟩

theorem handleBootstrapReply_frame (reply : BootstrapReply) :
    ∃ channels pending, (manager.handleBootstrapReply reply).2.1 =
      { manager with channels := channels, pending := pending } := by
  unfold handleBootstrapReply
  split
  · exact ⟨manager.channels, manager.pending, rfl⟩
  · dsimp only
    split_ifs <;> exact ⟨_, _, rfl⟩

theorem intercept_frame (data : Bytes) (now : ClockReading) :
    ∃ channels pending tombstones, (manager.intercept H data now).2.1 =
      { manager with channels := channels, pending := pending, tombstones := tombstones } := by
  unfold intercept
  cases DialPacket.read crypto data with
  | none => exact ⟨_, _, _, rfl⟩
  | some packet =>
      cases packet with
      | bootstrap request => exact ⟨_, _, _, rfl⟩
      | bootstrapReply reply =>
          obtain ⟨channels, pending, hreplied⟩ := manager.handleBootstrapReply_frame reply
          exact ⟨channels, pending, manager.tombstones, hreplied⟩
      | notice notice =>
          obtain ⟨tombstones, hstored⟩ := manager.addTombstone_frame (tombstoneOf notice now)
          obtain ⟨channels, hhandled⟩ := manager.handleNotice_frame H notice now
          rw [hstored] at hhandled
          exact ⟨channels, manager.pending, tombstones, hhandled⟩

theorem dial_intercept (data : Bytes) (now : ClockReading) :
    (manager.intercept H data now).2.1.dial = manager.dial := by
  obtain ⟨channels, pending, tombstones, hafter⟩ := manager.intercept_frame H data now
  rw [hafter]

theorem intercept_redistribution {notice : Notice} (hverify : notice.verify crypto = true)
    (now : ClockReading) :
    (manager.intercept H notice.redistribution.data now).2 = manager.handleNotice H notice now := by
  have hread := DialPacket.read_serialize_notice hverify
  change DialPacket.read crypto notice.redistribution.data = _ at hread
  unfold intercept
  rw [hread]
  rfl

theorem redistribute_mem_handleNotice (notice : Notice) (now : ClockReading) :
    Effect.redistribute notice ∈ (manager.handleNotice H notice now).2 :=
  List.mem_append_right _ List.mem_cons_self

theorem topic_of_mem_handleNotice {manager : Manager crypto} {notice : Notice}
    {now : ClockReading} {effect : Effect} {publication : Publication}
    (heffect : effect ∈ (manager.handleNotice H notice now).2)
    (hpublication : effect.publication = some publication) :
    publication.topic = notice.body.topicId.bytes := by
  unfold handleNotice at heffect
  dsimp only at heffect
  obtain hfront | hlast := List.mem_append.mp heffect
  · obtain hstoring | happlied := List.mem_append.mp hfront
    · split_ifs at hstoring
      · obtain rfl := List.mem_singleton.mp hstoring
        contradiction
      · exact absurd hstoring List.not_mem_nil
    · split at happlied
      · exact absurd happlied List.not_mem_nil
      · rename_i channel hchannel
        have htopic := topic_eq_of_findByTopic hchannel
        cases notice with
        | delete body =>
            obtain rfl := List.mem_singleton.mp happlied
            contradiction
        | modify body config =>
            simp only [applyNotice, List.mem_cons, List.not_mem_nil, or_false] at happlied
            obtain rfl | rfl := happlied
            · contradiction
            · obtain rfl := Option.some.inj hpublication
              exact htopic
  · obtain rfl := List.mem_singleton.mp hlast
    obtain rfl := Option.some.inj hpublication
    rfl

end Manager

/-! ### Whether handling a notice returns -/

namespace DialNode

variable {crypto : Crypto} (H : HashFn)

theorem deliversLocally_of_dial_eq {node after : DialNode crypto}
    (hdial : after.manager.dial = node.manager.dial) (topic : Bytes) :
    after.deliversLocally topic = node.deliversLocally topic := by
  unfold deliversLocally
  rw [hdial]

theorem publish_mem_absorb {node : DialNode crypto} {left : List Task}
    {result : Manager crypto × List Effect} {notice : Notice}
    (heffect : Effect.redistribute notice ∈ result.2) :
    Task.publish notice.redistribution ∈ (node.absorb left result).tasks := by
  apply List.mem_append_left
  apply List.mem_map_of_mem
  exact List.mem_filterMap.mpr ⟨_, heffect, rfl⟩

/-- The redistribution of a notice is still to be made, and will be delivered locally. -/
structure Caught (node : DialNode crypto) (notice : Notice) : Prop where
  delivers : node.deliversLocally notice.body.topicId.bytes = true
  pending : Task.publish notice.redistribution ∈ node.tasks

theorem Caught.absorb {node : DialNode crypto} {notice : Notice}
    (hcaught : node.Caught notice) {left : List Task} (data : Bytes) (now : ClockReading)
    (hleft : Task.publish notice.redistribution ∈ left ∨
      Effect.redistribute notice ∈ (node.manager.intercept H data now).2.2) :
    (node.absorb left (node.manager.intercept H data now).2).Caught notice := by
  have hdial := node.manager.dial_intercept H data now
  refine ⟨?_, ?_⟩
  · rw [deliversLocally_of_dial_eq hdial]
    exact hcaught.delivers
  · obtain hleft | heffect := hleft
    · exact List.mem_append_right _ hleft
    · exact publish_mem_absorb heffect

theorem Caught.work {node : DialNode crypto} {notice : Notice}
    (hverify : notice.verify crypto = true) (hcaught : node.Caught notice) (now : ClockReading)
    (ids : Nat → MessageId) : (node.step H (.work now ids)).Caught notice := by
  have hpending := hcaught.pending
  unfold step
  cases htasks : node.tasks with
  | nil =>
      rw [htasks] at hpending
      exact absurd hpending List.not_mem_nil
  | cons task left =>
      rw [htasks] at hpending
      cases task with
      | publish publication =>
          -- the notice's own publication runs the handler again, which publishes it again
          by_cases hsame : publication = notice.redistribution
          · subst hsame
            have hhandled := node.manager.redistribute_mem_handleNotice H notice now
            rw [← node.manager.intercept_redistribution H hverify now] at hhandled
            have hdelivers : node.deliversLocally notice.redistribution.topic = true :=
              hcaught.delivers
            simp only [hdelivers, if_true]
            exact hcaught.absorb H _ now (.inr hhandled)
          · have hleft : Task.publish notice.redistribution ∈ left := by
              obtain heq | hmem := List.mem_cons.mp hpending
              · exact absurd (Task.publish.inj heq).symm hsame
              · exact hmem
            dsimp only
            split_ifs
            · exact hcaught.absorb H _ now (.inl (List.mem_cons_of_mem _ hleft))
            · exact ⟨hcaught.delivers, List.mem_cons_of_mem _ hleft⟩
      | spread publication =>
          have hleft : Task.publish notice.redistribution ∈ left := by
            obtain heq | hmem := List.mem_cons.mp hpending
            · contradiction
            · exact hmem
          exact ⟨hcaught.delivers, hleft⟩

theorem Caught.run {notice : Notice} (hverify : notice.verify crypto = true)
    (turns : List (ClockReading × (Nat → MessageId))) {node : DialNode crypto}
    (hcaught : node.Caught notice) :
    (Runs.run (step H) node (working turns)).Caught notice := by
  induction turns generalizing node with
  | nil => exact hcaught
  | cons turn turns ih => exact ih (hcaught.work H hverify turn.1 turn.2)

/-- The turns a task takes where nothing is delivered locally. -/
def turnsFor : Task → Nat
  | .publish _ => 2
  | .spread _ => 1

def Quiet (node : DialNode crypto) : Prop :=
  ∀ task ∈ node.tasks, node.deliversLocally task.publication.topic = false

theorem Quiet.work {node : DialNode crypto} (hquiet : node.Quiet) (now : ClockReading)
    (ids : Nat → MessageId) :
    (node.step H (.work now ids)).Quiet ∧
      ((node.step H (.work now ids)).tasks.map turnsFor).sum =
        (node.tasks.map turnsFor).sum - 1 := by
  unfold step
  cases htasks : node.tasks with
  | nil => exact ⟨hquiet, by rw [htasks]; rfl⟩
  | cons task left =>
      have hfirst := hquiet task (htasks ▸ List.mem_cons_self)
      have hleft : ∀ other ∈ left, node.deliversLocally other.publication.topic = false :=
        fun other hother => hquiet other (htasks ▸ List.mem_cons_of_mem _ hother)
      cases task with
      | publish publication =>
          have hlocal : node.deliversLocally publication.topic = false := hfirst
          simp only [hlocal, Bool.false_eq_true, if_false]
          refine ⟨?_, ?_⟩
          · intro other hother
            obtain rfl | hmem := List.mem_cons.mp hother
            · exact hlocal
            · exact hleft other hmem
          · simp only [List.map_cons, List.sum_cons, turnsFor]
            omega
      | spread publication =>
          refine ⟨hleft, ?_⟩
          simp only [List.map_cons, List.sum_cons, turnsFor]
          omega

theorem Quiet.tasks_run_eq_nil {turns : List (ClockReading × (Nat → MessageId))}
    {node : DialNode crypto} (hquiet : node.Quiet)
    (hturns : (node.tasks.map turnsFor).sum ≤ turns.length) :
    (Runs.run (step H) node (working turns)).tasks = [] := by
  induction turns generalizing node with
  | nil =>
      cases htasks : node.tasks with
      | nil => exact htasks
      | cons task left =>
          have hpos : 0 < turnsFor task := by cases task <;> simp [turnsFor]
          rw [htasks, List.map_cons, List.sum_cons, List.length_nil] at hturns
          omega
  | cons turn turns ih =>
      obtain ⟨hnext, hsum⟩ := hquiet.work H turn.1 turn.2
      rw [List.length_cons] at hturns
      exact ih hnext (by rw [hsum]; omega)

/-- After so many turns, whatever the clocks show and whatever ids are drawn, nothing is left. -/
def Returns (node : DialNode crypto) : Prop :=
  ∃ count, ∀ turns : List (ClockReading × (Nat → MessageId)), count ≤ turns.length →
    (Runs.run (step H) node (working turns)).tasks = []

theorem Caught.not_returns {node : DialNode crypto} {notice : Notice}
    (hverify : notice.verify crypto = true) (hcaught : node.Caught notice) :
    ¬ node.Returns H := by
  rintro ⟨count, hdone⟩
  let turn : ClockReading × (Nat → MessageId) := (⟨0, 0⟩, fun _ => ⟨0, 0, 0⟩)
  let turns := List.replicate count turn
  have hpending := (hcaught.run H hverify turns).pending
  rw [hdone turns (by rw [List.length_replicate])] at hpending
  exact absurd hpending List.not_mem_nil

/-- Handling a verified notice returns exactly if the dial channel does not deliver the notice's
topic to itself. -/
theorem returns_iff {node : DialNode crypto} (hidle : node.tasks = []) {notice : Notice}
    (hverify : notice.verify crypto = true) (now : ClockReading) :
    (node.step H (.receive notice.redistribution.data now)).Returns H ↔
      node.deliversLocally notice.body.topicId.bytes = false := by
  have hresult := node.manager.intercept_redistribution H hverify now
  have hdial := node.manager.dial_intercept H notice.redistribution.data now
  have hlocal : ∀ topic, (node.step H (.receive notice.redistribution.data now)).deliversLocally
      topic = node.deliversLocally topic := deliversLocally_of_dial_eq hdial
  constructor
  · intro hreturns
    by_contra hdelivers
    have hcaught : (node.step H (.receive notice.redistribution.data now)).Caught notice := by
      refine ⟨?_, publish_mem_absorb ?_⟩
      · rw [hlocal]
        exact Bool.eq_true_of_not_eq_false hdelivers
      · rw [hresult]
        exact node.manager.redistribute_mem_handleNotice H notice now
    exact hcaught.not_returns H hverify hreturns
  · intro hdelivers
    have hquiet : (node.step H (.receive notice.redistribution.data now)).Quiet := by
      intro task htask
      rw [hlocal]
      simp only [step, absorb, hidle, List.append_nil, hresult] at htask
      obtain ⟨publication, hmem, rfl⟩ := List.mem_map.mp htask
      obtain ⟨effect, heffect, hpublication⟩ := List.mem_filterMap.mp hmem
      have htopic := Manager.topic_of_mem_handleNotice H heffect hpublication
      change node.deliversLocally publication.topic = false
      rw [htopic]
      exact hdelivers
    exact ⟨_, fun turns hturns => hquiet.tasks_run_eq_nil H hturns⟩

/-! ### How often a notice is redistributed -/

/-- The packet is no verified notice, or one whose tombstone the manager stores: it holds none of
the topic that is as new, and has room for it. -/
def Fresh (manager : Manager crypto) (data : Bytes) (now : ClockReading) : Prop :=
  match DialPacket.read crypto data with
  | some (.notice notice) => manager.stores (Manager.tombstoneOf notice now) = true
  | _ => True

instance (manager : Manager crypto) (data : Bytes) (now : ClockReading) :
    Decidable (Fresh manager data now) := by
  unfold Fresh
  split <;> infer_instance

/-- Every notice that reaches the intercept callback is fresh, and no tombstone expires. -/
def Remembering (node : DialNode crypto) : DialStep → Prop
  | .receive data now => Fresh node.manager data now
  | .work now _ =>
      match node.tasks with
      | .publish publication :: _ =>
          node.deliversLocally publication.topic = true →
            Fresh node.manager publication.data now
      | _ => True
  | .operate (.tickAll now) =>
      ∀ tombstone ∈ node.manager.tombstones, now.monotonicUs < tombstone.expiresAtUs
  | .operate _ => True

instance (node : DialNode crypto) : (label : DialStep) → Decidable (node.Remembering label)
  | .receive data now => inferInstanceAs (Decidable (Fresh node.manager data now))
  | .work now ids => by
      dsimp only [Remembering]
      split <;> infer_instance
  | .operate operation => by
      cases operation <;> dsimp only [Remembering] <;> infer_instance

def sameNotice (left right : Notice) : Bool :=
  left.body.topicId == right.body.topicId && left.body.timestampUs == right.body.timestampUs &&
    left.body.signature == right.body.signature

/-- Every redistributed notice is covered by a tombstone of its topic that is as new, and none was
redistributed twice. -/
structure Once (node : DialNode crypto) : Prop where
  covered : ∀ notice ∈ node.redistributed, ∃ tombstone,
    node.manager.findTombstone notice.body.topicId.bytes = some tombstone ∧
      notice.body.timestampUs ≤ tombstone.timestampUs
  apart : node.redistributed.Pairwise fun left right => sameNotice left right = false

end DialNode

namespace Manager

variable {crypto : Crypto} (H : HashFn)

theorem tombstoneOf_topicId (notice : Notice) (now : ClockReading) :
    (tombstoneOf notice now).topicId = notice.body.topicId.bytes := rfl

theorem findTombstone_addTombstone {manager : Manager crypto} {tombstone : Tombstone}
    (hstores : manager.stores tombstone = true) (topic : Bytes) :
    (manager.addTombstone tombstone).findTombstone topic =
      if topic = tombstone.topicId then some tombstone else manager.findTombstone topic := by
  unfold addTombstone findTombstone
  rw [if_pos hstores]
  cases hindex : manager.tombstones.findIdx? fun known => known.topicId == tombstone.topicId with
  | some index => exact find?_set_findIdx? Tombstone.topicId hindex topic
  | none =>
      have hnone : manager.tombstones.find? (fun known => known.topicId == tombstone.topicId) =
          none := by
        rw [List.find?_eq_none]
        intro known hknown
        rw [List.findIdx?_eq_none_iff.mp hindex known hknown]
        exact Bool.false_ne_true
      exact find?_append_singleton Tombstone.topicId hnone topic

variable (manager : Manager crypto)

theorem tombstones_createChannel (key : Option Bytes) (config : ChannelConfig) :
    (manager.createChannel key config).2.tombstones = manager.tombstones := by
  obtain ⟨nextPort, hallocated⟩ := manager.allocatePort_frame
  obtain heq | heq | ⟨channel, -, -, heq⟩ := manager.createChannel_cases key config
  · rw [heq]
  · rw [heq, hallocated]
  · rw [heq, hallocated]
    rfl

theorem tombstones_joinChannel (key : Option Bytes) (topic : Bytes) (now : ClockReading) :
    (manager.joinChannel H key topic now).2.1.tombstones = manager.tombstones := by
  obtain ⟨nextPort, hallocated⟩ := manager.allocatePort_frame
  obtain heq | heq | ⟨created, -, -, heq⟩ := manager.joinChannel_cases H key topic now
  · rw [heq]
  · rw [heq, hallocated]
  · rw [heq, joined, hallocated]
    rfl

theorem redistributes_handleBootstrapRequest (topic : Bytes) (now : ClockReading) :
    (manager.handleBootstrapRequest topic now).filterMap Effect.redistributes = [] := by
  unfold handleBootstrapRequest
  split
  · rfl
  · split <;> rfl

theorem redistributes_handleBootstrapReply (reply : BootstrapReply) :
    (manager.handleBootstrapReply reply).2.2.filterMap Effect.redistributes = [] := by
  unfold handleBootstrapReply
  split
  · rfl
  · dsimp only
    split_ifs <;> rfl

theorem redistributes_handleNotice (notice : Notice) (now : ClockReading) :
    (manager.handleNotice H notice now).2.filterMap Effect.redistributes = [notice] := by
  have hstoring : (if manager.stores (tombstoneOf notice now) then
      [Effect.tombstoned (tombstoneOf notice now).topicId] else []).filterMap
        Effect.redistributes = [] := by
    split_ifs <;> rfl
  unfold handleNotice
  dsimp only
  rw [List.filterMap_append, List.filterMap_append, hstoring]
  split
  · rfl
  · cases notice <;> rfl

theorem redistributes_perform (operation : Operation) :
    (manager.perform H operation).2.filterMap Effect.redistributes = [] := by
  cases operation with
  | joinChannel key topic now =>
      change (manager.joinChannel H key topic now).2.2.filterMap Effect.redistributes = []
      obtain heq | heq | ⟨created, -, -, heq⟩ := manager.joinChannel_cases H key topic now
      all_goals
        rw [heq]
        rfl
  | _ => rfl

theorem intercept_cases (data : Bytes) (now : ClockReading) :
    (∃ notice, DialPacket.read crypto data = some (.notice notice) ∧
      (manager.intercept H data now).2.1.tombstones =
        (manager.addTombstone (tombstoneOf notice now)).tombstones ∧
      (manager.intercept H data now).2.2.filterMap Effect.redistributes = [notice]) ∨
    ((manager.intercept H data now).2.1.tombstones = manager.tombstones ∧
      (manager.intercept H data now).2.2.filterMap Effect.redistributes = []) := by
  unfold intercept
  cases hread : DialPacket.read crypto data with
  | none => exact .inr ⟨rfl, rfl⟩
  | some packet =>
      cases packet with
      | bootstrap request => exact .inr ⟨rfl, manager.redistributes_handleBootstrapRequest _ now⟩
      | bootstrapReply reply =>
          obtain ⟨channels, pending, hreplied⟩ := manager.handleBootstrapReply_frame reply
          have hkept : (manager.handleBootstrapReply reply).2.1.tombstones =
              manager.tombstones := by
            rw [hreplied]
          refine .inr ⟨hkept, ?_⟩
          exact manager.redistributes_handleBootstrapReply reply
      | notice notice =>
          obtain ⟨channels, hhandled⟩ := manager.handleNotice_frame H notice now
          have hstored : (manager.handleNotice H notice now).1.tombstones =
              (manager.addTombstone (tombstoneOf notice now)).tombstones := by
            rw [hhandled]
          refine .inl ⟨notice, rfl, hstored, ?_⟩
          exact manager.redistributes_handleNotice H notice now

end Manager

namespace DialNode

variable {crypto : Crypto} (H : HashFn)

theorem countP_sameNotice_le_one {notices : List Notice}
    (hapart : notices.Pairwise fun left right => sameNotice left right = false) (notice : Notice) :
    notices.countP (sameNotice notice) ≤ 1 := by
  induction hapart with
  | nil => exact Nat.zero_le 1
  | @cons first notices hfirst _ ih =>
      rw [List.countP_cons]
      split_ifs with hsame
      · have hnone : notices.countP (sameNotice notice) = 0 := by
          rw [List.countP_eq_zero]
          intro other hother hagain
          have hfalse := hfirst other hother
          simp only [sameNotice, Bool.and_eq_true, beq_iff_eq, Bool.and_eq_false_iff,
            beq_eq_false_iff_ne] at hsame hagain hfalse
          rw [← hsame.1.1, ← hsame.1.2, ← hsame.2] at hfalse
          obtain (htopic | htime) | hsignature := hfalse
          · exact htopic hagain.1.1
          · exact htime hagain.1.2
          · exact hsignature hagain.2
        rw [hnone]
      · exact ih

theorem Once.of_eq {node after : DialNode crypto} (honce : node.Once)
    (htombstones : after.manager.tombstones = node.manager.tombstones)
    (hredistributed : after.redistributed = node.redistributed) : after.Once := by
  refine ⟨?_, ?_⟩
  · unfold Manager.findTombstone
    rw [htombstones, hredistributed]
    exact honce.covered
  · rw [hredistributed]
    exact honce.apart

variable {now : ClockReading}

theorem Once.lt_of_stores {node : DialNode crypto} (honce : node.Once) {notice : Notice}
    (hstores : node.manager.stores (Manager.tombstoneOf notice now) = true) {earlier : Notice}
    (hearlier : earlier ∈ node.redistributed)
    (htopic : earlier.body.topicId = notice.body.topicId) :
    earlier.body.timestampUs < notice.body.timestampUs := by
  obtain ⟨known, hknown, hle⟩ := honce.covered earlier hearlier
  rw [htopic] at hknown
  have hnewer : known.timestampUs < notice.body.timestampUs := by
    change node.manager.findTombstone (Manager.tombstoneOf notice now).topicId = _ at hknown
    rw [Manager.stores, hknown] at hstores
    exact of_decide_eq_true hstores
  exact UInt64.lt_of_le_of_lt hle hnewer

theorem Once.handle {node after : DialNode crypto} (honce : node.Once) {notice : Notice}
    (hstores : node.manager.stores (Manager.tombstoneOf notice now) = true)
    (htombstones : after.manager.tombstones =
      (node.manager.addTombstone (Manager.tombstoneOf notice now)).tombstones)
    (hredistributed : after.redistributed = node.redistributed ++ [notice]) : after.Once := by
  have hfind : ∀ topic, after.manager.findTombstone topic =
      if topic = notice.body.topicId.bytes then some (Manager.tombstoneOf notice now)
      else node.manager.findTombstone topic := by
    intro topic
    rw [← Manager.tombstoneOf_topicId notice now, ← Manager.findTombstone_addTombstone hstores]
    unfold Manager.findTombstone
    rw [htombstones]
  refine ⟨?_, ?_⟩
  · intro known hknown
    rw [hfind]
    rw [hredistributed] at hknown
    -- on the notice's topic the new tombstone covers all, since the old one was older
    by_cases htopic : known.body.topicId = notice.body.topicId
    · refine ⟨Manager.tombstoneOf notice now, if_pos (congrArg CString.bytes htopic), ?_⟩
      obtain hearlier | hnew := List.mem_append.mp hknown
      · exact UInt64.le_of_lt (honce.lt_of_stores hstores hearlier htopic)
      · obtain rfl := List.mem_singleton.mp hnew
        exact UInt64.le_refl _
    · have hbytes : known.body.topicId.bytes ≠ notice.body.topicId.bytes :=
        fun heq => htopic (CString.ext heq)
      rw [if_neg hbytes]
      obtain hearlier | hnew := List.mem_append.mp hknown
      · exact honce.covered known hearlier
      · exact absurd (congrArg (·.body.topicId) (List.mem_singleton.mp hnew)) htopic
  · rw [hredistributed, List.pairwise_append]
    refine ⟨honce.apart, List.pairwise_singleton _ _, ?_⟩
    intro earlier hearlier other hother
    obtain rfl := List.mem_singleton.mp hother
    by_contra hsame
    simp only [sameNotice, Bool.not_eq_false, Bool.and_eq_true, beq_iff_eq] at hsame
    have hlt := honce.lt_of_stores hstores hearlier hsame.1.1
    rw [hsame.1.2] at hlt
    exact UInt64.lt_irrefl _ hlt

theorem Once.intercept {node : DialNode crypto} (honce : node.Once) {data : Bytes}
    (hfresh : Fresh node.manager data now) (left : List Task) :
    (node.absorb left (node.manager.intercept H data now).2).Once := by
  obtain ⟨notice, hread, htombstones, hredistributes⟩ | ⟨htombstones, hredistributes⟩ :=
    node.manager.intercept_cases H data now
  · simp only [Fresh, hread] at hfresh
    apply honce.handle hfresh htombstones
    simp only [absorb, hredistributes]
  · apply honce.of_eq htombstones
    simp only [absorb, hredistributes, List.append_nil]

theorem Once.perform {node : DialNode crypto} (honce : node.Once) {operation : Manager.Operation}
    (hremembering : node.Remembering (.operate operation)) :
    (node.absorb node.tasks (node.manager.perform H operation)).Once := by
  have hredistributed : (node.absorb node.tasks (node.manager.perform H operation)).redistributed =
      node.redistributed := by
    simp only [absorb, Manager.redistributes_perform, List.append_nil]
  refine honce.of_eq ?_ hredistributed
  cases operation with
  | createChannel key config => exact node.manager.tombstones_createChannel key config
  | joinChannel key topic now => exact node.manager.tombstones_joinChannel H key topic now
  | destroyChannel hash => exact node.manager.tombstones_destroyChannel hash
  | subscribeDial topic ttl => rfl
  | unsubscribeDial topic => rfl
  | tickAll now =>
      -- nothing has expired, so the filter keeps the whole table
      apply List.filter_eq_self.mpr
      intro tombstone htombstone
      exact decide_eq_true (hremembering tombstone htombstone)

theorem Once.step {node : DialNode crypto} (honce : node.Once) {label : DialStep}
    (hremembering : node.Remembering label) : (node.step H label).Once := by
  cases label with
  | receive data now => exact honce.intercept H hremembering node.tasks
  | operate operation => exact honce.perform H hremembering
  | work now ids =>
      unfold DialNode.step
      unfold Remembering at hremembering
      cases htasks : node.tasks with
      | nil => exact honce
      | cons task left =>
          cases task with
          | publish publication =>
              rw [htasks] at hremembering
              dsimp only
              split_ifs with hdelivers
              · exact honce.intercept H (hremembering hdelivers) _
              · exact honce.of_eq rfl rfl
          | spread publication => exact honce.of_eq rfl rfl

end DialNode

/-! ### Networks of managers -/

namespace DialNetwork

variable {crypto : Crypto} (H : HashFn) {ι : Type*} [DecidableEq ι]

/-- A step of one manager. Any packet may arrive at any manager at any time. -/
def step (nodes : ι → DialNode crypto) (label : ι × DialStep) : ι → DialNode crypto :=
  Function.update nodes label.1 ((nodes label.1).step H label.2)

def Remembering (nodes : ι → DialNode crypto) (label : ι × DialStep) : Prop :=
  (nodes label.1).Remembering label.2

theorem once_run {nodes : ι → DialNode crypto} (hstart : ∀ i, (nodes i).redistributed = [])
    {labels : List (ι × DialStep)} (hmeets : Runs.Meets (step H) Remembering nodes labels) (i : ι) :
    (Runs.run (step H) nodes labels i).Once := by
  have honce : ∀ i, (nodes i).Once := by
    intro i
    refine ⟨?_, ?_⟩
    · rw [hstart i]
      intro notice hnotice
      exact absurd hnotice List.not_mem_nil
    · rw [hstart i]
      exact List.Pairwise.nil
  refine Runs.invariant_of_meets (step H) (fun nodes => ∀ i, (nodes i).Once) ?_ honce hmeets i
  intro nodes label honce hremembering i
  by_cases hi : i = label.1
  · subst hi
    rw [step, Function.update_self]
    exact (honce label.1).step H hremembering
  · rw [step, Function.update_of_ne hi]
    exact honce i

instance (nodes : ι → DialNode crypto) (label : ι × DialStep) :
    Decidable (Remembering nodes label) :=
  inferInstanceAs (Decidable ((nodes label.1).Remembering label.2))

/-- **Flooding.** A manager gets through with a verified notice exactly if its dial channel is not
itself subscribed to the notice's topic. In every run of a network of managers in which the
notices that reach a manager are newer than its tombstones, the table has room for theirs and no
tombstone expires, no manager redistributes a notice twice. -/
theorem flooding_terminates :
    (∀ (node : DialNode crypto) (notice : Notice) (now : ClockReading), node.tasks = [] →
      notice.verify crypto = true →
        ((node.step H (.receive notice.redistribution.data now)).Returns H ↔
          node.deliversLocally notice.body.topicId.bytes = false)) ∧
    ∀ (nodes : ι → DialNode crypto) (labels : List (ι × DialStep)),
      (∀ i, (nodes i).redistributed = []) → Runs.Meets (step H) Remembering nodes labels →
        ∀ i notice, (Runs.run (step H) nodes labels i).redistributed.countP
          (DialNode.sameNotice notice) ≤ 1 := by
  refine ⟨?_, ?_⟩
  · intro node notice now hidle hverify
    exact DialNode.returns_iff H hidle hverify now
  · intro nodes labels hstart hmeets i notice
    exact DialNode.countP_sameNotice_le_one (once_run H hstart hmeets i).apart notice

/-! ### The notice of an owner -/

/-- A delete notice for the channel of the key `1`, made and signed with that key. -/
def ownersNotice : Notice :=
  .delete (Manager.ownersBody 1)

theorem verify_ownersNotice : ownersNotice.verify Crypto.padded = true := by
  decide +kernel

def idle (manager : Manager crypto) : DialNode crypto :=
  ⟨manager, [], []⟩

def handling (i : Fin 2) : List (Fin 2 × DialStep) :=
  [(i, .receive ownersNotice.redistribution.data ⟨0, 0⟩), (i, .work ⟨0, 0⟩ fun _ => ⟨0, 0, 0⟩),
    (i, .work ⟨0, 0⟩ fun _ => ⟨0, 0, 0⟩)]

open Network (byteHash)

theorem flooding_terminates_owner :
    ∃ manager, Manager.withChannel = some manager ∧
      ((idle manager).step byteHash
        (.receive ownersNotice.redistribution.data ⟨0, 0⟩)).Returns byteHash ∧
      ∀ i notice, (Runs.run (step byteHash) (fun _ : Fin 2 => idle manager)
        (handling 0 ++ handling 1) i).redistributed.countP (DialNode.sameNotice notice) ≤ 1 := by
  have hany : (Manager.withChannel.any fun manager =>
      !(idle manager).deliversLocally ownersNotice.body.topicId.bytes &&
        decide (Runs.Meets (step byteHash) Remembering (fun _ : Fin 2 => idle manager)
          (handling 0 ++ handling 1))) = true := by
    decide +kernel
  obtain ⟨manager, hmanager, hquiet⟩ := (Option.any_eq_true _ _).mp hany
  rw [Bool.and_eq_true, Bool.not_eq_true', decide_eq_true_eq] at hquiet
  have hterminates := @flooding_terminates Crypto.padded byteHash (Fin 2) _
  have hreturns := (hterminates.1 (idle manager) ownersNotice ⟨0, 0⟩ rfl
    verify_ownersNotice).mpr hquiet.1
  exact ⟨manager, hmanager, hreturns, hterminates.2 _ _ (fun _ => rfl) hquiet.2⟩

def joinedTopic : Option (Manager Crypto.padded) :=
  Manager.withChannel.map fun manager =>
    (manager.joinChannel byteHash (some [3]) (Manager.topicOf [1]).bytes ⟨5, 5⟩).2.1

/-- A manager that joined the topic redistributes the owner's notice a second time while it
handles it, and never gets through with it. -/
theorem flooding_endless :
    ∃ manager, joinedTopic = some manager ∧ ownersNotice.verify Crypto.padded = true ∧
      (Runs.run (DialNode.step byteHash) (idle manager)
        [.receive ownersNotice.redistribution.data ⟨6, 6⟩,
          .work ⟨7, 7⟩ fun _ => ⟨0, 0, 0⟩]).redistributed.countP
            (DialNode.sameNotice ownersNotice) = 2 ∧
      ∀ turns, (Runs.run (DialNode.step byteHash)
        ((idle manager).step byteHash
          (.receive ownersNotice.redistribution.data ⟨6, 6⟩))
            (DialNode.working turns)).tasks ≠ [] := by
  have hany : (joinedTopic.any fun manager =>
      decide ((Runs.run (DialNode.step byteHash) (idle manager)
        [.receive ownersNotice.redistribution.data ⟨6, 6⟩,
          .work ⟨7, 7⟩ fun _ => ⟨0, 0, 0⟩]).redistributed.countP
            (DialNode.sameNotice ownersNotice) = 2) &&
      ((idle manager).step byteHash
        (.receive ownersNotice.redistribution.data ⟨6, 6⟩)).deliversLocally
          ownersNotice.body.topicId.bytes &&
      decide (Task.publish ownersNotice.redistribution ∈ ((idle manager).step byteHash
        (.receive ownersNotice.redistribution.data ⟨6, 6⟩)).tasks)) = true := by
    decide +kernel
  obtain ⟨manager, hmanager, hrun⟩ := (Option.any_eq_true _ _).mp hany
  rw [Bool.and_eq_true, Bool.and_eq_true, decide_eq_true_eq, decide_eq_true_eq] at hrun
  obtain ⟨⟨htwice, hdelivers⟩, hpublish⟩ := hrun
  refine ⟨manager, hmanager, verify_ownersNotice, htwice, ?_⟩
  intro turns hdone
  have hcaught := DialNode.Caught.run byteHash verify_ownersNotice turns
    ⟨hdelivers, hpublish⟩
  have hpending := hcaught.pending
  rw [hdone] at hpending
  exact absurd hpending List.not_mem_nil

end DialNetwork

end Poseidon
