import Poseidon.Channel.Authority

/-!
# The configuration behind several modify notices

The handler of a modify notice updates two stores. The tombstone of a topic is replaced by a newer
one only. The channel takes the configuration of whatever notice is handled, so it ends with the
configuration of the notice that was handled last, and not with that of the newest one.
-/

namespace Poseidon

open Cbor

structure ModifyHandling where
  body : NoticeBody
  config : ChannelConfig
  now : ClockReading
deriving DecidableEq, Repr

def ModifyHandling.notice (handling : ModifyHandling) : Notice :=
  .modify handling.body handling.config

/-- No notice that was handled has a later timestamp. -/
def ModifyHandling.Newest (newest : ModifyHandling) (handled : List ModifyHandling) : Prop :=
  newest ∈ handled ∧
    ∀ handling ∈ handled, handling.body.timestampUs ≤ newest.body.timestampUs

instance (newest : ModifyHandling) (handled : List ModifyHandling) :
    Decidable (newest.Newest handled) :=
  inferInstanceAs (Decidable (_ ∧ _))

namespace Manager

variable {crypto : Crypto} (H : HashFn)

/-- `poseidon_channel_manager_handle_modify_notice`. -/
def handleModifyNotice (manager : Manager crypto) (handling : ModifyHandling) : Manager crypto :=
  (manager.handleNotice H handling.notice handling.now).1

/-- The channel is the one the handlers find by its topic. -/
def Finds (manager : Manager crypto) (channel : Channel crypto) : Prop :=
  (manager.findByTopic channel.topic).map (·.address) = some channel.address

instance (manager : Manager crypto) (channel : Channel crypto) :
    Decidable (manager.Finds channel) :=
  inferInstanceAs (Decidable (_ = _))

/-- What a modify notice does to a channel: it is rejoined if it has the address of the channel that
was found. -/
def reconfigured (address : Option Nat) (config : ChannelConfig) (channel : Channel crypto) :
    Channel crypto :=
  if some channel.address = address then channel.rejoinWithConfig H config else channel

variable (manager : Manager crypto) {channel : Channel crypto}

theorem channels_handleModifyNotice (handling : ModifyHandling) :
    (manager.handleModifyNotice H handling).channels =
      manager.channels.map (reconfigured H
        ((manager.findByTopic handling.body.topicId.bytes).map (·.address)) handling.config) := by
  unfold handleModifyNotice handleNotice
  have htopic : handling.notice.body.topicId = handling.body.topicId := rfl
  dsimp only
  rw [findByTopic_addTombstone, htopic]
  cases manager.findByTopic handling.body.topicId.bytes with
  | none =>
      dsimp only
      rw [channels_addTombstone]
      exact (List.map_id _).symm
  | some found =>
      change (manager.addTombstone _).channels.map _ = _
      rw [channels_addTombstone]
      refine List.map_congr_left fun channel _ => ?_
      rw [reconfigured, Option.map_some]
      exact if_congr (Option.some_inj).symm rfl rfl

theorem topic_reconfigured (address : Option Nat) (config : ChannelConfig)
    (channel : Channel crypto) : (reconfigured H address config channel).topic = channel.topic := by
  unfold reconfigured
  split_ifs <;> rfl

theorem address_reconfigured (address : Option Nat) (config : ChannelConfig)
    (channel : Channel crypto) :
    (reconfigured H address config channel).address = channel.address := by
  unfold reconfigured
  split_ifs <;> rfl

theorem address_findByTopic_handleModifyNotice (handling : ModifyHandling) (topic : Bytes) :
    ((manager.handleModifyNotice H handling).findByTopic topic).map (·.address) =
      (manager.findByTopic topic).map (·.address) := by
  unfold findByTopic
  rw [channels_handleModifyNotice, List.find?_map, Option.map_map]
  congr 1
  · funext channel
    exact address_reconfigured H _ _ channel
  · congr 1
    funext channel
    exact congrArg (· == topic) (topic_reconfigured H _ _ channel)

theorem finds_handleModifyNotice (handling : ModifyHandling) {after : Channel crypto}
    (haddress : after.address = channel.address) (htopic : after.topic = channel.topic) :
    (manager.handleModifyNotice H handling).Finds after ↔ manager.Finds channel := by
  unfold Finds
  rw [address_findByTopic_handleModifyNotice, haddress, htopic]

def configAt (manager : Manager crypto) (index : Nat) : Option ChannelConfig :=
  manager.channels[index]?.map (·.config)

/-- One notice for the channel's topic: the channel takes its configuration if it is the one that
is found, and whatever the timestamp. -/
theorem getElem?_handleModifyNotice {manager : Manager crypto} {index : Nat}
    (hchannel : manager.channels[index]? = some channel) {handling : ModifyHandling}
    (htopic : handling.body.topicId.bytes = channel.topic) :
    ∃ after, (manager.handleModifyNotice H handling).channels[index]? = some after ∧
      after.address = channel.address ∧ after.topic = channel.topic ∧
      after.config = if manager.Finds channel then handling.config else channel.config := by
  let found := (manager.findByTopic channel.topic).map (·.address)
  refine ⟨reconfigured H found handling.config channel, ?_, address_reconfigured H _ _ channel,
    topic_reconfigured H _ _ channel, ?_⟩
  · rw [channels_handleModifyNotice, List.getElem?_map, hchannel, Option.map_some, htopic]
  · rw [reconfigured]
    by_cases hfinds : manager.Finds channel
    · rw [if_pos hfinds, if_pos hfinds.symm]
      rfl
    · rw [if_neg hfinds, if_neg fun heq => hfinds heq.symm]

theorem configAt_run {manager : Manager crypto} {index : Nat}
    (hchannel : manager.channels[index]? = some channel) {handled : List ModifyHandling}
    (htopics : ∀ handling ∈ handled, handling.body.topicId.bytes = channel.topic) :
    (Runs.run (handleModifyNotice H) manager handled).configAt index =
      some (if manager.Finds channel then (handled.getLast?.map (·.config)).getD channel.config
        else channel.config) := by
  -- what a notice leaves of the channel is its place, its address and its topic
  induction handled generalizing manager channel with
  | nil =>
      rw [Runs.run_nil, configAt, hchannel, List.getLast?_nil]
      exact congrArg some (ite_self _).symm
  | cons handling handled ih =>
      have htopic := htopics handling List.mem_cons_self
      obtain ⟨after, hafter, haddress, hsame, hconfig⟩ :=
        getElem?_handleModifyNotice H hchannel htopic
      have hrest : ∀ other ∈ handled, other.body.topicId.bytes = after.topic := by
        intro other hother
        rw [hsame]
        exact htopics other (List.mem_cons_of_mem _ hother)
      have hfinds := finds_handleModifyNotice H manager handling haddress hsame
      rw [Runs.run_cons, ih hafter hrest, hconfig, List.getLast?_cons]
      simp only [hfinds]
      by_cases hfound : manager.Finds channel
      · simp only [if_pos hfound, Option.map_some, Option.getD_some]
        cases handled.getLast? <;> rfl
      · simp only [if_neg hfound]

/-- **Convergence.** Behind modify notices for a channel's topic, its configuration is that of the
newest of them exactly if the last one has it; a channel that is not found by its topic must have it
from the start. -/
theorem config_newest_iff (manager : Manager crypto) (index : Nat) (channel : Channel crypto)
    (hchannel : manager.channels[index]? = some channel) (handled : List ModifyHandling)
    (htopics : ∀ handling ∈ handled, handling.body.topicId.bytes = channel.topic)
    (newest : ModifyHandling) (hnewest : newest.Newest handled) :
    (Runs.run (handleModifyNotice H) manager handled).configAt index = some newest.config ↔
      if manager.Finds channel then handled.getLast?.map (·.config) = some newest.config
      else channel.config = newest.config := by
  rw [configAt_run H hchannel htopics, Option.some_inj]
  by_cases hfound : manager.Finds channel
  · rw [if_pos hfound, if_pos hfound]
    obtain ⟨last, hlast⟩ : ∃ last, handled.getLast? = some last :=
      Option.isSome_iff_exists.mp (List.getLast?_isSome.mpr (List.ne_nil_of_mem hnewest.1))
    rw [hlast, Option.map_some, Option.getD_some, Option.some_inj]
  · rw [if_neg hfound, if_neg hfound]

/-! ### Two notices of an owner -/

/-- A modify notice for the channel of the key `1`, made and signed with that key. -/
def ownersChange (timestampUs : UInt64) (config : ChannelConfig) : ModifyHandling where
  body := ownersBody timestampUs
  config := config
  now := ⟨0, 0⟩

def olderChange : ModifyHandling :=
  ownersChange 1 .defaults

def newerChange : ModifyHandling :=
  ownersChange 2 { ChannelConfig.defaults with quasarMaxHops := 7 }

theorem config_newest_in_order :
    ∃ manager, withChannel = some manager ∧
      (Runs.run (handleModifyNotice Network.byteHash) manager [olderChange, newerChange]).configAt 0
        = some newerChange.config := by
  have hany : (withChannel.any fun manager => manager.channels[0]?.any fun channel =>
      decide (channel.topic = (topicOf [1]).bytes ∧ manager.Finds channel)) = true := by
    decide +kernel
  obtain ⟨manager, hmanager, hchannel⟩ := (Option.any_eq_true _ _).mp hany
  obtain ⟨channel, hchannel, hfinds⟩ := (Option.any_eq_true _ _).mp hchannel
  obtain ⟨htopic, hfinds⟩ := of_decide_eq_true hfinds
  refine ⟨manager, hmanager, (config_newest_iff Network.byteHash manager 0 channel hchannel
    [olderChange, newerChange] ?_ newerChange (by decide +kernel)).mpr ?_⟩
  · intro handling hhandling
    rw [htopic]
    simp only [List.mem_cons, List.not_mem_nil, or_false] at hhandling
    obtain rfl | rfl := hhandling <;> rfl
  · rw [if_pos hfinds]
    rfl

/-- Two valid notices, the newer one handled first: the older configuration stays. -/
theorem config_not_newest :
    olderChange.notice.verify Crypto.padded = true ∧
      newerChange.notice.verify Crypto.padded = true ∧
      newerChange.Newest [newerChange, olderChange] ∧
      ∃ manager channel, withChannel = some manager ∧ manager.channels[0]? = some channel ∧
        channel.topic = (topicOf [1]).bytes ∧
        (Runs.run (handleModifyNotice Network.byteHash) manager
          [newerChange, olderChange]).configAt 0 ≠ some newerChange.config := by
  refine ⟨by decide +kernel, by decide +kernel, by decide +kernel, ?_⟩
  have hany : (withChannel.any fun manager => manager.channels[0]?.any fun channel => decide
      (channel.topic = (topicOf [1]).bytes ∧
        (Runs.run (handleModifyNotice Network.byteHash) manager
          [newerChange, olderChange]).configAt 0 ≠ some newerChange.config)) = true := by
    decide +kernel
  obtain ⟨manager, hmanager, hchannel⟩ := (Option.any_eq_true _ _).mp hany
  obtain ⟨channel, hchannel, hfails⟩ := (Option.any_eq_true _ _).mp hchannel
  exact ⟨manager, channel, hmanager, hchannel, of_decide_eq_true hfails⟩

end Manager

end Poseidon
