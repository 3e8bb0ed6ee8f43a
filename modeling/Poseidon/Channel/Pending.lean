import Mathlib.Data.List.Nodup
import Mathlib.Data.List.Perm.Basic
import Poseidon.Channel.Membership

/-!
# Bootstraps that wait for a reply

A pending bootstrap refers to its channel by pointer. Joining makes both, a reply takes the entry
away, but what destroys a channel leaves the pending entries as they are. So an entry refers to a
channel of the manager at every time exactly if no channel is destroyed while it waits for its
reply.
-/

namespace Poseidon

inductive ManagerStep where
  | operation (operation : Manager.Operation)
  | packet (data : Bytes) (now : ClockReading)

namespace Manager

open Cbor (Memory)

variable {crypto : Crypto} (H : HashFn)

def advance [Memory] (manager : Manager crypto) : ManagerStep → Manager crypto
  | .operation operation => (manager.perform H operation).1
  | .packet data now => (manager.intercept H data now).2.1

/-- Every entry refers to a channel of the table, and no channel has two entries. -/
def PendingLive (manager : Manager crypto) : Prop :=
  (∀ entry ∈ manager.pending, ∃ channel ∈ manager.channels, channel.address = entry.channel) ∧
    (manager.pending.map (·.channel)).Nodup

/-! ### What a step does -/

def findChannel (manager : Manager crypto) (hash : Bytes) : Option (Channel crypto) :=
  manager.channels.find? fun channel => channel.nodeId.hash == hash

def deletes (manager : Manager crypto) : Notice → Option (Channel crypto)
  | .delete body =>
      (manager.findByTopic body.topicId.bytes).bind fun channel =>
        manager.findChannel channel.nodeId.hash
  | .modify _ _ => none

def doomed [Memory] (manager : Manager crypto) : ManagerStep → Option (Channel crypto)
  | .operation (.destroyChannel hash) => manager.findChannel hash
  | .packet data _ =>
      match DialPacket.read crypto data with
      | some (.notice notice) => manager.deletes notice
      | _ => none
  | _ => none

/-- The channel that the step destroys does not wait for a reply. -/
def Spares [Memory] (manager : Manager crypto) (step : ManagerStep) : Prop :=
  ∀ channel ∈ manager.doomed step, ∀ entry ∈ manager.pending, entry.channel ≠ channel.address

instance [Memory] (manager : Manager crypto) (step : ManagerStep) :
    Decidable (manager.Spares step) :=
  inferInstanceAs (Decidable (∀ channel ∈ manager.doomed step, _))

def addresses (manager : Manager crypto) : List Nat :=
  manager.channels.map (·.address)

def waiting (manager : Manager crypto) : List Nat :=
  manager.pending.map (·.channel)

/-- What a step does to the addresses of the channels and of those that wait, with the address of
the channel it destroys. -/
inductive Moves (before after : Manager crypto) : Option Nat → Prop where
  | kept (haddresses : after.addresses = before.addresses)
      (hnext : after.nextAddress = before.nextAddress)
      (hwaiting : after.waiting.Sublist before.waiting) : Moves before after none
  | added (haddresses : after.addresses = before.addresses ++ [before.nextAddress])
      (hnext : after.nextAddress = before.nextAddress + 1)
      (hwaiting : after.waiting.Sublist (before.waiting ++ [before.nextAddress])) :
      Moves before after none
  | removed (victim : Nat) (haddresses : (victim :: after.addresses).Perm before.addresses)
      (hnext : after.nextAddress = before.nextAddress)
      (hwaiting : after.waiting = before.waiting) : Moves before after (some victim)

variable (manager : Manager crypto) {victim : Option Nat}

theorem addresses_map {change : Channel crypto → Channel crypto}
    (hchange : ∀ channel, (change channel).address = channel.address) :
    (manager.channels.map change).map (·.address) = manager.addresses := by
  rw [List.map_map]
  exact List.map_congr_left fun channel _ => hchange channel

theorem addresses_updateChannel (address : Nat) {change : Channel crypto → Channel crypto}
    (hchange : ∀ channel, (change channel).address = channel.address) :
    (manager.updateChannel address change).addresses = manager.addresses := by
  refine manager.addresses_map fun channel => ?_
  split_ifs
  · exact hchange channel
  · rfl

theorem moves_createChannel (key : Option Bytes) (config : ChannelConfig) :
    Moves manager (manager.createChannel key config).2 none := by
  obtain ⟨nextPort, hallocated⟩ := manager.allocatePort_frame
  have hwaiting : (manager.createChannel key config).2.waiting = manager.waiting := by
    obtain heq | heq | ⟨channel, -, -, heq⟩ := manager.createChannel_cases key config
    · rw [heq]
    · rw [heq, hallocated]
      rfl
    · rw [heq, hallocated]
      rfl
  have hadds := manager.adds_createChannel key config
  revert hadds
  generalize (manager.createChannel key config).1 = result
  rintro (⟨hchannels, haddress⟩ | ⟨channel, hchannels, haddress, hfresh, -⟩)
  · exact .kept (congrArg (List.map _) hchannels) haddress (hwaiting ▸ List.Sublist.refl _)
  · refine .added ?_ haddress (hwaiting ▸ List.sublist_append_left _ _)
    rw [addresses, hchannels, List.map_append, List.map_singleton, hfresh]
    rfl

theorem waiting_joinChannel (key : Option Bytes) (topic : Bytes) (now : ClockReading) :
    (manager.joinChannel H key topic now).2.1.waiting =
      manager.waiting ++ (manager.joinChannel H key topic now).1.toList.map (·.address) := by
  obtain ⟨nextPort, hallocated⟩ := manager.allocatePort_frame
  obtain heq | heq | ⟨created, -, -, heq⟩ := manager.joinChannel_cases H key topic now
  · rw [heq]
    exact (List.append_nil _).symm
  · rw [heq, hallocated]
    exact (List.append_nil _).symm
  · rw [heq]
    exact List.map_append

theorem moves_joinChannel (key : Option Bytes) (topic : Bytes) (now : ClockReading) :
    Moves manager (manager.joinChannel H key topic now).2.1 none := by
  have hwaiting := manager.waiting_joinChannel H key topic now
  have hadds := manager.adds_joinChannel H key topic now
  revert hadds hwaiting
  generalize (manager.joinChannel H key topic now).1 = result
  rintro hwaiting (⟨hchannels, haddress⟩ | ⟨channel, hchannels, haddress, hfresh, -⟩)
  · rw [Option.toList_none, List.map_nil, List.append_nil] at hwaiting
    exact .kept (congrArg (List.map _) hchannels) haddress (hwaiting ▸ List.Sublist.refl _)
  · rw [Option.toList_some, List.map_singleton, hfresh] at hwaiting
    refine .added ?_ haddress (hwaiting ▸ List.Sublist.refl _)
    rw [addresses, hchannels, List.map_append, List.map_singleton, hfresh]
    rfl

theorem moves_destroyChannel (hash : Bytes) :
    Moves manager (manager.destroyChannel hash).2 ((manager.findChannel hash).map (·.address)) := by
  unfold destroyChannel findChannel
  rw [List.find?_eq_bind_findIdx?_getElem?]
  cases hindex : manager.channels.findIdx? fun channel => channel.nodeId.hash == hash with
  | none => exact .kept rfl rfl (List.Sublist.refl _)
  | some index =>
      obtain ⟨hlength, -⟩ := List.findIdx?_eq_some_iff_getElem.mp hindex
      rw [Option.bind_some, List.getElem?_eq_getElem hlength, Option.map_some]
      refine .removed _ ?_ rfl rfl
      have hperm := ((swapRemove_perm hlength).cons manager.channels[index]).trans
        (List.getElem_cons_eraseIdx_perm hlength)
      exact hperm.map (·.address)

/-- A change of the channels that keeps their addresses and hashes leaves no trace in `Moves`. -/
theorem Moves.of_relabelled {before relabelled after : Manager crypto}
    (hmoves : Moves relabelled after victim)
    (haddresses : relabelled.addresses = before.addresses)
    (hnext : relabelled.nextAddress = before.nextAddress)
    (hwaiting : relabelled.waiting = before.waiting) : Moves before after victim := by
  cases hmoves with
  | kept hkept hsame hsub =>
      exact .kept (hkept.trans haddresses) (hsame.trans hnext) (hwaiting ▸ hsub)
  | added hadded hsucc hsub =>
      rw [haddresses, hnext] at hadded
      rw [hnext] at hsucc
      rw [hwaiting, hnext] at hsub
      exact .added hadded hsucc hsub
  | removed victim hperm hsame hsub =>
      rw [haddresses] at hperm
      exact .removed victim hperm (hsame.trans hnext) (hsub.trans hwaiting)

theorem deleteSigned_frame (channel : Channel crypto) :
    (channel.deleteSigned H).address = channel.address ∧
      (channel.deleteSigned H).nodeId = channel.nodeId := by
  unfold Channel.deleteSigned
  split_ifs <;> exact ⟨rfl, rfl⟩

theorem address_findChannel_updateChannel (address : Nat)
    {change : Channel crypto → Channel crypto}
    (hchange : ∀ channel, (change channel).address = channel.address ∧
      (change channel).nodeId = channel.nodeId) (hash : Bytes) :
    ((manager.updateChannel address change).findChannel hash).map (·.address) =
      (manager.findChannel hash).map (·.address) := by
  have hsame : ∀ channel : Channel crypto,
      (if channel.address = address then change channel else channel).address = channel.address ∧
        (if channel.address = address then change channel else channel).nodeId =
          channel.nodeId := by
    intro channel
    split_ifs
    · exact hchange channel
    · exact ⟨rfl, rfl⟩
  unfold findChannel updateChannel
  dsimp only
  rw [List.find?_map, Option.map_map]
  congr 1
  · funext channel
    exact (hsame channel).1
  · congr 1
    funext channel
    exact congrArg (·.hash == hash) (hsame channel).2

theorem moves_handleNotice (notice : Notice) (now : ClockReading) :
    Moves manager (manager.handleNotice H notice now).1
      ((manager.deletes notice).map (·.address)) := by
  obtain ⟨tombstones, hstored⟩ := manager.addTombstone_frame (tombstoneOf notice now)
  unfold handleNotice
  dsimp only
  rw [hstored]
  let stored : Manager crypto := { manager with tombstones := tombstones }
  have hsame : stored.findByTopic notice.body.topicId.bytes =
      manager.findByTopic notice.body.topicId.bytes := rfl
  cases hfound : manager.findByTopic notice.body.topicId.bytes with
  | none =>
      rw [hsame.trans hfound]
      have hnone : (manager.deletes notice).map (·.address) = none := by
        cases notice with
        | delete body => exact congrArg (fun found => Option.map _ (Option.bind found _)) hfound
        | modify body config => rfl
      rw [hnone]
      exact .kept rfl rfl (List.Sublist.refl _)
  | some channel =>
      rw [hsame.trans hfound]
      cases notice with
      | delete body =>
          have hframe := @deleteSigned_frame crypto H
          have hdestroy := (stored.updateChannel channel.address
            (·.deleteSigned H)).moves_destroyChannel channel.nodeId.hash
          have hdeletes : manager.deletes (.delete body) =
              stored.findChannel channel.nodeId.hash := by
            exact congrArg (Option.bind · _) hfound
          rw [stored.address_findChannel_updateChannel channel.address hframe] at hdestroy
          rw [hdeletes]
          exact hdestroy.of_relabelled (stored.addresses_updateChannel channel.address
            fun channel => (hframe channel).1) rfl rfl
      | modify body config =>
          exact .kept (stored.addresses_updateChannel channel.address fun _ => rfl) rfl
            (List.Sublist.refl _)

theorem channel_addReply (entry : PendingBootstrap) (responder : MeridianNode) :
    (entry.addReply responder).channel = entry.channel := by
  unfold PendingBootstrap.addReply
  split_ifs <;> rfl

theorem moves_handleBootstrapReply (reply : BootstrapReply) :
    Moves manager (manager.handleBootstrapReply reply).2.1 none := by
  unfold handleBootstrapReply
  split
  · exact .kept rfl rfl (List.Sublist.refl _)
  · rename_i entry index hfind
    dsimp only
    split_ifs
    · refine .kept (addresses_updateChannel _ _ fun _ => rfl) rfl ?_
      exact (List.eraseIdx_sublist _ _).map _
    · -- the entry keeps its channel when a further reply is noted in it
      have hentry : manager.pending[index]? = some entry :=
        List.mem_zipIdx_iff_getElem?.mp (List.mem_of_find?_eq_some hfind)
      have hsame : (manager.pending.set index (entry.addReply reply.responder)).map (·.channel) =
          manager.waiting := by
        obtain ⟨hlength, rfl⟩ := List.getElem?_eq_some_iff.mp hentry
        rw [List.map_set, channel_addReply, waiting]
        apply List.ext_getElem
        · rw [List.length_set]
        · intro position _ _
          rw [List.getElem_set]
          split_ifs with hposition
          · subst hposition
            rw [List.getElem_map]
          · rfl
      exact .kept rfl rfl (hsame ▸ List.Sublist.refl _)

theorem moves_advance [Memory] (step : ManagerStep) :
    Moves manager (manager.advance H step) ((manager.doomed step).map (·.address)) := by
  cases step with
  | operation operation =>
      cases operation with
      | createChannel key config => exact manager.moves_createChannel key config
      | joinChannel key topic now => exact manager.moves_joinChannel H key topic now
      | destroyChannel hash => exact manager.moves_destroyChannel hash
      | subscribeDial topic ttl => exact .kept rfl rfl (List.Sublist.refl _)
      | unsubscribeDial topic => exact .kept rfl rfl (List.Sublist.refl _)
      | tickAll now => exact .kept (manager.addresses_map fun _ => rfl) rfl (List.Sublist.refl _)
  | packet data now =>
      unfold advance intercept doomed
      dsimp only
      cases DialPacket.read crypto data with
      | none => exact .kept rfl rfl (List.Sublist.refl _)
      | some packet =>
          cases packet with
          | bootstrap request => exact .kept rfl rfl (List.Sublist.refl _)
          | bootstrapReply reply => exact manager.moves_handleBootstrapReply reply
          | notice notice => exact manager.moves_handleNotice H notice now

/-! ### Runs -/

/-- The addresses given out so far are below the next one, and each was given out once. -/
structure Ordered (manager : Manager crypto) : Prop where
  addresses_nodup : manager.addresses.Nodup
  addresses_lt : ∀ address ∈ manager.addresses, address < manager.nextAddress
  waiting_nodup : manager.waiting.Nodup
  waiting_lt : ∀ address ∈ manager.waiting, address < manager.nextAddress

theorem nodup_append_next {taken : List Nat} {next : Nat} (hnodup : taken.Nodup)
    (hbelow : ∀ address ∈ taken, address < next) : (taken ++ [next]).Nodup := by
  refine List.nodup_append.mpr ⟨hnodup, List.nodup_singleton next, ?_⟩
  intro address haddress other hother
  rw [List.mem_singleton.mp hother]
  exact (hbelow address haddress).ne

theorem lt_succ_of_mem_append_next {taken : List Nat} {next : Nat}
    (hbelow : ∀ address ∈ taken, address < next) :
    ∀ address ∈ taken ++ [next], address < next + 1 := by
  intro address haddress
  obtain hold | hnew := List.mem_append.mp haddress
  · exact Nat.lt_succ_of_lt (hbelow address hold)
  · rw [List.mem_singleton.mp hnew]
    exact Nat.lt_succ_self next

theorem Ordered.moves {before after : Manager crypto} (hordered : before.Ordered)
    (hmoves : Moves before after victim) : after.Ordered := by
  obtain ⟨hnodup, hlt, hwaitingNodup, hwaitingLt⟩ := hordered
  cases hmoves with
  | kept haddresses hnext hwaiting =>
      refine ⟨haddresses ▸ hnodup, ?_, hwaitingNodup.sublist hwaiting, ?_⟩
      · rw [haddresses, hnext]
        exact hlt
      · rw [hnext]
        exact fun address haddress => hwaitingLt address (hwaiting.subset haddress)
  | added haddresses hnext hwaiting =>
      refine ⟨?_, ?_, (nodup_append_next hwaitingNodup hwaitingLt).sublist hwaiting, ?_⟩
      · rw [haddresses]
        exact nodup_append_next hnodup hlt
      · rw [haddresses, hnext]
        exact lt_succ_of_mem_append_next hlt
      · rw [hnext]
        exact fun address haddress =>
          lt_succ_of_mem_append_next hwaitingLt address (hwaiting.subset haddress)
  | removed victim haddresses hnext hwaiting =>
      have hall := haddresses.nodup_iff.mpr hnodup
      refine ⟨(List.nodup_cons.mp hall).2, ?_, hwaiting ▸ hwaitingNodup, ?_⟩
      · rw [hnext]
        exact fun address haddress =>
          hlt address (haddresses.subset (List.mem_cons_of_mem _ haddress))
      · rw [hwaiting, hnext]
        exact hwaitingLt

/-- Every address that waits is one of a channel. -/
def Live (manager : Manager crypto) : Prop :=
  ∀ address ∈ manager.waiting, address ∈ manager.addresses

theorem pendingLive_iff_live {manager : Manager crypto} (hordered : manager.Ordered) :
    manager.PendingLive ↔ manager.Live := by
  refine (and_iff_left hordered.waiting_nodup).trans ?_
  unfold Live waiting addresses
  simp only [List.mem_map, forall_exists_index, and_imp, forall_apply_eq_imp_iff₂]

theorem Live.moves_iff {before after : Manager crypto} (hordered : before.Ordered)
    (hlive : before.Live) (hmoves : Moves before after victim) :
    after.Live ↔ ∀ address ∈ victim, address ∉ before.waiting := by
  cases hmoves with
  | kept haddresses hnext hwaiting =>
      refine iff_of_true (fun address haddress => ?_) (by simp)
      rw [haddresses]
      exact hlive address (hwaiting.subset haddress)
  | added haddresses hnext hwaiting =>
      refine iff_of_true (fun address haddress => ?_) (by simp)
      rw [haddresses]
      obtain hold | hnew := List.mem_append.mp (hwaiting.subset haddress)
      · exact List.mem_append_left _ (hlive address hold)
      · exact List.mem_append_right _ hnew
  | removed victim haddresses hnext hwaiting =>
      have hgone : victim ∉ after.addresses :=
        (List.nodup_cons.mp (haddresses.nodup_iff.mpr hordered.addresses_nodup)).1
      simp only [Option.mem_def, Option.some.injEq, forall_eq']
      constructor
      · intro hafter hvictim
        exact hgone (hafter victim (hwaiting ▸ hvictim))
      · intro hvictim address haddress
        rw [hwaiting] at haddress
        obtain rfl | hother := List.mem_cons.mp (haddresses.symm.subset (hlive address haddress))
        · exact absurd haddress hvictim
        · exact hother

theorem spares_iff [Memory] (step : ManagerStep) :
    manager.Spares step ↔
      ∀ address ∈ (manager.doomed step).map (·.address), address ∉ manager.waiting := by
  unfold Spares waiting
  cases manager.doomed step with
  | none => simp
  | some channel => simp

theorem tables_create {dialKey : Option Bytes} {dialPort portRangeStart portRangeEnd : UInt16}
    {manager : Manager crypto}
    (hcreate : create crypto dialKey dialPort portRangeStart portRangeEnd = some manager) :
    manager.addresses = [] ∧ manager.waiting = [] := by
  unfold create at hcreate
  split_ifs at hcreate
  obtain ⟨dial, -, rfl⟩ := Option.map_eq_some_iff.mp hcreate
  exact ⟨rfl, rfl⟩

/-- **Pending bootstraps.** From the creation of a manager on, every pending entry refers to one of
its channels at all times exactly if no step destroys a channel that waits for its reply. -/
theorem pendingLive_iff_spares [Memory] (dialKey : Option Bytes)
    (dialPort portRangeStart portRangeEnd : UInt16) (manager : Manager crypto)
    (hcreate : create crypto dialKey dialPort portRangeStart portRangeEnd = some manager)
    (steps : List ManagerStep) :
    (∀ front, front <+: steps → (Runs.run (advance H) manager front).PendingLive) ↔
      Runs.Meets (advance H) Spares manager steps := by
  obtain ⟨haddresses, hwaiting⟩ := tables_create hcreate
  have hordered : manager.Ordered := by
    refine ⟨haddresses ▸ List.nodup_nil, ?_, hwaiting ▸ List.nodup_nil, ?_⟩
    · simp [haddresses]
    · simp [hwaiting]
  have hstart : manager.PendingLive := by
    rw [pendingLive_iff_live hordered]
    simp [Live, hwaiting]
  refine Runs.forall_front_iff_meets (advance H) Ordered PendingLive ?_ ?_ hordered hstart
  · intro state step hstate
    exact hstate.moves (state.moves_advance H step)
  · intro state step hstate hlive
    have hmoves := state.moves_advance H step
    rw [pendingLive_iff_live (hstate.moves hmoves), spares_iff]
    exact Live.moves_iff hstate ((pendingLive_iff_live hstate).mp hlive) hmoves

/-! ### A channel that is joined and destroyed -/

def joinStep : ManagerStep :=
  .operation (.joinChannel (some [3]) (topicOf [1]).bytes ⟨5, 5⟩)

def replyStep : ManagerStep :=
  .packet (Cbor.serialize (BootstrapReply.encode (topicOf [1]).bytes (topicOf [2]).bytes
    ⟨127, 9000⟩ 5 [])) ⟨6, 6⟩

def destroyStep : ManagerStep :=
  .operation (.destroyChannel (Crypto.padded.blake3 [3]))

open Network (byteHash)

theorem pendingLive_of_reply :
    ∃ manager, create Crypto.padded (some [9]) 9000 9001 9100 = some manager ∧
      ∀ front, front <+: [joinStep, replyStep, destroyStep] →
        (Runs.run (advance byteHash) manager front).PendingLive := by
  have hany : ((create Crypto.padded (some [9]) 9000 9001 9100).any fun manager =>
      decide (Runs.Meets (advance byteHash) Spares manager
        [joinStep, replyStep, destroyStep])) = true := by
    decide +kernel
  obtain ⟨manager, hcreate, hmeets⟩ := (Option.any_eq_true _ _).mp hany
  exact ⟨manager, hcreate, (pendingLive_iff_spares byteHash _ _ _ _ manager hcreate
    _).mpr (of_decide_eq_true hmeets)⟩

/-- Without a reply in between, the pending entry outlives its channel. -/
theorem not_pendingLive_of_destroyed :
    ∃ manager, create Crypto.padded (some [9]) 9000 9001 9100 = some manager ∧
      ¬(Runs.run (advance byteHash) manager [joinStep, destroyStep]).PendingLive := by
  have hany : ((create Crypto.padded (some [9]) 9000 9001 9100).any fun manager =>
      let after := Runs.run (advance byteHash) manager [joinStep, destroyStep]
      after.channels.isEmpty && !after.pending.isEmpty) = true := by
    decide +kernel
  obtain ⟨manager, hcreate, hafter⟩ := (Option.any_eq_true _ _).mp hany
  rw [Bool.and_eq_true, List.isEmpty_iff, Bool.not_eq_true', List.isEmpty_eq_false_iff] at hafter
  obtain ⟨hchannels, hpending⟩ := hafter
  refine ⟨manager, hcreate, fun hlive => ?_⟩
  obtain ⟨entry, hentry⟩ := List.exists_mem_of_ne_nil _ hpending
  obtain ⟨channel, hchannel, -⟩ := hlive.1 entry hentry
  rw [hchannels] at hchannel
  exact List.not_mem_nil hchannel

end Manager

end Poseidon
