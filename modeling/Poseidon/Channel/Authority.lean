import Poseidon.Channel.Manager
import Poseidon.Quasar.Network

/-!
# Who may delete or modify a channel

A notice carries the topic it acts on, the node id of its signer and the signer's public key. The
check of a notice relates the key to the node id and the signature to the key; the handlers act on
the topic. Nothing relates the topic to the node id. So a notice acts for the owner of its topic
exactly if the topic happens to be the Base58 form of the id it names.
-/

namespace Poseidon

open Cbor

/-- The topic whose channel or tombstone an effect changes. -/
def Effect.touches : Effect → Option Bytes
  | .tombstoned topic => some topic
  | .deleted topic => some topic
  | .reconfigured topic _ => some topic
  | .connecting _ _ => none
  | .publish _ => none
  | .redistribute _ => none

theorem fromString_of_verify {crypto : Crypto} {notice : Notice}
    (hverify : notice.verify crypto = true) :
    ∃ id, NodeId.fromString notice.body.nodeId.bytes = some id ∧
      id.hash = crypto.blake3 notice.body.publicKey := by
  unfold Notice.verify at hverify
  cases hid : NodeId.fromString notice.body.nodeId.bytes with
  | none => simp [hid] at hverify
  | some id =>
      simp only [hid, NodeId.verifyPublicKey, Bool.and_eq_true, beq_iff_eq] at hverify
      exact ⟨id, rfl, hverify.1.2.symm⟩

namespace Manager

variable {crypto : Crypto} (H : HashFn)

theorem touches_of_mem_handleBootstrapRequest {manager : Manager crypto} {topic : Bytes}
    {now : ClockReading} {effect : Effect}
    (heffect : effect ∈ manager.handleBootstrapRequest topic now) : effect.touches = none := by
  unfold handleBootstrapRequest at heffect
  split at heffect
  · obtain rfl := List.mem_singleton.mp heffect
    rfl
  · split at heffect
    · exact absurd heffect List.not_mem_nil
    · obtain rfl := List.mem_singleton.mp heffect
      rfl

theorem touches_of_mem_handleBootstrapReply {manager : Manager crypto} {reply : BootstrapReply}
    {effect : Effect} (heffect : effect ∈ (manager.handleBootstrapReply reply).2.2) :
    effect.touches = none := by
  unfold handleBootstrapReply at heffect
  split at heffect
  · exact absurd heffect List.not_mem_nil
  · dsimp only at heffect
    split_ifs at heffect
    · obtain rfl := List.mem_singleton.mp heffect
      rfl
    · exact absurd heffect List.not_mem_nil

variable (manager : Manager crypto) (tombstone : Tombstone)

theorem addTombstone_frame :
    ∃ tombstones, manager.addTombstone tombstone = { manager with tombstones := tombstones } := by
  unfold addTombstone
  split_ifs
  · split
    · exact ⟨_, rfl⟩
    · exact ⟨_, rfl⟩
  · exact ⟨manager.tombstones, rfl⟩

theorem channels_addTombstone : (manager.addTombstone tombstone).channels = manager.channels := by
  obtain ⟨tombstones, hadded⟩ := manager.addTombstone_frame tombstone
  rw [hadded]

/-- A notice changes something: its tombstone is stored, or its topic names a channel. -/
def Touches (manager : Manager crypto) (notice : Notice) (now : ClockReading) : Prop :=
  manager.stores (tombstoneOf notice now) = true ∨
    (manager.findByTopic notice.body.topicId.bytes).isSome = true

theorem findByTopic_addTombstone (topic : Bytes) :
    (manager.addTombstone tombstone).findByTopic topic = manager.findByTopic topic := by
  unfold findByTopic
  rw [channels_addTombstone]

theorem topic_eq_of_findByTopic {manager : Manager crypto} {topic : Bytes}
    {channel : Channel crypto} (hfind : manager.findByTopic topic = some channel) :
    channel.topic = topic := by
  have htopic := List.find?_some hfind
  simpa using htopic

theorem touches_handleNotice_iff (notice : Notice) (now : ClockReading) (topic : Bytes) :
    (∃ effect ∈ (manager.handleNotice H notice now).2, effect.touches = some topic) ↔
      topic = notice.body.topicId.bytes ∧ manager.Touches notice now := by
  unfold handleNotice Touches
  dsimp only
  rw [findByTopic_addTombstone]
  cases hchannel : manager.findByTopic notice.body.topicId.bytes with
  | none =>
      cases hstores : manager.stores (tombstoneOf notice now) with
      | false => simp [Effect.touches]
      | true => simp [Effect.touches, tombstoneOf, Tombstone.topicId, eq_comm]
  | some channel =>
      have htopic := topic_eq_of_findByTopic hchannel
      cases notice with
      | delete body =>
          cases hstores : manager.stores (tombstoneOf (.delete body) now) <;>
            simp [applyNotice, Effect.touches, tombstoneOf, Tombstone.topicId, htopic, eq_comm]
      | modify body config =>
          cases hstores : manager.stores (tombstoneOf (.modify body config) now) <;>
            simp [applyNotice, Effect.touches, tombstoneOf, Tombstone.topicId, htopic, eq_comm]

theorem touches_intercept_iff [Memory] (data : Bytes) (now : ClockReading) (topic : Bytes) :
    (∃ effect ∈ (manager.intercept H data now).2.2, effect.touches = some topic) ↔
      ∃ notice, DialPacket.read crypto data = some (.notice notice) ∧
        topic = notice.body.topicId.bytes ∧ manager.Touches notice now := by
  unfold intercept
  cases hread : DialPacket.read crypto data with
  | none => simp
  | some packet =>
      cases packet with
      | bootstrap request =>
          constructor
          · rintro ⟨effect, heffect, htouches⟩
            rw [touches_of_mem_handleBootstrapRequest heffect] at htouches
            contradiction
          · rintro ⟨notice, hnotice, -⟩
            cases hnotice
      | bootstrapReply reply =>
          constructor
          · rintro ⟨effect, heffect, htouches⟩
            rw [touches_of_mem_handleBootstrapReply heffect] at htouches
            contradiction
          · rintro ⟨notice, hnotice, -⟩
            cases hnotice
      | notice notice =>
          have hiff := touches_handleNotice_iff H manager notice now topic
          constructor
          · intro heffect
            exact ⟨notice, rfl, hiff.mp heffect⟩
          · rintro ⟨other, hother, htouches⟩
            obtain rfl := DialPacket.notice.inj (Option.some.inj hother)
            exact hiff.mpr htouches

/-- **Authority.** Whatever packet arrives and whatever state the manager is in: every topic it
deletes, reconfigures or marks with a tombstone is the Base58 form of the hash of the key whose
signature was verified exactly if the verified notice, where it changes anything, names as its
topic the id that its node id field stands for. -/
theorem touches_only_owned_iff [Memory] (manager : Manager crypto) (data : Bytes)
    (now : ClockReading) :
    (∀ effect ∈ (manager.intercept H data now).2.2, ∀ topic, effect.touches = some topic →
        ∃ notice, DialPacket.read crypto data = some (.notice notice) ∧
          Base58.encode (crypto.blake3 notice.body.publicKey) (nodeIdStringSize - 1) =
            some topic) ↔
      ∀ notice, DialPacket.read crypto data = some (.notice notice) →
        manager.Touches notice now →
          ∃ id, NodeId.fromString notice.body.nodeId.bytes = some id ∧
            Base58.encode id.hash (nodeIdStringSize - 1) = some notice.body.topicId.bytes := by
  constructor
  · intro howned notice hread htouches
    obtain ⟨effect, heffect, htopic⟩ := (touches_intercept_iff H manager data now _).mpr
      ⟨notice, hread, rfl, htouches⟩
    obtain ⟨other, hother, hencode⟩ := howned effect heffect _ htopic
    rw [hread] at hother
    obtain rfl := DialPacket.notice.inj (Option.some.inj hother)
    obtain ⟨id, hid, hhash⟩ := fromString_of_verify (DialPacket.verify_of_read hread)
    exact ⟨id, hid, by rw [hhash, hencode]⟩
  · intro hnamed effect heffect topic htopic
    obtain ⟨notice, hread, rfl, htouches⟩ := (touches_intercept_iff H manager data now topic).mp
      ⟨effect, heffect, htopic⟩
    obtain ⟨id, hid, hencode⟩ := hnamed notice hread htouches
    obtain ⟨other, hother, hhash⟩ := fromString_of_verify (DialPacket.verify_of_read hread)
    rw [hid] at hother
    obtain rfl := Option.some.inj hother
    exact ⟨notice, hread, by rw [← hhash, hencode]⟩

/-! ### A notice of a stranger -/

/-- A manager whose dial channel has the key `9`, with one channel of the key `1`. -/
def withChannel : Option (Manager Crypto.padded) :=
  (create Crypto.padded (some [9]) 9000 9001 9100).map fun manager =>
    (manager.createChannel (some [1]) .defaults).2

def topicOf (key : Bytes) : CString 64 :=
  CString.copy 63
    ((Base58.encode (Crypto.padded.blake3 key) (nodeIdStringSize - 1)).getD [])

theorem exists_withChannel :
    ∃ manager channel, withChannel = some manager ∧
      manager.findByTopic (topicOf [1]).bytes = some channel := by
  have hany : (withChannel.any fun manager =>
      (manager.findByTopic (topicOf [1]).bytes).isSome) = true := by
    decide +kernel
  obtain ⟨manager, hmanager, hfound⟩ := (Option.any_eq_true _ _).mp hany
  obtain ⟨channel, hchannel⟩ := Option.isSome_iff_exists.mp hfound
  exact ⟨manager, channel, hmanager, hchannel⟩

theorem length_ownerKey_le : ([1] : Bytes).length ≤ 64 := by
  decide

/-- What the owner of the key `1` signs. -/
def ownersBody (timestampUs : UInt64) : NoticeBody where
  topicId := topicOf [1]
  nodeId := topicOf [1]
  keyType := CString.copy 15 [69, 68, 50, 53, 53, 49, 57]
  publicKey := [1]
  length_publicKey := length_ownerKey_le
  timestampUs := timestampUs
  signature := [1]
  length_signature := length_ownerKey_le

/-- A delete notice for the channel of the key `1`, made and signed with the key `2`. -/
def strangersNotice : Notice :=
  .delete
    { ownersBody 1 with
      nodeId := topicOf [2]
      publicKey := [2]
      length_publicKey := length_ownerKey_le
      signature := [2]
      length_signature := length_ownerKey_le }

/-- The stranger's notice is accepted and deletes the channel. -/
theorem deleted_by_stranger :
    ∃ manager, withChannel = some manager ∧
      Effect.deleted (topicOf [1]).bytes ∈
        (manager.intercept Network.byteHash (serialize strangersNotice.encode) ⟨0, 0⟩).2.2 ∧
      DialPacket.read Crypto.padded (serialize strangersNotice.encode) =
        some (.notice strangersNotice) ∧
      Base58.encode (Crypto.padded.blake3 strangersNotice.body.publicKey)
        (nodeIdStringSize - 1) ≠ some (topicOf [1]).bytes := by
  have hany : (withChannel.any fun manager => decide (Effect.deleted (topicOf [1]).bytes ∈
      (manager.intercept Network.byteHash (serialize strangersNotice.encode) ⟨0, 0⟩).2.2)) =
        true := by
    decide +kernel
  obtain ⟨manager, hmanager, hdeleted⟩ := (Option.any_eq_true _ _).mp hany
  exact ⟨manager, hmanager, of_decide_eq_true hdeleted, by decide +kernel, by decide +kernel⟩

end Manager

end Poseidon
