import Poseidon.Channel.Channel
import Poseidon.Lib.Tables

/-!
# The channel manager

`poseidon_channel_manager_t`: the dial channel, the data channels, the bootstraps that wait for a
reply, and the tombstones of deleted and modified channels. The handlers of the packets that
arrive on the dial channel return, beside the new state, what they did to channels and tombstones
and what they publish on the dial channel, in order. Every publication comes after the changes of
state, so what a publication delivers back to the manager finds the new state.
-/

namespace Poseidon

open Cbor

structure ClockReading where
  realtimeUs : UInt64
  monotonicUs : UInt64
deriving DecidableEq, Repr

structure PendingBootstrap where
  topicId : CString 64
  timestampUs : UInt64
  channel : Nat
  replies : List MeridianNode
deriving DecidableEq, Repr

/-- The entry of a join. -/
def PendingBootstrap.ofJoin (topic : Bytes) (now : ClockReading) (channel : Nat) :
    PendingBootstrap :=
  ⟨CString.copy 63 topic, now.realtimeUs, channel, []⟩

def maxBootstrapReplies : Nat := 16

def PendingBootstrap.addReply (entry : PendingBootstrap) (responder : MeridianNode) :
    PendingBootstrap :=
  if entry.replies.length < maxBootstrapReplies then
    { entry with replies := entry.replies ++ [responder] }
  else entry

/-- `poseidon_tombstone_t` has the fields of the notice it was made from. -/
structure Tombstone where
  notice : Notice
  expiresAtUs : UInt64
deriving DecidableEq, Repr

def Tombstone.topicId (tombstone : Tombstone) : Bytes :=
  tombstone.notice.body.topicId.bytes

def Tombstone.timestampUs (tombstone : Tombstone) : UInt64 :=
  tombstone.notice.body.timestampUs

structure Manager (crypto : Crypto) where
  dial : Channel crypto
  channels : List (Channel crypto)
  nextAddress : Nat
  nextPort : UInt16
  portRangeEnd : UInt16
  pending : List PendingBootstrap
  tombstones : List Tombstone

/-- What a handler did, and what it publishes on the dial channel. -/
inductive Effect where
  | tombstoned (topic : Bytes)
  | deleted (topic : Bytes)
  | reconfigured (topic : Bytes) (config : ChannelConfig)
  | connecting (channel : Nat) (peer : MeridianNode)
  | publish (publication : Publication)
  | redistribute (notice : Notice)
deriving DecidableEq, Repr

def Notice.redistribution (notice : Notice) : Publication :=
  ⟨notice.body.topicId.bytes, serialize notice.encode⟩

def Effect.publication : Effect → Option Publication
  | .publish publication => some publication
  | .redistribute notice => some notice.redistribution
  | _ => none

namespace Manager

variable {crypto : Crypto}

def maxChannels : Nat := 32

def maxPendingBootstraps : Nat := 16

def maxTombstones : Nat := 64

def tombstoneTtlUs : UInt64 := 90 * 24 * 3600 * 1000000

/-- `poseidon_channel_manager_create`; the dial channel runs the intercept callback. -/
def create (crypto : Crypto) (dialKey : Option Bytes)
    (dialPort portRangeStart portRangeEnd : UInt16) : Option (Manager crypto) :=
  if portRangeEnd ≤ portRangeStart then none
  else
    (Channel.create crypto 0 dialKey dialPort .defaults).map fun dial =>
      { dial := { dial with quasar := { dial.quasar with onMessage := true } }
        channels := []
        nextAddress := 1
        nextPort := portRangeStart
        portRangeEnd := portRangeEnd
        pending := []
        tombstones := [] }

/-! ### Channels -/

/-- The port, zero if there is none left, and the manager behind the allocation. -/
def allocatePort (manager : Manager crypto) : UInt16 × Manager crypto :=
  if manager.nextPort > manager.portRangeEnd then (0, manager)
  else (manager.nextPort, { manager with nextPort := manager.nextPort + 1 })

def addChannel (manager : Manager crypto) (channel : Channel crypto) : Manager crypto :=
  { manager with
    channels := manager.channels ++ [channel]
    nextAddress := manager.nextAddress + 1 }

/-- `poseidon_channel_manager_create_channel`, with the key it draws. -/
def createChannel (manager : Manager crypto) (key : Option Bytes) (config : ChannelConfig) :
    Option (Channel crypto) × Manager crypto :=
  if manager.channels.length ≥ maxChannels then (none, manager)
  else
    let allocated := manager.allocatePort
    if allocated.1 = 0 then (none, allocated.2)
    else
      match Channel.create crypto manager.nextAddress key allocated.1 config with
      | none => (none, allocated.2)
      | some channel => (some channel, allocated.2.addChannel channel)

theorem allocatePort_frame (manager : Manager crypto) :
    ∃ nextPort, manager.allocatePort.2 = { manager with nextPort := nextPort } := by
  unfold allocatePort
  split_ifs
  · exact ⟨manager.nextPort, rfl⟩
  · exact ⟨manager.nextPort + 1, rfl⟩

theorem createChannel_cases (manager : Manager crypto) (key : Option Bytes)
    (config : ChannelConfig) :
    manager.createChannel key config = (none, manager) ∨
      manager.createChannel key config = (none, manager.allocatePort.2) ∨
      ∃ channel, manager.allocatePort.1 ≠ 0 ∧
        Channel.create crypto manager.nextAddress key manager.allocatePort.1 config =
          some channel ∧
        manager.createChannel key config =
          (some channel, manager.allocatePort.2.addChannel channel) := by
  unfold createChannel
  split_ifs with hfull
  · exact .inl rfl
  · dsimp only
    split_ifs with hport
    · exact .inr (.inl rfl)
    · cases hcreate : Channel.create crypto manager.nextAddress key manager.allocatePort.1
          config with
      | none => exact .inr (.inl rfl)
      | some channel => exact .inr (.inr ⟨channel, hport, rfl, rfl⟩)

def joinRequest (manager : Manager crypto) (topic : Bytes) (now : UInt64) : Publication :=
  ⟨topic, serialize (BootstrapRequest.encode topic manager.dial.topic now)⟩

def joined (H : HashFn) (manager : Manager crypto) (channel : Channel crypto) (topic : Bytes)
    (now : ClockReading) : Manager crypto :=
  { manager.allocatePort.2.addChannel channel with
    pending := manager.pending ++ [.ofJoin topic now channel.address]
    dial := manager.dial.subscribe H topic 300 }

/-- `poseidon_channel_manager_join_channel`. The key is drawn afresh, whatever the topic. -/
def joinChannel (H : HashFn) (manager : Manager crypto) (key : Option Bytes) (topic : Bytes)
    (now : ClockReading) : Option (Channel crypto) × Manager crypto × List Effect :=
  if manager.channels.length ≥ maxChannels then (none, manager, [])
  else if manager.pending.length ≥ maxPendingBootstraps then (none, manager, [])
  else
    let allocated := manager.allocatePort
    if allocated.1 = 0 then (none, allocated.2, [])
    else
      match Channel.create crypto manager.nextAddress key allocated.1 .defaults with
      | none => (none, allocated.2, [])
      | some created =>
          -- the topic is kept in the pending entry only
          let channel := { created with state := .bootstrapping }
          (some channel, manager.joined H channel topic now,
            [.publish (manager.joinRequest topic now.realtimeUs)])

theorem joinChannel_cases (H : HashFn) (manager : Manager crypto) (key : Option Bytes)
    (topic : Bytes) (now : ClockReading) :
    manager.joinChannel H key topic now = (none, manager, []) ∨
      manager.joinChannel H key topic now = (none, manager.allocatePort.2, []) ∨
      ∃ created, manager.allocatePort.1 ≠ 0 ∧
        Channel.create crypto manager.nextAddress key manager.allocatePort.1 .defaults =
          some created ∧
        manager.joinChannel H key topic now =
          (some { created with state := .bootstrapping },
            manager.joined H { created with state := .bootstrapping } topic now,
            [.publish (manager.joinRequest topic now.realtimeUs)]) := by
  unfold joinChannel
  split_ifs with hfull hpending
  · exact .inl rfl
  · exact .inl rfl
  · dsimp only
    split_ifs with hport
    · exact .inr (.inl rfl)
    · cases hcreate : Channel.create crypto manager.nextAddress key manager.allocatePort.1
          .defaults with
      | none => exact .inr (.inl rfl)
      | some created => exact .inr (.inr ⟨created, hport, rfl, rfl⟩)

/-- `poseidon_channel_manager_destroy_channel`: the first channel with the hash goes. -/
def destroyChannel (manager : Manager crypto) (hash : Bytes) : Int × Manager crypto :=
  match manager.channels.findIdx? fun channel => channel.nodeId.hash == hash with
  | none => (-1, manager)
  | some index => (0, { manager with channels := swapRemove manager.channels index })

/-- The comparison of topics in the handlers and in the client's `find_channel_by_topic`. -/
def findByTopic (manager : Manager crypto) (topic : Bytes) : Option (Channel crypto) :=
  manager.channels.find? fun channel => channel.topic == topic

/-- The change of the channel behind a pointer. -/
def updateChannel (manager : Manager crypto) (address : Nat)
    (change : Channel crypto → Channel crypto) : Manager crypto :=
  { manager with
    channels := manager.channels.map fun channel =>
      if channel.address = address then change channel else channel }

/-! ### Tombstones -/

def findTombstone (manager : Manager crypto) (topic : Bytes) : Option Tombstone :=
  manager.tombstones.find? fun tombstone => tombstone.topicId == topic

/-- `poseidon_tombstone_from_delete_notice` and `poseidon_tombstone_from_modify_notice`. -/
def tombstoneOf (notice : Notice) (now : ClockReading) : Tombstone :=
  ⟨notice, now.monotonicUs + tombstoneTtlUs⟩

/-- Whether `poseidon_channel_manager_add_tombstone` stores a tombstone: in the place of an older
one of the same topic, or in a free one. -/
def stores (manager : Manager crypto) (tombstone : Tombstone) : Bool :=
  match manager.findTombstone tombstone.topicId with
  | some known => known.timestampUs < tombstone.timestampUs
  | none => manager.tombstones.length < maxTombstones

def addTombstone (manager : Manager crypto) (tombstone : Tombstone) : Manager crypto :=
  if manager.stores tombstone then
    match manager.tombstones.findIdx? fun known => known.topicId == tombstone.topicId with
    | some index => { manager with tombstones := manager.tombstones.set index tombstone }
    | none => { manager with tombstones := manager.tombstones ++ [tombstone] }
  else manager

def expireTombstones (manager : Manager crypto) (now : ClockReading) : Manager crypto :=
  { manager with
    tombstones := manager.tombstones.filter fun tombstone =>
      now.monotonicUs < tombstone.expiresAtUs }

/-! ### Notices -/

def applyNotice (H : HashFn) (manager : Manager crypto) (channel : Channel crypto)
    (now : ClockReading) : Notice → Manager crypto × List Effect
  | .delete _ =>
      let marked := manager.updateChannel channel.address (·.deleteSigned H)
      ((marked.destroyChannel channel.nodeId.hash).2, [.deleted channel.topic])
  | .modify _ config =>
      (manager.updateChannel channel.address (·.rejoinWithConfig H config),
        [.reconfigured channel.topic config,
          .publish (channel.rejoinRequest now.realtimeUs)])

/-- `poseidon_channel_manager_handle_delete_notice` and its twin for modify notices: the tombstone
is stored, the channel found by the notice's topic is changed, and the notice is published on the
dial channel under its topic, whether it was known or not. -/
def handleNotice (H : HashFn) (manager : Manager crypto) (notice : Notice) (now : ClockReading) :
    Manager crypto × List Effect :=
  let tombstone := tombstoneOf notice now
  let stored := manager.addTombstone tombstone
  let storing := if manager.stores tombstone then [Effect.tombstoned tombstone.topicId] else []
  let applied := match stored.findByTopic notice.body.topicId.bytes with
    | none => (stored, [])
    | some channel => stored.applyNotice H channel now notice
  (applied.1, storing ++ applied.2 ++ [.redistribute notice])

/-! ### Bootstrap -/

/-- The reply to a bootstrap request: the address is the dial channel's, the time this node's
own. -/
def bootstrapReply (manager : Manager crypto) (topic : Bytes) (now : ClockReading) : Publication :=
  ⟨topic, serialize (BootstrapReply.encode topic manager.dial.topic manager.dial.quasar.localNode
    now.realtimeUs [])⟩

/-- `poseidon_channel_manager_handle_bootstrap_request`. A tombstone of the topic is sent in place
of a reply; of a channel this node has not joined nothing is sent. -/
def handleBootstrapRequest (manager : Manager crypto) (topic : Bytes) (now : ClockReading) :
    List Effect :=
  match manager.findTombstone topic with
  | some tombstone => [.publish ⟨topic, serialize tombstone.notice.encode⟩]
  | none =>
      match manager.findByTopic topic with
      | none => []
      | some _ => [.publish (manager.bootstrapReply topic now)]

def connectReply (channel : Channel crypto) (reply : BootstrapReply) : Channel crypto :=
  { channel.mapProtocol fun protocol =>
      reply.seeds.foldl MeridianProtocol.addSeedNode
        (protocol.connect reply.responder.addr reply.responder.port).2 with
    state := .running }

def findPending (manager : Manager crypto) (reply : BootstrapReply) :
    Option (PendingBootstrap × Nat) :=
  manager.pending.zipIdx.find? fun entry =>
    entry.1.topicId == reply.topicId && entry.1.timestampUs == reply.timestampUs

/-- `poseidon_channel_manager_handle_bootstrap_reply`, with its return code. The first reply takes
the pending entry away and connects its channel, if that still exists. -/
def handleBootstrapReply (manager : Manager crypto) (reply : BootstrapReply) :
    Int × Manager crypto × List Effect :=
  match manager.findPending reply with
  | none => (-1, manager, [])
  | some (entry, index) =>
      let replied := entry.addReply reply.responder
      if replied.replies.length = 1 then
        (0, { manager with pending := manager.pending.eraseIdx index }.updateChannel entry.channel
            (connectReply · reply),
          [.connecting entry.channel reply.responder])
      else (0, { manager with pending := manager.pending.set index replied }, [])

/-! ### The intercept callback -/

def handlePacket (H : HashFn) (manager : Manager crypto) (now : ClockReading) :
    DialPacket → Manager crypto × List Effect
  | .bootstrap request => (manager, manager.handleBootstrapRequest request.topicId.bytes now)
  | .bootstrapReply reply => (manager.handleBootstrapReply reply).2
  | .notice notice => manager.handleNotice H notice now

/-- `channel_manager_bootstrap_intercept`: whether the packet was handled, the new state and what
the handler did. -/
def intercept [Cbor.Memory] (H : HashFn) (manager : Manager crypto) (data : Bytes)
    (now : ClockReading) : Bool × Manager crypto × List Effect :=
  match DialPacket.read crypto data with
  | none => (false, manager, [])
  | some packet => (true, manager.handlePacket H now packet)

/-! ### Operations -/

/-- What the application and the timers call between packets. -/
inductive Operation where
  | createChannel (key : Option Bytes) (config : ChannelConfig)
  | joinChannel (key : Option Bytes) (topic : Bytes) (now : ClockReading)
  | destroyChannel (hash : Bytes)
  | subscribeDial (topic : Bytes) (ttl : Nat)
  | unsubscribeDial (topic : Bytes)
  | tickAll (now : ClockReading)

def tickChannel (H : HashFn) (channel : Channel crypto) : Channel crypto :=
  { channel with quasar := channel.quasar.tick H }

def perform (H : HashFn) (manager : Manager crypto) :
    Operation → Manager crypto × List Effect
  | .createChannel key config => ((manager.createChannel key config).2, [])
  | .joinChannel key topic now => (manager.joinChannel H key topic now).2
  | .destroyChannel hash => ((manager.destroyChannel hash).2, [])
  | .subscribeDial topic ttl => ({ manager with dial := manager.dial.subscribe H topic ttl }, [])
  | .unsubscribeDial topic => ({ manager with dial := manager.dial.unsubscribe H topic }, [])
  | .tickAll now =>
      ({ manager.expireTombstones now with
        dial := tickChannel H manager.dial
        channels := manager.channels.map (tickChannel H) }, [])

end Manager

end Poseidon
