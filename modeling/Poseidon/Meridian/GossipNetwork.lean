import Mathlib.Logic.Function.Basic
import Poseidon.Lib.Runs
import Poseidon.Lib.Tables
import Poseidon.Meridian.GossipScheduler
import Poseidon.Meridian.LatencyCache
import Poseidon.Meridian.PacketRoundTrip
import Poseidon.Meridian.PeerConnections
import Poseidon.Meridian.RingSet
import Poseidon.Quasar.Message

/-!
# What gossip and measurements teach

The nodes of the overlay gossip to their peers, and sort into their rings the nodes they read of in
the gossip they receive. They are to measure the latency of a node with a ping whose answer they
wait for.

A datagram goes to the address it is sent to. It is lost, or arrives once or several times, in any
order, at a node that is reached under this address; which nodes these are is a parameter. What the
memory behind the items of a packet holds, where an object lies and what the clock shows comes with
the steps.
-/

namespace Poseidon

open Cbor

namespace MeridianPacket

/-- `MERIDIAN_PACKET_TYPE_GOSSIP`. -/
def gossipType : Nat := 10

/-- `MERIDIAN_PACKET_TYPE_RET_PING`. -/
def retPingType : UInt8 := 13

/-- `MERIDIAN_PACKET_TYPE_PING`. -/
def pingType : UInt8 := 14

/-- `MERIDIAN_PACKET_TYPE_GOSSIP_PULL`. -/
def gossipPullType : Nat := 23

end MeridianPacket

open MeridianPacket

/-! ### Gossip -/

/-- `meridian_gossip_state_t`. -/
inductive GossipState where
  | init
  | active
  | waitReply
deriving DecidableEq, Repr

/-- The fields of `meridian_gossip_t` that are read. -/
structure ActiveGossip where
  queryId : UInt64
  target : MeridianNode
  state : GossipState
deriving DecidableEq, Repr

namespace ActiveGossip

/-- `meridian_gossip_handle_response`. -/
def handleResponse (gossip : ActiveGossip) : ActiveGossip :=
  if gossip.state = .waitReply then { gossip with state := .active } else gossip

/-- `meridian_gossip_build_packet`. The nodes of the peer table have no rendezvous point. -/
def buildPacket (gossip : ActiveGossip) : GossipPacket where
  base := ⟨UInt8.ofNat gossipType, gossip.queryId, magicNumber, 0, 0⟩
  targets := [⟨gossip.target.addr, gossip.target.port, 0, 0⟩]

end ActiveGossip

/-- `meridian_gossip_handle_t`. -/
structure GossipHandle where
  scheduler : GossipScheduler
  activeGossips : List ActiveGossip
deriving DecidableEq, Repr

/-- The gossips `meridian_gossip_handle_send_gossip` creates. The query id is made of the index of
the target and of where the target lies in memory. -/
def createGossips (targets : List (Option MeridianNode)) (pointers : Nat → UInt32) :
    List ActiveGossip :=
  targets.zipIdx.filterMap fun entry => entry.1.map fun target =>
    ⟨UInt64.ofNat ((entry.2 + 1) <<< 32 ||| (pointers entry.2).toNat), target, .init⟩

/-- The node `meridian_gossip_decode` creates for a target. -/
def RendvNode.toRingNode (node : RendvNode) : RingNode where
  addr := node.addr
  port := node.port
  id := List.replicate 32 0
  rendezvous := true

/-- The fields of `meridian_measure_request_t` that are read. -/
structure MeasureRequest where
  queryId : UInt64
  target : MeridianNode
  startTime : Timeval
deriving DecidableEq, Repr

structure GossipConfig where
  initIntervalS : UInt32
  numInitIntervals : UInt32
  steadyStateIntervalS : UInt32
  primaryRingSize : UInt32
  secondaryRingSize : UInt32
deriving DecidableEq, Repr

structure Readings where
  elapsed : Timeval
  now : Timeval
  later : Timeval
deriving DecidableEq, Repr

structure Datagram where
  target : MeridianNode
  data : Bytes
deriving DecidableEq, Repr

/-! ### A node -/

/-- The fields of `meridian_protocol_t`. `measured` lists what the callbacks of the measurements
have been called with. -/
structure GossipNode where
  protocol : MeridianProtocol
  gossipHandle : Option GossipHandle
  ringSet : RingSet
  latencyCache : LatencyCache
  pendingMeasures : List MeasureRequest
  measured : List (MeridianNode × UInt32)
deriving DecidableEq, Repr

namespace GossipNode

def create (config : GossipConfig) (listenPort : UInt16) : GossipNode where
  protocol := .create listenPort
  gossipHandle := none
  ringSet := .create config.primaryRingSize config.secondaryRingSize
  latencyCache := .create probeCacheSize
  pendingMeasures := []
  measured := []

def start (config : GossipConfig) (now : Timeval) (node : GossipNode) : GossipNode :=
  if node.protocol.running then node
  else { node with
    protocol := node.protocol.start
    gossipHandle := some ⟨.create config.initIntervalS config.numInitIntervals
      config.steadyStateIntervalS now, []⟩ }

/-- A new connection at `ListenerCallback`. -/
def accept (node : GossipNode) : GossipNode :=
  if node.protocol.peerNodes.length < maxConnectedPeers then
    { node with protocol := { node.protocol with peerNodes := node.protocol.peerNodes ++ [none] } }
  else node

/-- `meridian_protocol_send_packet`. -/
def sendPacket (node : GossipNode) (target : MeridianNode) (data : Bytes) : Option Datagram :=
  if node.protocol.sendPacket (some target) then some ⟨target, data⟩ else none

/-- `gossip_outbound_cb`, for a gossip that `meridian_gossip_handle_send_gossip` has encoded. -/
def outbound (node : GossipNode) (gossip : ActiveGossip) : Option Datagram :=
  gossip.buildPacket.encode.bind fun item => node.sendPacket gossip.target (serialize item)

/-- `meridian_protocol_gossip`. -/
def gossip (node : GossipNode) (now : Timeval) (pointers : Nat → UInt32) :
    GossipNode × List Datagram :=
  match node.gossipHandle with
  | none => (node, [])
  | some handle =>
      let outcome := handle.scheduler.protocolGossip ⟨now, node.protocol.peerNodes.length⟩
      let created :=
        if outcome.sent then createGossips node.protocol.peerNodes pointers else []
      ({ node with
          gossipHandle := some ⟨outcome.scheduler, handle.activeGossips ++ created⟩ },
        created.filterMap node.outbound)

/-- `meridian_protocol_send_measure`. -/
def sendMeasure (node : GossipNode) (request : MeasureRequest) (now : Timeval) :
    Int × GossipNode × List Datagram :=
  match (MeridianPacket.mk pingType request.queryId magicNumber 0 0).encode with
  | none => (-1, node, [])
  | some item =>
      match node.sendPacket request.target (serialize item) with
      | none => (-1, node, [])
      | some datagram =>
          (0, { node with
            pendingMeasures := node.pendingMeasures ++ [{ request with startTime := now }] },
            [datagram])

/-- `meridian_protocol_on_measure_result`. -/
def onMeasureResult (node : GossipNode) (target : MeridianNode) (latencyUs : UInt32)
    (readings : Readings) : GossipNode :=
  { node with
    latencyCache := node.latencyCache.insert target latencyUs readings.now readings.later }

/-- The answer to a ping: the measurement that waits for it, if there is one, is taken from the
pending ones and reported. -/
def onRetPing (node : GossipNode) (queryId : UInt64) (readings : Readings) : Option GossipNode :=
  (node.pendingMeasures.findIdx? (·.queryId == queryId)).bind fun index =>
    node.pendingMeasures[index]?.map fun request =>
      let elapsed := readings.elapsed.sub request.startTime
      let latencyUs := UInt32.ofInt (elapsed.1 * 1000000 + elapsed.2)
      { node with
        pendingMeasures := swapRemove node.pendingMeasures index
        latencyCache :=
          node.latencyCache.insert request.target latencyUs readings.now readings.later
        measured := node.measured ++ [(request.target, latencyUs)] }

section Packets

variable (ringOf : UInt32 → Nat)

/-- `meridian_gossip_handle_on_packet` for an array of the gossip type: the first gossip with the
query id takes the response, and `gossip_completed_cb` inserts the targets. -/
def completeGossip (node : GossipNode) (handle : GossipHandle) (packet : GossipPacket) :
    GossipNode :=
  let activeGossips :=
    match handle.activeGossips.findIdx? (·.queryId == packet.base.queryId) with
    | none => handle.activeGossips
    | some index => handle.activeGossips.modify index ActiveGossip.handleResponse
  { node with
    gossipHandle := some { handle with activeGossips := activeGossips }
    ringSet := node.ringSet.gossipCompleted ringOf (packet.targets.map RendvNode.toRingNode) }

/-- `meridian_gossip_handle_on_packet`, which loads the packet again; `none` where what it does is
not defined. -/
def gossipOnPacket (node : GossipNode) (behind : Behind) (data : Bytes) :
    Option (Int × GossipNode) :=
  match node.gossipHandle with
  | none => some (-1, node)
  | some handle =>
      match load data with
      | none => some (-1, node)
      | some (.arrayIndefinite _) => some (-1, node)
      | some (.array []) => some (-1, node)
      | some (.array (type :: items)) =>
          if type.read (behind 0 0) 1 = gossipType then
            match GossipPacket.decode behind (.array (type :: items)) with
            | .rejected => some (-1, node)
            | .undefined => none
            | .packet packet => some (0, node.completeGossip ringOf handle packet)
          else some (-1, node)
      | some _ => none

/-- The switch of `meridian_protocol_on_packet` over the type of a packet. The types that are not
handled here go to the callbacks of the application. -/
def dispatch (node : GossipNode) (behind again : Behind) (data : Bytes) :
    Item → Option (Int × GossipNode)
  | .array (type :: _) =>
      if type.read (behind 0 0) 1 = gossipType ∨ type.read (behind 0 0) 1 = gossipPullType then
        node.gossipOnPacket ringOf again data
      else some (0, node)
  | .array [] => some (-1, node)
  | .arrayIndefinite _ => some (-1, node)
  | _ => none

/-- `meridian_protocol_on_packet`. -/
def onPacket (node : GossipNode) (behind again : Behind) (readings : Readings) (data : Bytes) :
    Option (Int × GossipNode) :=
  if 4 ≤ data.length ∧ beNat (data.take 4) = RouteMessage.magic then some (0, node)
  else
    match load data with
    | none => some (-1, node)
    | some item =>
        match MeridianPacket.decode behind item with
        | .undefined => none
        | .rejected => node.dispatch ringOf behind again data item
        | .packet packet =>
            if packet.type = retPingType then
              match node.onRetPing packet.queryId readings with
              | some answered => some (0, answered)
              | none => node.dispatch ringOf behind again data item
            else node.dispatch ringOf behind again data item

end Packets

/-- `meridian_ring_set_find_closest`, which does not look at the target. -/
def findClosest (node : GossipNode) (_target : MeridianNode) : Option RingNode :=
  node.ringSet.rings.findSome? (·.primary.head?)

end GossipNode

/-! ### Runs -/

inductive GossipAction where
  | start (node : Nat) (now : Timeval)
  | stop (node : Nat)
  | connect (node : Nat) (peer : MeridianNode)
  | disconnect (node : Nat) (peer : MeridianNode)
  | accept (node : Nat)
  | gossip (node : Nat) (now : Timeval) (pointers : Nat → UInt32)
  | ringManagement (node : Nat)
  | sendMeasure (node : Nat) (request : MeasureRequest) (now : Timeval)
  | measureResult (node : Nat) (target : MeridianNode) (latencyUs : UInt32) (readings : Readings)
  | send (node : Nat) (target : MeridianNode) (data : Bytes)
  | deliver (node : Nat) (datagram : Datagram) (behind again : Behind) (readings : Readings)

structure GossipNetwork where
  nodes : Nat → GossipNode
  wire : List Datagram

namespace GossipNetwork

section Steps

variable (config : GossipConfig) (ringOf : UInt32 → Nat)

def create (listenPort : Nat → UInt16) : GossipNetwork where
  nodes node := .create config (listenPort node)
  wire := []

def act (s : GossipNetwork) (node : Nat) (change : GossipNode → GossipNode × List Datagram) :
    GossipNetwork where
  nodes := Function.update s.nodes node (change (s.nodes node)).1
  wire := s.wire ++ (change (s.nodes node)).2

def perform : GossipAction → GossipNode → GossipNode × List Datagram
  | .start _ now, node => (node.start config now, [])
  | .stop _, node => ({ node with protocol := node.protocol.stop }, [])
  | .connect _ peer, node =>
      ({ node with protocol := (node.protocol.connect peer.addr peer.port).2 }, [])
  | .disconnect _ peer, node =>
      ({ node with protocol := (node.protocol.disconnect peer.addr peer.port).2 }, [])
  | .accept _, node => (node.accept, [])
  | .gossip _ now pointers, node => node.gossip now pointers
  | .ringManagement _, node => ({ node with ringSet := node.ringSet.ringManagement }, [])
  | .sendMeasure _ request now, node => (node.sendMeasure request now).2
  | .measureResult _ target latencyUs readings, node =>
      (node.onMeasureResult target latencyUs readings, [])
  | .send _ target data, node => (node, (node.sendPacket target data).toList)
  | .deliver _ datagram behind again readings, node =>
      (((node.onPacket ringOf behind again readings datagram.data).map Prod.snd).getD node, [])

end Steps

end GossipNetwork

def GossipAction.node : GossipAction → Nat
  | .start node _ => node
  | .stop node => node
  | .connect node _ => node
  | .disconnect node _ => node
  | .accept node => node
  | .gossip node _ _ => node
  | .ringManagement node => node
  | .sendMeasure node _ _ => node
  | .measureResult node _ _ _ => node
  | .send node _ _ => node
  | .deliver node _ _ _ _ => node

/-- Whatever is read behind it, the packet does not pass for a gossip packet. -/
def NoGossip (data : Bytes) : Prop :=
  ∀ type items, load data = some (.array (type :: items)) →
    ∀ behind, type.read behind 1 ≠ gossipType

namespace GossipNetwork

variable (config : GossipConfig) (ringOf : UInt32 → Nat) (reaches : Nat → MeridianNode → Prop)

def step (s : GossipNetwork) (action : GossipAction) : GossipNetwork :=
  s.act action.node (perform config ringOf action)

/-- What an application sends of its own is no gossip packet. A datagram arrives only if it has been
sent to an address under which the node is reached. -/
def Allowed (s : GossipNetwork) : GossipAction → Prop
  | .send _ _ data => NoGossip data
  | .deliver node datagram behind again readings =>
      datagram ∈ s.wire ∧ reaches node datagram.target ∧
        (s.nodes node).onPacket ringOf behind again readings datagram.data ≠ none
  | _ => True

end GossipNetwork

/-! ### What is sent -/

/-- The item of the gossip packet for a target. -/
def gossipItem (queryId : UInt64) (target : MeridianNode) : Item :=
  let packet := (ActiveGossip.mk queryId target .init).buildPacket
  .array (packet.base.items ++
    .uint .w8 (packet.targets.length % 256) :: packet.targets.map RendvNode.item)

/-- A gossip packet names the node it goes to, and no other. -/
def Datagram.Selfless (datagram : Datagram) : Prop :=
  NoGossip datagram.data ∨ ∃ queryId, datagram.data = serialize (gossipItem queryId datagram.target)

theorem load_gossipItem (queryId : UInt64) (target : MeridianNode) :
    load (serialize (gossipItem queryId target)) = some (gossipItem queryId target) :=
  load_serialize (fits_withEntries (MeridianPacket.fits_items _ _) (by simp)
    (by simp [ActiveGossip.buildPacket, maxNodes])
    fun node : RendvNode => node.fits_item (by decide))

namespace GossipNode

theorem eq_of_outbound {node : GossipNode} {gossip : ActiveGossip} {datagram : Datagram}
    (houtbound : node.outbound gossip = some datagram) :
    datagram = ⟨gossip.target, serialize (gossipItem gossip.queryId gossip.target)⟩ := by
  unfold outbound sendPacket at houtbound
  rw [GossipPacket.encode_eq, Option.bind_some] at houtbound
  split_ifs at houtbound
  exact (Option.some.inj houtbound).symm

theorem selfless_gossip {node : GossipNode} {now : Timeval} {pointers : Nat → UInt32}
    {datagram : Datagram} (hdatagram : datagram ∈ (node.gossip now pointers).2) :
    datagram.Selfless := by
  unfold gossip at hdatagram
  split at hdatagram
  · exact absurd hdatagram List.not_mem_nil
  · obtain ⟨created, -, hcreated⟩ := List.mem_filterMap.mp hdatagram
    rw [eq_of_outbound hcreated]
    exact .inr ⟨_, rfl⟩

/-- **Measurements.** The packet of a measurement is never built. -/
theorem sendMeasure_eq (node : GossipNode) (request : MeasureRequest) (now : Timeval) :
    node.sendMeasure request now = (-1, node, []) := by
  unfold sendMeasure
  rw [MeridianPacket.encode_eq_none]

end GossipNode

/-! ### What is learned -/

theorem RingSet.mem_entries_gossipCompleted {ringOf : UInt32 → Nat} {peers : List RingNode}
    {set : RingSet} {entry : RingNode}
    (hentry : entry ∈ (set.gossipCompleted ringOf peers).entries) :
    entry ∈ set.entries ∨ entry ∈ peers := by
  unfold gossipCompleted at hentry
  induction peers generalizing set with
  | nil => exact .inl hentry
  | cons peer peers ih =>
      rw [List.foldl_cons] at hentry
      rcases ih hentry with hset | hpeers
      · cases hinsert : set.insert ringOf peer 0 with
        | none =>
            rw [hinsert] at hset
            exact .inl hset
        | some next =>
            rw [hinsert] at hset
            rcases List.mem_cons.mp ((entries_insert hinsert).subset hset) with rfl | hold
            · exact .inr List.mem_cons_self
            · exact .inl hold
      · exact .inr (List.mem_cons_of_mem _ hpeers)

namespace GossipNode

variable {ringOf : UInt32 → Nat} {node next : GossipNode} {behind again : Behind}
  {readings : Readings} {data : Bytes} {code : Int}

theorem onRetPing_eq_none (hpending : node.pendingMeasures = []) (queryId : UInt64) :
    node.onRetPing queryId readings = none := by
  unfold onRetPing
  rw [hpending]
  rfl

/-- The data is a gossip packet, and its targets are put into the rings. -/
def TakesGossip (ringOf : UInt32 → Nat) (behind : Behind) (data : Bytes)
    (node next : GossipNode) : Prop :=
  ∃ handle packet type items, load data = some (.array (type :: items)) ∧
    type.read (behind 0 0) 1 = gossipType ∧
    GossipPacket.decode behind (.array (type :: items)) = .packet packet ∧
    next = node.completeGossip ringOf handle packet

theorem eq_of_returns {code' : Int} (hreturns : some (code', node) = some (code, next)) :
    next = node :=
  (Prod.mk.inj (Option.some.inj hreturns)).2.symm

theorem gossipOnPacket_cases
    (honPacket : node.gossipOnPacket ringOf behind data = some (code, next)) :
    next = node ∨ node.TakesGossip ringOf behind data next := by
  unfold gossipOnPacket at honPacket
  split at honPacket
  · exact .inl (eq_of_returns honPacket)
  · split at honPacket
    · exact .inl (eq_of_returns honPacket)
    · exact .inl (eq_of_returns honPacket)
    · exact .inl (eq_of_returns honPacket)
    · next handle _ _ type items hload =>
        split_ifs at honPacket with htype
        · split at honPacket
          · exact .inl (eq_of_returns honPacket)
          · cases honPacket
          · next packet hdecode =>
              obtain rfl := (Prod.mk.inj (Option.some.inj honPacket)).2
              exact .inr ⟨handle, packet, type, items, hload, htype, hdecode, rfl⟩
        · exact .inl (eq_of_returns honPacket)
    · cases honPacket

theorem dispatch_cases {item : Item}
    (hdispatch : node.dispatch ringOf behind again data item = some (code, next)) :
    next = node ∨ ∃ code, node.gossipOnPacket ringOf again data = some (code, next) := by
  unfold dispatch at hdispatch
  split at hdispatch
  · split_ifs at hdispatch
    · exact .inr ⟨code, hdispatch⟩
    · exact .inl (eq_of_returns hdispatch)
  · exact .inl (eq_of_returns hdispatch)
  · exact .inl (eq_of_returns hdispatch)
  · cases hdispatch

/-- While no measurement is pending, a packet changes something only if it is a gossip packet. -/
theorem onPacket_cases (hpending : node.pendingMeasures = [])
    (honPacket : node.onPacket ringOf behind again readings data = some (code, next)) :
    next = node ∨ node.TakesGossip ringOf again data next := by
  have hdispatched : ∀ item, node.dispatch ringOf behind again data item = some (code, next) →
      next = node ∨ node.TakesGossip ringOf again data next := by
    intro item hdispatch
    rcases dispatch_cases hdispatch with hnext | ⟨code, hgossip⟩
    · exact .inl hnext
    · exact gossipOnPacket_cases hgossip
  unfold onPacket at honPacket
  split_ifs at honPacket
  · exact .inl (eq_of_returns honPacket)
  · split at honPacket
    · exact .inl (eq_of_returns honPacket)
    · split at honPacket
      · cases honPacket
      · exact hdispatched _ honPacket
      · rw [onRetPing_eq_none hpending] at honPacket
        split_ifs at honPacket <;> exact hdispatched _ honPacket

/-- What a node has learned: all it has in its rings is known, and it has measured nothing. -/
structure Learned (known : MeridianNode → Prop) (node : GossipNode) : Prop where
  ring : ∀ entry ∈ node.ringSet.entries, known entry.toMeridianNode
  pending : node.pendingMeasures = []
  measured : node.measured = []

theorem mem_targets_of_decode {queryId : UInt64} {target : MeridianNode} {packet : GossipPacket}
    (hdecode : GossipPacket.decode behind (gossipItem queryId target) = .packet packet)
    {entry : RendvNode} (hentry : entry ∈ packet.targets) :
    entry = ⟨target.addr, target.port, 0, 0⟩ := by
  unfold gossipItem at hdecode
  rw [GossipPacket.decode_items behind _ rfl] at hdecode
  split_ifs at hdecode
  obtain rfl := Decoded.packet.inj hdecode
  exact List.mem_singleton.mp (List.mem_of_mem_take hentry)

/-- A datagram teaches nothing but the address it was sent to. -/
theorem Learned.onPacket {known : MeridianNode → Prop} (hnode : node.Learned known)
    {datagram : Datagram} (hselfless : datagram.Selfless) (hknown : known datagram.target)
    (honPacket :
      node.onPacket ringOf behind again readings datagram.data = some (code, next)) :
    next.Learned known ∧ next.latencyCache = node.latencyCache := by
  rcases onPacket_cases hnode.pending honPacket with
    rfl | ⟨handle, packet, type, items, hload, htype, hdecode, rfl⟩
  · exact ⟨hnode, rfl⟩
  · rcases hselfless with hother | ⟨queryId, hdata⟩
    · exact absurd htype (hother type items hload (again 0 0))
    · rw [hdata, load_gossipItem] at hload
      rw [← Option.some.inj hload] at hdecode
      refine ⟨⟨fun entry hentry => ?_, hnode.pending, hnode.measured⟩, rfl⟩
      rcases RingSet.mem_entries_gossipCompleted hentry with hold | hnew
      · exact hnode.ring entry hold
      · obtain ⟨target, htarget, rfl⟩ := List.mem_map.mp hnew
        rw [mem_targets_of_decode hdecode htarget]
        exact hknown

end GossipNode

/-! ### Runs of the network -/

namespace GossipNetwork

open GossipNode

variable {config : GossipConfig} {ringOf : UInt32 → Nat} {reaches : Nat → MeridianNode → Prop}

def reported (node : Nat) : GossipAction → Option CacheCall
  | .measureResult target measured latencyUs readings =>
      if target = node then some (.insert measured latencyUs readings.now readings.later)
      else none
  | _ => none

structure Sound (reaches : Nat → MeridianNode → Prop) (s : GossipNetwork) : Prop where
  learned : ∀ node, (s.nodes node).Learned (reaches node)
  selfless : ∀ datagram ∈ s.wire, datagram.Selfless

theorem sound_create (listenPort : Nat → UInt16) : (create config listenPort).Sound reaches where
  learned node := by
    refine ⟨fun entry hentry => ?_, rfl, rfl⟩
    have hempty := RingSet.entries_create config.primaryRingSize config.secondaryRingSize
    have hmem : entry ∈ (RingSet.create config.primaryRingSize config.secondaryRingSize).entries :=
      hentry
    rw [hempty] at hmem
    exact absurd hmem List.not_mem_nil
  selfless := by simp [create]

/-- The node of an action learns nothing new, gossips to no third node, and its latency cache takes
what is reported to it. -/
theorem perform_spec {s : GossipNetwork} (hs : s.Sound reaches) {action : GossipAction}
    (hallowed : Allowed ringOf reaches s action) :
    let before := s.nodes action.node
    let after := perform config ringOf action before
    after.1.Learned (reaches action.node) ∧ (∀ datagram ∈ after.2, datagram.Selfless) ∧
      after.1.latencyCache =
        (reported action.node action).elim before.latencyCache before.latencyCache.step := by
  intro before after
  have hbefore : before.Learned (reaches action.node) := hs.learned action.node
  have hsame : ∀ {next : GossipNode}, next.ringSet = before.ringSet →
      next.pendingMeasures = before.pendingMeasures → next.measured = before.measured →
      next.Learned (reaches action.node) := by
    intro next hring hpending hmeasured
    refine ⟨?_, hpending.trans hbefore.pending, hmeasured.trans hbefore.measured⟩
    rw [hring]
    exact hbefore.ring
  cases action with
  | start node now =>
      have hstart : after = (before.start config now, []) := rfl
      rw [hstart]
      unfold GossipNode.start
      split_ifs <;> exact ⟨hsame rfl rfl rfl, by simp, rfl⟩
  | stop node => exact ⟨hsame rfl rfl rfl, by simp [after, perform], rfl⟩
  | connect node peer => exact ⟨hsame rfl rfl rfl, by simp [after, perform], rfl⟩
  | disconnect node peer => exact ⟨hsame rfl rfl rfl, by simp [after, perform], rfl⟩
  | accept node =>
      have haccept : after = (before.accept, []) := rfl
      rw [haccept]
      unfold GossipNode.accept
      split_ifs <;> exact ⟨hsame rfl rfl rfl, by simp, rfl⟩
  | gossip node now pointers =>
      have hgossip : after = before.gossip now pointers := rfl
      refine ⟨?_, fun datagram hdatagram => selfless_gossip hdatagram, ?_⟩
      · rw [hgossip]
        unfold GossipNode.gossip
        split <;> exact hsame rfl rfl rfl
      · rw [hgossip]
        unfold GossipNode.gossip
        split <;> rfl
  | ringManagement node =>
      have hmanaged : after = (before, []) := by
        simp only [after, perform, RingSet.ringManagement_eq]
      rw [hmanaged]
      exact ⟨hbefore, by simp, rfl⟩
  | sendMeasure node request now =>
      have hmeasure : after = (before, []) :=
        congrArg Prod.snd (before.sendMeasure_eq request now)
      rw [hmeasure]
      exact ⟨hbefore, by simp, rfl⟩
  | measureResult node target latencyUs readings =>
      refine ⟨hsame rfl rfl rfl, by simp [after, perform], ?_⟩
      simp [after, perform, reported, GossipAction.node, onMeasureResult, LatencyCache.step]
  | send node target data =>
      refine ⟨hbefore, fun datagram hdatagram => ?_, rfl⟩
      have hsent : before.sendPacket target data = some datagram :=
        Option.mem_toList.mp hdatagram
      unfold sendPacket at hsent
      split_ifs at hsent
      obtain rfl := Option.some.inj hsent
      exact .inl hallowed
  | deliver node datagram behind again readings =>
      obtain ⟨hwire, hreaches, hdefined⟩ := hallowed
      obtain ⟨⟨code, next⟩, honPacket⟩ := Option.ne_none_iff_exists'.mp hdefined
      have hdelivered : after = (next, []) := by
        simp only [after, before, perform, GossipAction.node, honPacket]
        rfl
      rw [hdelivered]
      obtain ⟨hlearned, hcache⟩ :=
        hbefore.onPacket (hs.selfless datagram hwire) hreaches honPacket
      exact ⟨hlearned, by simp, hcache⟩

variable {s : GossipNetwork}

theorem Sound.step (hs : s.Sound reaches) {action : GossipAction}
    (hallowed : Allowed ringOf reaches s action) : (s.step config ringOf action).Sound reaches where
  learned node := by
    obtain ⟨hlearned, -, -⟩ := @perform_spec config _ _ _ hs _ hallowed
    by_cases hnode : node = action.node
    · subst hnode
      simpa only [GossipNetwork.step, act, Function.update_self] using hlearned
    · simpa only [GossipNetwork.step, act, Function.update_of_ne hnode] using hs.learned node
  selfless datagram hdatagram := by
    obtain ⟨-, hsent, -⟩ := @perform_spec config _ _ _ hs _ hallowed
    rcases List.mem_append.mp hdatagram with hold | hnew
    · exact hs.selfless datagram hold
    · exact hsent datagram hnew

theorem latencyCache_step (hs : s.Sound reaches) {action : GossipAction}
    (hallowed : Allowed ringOf reaches s action) (node : Nat) :
    ((s.step config ringOf action).nodes node).latencyCache =
      (reported node action).elim (s.nodes node).latencyCache (s.nodes node).latencyCache.step := by
  obtain ⟨-, -, hcache⟩ := @perform_spec config _ _ _ hs _ hallowed
  by_cases hnode : node = action.node
  · subst hnode
    simpa only [GossipNetwork.step, act, Function.update_self] using hcache
  · have hnone : reported node action = none := by
      cases action <;> try rfl
      exact if_neg (Ne.symm hnode)
    simp only [GossipNetwork.step, act, Function.update_of_ne hnode, hnone, Option.elim_none]

theorem latencyCache_run {actions : List GossipAction} (hs : s.Sound reaches)
    (hallowed : Runs.Meets (step config ringOf) (Allowed ringOf reaches) s actions) (node : Nat) :
    ((Runs.run (step config ringOf) s actions).nodes node).latencyCache =
      Runs.run LatencyCache.step (s.nodes node).latencyCache
        (actions.filterMap (reported node)) := by
  induction actions generalizing s with
  | nil => rfl
  | cons action actions ih =>
      obtain ⟨hfirst, hrest⟩ := (Runs.meets_cons _ _ _ _ _).mp hallowed
      rw [Runs.run_cons, ih (hs.step hfirst) hrest, latencyCache_step hs hfirst,
        List.filterMap_cons]
      cases reported node action <;> rfl

theorem mem_entries_of_findClosest {node : GossipNode} {target : MeridianNode} {found : RingNode}
    (hfound : node.findClosest target = some found) : found ∈ node.ringSet.entries := by
  obtain ⟨ring, hring, hhead⟩ := List.exists_of_findSome?_eq_some hfound
  exact List.mem_flatMap.mpr
    ⟨ring, hring, List.mem_append_left _ (List.mem_of_mem_head? hhead)⟩

/-- **Overlay.** However the nodes connect, gossip and measure, and whatever arrives of what they
send, in whatever order and how often: a node has nothing in its rings but addresses under which it
is reached itself, and so the closest node it finds, whatever for, is never another one. No
measurement is ever pending or answered, and the latency cache holds what it is told of from
outside. -/
theorem gossip_teaches_self (listenPort : Nat → UInt16) {actions : List GossipAction}
    (hallowed : Runs.Meets (step config ringOf) (Allowed ringOf reaches)
      (create config listenPort) actions) (node : Nat) :
    let s := Runs.run (step config ringOf) (create config listenPort) actions
    (∀ entry ∈ (s.nodes node).ringSet.entries, reaches node entry.toMeridianNode) ∧
    (∀ target found, (s.nodes node).findClosest target = some found →
      reaches node found.toMeridianNode) ∧
    (s.nodes node).pendingMeasures = [] ∧ (s.nodes node).measured = [] ∧
    (s.nodes node).latencyCache = Runs.run LatencyCache.step (.create probeCacheSize)
      (actions.filterMap (reported node)) := by
  intro s
  have hsound : s.Sound reaches :=
    Runs.invariant_of_meets (step config ringOf) (Sound reaches)
      (fun _ _ hs haction => hs.step haction) (sound_create listenPort) hallowed
  have hlearned := hsound.learned node
  refine ⟨hlearned.ring, fun target found hfound => ?_, hlearned.pending, hlearned.measured, ?_⟩
  · exact hlearned.ring found (mem_entries_of_findClosest hfound)
  · exact latencyCache_run (sound_create listenPort) hallowed node

def smallConfig : GossipConfig where
  initIntervalS := 1
  numInitIntervals := 4
  steadyStateIntervalS := 5
  primaryRingSize := 8
  secondaryRingSize := 4

/-- Each node is reached under one address. -/
def addressOf (node : Nat) : MeridianNode :=
  ⟨UInt32.ofNat (node + 1), 9000⟩

/-- The first node connects to the second and gossips, and the gossip arrives. -/
def gossipOnce : List GossipAction :=
  [.start 0 (.ofSeconds 0), .start 1 (.ofSeconds 0), .connect 0 (addressOf 1),
    .gossip 0 (.ofSeconds 1) (fun _ => 0x1000),
    .deliver 1 ⟨addressOf 1, serialize (gossipItem 0x100001000 (addressOf 1))⟩
      (fun _ _ => 0) (fun _ _ => 0) ⟨.ofSeconds 1, .ofSeconds 1, .ofSeconds 1⟩]

/-- The second node then finds itself the closest node to any other. -/
theorem gossip_teaches_self_sample :
    let s := Runs.run (step smallConfig fun _ => 0) (create smallConfig fun _ => 9000) gossipOnce
    (∃ found, (s.nodes 1).findClosest (addressOf 2) = some found ∧
      found.toMeridianNode = addressOf 1) ∧
    ∀ entry ∈ (s.nodes 1).ringSet.entries, entry.toMeridianNode = addressOf 1 := by
  intro s
  have hallowed : Runs.Meets (step smallConfig fun _ => 0)
      (Allowed (fun _ => 0) fun node address => address = addressOf node)
      (create smallConfig fun _ => 9000) gossipOnce :=
    ⟨trivial, trivial, trivial, trivial, ⟨by decide +kernel, rfl, by decide +kernel⟩, trivial⟩
  have hself := gossip_teaches_self (fun _ => 9000) hallowed 1
  refine ⟨?_, hself.1⟩
  have hfound : ((s.nodes 1).findClosest (addressOf 2)).isSome := by decide +kernel
  obtain ⟨found, hsome⟩ := Option.isSome_iff_exists.mp hfound
  exact ⟨found, hsome, hself.2.1 (addressOf 2) found hsome⟩

end GossipNetwork

end Poseidon
