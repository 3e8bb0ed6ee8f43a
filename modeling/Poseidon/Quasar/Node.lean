import Poseidon.Bloom.Codec
import Poseidon.Quasar.Message

/-!
# A Quasar node

`quasar_t` with its operations. The routing operations return, beside the new state, the calls
they make: to the message callback and to `meridian_protocol_send_packet`, in order. Message ids
come from a process-wide clock and counter, so `publish` takes the ids it will draw.
-/

namespace Poseidon

structure Subscription where
  topic : Bytes
  ttl : Nat
deriving DecidableEq, Repr

structure NeighborFilter where
  node : MeridianNode
  filter : AttenuatedBloomFilter
deriving DecidableEq, Repr

/-- `quasar_t`; `onMessage` says whether a message callback is set. -/
structure Quasar where
  protocol : Option MeridianProtocol
  routing : AttenuatedBloomFilter
  localSubs : List Subscription
  neighborFilters : List NeighborFilter
  maxHops : UInt32
  alpha : UInt32
  seen : BloomFilter
  onMessage : Bool
deriving DecidableEq, Repr

inductive Action where
  | callback (topic data : Bytes)
  | send (target : Option MeridianNode) (packet : Bytes)
deriving DecidableEq, Repr

namespace Quasar

def defaultSize : Nat := 1024

def defaultHashCount : Nat := 3

def defaultOmega : Rat := 3 / 4

def defaultFpBits : Nat := 8

def defaultNegativeSize : Nat := 2048

def defaultNegativeHashes : Nat := 3

def create (protocol : Option MeridianProtocol) (maxHops alpha : UInt32)
    (seenSize seenHashes : Nat) : Quasar where
  protocol := protocol
  routing := AttenuatedBloomFilter.create maxHops.toNat defaultSize defaultHashCount defaultOmega
    defaultFpBits
  localSubs := []
  neighborFilters := []
  maxHops := maxHops
  alpha := alpha
  seen := BloomFilter.create seenSize seenHashes
  onMessage := false

def isLocallySubscribed (quasar : Quasar) (topic : Bytes) : Bool :=
  quasar.localSubs.any fun sub => sub.topic == topic

-- without a protocol, or while it is stopped, address and port stay zero
def localNode (quasar : Quasar) : MeridianNode :=
  match quasar.protocol with
  | none => ⟨0, 0⟩
  | some protocol => protocol.getLocalNode

def connectedPeers (quasar : Quasar) : List (Option MeridianNode) :=
  match quasar.protocol with
  | none => []
  | some protocol => protocol.peerNodes

section Operations

variable (H : HashFn)

/-! ### Subscriptions -/

def subscribe (quasar : Quasar) (topic : Bytes) (ttl : Nat) : Quasar :=
  let node := quasar.localNode
  let subscribed := quasar.routing.subscribe H topic
  { quasar with
    localSubs := quasar.localSubs ++ [⟨topic, ttl⟩]
    -- the own address joins level 0 as negative information
    routing := if node.addr ≠ 0 ∨ node.port ≠ 0 then subscribed.subscribe H node.key
      else subscribed }

def unsubscribe (quasar : Quasar) (topic : Bytes) : Quasar :=
  { quasar with
    routing := quasar.routing.unsubscribe H topic
    localSubs := quasar.localSubs.eraseP fun sub => sub.topic == topic }

/-- The loop of `quasar_tick`. A time to live of zero never expires. -/
def tickSubs : AttenuatedBloomFilter → List Subscription →
    AttenuatedBloomFilter × List Subscription
  | routing, [] => (routing, [])
  | routing, sub :: subs =>
      if sub.ttl = 1 then tickSubs (routing.unsubscribe H sub.topic) subs
      else
        let rest := tickSubs routing subs
        (rest.1, { sub with ttl := sub.ttl - 1 } :: rest.2)

def tick (quasar : Quasar) : Quasar :=
  let ticked := tickSubs H quasar.routing quasar.localSubs
  { quasar with routing := ticked.1, localSubs := ticked.2 }

/-! ### Routing -/

def newMessage (quasar : Quasar) (id : MessageId) (topic data : Bytes) : RouteMessage :=
  .create id topic data quasar.maxHops defaultNegativeSize defaultNegativeHashes

/-- Serializing and sending; a message that cannot be serialized is not sent. -/
def sendMessage (msg : RouteMessage) (target : Option MeridianNode) : List Action :=
  match msg.serialize with
  | none => []
  | some packet => [.send target packet]

/-- A neighbour whose filter has the topic at the level and none of the keys that negate it. -/
def lead (topic : Bytes) (negative : List Bytes) (level : Nat) (neighbor : NeighborFilter) :
    Option MeridianNode :=
  match neighbor.filter.getLevel level with
  | none => none
  | some filter =>
      if filter.contains H topic && !negative.any (filter.contains H) then some neighbor.node
      else none

/-- The directed walk: the first such neighbour, in order of level. -/
def directedTarget (quasar : Quasar) (topic : Bytes) (negative : List Bytes) :
    Option MeridianNode :=
  (List.range quasar.routing.levelCount).findSome? fun level =>
    quasar.neighborFilters.findSome? (lead H topic negative level)

/-- The random walk: to the first `alpha` peers the message has not visited, each marked as
visited behind the packet sent to it. -/
def randomWalk (alpha : Nat) : RouteMessage → Nat → List (Option MeridianNode) → List Action
  | _, _, [] => []
  | msg, sent, peer :: peers =>
      if sent ≥ alpha then []
      else if msg.hasVisited H peer then randomWalk alpha msg sent peers
      else sendMessage msg peer ++ randomWalk alpha (msg.addVisited H peer) (sent + 1) peers

def walk (quasar : Quasar) (msg : RouteMessage) (negative : List Bytes) : List Action :=
  match quasar.directedTarget H msg.topic negative with
  | some target => sendMessage msg (some target)
  | none => randomWalk H quasar.alpha.toNat msg 0 quasar.connectedPeers

def sendAll (messages : List (RouteMessage × Option MeridianNode)) : List Action :=
  messages.flatMap fun message => sendMessage message.1 message.2

def deliver (quasar : Quasar) (topic data : Bytes) : List Action :=
  if quasar.onMessage then [.callback topic data] else []

def signedMessage (quasar : Quasar) (id : MessageId) (topic data : Bytes) : RouteMessage :=
  ((quasar.newMessage id topic data).addPublisher quasar.localNode).addVisited H
    (some quasar.localNode)

/-- The ids a call of `publish` draws for its messages. -/
def publishedIds (quasar : Quasar) (ids : Nat → MessageId) (topic : Bytes) : List MessageId :=
  if quasar.isLocallySubscribed topic then (List.range quasar.connectedPeers.length).map ids
  else [ids 0]

def markSeen (quasar : Quasar) (ids : List MessageId) : Quasar :=
  { quasar with seen := ids.foldl (fun seen id => seen.add H id.key) quasar.seen }

/-- `quasar_publish`, drawing the ids `ids 0`, `ids 1`, ... -/
def publish (quasar : Quasar) (ids : Nat → MessageId) (topic data : Bytes) :
    Quasar × List Action :=
  (quasar.markSeen H (quasar.publishedIds ids topic),
    if quasar.isLocallySubscribed topic then
      -- a message of its own, under its own id, for every connected peer
      quasar.deliver topic data ++
        sendAll (quasar.connectedPeers.zipIdx.map fun peer =>
          (quasar.signedMessage H (ids peer.2) topic data, peer.1))
    else if quasar.protocol.isNone then []
    else
      let self := quasar.localNode
      quasar.walk H (quasar.signedMessage H (ids 0) topic data)
        (if self.addr ≠ 0 ∨ self.port ≠ 0 then [self.key] else []))

/-- `quasar_on_route_message` behind the duplicate check. -/
def forward (quasar : Quasar) (received : RouteMessage) : List Action :=
  let msg := received.addVisited H (some quasar.localNode)
  if quasar.isLocallySubscribed received.topic then
    -- the hops that remain are neither tested nor counted down here
    quasar.deliver received.topic received.data ++
      sendAll (quasar.connectedPeers.map fun peer => (msg.addPublisher quasar.localNode, peer))
  else if received.hopsRemaining = 0 then []
  else
    quasar.walk H { msg with hopsRemaining := msg.hopsRemaining - 1 }
      (msg.publishers.map MeridianNode.key)

def accepts (quasar : Quasar) (msg : RouteMessage) : Bool :=
  !quasar.seen.contains H msg.id.key

def onRouteMessage (quasar : Quasar) (msg : RouteMessage) : Quasar × List Action :=
  if quasar.accepts H msg then
    (quasar.markSeen H [msg.id], quasar.forward H msg)
  else (quasar, [])

end Operations

/-! ### Gossip -/

def gossipType : Nat := 50

/-- The filter a gossip packet carries, if the packet is well formed. -/
def decodeGossip [Cbor.Memory] (data : Bytes) : Option AttenuatedBloomFilter :=
  if data.length < 28 then none
  else
    match Cbor.load data with
    | some (.array (type :: levelCount :: encoded :: _)) =>
        if !type.isUint || type.getUint8 != gossipType || !levelCount.isUint then none
        else
          match AttenuatedBloomFilter.decode encoded with
          | none => none
          | some filter => if filter.levelCount ≠ levelCount.getUint32 then none else some filter
    | _ => none

/-- The new slot of a neighbour replaces its old one and goes to the end. -/
def storeNeighborFilter (quasar : Quasar) (node : MeridianNode) (filter : AttenuatedBloomFilter) :
    Quasar :=
  { quasar with
    neighborFilters := (quasar.neighborFilters.eraseP fun slot => slot.node == node) ++
      [⟨node, filter⟩] }

/-- `quasar_on_gossip`, with its return code. -/
def onGossip [Cbor.Memory] (quasar : Quasar) (data : Bytes) (sender : Option MeridianNode) :
    Int × Quasar :=
  match decodeGossip data with
  | none => (-1, quasar)
  | some received =>
      let merged := { quasar with routing := quasar.routing.merge received }
      match sender with
      | some node => (0, merged.storeNeighborFilter node received)
      | none => (0, merged)

def gossipPacket (quasar : Quasar) : Bytes :=
  Cbor.serialize (.array [.uint .w8 gossipType, .uint .w32 quasar.routing.levelCount,
    quasar.routing.encode])

end Quasar

end Poseidon
