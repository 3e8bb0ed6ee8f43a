import Poseidon.Lib.Runs
import Poseidon.Quasar.Routing

/-!
# A network of Quasar nodes

The nodes exchange packets over an asynchronous network. Every packet ever sent stays available:
a step may deliver any of them to any node, so a packet can be lost, delayed, reordered and
delivered more than once, and which node an address reaches is left open. Between routing steps a
node may perform any of its other operations, and its connected peers may change.

Packets carry a trace and the network a log. No node reads either; they say which call of
`publish` a packet stems from, along how many transmissions, and what happened in which order.
-/

namespace Poseidon

inductive Quasar.Operation where
  | subscribe (topic : Bytes) (ttl : Nat)
  | unsubscribe (topic : Bytes)
  | tick
  | gossip (data : Bytes) (sender : Option MeridianNode)
  | setMessageCallback (present : Bool)
  | setProtocol (protocol : Option MeridianProtocol)

def Quasar.perform [Cbor.Memory] (H : HashFn) (quasar : Quasar) : Quasar.Operation → Quasar
  | .subscribe topic ttl => quasar.subscribe H topic ttl
  | .unsubscribe topic => quasar.unsubscribe H topic
  | .tick => quasar.tick H
  | .gossip data sender => (quasar.onGossip data sender).2
  | .setMessageCallback present => { quasar with onMessage := present }
  | .setProtocol protocol => { quasar with protocol := protocol }

theorem Quasar.perform_seen [Cbor.Memory] (H : HashFn) (quasar : Quasar)
    (operation : Quasar.Operation) : (quasar.perform H operation).seen = quasar.seen := by
  cases operation with
  | gossip data sender =>
      change (quasar.onGossip data sender).2.seen = quasar.seen
      unfold Quasar.onGossip
      split
      · rfl
      · cases sender <;> rfl
  | _ => rfl

/-- The history of a packet: the call of `publish` at its root, the hop limit set there, the
transmissions since, this one included, and how many of them re-broadcast the message from a
subscriber. -/
structure Trace where
  call : Nat
  limit : Nat
  depth : Nat
  rebroadcasts : Nat
deriving DecidableEq, Repr

/-- The trace of what is sent while a packet is processed. -/
def Trace.next (trace : Trace) (subscribed : Bool) : Trace :=
  { trace with
    depth := trace.depth + 1
    rebroadcasts := if subscribed then trace.rebroadcasts + 1 else trace.rebroadcasts }

structure Packet where
  bytes : Bytes
  trace : Trace
deriving DecidableEq, Repr

/-- What the log records: an id drawn by a node that publishes, a message that got past the
duplicate check with the packets it caused, and a run of the message callback. -/
inductive Event (ι : Type) where
  | published (node : ι) (id : MessageId)
  | processed (node : ι) (id : MessageId) (sends fanout : Nat)
  | delivered (node : ι) (call : Nat)
deriving DecidableEq, Repr

structure Network (ι : Type) where
  nodes : ι → Quasar
  packets : List Packet
  log : List (Event ι)
  calls : Nat

/-- The choices of the environment: who publishes what under which ids, which of the packets sent
so far reaches which node, and what else a node does. -/
inductive Label (ι : Type) where
  | publish (node : ι) (ids : Nat → MessageId) (topic data : Bytes)
  | receive (node : ι) (index : Nat)
  | perform (node : ι) (operation : Quasar.Operation)

namespace Network

variable {ι : Type} [DecidableEq ι]

omit [DecidableEq ι] in
def start (nodes : ι → Quasar) : Network ι where
  nodes := nodes
  packets := []
  log := []
  calls := 0

/-- The packets among `actions` that the node's transport takes. -/
def transmitted (quasar : Quasar) (actions : List Action) : List Bytes :=
  actions.filterMap fun action =>
    match action, quasar.protocol with
    | .send target packet, some protocol =>
        if protocol.sendPacket target then some packet else none
    | _, _ => none

def act (net : Network ι) (node : ι) (result : Quasar × List Action) (trace : Trace)
    (events : List (Event ι)) : Network ι :=
  { net with
    nodes := Function.update net.nodes node result.1
    packets := net.packets ++ (transmitted (net.nodes node) result.2).map (⟨·, trace⟩)
    log := net.log ++ (events ++
      List.replicate (result.2.countP Action.isCallback) (.delivered node trace.call)) }

variable (H : HashFn)

def publish (net : Network ι) (node : ι) (ids : Nat → MessageId) (topic data : Bytes) :
    Network ι :=
  let quasar := net.nodes node
  { net.act node (quasar.publish H ids topic data) ⟨net.calls, quasar.maxHops.toNat, 1, 0⟩
      ((quasar.publishedIds ids topic).map (.published node)) with
    calls := net.calls + 1 }

theorem publish_packets (net : Network ι) (node : ι) (ids : Nat → MessageId)
    (topic data : Bytes) :
    (net.publish H node ids topic data).packets =
      (net.act node ((net.nodes node).publish H ids topic data)
        ⟨net.calls, (net.nodes node).maxHops.toNat, 1, 0⟩
        (((net.nodes node).publishedIds ids topic).map (.published node))).packets := rfl

def process (net : Network ι) (node : ι) (trace : Trace) (msg : RouteMessage) : Network ι :=
  let quasar := net.nodes node
  net.act node (quasar.onRouteMessage H msg) (trace.next (quasar.isLocallySubscribed msg.topic))
    [.processed node msg.id ((quasar.forward H msg).countP Action.isSend) quasar.fanout]

def receive (net : Network ι) (node : ι) (index : Nat) : Network ι :=
  match net.packets[index]? with
  | none => net
  | some packet =>
      match RouteMessage.deserialize packet.bytes with
      | none => net
      | some msg =>
          if (net.nodes node).accepts H msg then net.process H node packet.trace msg else net

def step (net : Network ι) : Label ι → Network ι
  | .publish node ids topic data => net.publish H node ids topic data
  | .receive node index => net.receive H node index
  | .perform node operation =>
      { net with nodes := Function.update net.nodes node ((net.nodes node).perform H operation) }

/-! ### What a step does -/

/-- A step that receives changes nothing, or a node processes a decoded packet whose id it has
not seen. -/
theorem receive_cases (net : Network ι) (node : ι) (index : Nat) :
    net.receive H node index = net ∨
      ∃ packet ∈ net.packets, ∃ msg,
        RouteMessage.deserialize packet.bytes = some msg ∧
        (net.nodes node).seen.contains H msg.id.key = false ∧
        net.receive H node index = net.process H node packet.trace msg := by
  unfold receive
  split
  · exact Or.inl rfl
  · rename_i packet hpacket
    split
    · exact Or.inl rfl
    · rename_i msg hmsg
      split_ifs with haccepts
      · refine Or.inr ⟨packet, List.mem_of_getElem? hpacket, msg, hmsg, ?_, rfl⟩
        simpa [Quasar.accepts] using haccepts
      · exact Or.inl rfl

variable {net : Network ι} {packet : Packet} {trace : Trace}

theorem process_eq {node : ι} {msg : RouteMessage}
    (hunseen : (net.nodes node).seen.contains H msg.id.key = false) :
    net.process H node trace msg =
      net.act node ((net.nodes node).markSeen H [msg.id], (net.nodes node).forward H msg)
        (trace.next ((net.nodes node).isLocallySubscribed msg.topic))
        [.processed node msg.id (((net.nodes node).forward H msg).countP Action.isSend)
          (net.nodes node).fanout] := by
  simp [process, Quasar.onRouteMessage, Quasar.accepts, hunseen]

theorem send_mem_of_mem_transmitted {quasar : Quasar} {actions : List Action} {packet : Bytes}
    (hpacket : packet ∈ transmitted quasar actions) :
    ∃ target, .send target packet ∈ actions := by
  obtain ⟨action, haction, hsome⟩ := List.mem_filterMap.mp hpacket
  split at hsome
  · rename_i target bytes protocol hprotocol
    split_ifs at hsome
    obtain rfl := Option.some.inj hsome
    exact ⟨target, haction⟩
  · cases hsome

theorem mem_packets_act {node : ι} {result : Quasar × List Action} {events : List (Event ι)}
    (hpacket : packet ∈ (net.act node result trace events).packets) :
    packet ∈ net.packets ∨
      packet.trace = trace ∧ ∃ target, .send target packet.bytes ∈ result.2 := by
  rcases List.mem_append.mp hpacket with hold | hnew
  · exact Or.inl hold
  · obtain ⟨bytes, hbytes, rfl⟩ := List.mem_map.mp hnew
    exact Or.inr ⟨rfl, send_mem_of_mem_transmitted hbytes⟩

theorem mem_packets_process {node : ι} {msg : RouteMessage}
    (hunseen : (net.nodes node).seen.contains H msg.id.key = false)
    (hpacket : packet ∈ (net.process H node trace msg).packets) :
    packet ∈ net.packets ∨
      packet.trace = trace.next ((net.nodes node).isLocallySubscribed msg.topic) ∧
        ∃ target, .send target packet.bytes ∈ (net.nodes node).forward H msg := by
  rw [process_eq H hunseen] at hpacket
  exact mem_packets_act hpacket

theorem mem_packets_publish {node : ι} {ids : Nat → MessageId} {topic data : Bytes}
    (hpacket : packet ∈ (net.publish H node ids topic data).packets) :
    packet ∈ net.packets ∨
      packet.trace = ⟨net.calls, (net.nodes node).maxHops.toNat, 1, 0⟩ ∧
        ∃ target, .send target packet.bytes ∈ ((net.nodes node).publish H ids topic data).2 :=
  mem_packets_act (net.publish_packets H node ids topic data ▸ hpacket)

theorem contains_seen_step (net : Network ι) (label : Label ι) {node : ι} {key : Bytes}
    (hkey : (net.nodes node).seen.contains H key = true) :
    ((net.step H label).nodes node).seen.contains H key = true := by
  cases label with
  | publish actor ids topic data =>
      by_cases heq : node = actor
      · subst heq
        simpa [step, publish, act, Quasar.publish] using
          Quasar.contains_seen_markSeen_of_contains H (net.nodes node) _ hkey
      · simpa [step, publish, act, heq] using hkey
  | receive actor index =>
      rcases receive_cases H net actor index with hsame | ⟨packet, -, msg, -, hunseen, hstep⟩
      · rw [step, hsame]
        exact hkey
      · rw [step, hstep, process_eq H hunseen]
        by_cases heq : node = actor
        · subst heq
          simpa [act] using Quasar.contains_seen_markSeen_of_contains H (net.nodes node) _ hkey
        · simpa [act, heq] using hkey
  | perform actor operation =>
      by_cases heq : node = actor
      · subst heq
        simpa [step, Quasar.perform_seen] using hkey
      · simpa [step, heq] using hkey

/-! ### Concrete networks -/

def byteHash : HashFn := fun data seed =>
  UInt64.ofNat (data.foldl (fun hash byte => hash * 257 + byte.toNat + 1) (seed.toNat * 7919))

/-- A running protocol on a port of the local host, connected to other ports of it. -/
def loopbackProtocol (port : UInt16) (peers : List UInt16) : MeridianProtocol :=
  peers.foldl (fun protocol peer => (protocol.connect 0x0100007F peer).2)
    (MeridianProtocol.create port).start

def loopbackNode (maxHops : UInt32) (port : UInt16) (peers : List UInt16) : Quasar :=
  { Quasar.create (some (loopbackProtocol port peers)) maxHops 3 4096 3 with onMessage := true }

end Network

end Poseidon
