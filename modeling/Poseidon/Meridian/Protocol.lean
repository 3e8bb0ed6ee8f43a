import Poseidon.Lib.Bytes

/-!
# The Meridian transport

The part of `meridian_protocol_t` the overlay reads: whether the protocol runs, the address it
listens on, its connected peers and its seeds. A peer that connected to us is recorded without a
node, a peer we connected to with one. Opening a connection is the transport library's work and
taken to succeed.
-/

namespace Poseidon

/-- The address and port of a `meridian_node_t`. -/
structure MeridianNode where
  addr : UInt32
  port : UInt16
deriving DecidableEq, Repr

/-- The six bytes that identify a node in a filter: the memory of `addr`, then of `port`. -/
def MeridianNode.key (node : MeridianNode) : Bytes :=
  leBytes 4 node.addr.toNat ++ leBytes 2 node.port.toNat

structure MeridianProtocol where
  listenPort : UInt16
  running : Bool
  localAddr : UInt32
  localPort : UInt16
  peerNodes : List (Option MeridianNode)
  seedNodes : List MeridianNode
deriving DecidableEq, Repr

namespace MeridianProtocol

def create (listenPort : UInt16) : MeridianProtocol where
  listenPort := listenPort
  running := false
  localAddr := 0
  localPort := 0
  peerNodes := []
  seedNodes := []

-- the listener binds `INADDR_ANY`, and that is what the protocol later reports as its address
def start (protocol : MeridianProtocol) : MeridianProtocol :=
  if protocol.running then protocol
  else { protocol with running := true, localAddr := 0, localPort := protocol.listenPort }

def stop (protocol : MeridianProtocol) : MeridianProtocol :=
  if protocol.running then { protocol with running := false, peerNodes := [] } else protocol

-- callers initialise address and port to zero, which a stopped protocol leaves as they are
def getLocalNode (protocol : MeridianProtocol) : MeridianNode :=
  if protocol.running then ⟨protocol.localAddr, protocol.localPort⟩ else ⟨0, 0⟩

def addSeedNode (protocol : MeridianProtocol) (seed : MeridianNode) : MeridianProtocol :=
  if protocol.seedNodes.length ≥ 16 then protocol
  else { protocol with seedNodes := protocol.seedNodes ++ [seed] }

/-- `meridian_protocol_connect`, with the return code. -/
def connect (protocol : MeridianProtocol) (addr : UInt32) (port : UInt16) :
    Int × MeridianProtocol :=
  if !protocol.running then (-1, protocol)
  else if protocol.peerNodes.length ≥ 64 then (-1, protocol)
  else if protocol.peerNodes.contains (some ⟨addr, port⟩) then (0, protocol)
  else (0, { protocol with peerNodes := protocol.peerNodes ++ [some ⟨addr, port⟩] })

/-- `meridian_protocol_disconnect`, with the return code. The entries behind move up by one. -/
def disconnect (protocol : MeridianProtocol) (addr : UInt32) (port : UInt16) :
    Int × MeridianProtocol :=
  if !protocol.running then (-1, protocol)
  else
    match protocol.peerNodes.findIdx? (· == some ⟨addr, port⟩) with
    | none => (-1, protocol)
    | some index => (0, { protocol with peerNodes := protocol.peerNodes.eraseIdx index })

/-- Whether `meridian_protocol_send_packet` finds a connection and hands the packet to it. -/
def sendPacket (protocol : MeridianProtocol) (target : Option MeridianNode) : Bool :=
  protocol.running && target.isSome && protocol.peerNodes.contains target

end MeridianProtocol

end Poseidon
