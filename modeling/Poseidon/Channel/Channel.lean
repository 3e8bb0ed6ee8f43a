import Poseidon.Channel.Packet
import Poseidon.Quasar.Node

/-!
# Channels

A channel is an overlay of its own: a protocol instance on a port, a Quasar node on top of it, and
an identity derived from the channel's key pair. Its topic is the Base58 form of that identity.
-/

namespace Poseidon

inductive ChannelState where
  | init
  | bootstrapping
  | running
  | shuttingDown
  | deleted
deriving DecidableEq, Repr

/-- `poseidon_channel_t`. `address` tells the objects a pointer can refer to apart; `publicKey` is
the public half of the channel's key pair. The channel's protocol is the one its Quasar node
holds. -/
structure Channel (crypto : Crypto) where
  address : Nat
  publicKey : Bytes
  nodeId : NodeId
  nodeId_eq : NodeId.fromPublicKey crypto publicKey = some nodeId
  state : ChannelState
  config : ChannelConfig
  quasar : Quasar
  messageCallback : Bool

structure Publication where
  topic : Bytes
  data : Bytes
deriving DecidableEq, Repr

namespace Channel

variable {crypto : Crypto}

/-- `poseidon_channel_create` with the key pair given or drawn; there is none if drawing it, or
the TLS files made from it, failed. -/
def create (crypto : Crypto) (address : Nat) (key : Option Bytes) (listenPort : UInt16)
    (config : ChannelConfig) : Option (Channel crypto) :=
  match key with
  | none => none
  | some publicKey =>
      match hid : NodeId.fromPublicKey crypto publicKey with
      | none => none
      | some nodeId => some
          { address := address
            publicKey := publicKey
            nodeId := nodeId
            nodeId_eq := hid
            state := .init
            config := config
            quasar := Quasar.create (some (MeridianProtocol.create listenPort))
              config.quasarMaxHops config.quasarAlpha 4096 3
            messageCallback := false }

def topic (channel : Channel crypto) : Bytes :=
  channel.nodeId.str.bytes

theorem length_topic_lt (channel : Channel crypto) : channel.topic.length < 64 :=
  Nat.lt_trans channel.nodeId.str.length_lt (by decide)

theorem zero_not_mem_topic (channel : Channel crypto) : (0 : UInt8) ∉ channel.topic :=
  channel.nodeId.str.zero_not_mem

def protocol (channel : Channel crypto) : Option MeridianProtocol :=
  channel.quasar.protocol

def mapProtocol (channel : Channel crypto) (change : MeridianProtocol → MeridianProtocol) :
    Channel crypto :=
  { channel with quasar := { channel.quasar with protocol := channel.quasar.protocol.map change } }

def start (channel : Channel crypto) : Channel crypto :=
  { channel.mapProtocol MeridianProtocol.start with state := .running }

def subscribe (H : HashFn) (channel : Channel crypto) (topic : Bytes) (ttl : Nat) :
    Channel crypto :=
  { channel with quasar := channel.quasar.subscribe H topic ttl }

def unsubscribe (H : HashFn) (channel : Channel crypto) (topic : Bytes) : Channel crypto :=
  { channel with quasar := channel.quasar.unsubscribe H topic }

def deleteSigned (H : HashFn) (channel : Channel crypto) : Channel crypto :=
  if channel.state = .deleted then channel
  else
    { (channel.unsubscribe H channel.topic).mapProtocol MeridianProtocol.stop with
      state := .deleted }

/-- `poseidon_channel_rejoin_with_config` up to its publication on the dial channel. The Quasar
node is replaced, so that only the own topic is subscribed and the handler is set again only where
there is a message callback. -/
def rejoinWithConfig (H : HashFn) (channel : Channel crypto) (config : ChannelConfig) :
    Channel crypto :=
  let stopped := channel.mapProtocol MeridianProtocol.stop
  let fresh := Quasar.create stopped.protocol config.quasarMaxHops config.quasarAlpha
    config.quasarSeenSize.toNat config.quasarSeenHashes.toNat
  { stopped with
    config := config
    quasar := { fresh.subscribe H channel.topic 300 with onMessage := channel.messageCallback }
    state := .bootstrapping }

def rejoinRequest (channel : Channel crypto) (now : UInt64) : Publication :=
  ⟨channel.topic, Cbor.serialize (BootstrapRequest.encode channel.topic channel.topic now)⟩

end Channel

end Poseidon
