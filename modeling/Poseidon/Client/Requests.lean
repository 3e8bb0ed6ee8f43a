import Poseidon.Channel.Aliases
import Poseidon.Client.Authorization
import Poseidon.Client.Session

/-!
# Requests of the clients

`client_session_handle_request` with every method. A request changes the sessions, the channels of
the manager and their alias registries, and is answered with an error code and a text. What it
publishes is returned beside the answer, in order; it reaches the manager, if at all, after the
request.
-/

namespace Poseidon

open Cbor

/-! ### Answers -/

/-- The methods of the protocol. `CLIENT_METHOD_CHANNEL_LEAVE` has no case in the handler. -/
inductive RequestMethod where
  | create
  | join
  | destroy
  | modify
  | subscribe
  | unsubscribe
  | publish
  | aliasRegister
  | aliasUnregister
  | aliasResolve
deriving DecidableEq, Repr

def RequestMethod.ofCode : UInt8 → Option RequestMethod
  | 1 => some .create
  | 2 => some .join
  | 4 => some .destroy
  | 5 => some .modify
  | 6 => some .subscribe
  | 7 => some .unsubscribe
  | 8 => some .publish
  | 9 => some .aliasRegister
  | 10 => some .aliasUnregister
  | 11 => some .aliasResolve
  | _ => none

inductive RequestError where
  | unknownMethod
  | invalidParams
  | channelNotFound
  | aliasAmbiguous
  | notAuthorized
  | tooManyChannels
  | transport
deriving DecidableEq, Repr

def RequestError.code : RequestError → UInt8
  | .unknownMethod => 1
  | .invalidParams => 2
  | .channelNotFound => 3
  | .aliasAmbiguous => 4
  | .notAuthorized => 5
  | .tooManyChannels => 7
  | .transport => 8

inductive RequestSuccess where
  | created
  | joined
  | subscribed
  | unsubscribed
  | published
  | registered
  | unregistered
  | resolved (topic : CString aliasMaxTopic)
  | deleted
  | modified
deriving DecidableEq, Repr

/-- The names of the cases in ASCII, except for a resolved topic. -/
def RequestSuccess.text : RequestSuccess → Bytes
  | .created => [99, 114, 101, 97, 116, 101, 100]
  | .joined => [106, 111, 105, 110, 101, 100]
  | .subscribed => [115, 117, 98, 115, 99, 114, 105, 98, 101, 100]
  | .unsubscribed => [117, 110, 115, 117, 98, 115, 99, 114, 105, 98, 101, 100]
  | .published => [112, 117, 98, 108, 105, 115, 104, 101, 100]
  | .registered => [114, 101, 103, 105, 115, 116, 101, 114, 101, 100]
  | .unregistered => [117, 110, 114, 101, 103, 105, 115, 116, 101, 114, 101, 100]
  | .resolved topic => topic.bytes
  | .deleted => [100, 101, 108, 101, 116, 101, 100]
  | .modified => [109, 111, 100, 105, 102, 105, 101, 100]

def encodeResult (requestId : UInt32) : Except RequestError RequestSuccess → Item
  | .error error => ClientProtocol.encodeResponse requestId error.code []
  | .ok success => ClientProtocol.encodeResponse requestId 0 success.text

/-! ### The daemon -/

structure Keyring where
  pair : Bytes → KeyPair
  publicKey_pair : ∀ publicKey, (pair publicKey).publicKey = publicKey

def Keyring.owned {crypto : Crypto} (keyring : Keyring) (channel : Channel crypto) :
    OwnedChannel crypto :=
  ⟨channel, keyring.pair channel.publicKey, keyring.publicKey_pair channel.publicKey⟩

/-- The server with the alias registries of its channels, by their address. -/
structure Daemon (crypto : Crypto) where
  server : Server crypto
  aliases : Nat → AliasRegistry

/-- What the environment gives to a request: the key a new channel draws, the clocks, and the ids
of the messages it publishes. -/
structure RequestInputs where
  key : Option Bytes
  now : ClockReading
  ids : Nat → MessageId

def RequestInputs.atTime (time : UInt64) : RequestInputs :=
  ⟨none, ⟨time, time⟩, fun _ => ⟨0, 0, 0⟩⟩

/-- What a Quasar node did when a request published on its channel, with the session in
`publisher_session`; or what the manager did, publications on the dial channel included. -/
inductive RequestEffect where
  | published (channel : Nat) (publisher : Option Nat) (actions : List Action)
  | managed (effect : Effect)
deriving DecidableEq, Repr

structure Answer (crypto : Crypto) where
  result : Except RequestError RequestSuccess
  daemon : Daemon crypto
  effects : List RequestEffect

/-! ### Configurations -/

/-- `sizeof(poseidon_channel_config_t)`: seventeen words of four bytes. -/
def configSize : Nat := 68

def configWord (memory : Bytes) (index : Nat) : UInt32 :=
  UInt32.ofNat (leNat ((memory.drop (4 * index)).take 4))

def ChannelConfig.ofMemory (memory : Bytes) : ChannelConfig where
  ringSizes := (List.range maxRings).map (configWord memory)
  length_ringSizes := (List.length_map (configWord memory)).trans List.length_range
  gossipInitIntervalS := configWord memory 10
  gossipSteadyIntervalS := configWord memory 11
  gossipNumInitIntervals := configWord memory 12
  quasarMaxHops := configWord memory 13
  quasarAlpha := configWord memory 14
  quasarSeenSize := configWord memory 15
  quasarSeenHashes := configWord memory 16

namespace RequestFrame

/-- The configuration of a modify request: that of the channel unless one was sent. -/
def newConfig {crypto : Crypto} (frame : RequestFrame) (channel : Channel crypto) :
    ChannelConfig :=
  if frame.payload.bytes.length = configSize then .ofMemory frame.payload.bytes
  else channel.config

def loopback (frame : RequestFrame) : Bool :=
  frame.payload.bytes.head?.any (· != 0)

/-- The buffer for the topic of an alias: empty if the payload does not fit. -/
def aliasTopic (frame : RequestFrame) : Bytes :=
  if 0 < frame.payload.bytes.length ∧ frame.payload.bytes.length < maxTopicPath then
    CString.cut frame.payload.bytes
  else []

end RequestFrame

/-- `poseidon_channel_publish` on the channel behind a pointer, with the calls it makes. -/
def Manager.publishOn {crypto : Crypto} (H : HashFn) (manager : Manager crypto)
    (channel : Channel crypto) (ids : Nat → MessageId) (topic data : Bytes) :
    Manager crypto × List Action :=
  (manager.updateChannel channel.address fun known =>
      { known with quasar := (known.quasar.publish H ids topic data).1 },
    (channel.quasar.publish H ids topic data).2)

/-! ### The handler -/

namespace Daemon

variable {crypto : Crypto} (H : HashFn) (keyring : Keyring) (inputs : RequestInputs)

def start (manager : Manager crypto) : Daemon crypto :=
  ⟨⟨manager, [], []⟩, fun _ => AliasRegistry.create 32⟩

def setManager (daemon : Daemon crypto) (manager : Manager crypto) : Daemon crypto :=
  { daemon with server := { daemon.server with manager := manager } }

def setAliases (daemon : Daemon crypto) (address : Nat) (registry : AliasRegistry) :
    Daemon crypto :=
  { daemon with aliases := Function.update daemon.aliases address registry }

/-- A new channel of the manager comes with an empty alias registry. -/
def adopt (daemon : Daemon crypto) (channel : Channel crypto) : Daemon crypto :=
  daemon.setAliases channel.address (AliasRegistry.create 32)

def refuse (daemon : Daemon crypto) (error : RequestError) : Answer crypto :=
  ⟨.error error, daemon, []⟩

/-- A request for the channel its topic path names. -/
def onChannel (daemon : Daemon crypto) (frame : RequestFrame)
    (handle : Channel crypto → Answer crypto) : Answer crypto :=
  match daemon.server.manager.findByTopic frame.topicPath.bytes with
  | none => daemon.refuse .channelNotFound
  | some channel => handle channel

def createChannel (daemon : Daemon crypto) : Answer crypto :=
  let created := daemon.server.manager.createChannel inputs.key .defaults
  let after := daemon.setManager created.2
  match created.1 with
  | none => after.refuse .tooManyChannels
  | some channel => ⟨.ok .created, after.adopt channel, []⟩

def joinChannel (daemon : Daemon crypto) (frame : RequestFrame) : Answer crypto :=
  let joined := daemon.server.manager.joinChannel H inputs.key frame.topicPath.bytes inputs.now
  let after := daemon.setManager joined.2.1
  match joined.1 with
  | none => after.refuse .channelNotFound
  | some channel => ⟨.ok .joined, after.adopt channel, joined.2.2.map .managed⟩

/-- The answer by the return code of a change of the subscriptions. -/
def subscription (daemon : Daemon crypto) (changed : Int × Server crypto)
    (success : RequestSuccess) : Answer crypto :=
  let after := { daemon with server := changed.2 }
  if changed.1 ≠ 0 then after.refuse .invalidParams else ⟨.ok success, after, []⟩

def publish (daemon : Daemon crypto) (client : Nat) (frame : RequestFrame)
    (channel : Channel crypto) : Answer crypto :=
  let published := daemon.server.manager.publishOn H channel inputs.ids frame.topicPath.bytes
    frame.payload.bytes
  ⟨.ok .published, daemon.setManager published.1,
    [.published channel.address (some client) published.2]⟩

/-- The alias is the topic path of the request, which has named the channel before. -/
def aliasRegister (daemon : Daemon crypto) (frame : RequestFrame) (channel : Channel crypto) :
    Answer crypto :=
  match (daemon.aliases channel.address).register frame.topicPath.bytes frame.aliasTopic with
  | none => daemon.refuse .aliasAmbiguous
  | some registry => ⟨.ok .registered, daemon.setAliases channel.address registry, []⟩

def aliasUnregister (daemon : Daemon crypto) (frame : RequestFrame) (channel : Channel crypto) :
    Answer crypto :=
  match (daemon.aliases channel.address).unregister frame.topicPath.bytes with
  | none => daemon.refuse .aliasAmbiguous
  | some registry => ⟨.ok .unregistered, daemon.setAliases channel.address registry, []⟩

def aliasResolve (daemon : Daemon crypto) (frame : RequestFrame) (channel : Channel crypto) :
    Answer crypto :=
  match (daemon.aliases channel.address).resolve frame.topicPath.bytes with
  | none => daemon.refuse .aliasAmbiguous
  | some topic => ⟨.ok (.resolved topic), daemon, []⟩

/-- What is done with a notice of this server's own: it is published on the channel and on the dial
channel, stored as a tombstone and applied. -/
def applyOwn (daemon : Daemon crypto) (channel : Channel crypto) (notice : Notice) :
    Daemon crypto × List RequestEffect :=
  let manager := daemon.server.manager
  let published := manager.publishOn H channel inputs.ids channel.topic (serialize notice.encode)
  let tombstone := Manager.tombstoneOf notice inputs.now
  let storing := if manager.stores tombstone then [Effect.tombstoned tombstone.topicId] else []
  let applied := (published.1.addTombstone tombstone).applyNotice H channel inputs.now notice
  (daemon.setManager applied.1,
    .published channel.address none published.2 ::
      (.redistribute notice :: storing ++ applied.2).map .managed)

/-- The cases of `CLIENT_METHOD_CHANNEL_DESTROY` and `CLIENT_METHOD_CHANNEL_MODIFY`. -/
def administer (daemon : Daemon crypto) (frame : RequestFrame) (channel : Channel crypto)
    (order : NoticeOrder) (success : RequestSuccess) : Answer crypto :=
  if !verifyChannelOwnerSignature crypto (keyring.pair channel.publicKey) frame then
    daemon.refuse .notAuthorized
  else
    match (keyring.owned channel).createNotice order inputs.now.realtimeUs with
    | none => daemon.refuse .transport
    | some notice =>
        if !notice.verify crypto then daemon.refuse .notAuthorized
        else
          let applied := daemon.applyOwn H inputs channel notice
          ⟨.ok success, applied.1, applied.2⟩

/-- `client_session_handle_request`. -/
def handleRequest (daemon : Daemon crypto) (client : Nat) (frame : RequestFrame) :
    Answer crypto :=
  match RequestMethod.ofCode frame.method with
  | some .create => daemon.createChannel inputs
  | some .join => daemon.joinChannel H inputs frame
  | some .destroy =>
      daemon.onChannel frame fun channel =>
        daemon.administer H keyring inputs frame channel .delete .deleted
  | some .modify =>
      daemon.onChannel frame fun channel =>
        daemon.administer H keyring inputs frame channel (.modify (frame.newConfig channel))
          .modified
  | some .subscribe =>
      daemon.subscription
        (daemon.server.subscribe H client frame.topicPath.bytes frame.loopback) .subscribed
  | some .unsubscribe =>
      daemon.subscription (daemon.server.unsubscribe H client frame.topicPath.bytes) .unsubscribed
  | some .publish => daemon.onChannel frame (daemon.publish H inputs client frame)
  | some .aliasRegister => daemon.onChannel frame (daemon.aliasRegister frame)
  | some .aliasUnregister => daemon.onChannel frame (daemon.aliasUnregister frame)
  | some .aliasResolve => daemon.onChannel frame (daemon.aliasResolve frame)
  | none => daemon.refuse .unknownMethod

/-- What a transport does with the bytes of a frame. The handler reads any frame as a request; one
of another type has the method zero. -/
def serve (daemon : Daemon crypto) (client : Nat) (data : Bytes) :
    Option (Item × Answer crypto) :=
  (ClientProtocol.receive data).map fun frame =>
    match frame with
    | .request frame =>
        let answer := daemon.handleRequest H keyring inputs client frame
        (encodeResult frame.requestId answer.result, answer)
    | .response frame =>
        let answer := daemon.refuse .unknownMethod
        (encodeResult frame.requestId answer.result, answer)
    | .event _ =>
        let answer := daemon.refuse .unknownMethod
        (encodeResult 0 answer.result, answer)

/-! ### Requests on the wire -/

variable {H keyring inputs}

theorem serve_request {item : Item} {frame : RequestFrame}
    (hsent : ClientProtocol.SentAs item (.request frame)) (daemon : Daemon crypto)
    (client : Nat) :
    daemon.serve H keyring inputs client (serialize item) =
      some (encodeResult frame.requestId
          (daemon.handleRequest H keyring inputs client frame).result,
        daemon.handleRequest H keyring inputs client frame) := by
  unfold serve
  rw [ClientProtocol.receive_serialize hsent, Option.map_some]

end Daemon

theorem encodeResult_eq_ok_iff (requestId : UInt32) (result : Except RequestError RequestSuccess)
    (text : Bytes) :
    encodeResult requestId result = ClientProtocol.encodeResponse requestId 0 text ↔
      ∃ success, result = .ok success ∧ success.text = text := by
  cases result with
  | error error =>
      refine iff_of_false ?_ fun ⟨_, hok, _⟩ => by cases hok
      cases error <;> simp [encodeResult, ClientProtocol.encodeResponse, RequestError.code]
  | ok success => simp [encodeResult, ClientProtocol.encodeResponse]

end Poseidon
