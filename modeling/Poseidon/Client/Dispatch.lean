import Mathlib.Data.List.Nodup
import Poseidon.Channel.Message
import Poseidon.Client.Overlay

/-!
# Dispatch to the clients

A transport keeps an array of its clients, each with a session. The accept code of TCP, Unix and
QUIC tells the session where to send and enters it into the manager's registry; that of WebSocket
does neither. A message of a channel goes to the registered sessions that are subscribed to its
topic, except the one that published it without asking for its own messages, and only where the
session knows a transport and a descriptor.
-/

namespace Poseidon

open Function (update update_self update_of_ne)

inductive TransportKind where
  | tcp
  | unix
  | quic
  | ws
deriving DecidableEq, Repr

namespace TransportKind

def maxClients : TransportKind → Nat
  | .tcp => 256
  | .unix => 128
  | .quic => 256
  | .ws => 256

/-- Whether the accept code calls `poseidon_channel_manager_register_session`. -/
def registers : TransportKind → Bool
  | .ws => false
  | _ => true

end TransportKind

/-- The fields of `client_session_t` that sending reads. -/
structure Connection where
  sessionId : UInt32
  transport : Option TransportKind
  clientFd : Int
deriving DecidableEq, Repr

namespace Connection

/-- As `client_session_create` leaves them. -/
def create (sessionId : UInt32) : Connection :=
  ⟨sessionId, none, -1⟩

/-- As the accept code of a transport leaves them. A QUIC stream has no descriptor, and is found
again by the number of its session. -/
def accepted (sessionId : UInt32) (fd : Nat) : TransportKind → Connection
  | .tcp => { create sessionId with clientFd := fd, transport := some .tcp }
  | .unix => { create sessionId with clientFd := fd, transport := some .unix }
  | .quic =>
      { create sessionId with clientFd := sessionId.toInt32.toInt, transport := some .quic }
  | .ws => create sessionId

/-- The test before the transport's `send`. -/
def sendsTo (connection : Connection) : Bool :=
  connection.transport.isSome && decide (0 ≤ connection.clientFd)

theorem kind_unique {connection : Connection} {kind other : TransportKind} {id id' : UInt32}
    {fd fd' : Nat} (hkind : connection = accepted id fd kind)
    (hother : connection = accepted id' fd' other) : kind = other := by
  have htransport := congrArg transport (hkind.symm.trans hother)
  cases kind <;> cases other <;> first | rfl | cases htransport

theorem sendsTo_accepted (id : UInt32) (fd : Nat) (kind : TransportKind) :
    (accepted id fd kind).sendsTo = true ↔
      kind ≠ .ws ∧ (kind = .quic → id.toNat < 2 ^ 31) := by
  have hsign : 0 ≤ id.toInt32.toInt ↔ id.toNat < 2 ^ 31 := by
    change 0 ≤ id.toBitVec.toInt ↔ id.toBitVec.toNat < 2 ^ 31
    rw [BitVec.toInt_eq_toNat_cond]
    split_ifs <;> omega
  cases kind <;> simp [accepted, sendsTo, create, hsign]

end Connection

/-- The server with what the transports know of their clients. A client is named by the number of
its session. -/
structure Hub (crypto : Crypto) where
  server : Server crypto
  connection : Nat → Connection
  clients : TransportKind → List Nat
  nextSessionId : TransportKind → UInt32

/-- One call of a transport's `send`. -/
structure Send where
  client : Nat
  connection : Connection
  frame : Bytes
deriving DecidableEq, Repr

/-- `fd` is what `accept` returned; it means nothing for a QUIC stream. -/
inductive HubStep where
  | accept (kind : TransportKind) (fd : Nat)
  | subscribe (client : Nat) {capacity : Nat} (topic : CString capacity) (loopback : Bool)
  | unsubscribe (client : Nat) {capacity : Nat} (topic : CString capacity)
  | disconnect (kind : TransportKind) (client : Nat)

namespace Server

variable {crypto : Crypto}

def openSession (server : Server crypto) : Server crypto :=
  { server with sessions := server.sessions ++ [some Session.create] }

def hasLoopback (server : Server crypto) (topic : Bytes) (client : Nat) : Bool :=
  (server.session client).any (·.hasLoopback topic)

end Server

namespace Hub

variable {crypto : Crypto} (H : HashFn)

def start (manager : Manager crypto) : Hub crypto where
  server := Server.start manager
  connection _ := Connection.create 0
  clients _ := []
  nextSessionId _ := 1

def accept (hub : Hub crypto) (kind : TransportKind) (fd : Nat) : Hub crypto :=
  if (hub.clients kind).length ≥ kind.maxClients then hub
  else
    let client := hub.server.sessions.length
    let id := hub.nextSessionId kind
    { server := if kind.registers then hub.server.connect else hub.server.openSession
      connection := update hub.connection client (.accepted id fd kind)
      clients := update hub.clients kind (hub.clients kind ++ [client])
      nextSessionId := update hub.nextSessionId kind (id + 1) }

/-- A client of the transport is gone. That of WebSocket leaves its subscriptions with the
channels. -/
def disconnect (hub : Hub crypto) (kind : TransportKind) (client : Nat) : Hub crypto :=
  match (hub.clients kind).findIdx? (· == client) with
  | none => hub
  | some index =>
      { hub with
        server := if kind.registers then hub.server.disconnect H client
          else hub.server.setSession client none
        clients := update hub.clients kind (swapRemove (hub.clients kind) index) }

def step (hub : Hub crypto) : HubStep → Hub crypto
  | .accept kind fd => hub.accept kind fd
  | .subscribe client topic loopback =>
      { hub with server := (hub.server.subscribe H client topic.bytes loopback).2 }
  | .unsubscribe client topic =>
      { hub with server := (hub.server.unsubscribe H client topic.bytes).2 }
  | .disconnect kind client => hub.disconnect H kind client

def send (hub : Hub crypto) (publisher : Option Nat) (topic frame : Bytes) (client : Nat) :
    Option Send :=
  if !hub.server.holds topic client then none
  else if publisher = some client ∧ hub.server.hasLoopback topic client = false then none
  else if (hub.connection client).sendsTo then some ⟨client, hub.connection client, frame⟩
  else none

def messageEvent : UInt8 := 1

/-- `session_dispatch_message`. `publishing` is the `publisher_session` field of the channels, by
their address. -/
def dispatch (hub : Hub crypto) (publishing : Nat → Option Nat) (call : MessageCall) :
    List Send :=
  let topic := (CString.copy (maxTopicPath - 1) call.topic).bytes
  let publisher := (hub.server.manager.findByTopic topic).bind fun channel =>
    publishing channel.address
  let frame := Cbor.serialize
    (ClientProtocol.encodeEvent messageEvent topic call.subtopic call.payload)
  hub.server.registry.filterMap (hub.send publisher topic frame)

/-! ### Who is to get a message -/

def Connected (hub : Hub crypto) (client : Nat) : Prop :=
  ∃ kind, client ∈ hub.clients kind

/-- The client is connected and subscribed to the topic, and did not publish the message itself
without loopback. -/
structure Due (hub : Hub crypto) (publisher : Option Nat) (topic : Bytes) (client : Nat) :
    Prop where
  connected : hub.Connected client
  subscribed : hub.server.holds topic client = true
  others : ¬(publisher = some client ∧ hub.server.hasLoopback topic client = false)

/-- The dispatcher sends the message once to every client that is to get it, and to no other. -/
def DeliversOnce (hub : Hub crypto) (publishing : Nat → Option Nat) (channel : Channel crypto)
    (call : MessageCall) : Prop :=
  ∀ client,
    (hub.Due (publishing channel.address) call.topic client →
      ((hub.dispatch publishing call).map (·.client)).count client = 1) ∧
    (¬hub.Due (publishing channel.address) call.topic client →
      ((hub.dispatch publishing call).map (·.client)).count client = 0)

/-- The client is not on WebSocket, and if it is on QUIC its session has a number whose top bit is
clear. -/
structure Addressable (hub : Hub crypto) (client : Nat) : Prop where
  notWs : client ∉ hub.clients .ws
  positive : client ∈ hub.clients .quic → (hub.connection client).sessionId.toNat < 2 ^ 31

def Within (hub : Hub crypto) : HubStep → Prop
  | .accept kind _ => kind.registers = true → hub.server.registry.length < maxSessions
  | _ => True

instance (hub : Hub crypto) : (label : HubStep) → Decidable (hub.Within label)
  | .accept kind _ => inferInstanceAs
      (Decidable (kind.registers = true → hub.server.registry.length < maxSessions))
  | .subscribe _ _ _ => inferInstanceAs (Decidable True)
  | .unsubscribe _ _ => inferInstanceAs (Decidable True)
  | .disconnect _ _ => inferInstanceAs (Decidable True)

/-! ### The registry and the clients -/

/-- The invariant of the runs: every client has the connection its transport made, and the
registered sessions are those of the clients whose transport registers them, each once. -/
structure Wired (hub : Hub crypto) : Prop where
  numbered : ∀ kind, ∀ client ∈ hub.clients kind, client < hub.server.sessions.length
  origin : ∀ kind, ∀ client ∈ hub.clients kind,
    ∃ id fd, hub.connection client = .accepted id fd kind
  nodup : ∀ kind, (hub.clients kind).Nodup
  registered : ∀ client, client ∈ hub.server.registry ↔
    ∃ kind, kind.registers = true ∧ client ∈ hub.clients kind
  nodup_registry : hub.server.registry.Nodup

theorem wired_start (manager : Manager crypto) : (start manager).Wired where
  numbered _ _ hclient := absurd hclient List.not_mem_nil
  origin _ _ hclient := absurd hclient List.not_mem_nil
  nodup _ := List.nodup_nil
  registered _ := iff_of_false List.not_mem_nil fun ⟨_, _, hclient⟩ => List.not_mem_nil hclient
  nodup_registry := List.nodup_nil

variable {hub : Hub crypto} {kind : TransportKind} {client : Nat} {channel : Channel crypto}
  {server : Server crypto}

section

variable (hwired : hub.Wired)

include hwired

theorem Wired.kind_unique {other : TransportKind} (hkind : client ∈ hub.clients kind)
    (hother : client ∈ hub.clients other) : kind = other := by
  obtain ⟨id, fd, hconnection⟩ := hwired.origin kind client hkind
  obtain ⟨id', fd', hconnection'⟩ := hwired.origin other client hother
  exact Connection.kind_unique hconnection hconnection'

theorem Wired.of_server (hlength : server.sessions.length = hub.server.sessions.length)
    (hregistry : server.registry = hub.server.registry) :
    Wired { hub with server := server } where
  numbered kind client hclient := by
    rw [hlength]
    exact hwired.numbered kind client hclient
  origin := hwired.origin
  nodup := hwired.nodup
  registered client := by
    rw [hregistry]
    exact hwired.registered client
  nodup_registry := by
    rw [hregistry]
    exact hwired.nodup_registry

theorem Wired.request {new : Option Session} (manager : Manager crypto) :
    Wired { hub with server := { hub.server.setSession client new with manager := manager } } :=
  hwired.of_server (List.length_set) rfl

theorem Wired.subscribe (client : Nat) (topic : Bytes) (loopback : Bool) :
    Wired { hub with server := (hub.server.subscribe H client topic loopback).2 } := by
  unfold Server.subscribe
  cases hub.server.session client with
  | none => exact hwired
  | some session =>
      dsimp only
      cases session.find topic with
      | some index => exact hwired.request hub.server.manager
      | none =>
          dsimp only
          split_ifs with hroom
          · exact hwired.request _
          · exact hwired

theorem Wired.unsubscribe (client : Nat) (topic : Bytes) :
    Wired { hub with server := (hub.server.unsubscribe H client topic).2 } := by
  unfold Server.unsubscribe
  cases hub.server.session client with
  | none => exact hwired
  | some session =>
      dsimp only
      cases session.find topic with
      | none => exact hwired
      | some index => exact hwired.request _

end

theorem registry_accepting
    (hwithin : kind.registers = true → server.registry.length < maxSessions) :
    (if kind.registers then server.connect else server.openSession).registry =
      if kind.registers then server.registry ++ [server.sessions.length]
      else server.registry := by
  by_cases hregisters : kind.registers = true
  · rw [if_pos hregisters, if_pos hregisters]
    exact if_neg (Nat.not_le_of_lt (hwithin hregisters))
  · rw [if_neg hregisters, if_neg hregisters]
    rfl

theorem mem_registry_accepting
    (hwithin : kind.registers = true → server.registry.length < maxSessions) (client : Nat) :
    client ∈ (if kind.registers then server.connect else server.openSession).registry ↔
      client ∈ server.registry ∨ kind.registers = true ∧ client = server.sessions.length := by
  rw [registry_accepting hwithin]
  by_cases hregisters : kind.registers = true
  · rw [if_pos hregisters, List.mem_append, List.mem_singleton, and_iff_right hregisters]
  · rw [if_neg hregisters]
    exact (or_iff_left fun hnew => hregisters hnew.1).symm

theorem length_sessions_accepting (server : Server crypto) (kind : TransportKind) :
    (if kind.registers then server.connect else server.openSession).sessions.length =
      server.sessions.length + 1 := by
  by_cases hregisters : kind.registers = true
  · rw [if_pos hregisters]
    exact List.length_append
  · rw [if_neg hregisters]
    exact List.length_append

theorem mem_clients_accept (other : TransportKind) (known : Nat) :
    known ∈ update hub.clients kind (hub.clients kind ++ [client]) other ↔
      known ∈ hub.clients other ∨ other = kind ∧ known = client := by
  by_cases hother : other = kind
  · rw [hother, update_self, List.mem_append, List.mem_singleton, and_iff_right rfl]
  · rw [update_of_ne hother]
    exact (or_iff_left fun hnew => hother hnew.1).symm

theorem Wired.accept (hwired : hub.Wired) (fd : Nat)
    (hwithin : kind.registers = true → hub.server.registry.length < maxSessions) :
    (hub.accept kind fd).Wired := by
  have hnew : ∀ other, hub.server.sessions.length ∉ hub.clients other := fun other hmem =>
    Nat.lt_irrefl _ (hwired.numbered other _ hmem)
  have hunknown : hub.server.sessions.length ∉ hub.server.registry := by
    intro hmem
    obtain ⟨other, -, hclient⟩ := (hwired.registered _).mp hmem
    exact hnew other hclient
  unfold Hub.accept
  by_cases hfull : (hub.clients kind).length ≥ kind.maxClients
  · rw [if_pos hfull]
    exact hwired
  rw [if_neg hfull]
  constructor
  case numbered =>
    intro other client hclient
    dsimp only
    rw [length_sessions_accepting]
    obtain hknown | ⟨-, rfl⟩ := (mem_clients_accept other client).mp hclient
    · exact Nat.lt_succ_of_lt (hwired.numbered other client hknown)
    · exact Nat.lt_succ_self _
  case origin =>
    intro other client hclient
    dsimp only
    obtain hknown | ⟨rfl, rfl⟩ := (mem_clients_accept other client).mp hclient
    · have hne : client ≠ hub.server.sessions.length := by
        rintro rfl
        exact hnew other hknown
      rw [update_of_ne hne]
      exact hwired.origin other client hknown
    · rw [update_self]
      exact ⟨_, fd, rfl⟩
  case nodup =>
    intro other
    dsimp only
    by_cases hother : other = kind
    · rw [hother, update_self]
      rw [(List.perm_append_singleton _ _).nodup_iff, List.nodup_cons]
      exact ⟨hnew kind, hwired.nodup kind⟩
    · rw [update_of_ne hother]
      exact hwired.nodup other
  case registered =>
    intro client
    dsimp only
    simp only [mem_clients_accept, mem_registry_accepting hwithin, hwired.registered]
    constructor
    · rintro (⟨other, hother, hclient⟩ | ⟨hregisters, rfl⟩)
      · exact ⟨other, hother, .inl hclient⟩
      · exact ⟨kind, hregisters, .inr ⟨rfl, rfl⟩⟩
    · rintro ⟨other, hother, hclient | ⟨rfl, rfl⟩⟩
      · exact .inl ⟨other, hother, hclient⟩
      · exact .inr ⟨hother, rfl⟩
  case nodup_registry =>
    dsimp only
    rw [registry_accepting hwithin]
    by_cases hregisters : kind.registers = true
    · rw [if_pos hregisters, (List.perm_append_singleton _ _).nodup_iff, List.nodup_cons]
      exact ⟨hunknown, hwired.nodup_registry⟩
    · rw [if_neg hregisters]
      exact hwired.nodup_registry

theorem Wired.mem_clients_disconnect (hwired : hub.Wired) {index : Nat}
    (hindex : (hub.clients kind).findIdx? (· == client) = some index) (other : TransportKind)
    (known : Nat) :
    known ∈ update hub.clients kind (swapRemove (hub.clients kind) index) other ↔
      known ≠ client ∧ known ∈ hub.clients other := by
  have hperm := swapRemove_perm_erase hindex
  by_cases hother : other = kind
  · rw [hother, update_self, hperm.mem_iff]
    exact (hwired.nodup kind).mem_erase_iff
  · rw [update_of_ne hother]
    refine (and_iff_right_of_imp ?_).symm
    rintro hknown rfl
    exact hother (hwired.kind_unique hknown (mem_of_findIdx?_beq hindex))

theorem Wired.registry_leaving (hwired : hub.Wired) (hclient : client ∈ hub.clients kind) :
    (if kind.registers then hub.server.disconnect H client
      else hub.server.setSession client none).registry.Perm
        (hub.server.registry.erase client) := by
  by_cases hregisters : kind.registers = true
  · rw [if_pos hregisters, ← (hub.server.cleanupSubscriptions_frame H client).2]
    exact Server.registry_unregister_perm _ client
  · have hnot : client ∉ hub.server.registry := by
      intro hmem
      obtain ⟨other, hother, hknown⟩ := (hwired.registered client).mp hmem
      exact hregisters (hwired.kind_unique hclient hknown ▸ hother)
    rw [if_neg hregisters, List.erase_of_not_mem hnot]
    rfl

theorem length_sessions_leaving (server : Server crypto) (kind : TransportKind) (client : Nat) :
    (if kind.registers then server.disconnect H client
      else server.setSession client none).sessions.length = server.sessions.length := by
  by_cases hregisters : kind.registers = true
  · rw [if_pos hregisters, Server.disconnect]
    refine List.length_set.trans ?_
    rw [(Server.unregister_frame _ client).1, (server.cleanupSubscriptions_frame H client).1]
  · rw [if_neg hregisters]
    exact List.length_set

theorem Wired.disconnect (hwired : hub.Wired) (kind : TransportKind) (client : Nat) :
    (hub.disconnect H kind client).Wired := by
  unfold Hub.disconnect
  cases hindex : (hub.clients kind).findIdx? (· == client) with
  | none => exact hwired
  | some index =>
      have hclients := hwired.mem_clients_disconnect hindex
      have hregistry := hwired.registry_leaving H (mem_of_findIdx?_beq hindex)
      constructor
      case numbered =>
        intro other known hknown
        dsimp only
        rw [length_sessions_leaving]
        exact hwired.numbered other known ((hclients other known).mp hknown).2
      case origin =>
        intro other known hknown
        exact hwired.origin other known ((hclients other known).mp hknown).2
      case nodup =>
        intro other
        dsimp only
        by_cases hother : other = kind
        · rw [hother, update_self, (swapRemove_perm_erase hindex).nodup_iff]
          exact (hwired.nodup kind).erase client
        · rw [update_of_ne hother]
          exact hwired.nodup other
      case registered =>
        intro known
        simp only [hclients]
        rw [hregistry.mem_iff, hwired.nodup_registry.mem_erase_iff, hwired.registered]
        constructor
        · rintro ⟨hne, other, hother, hknown⟩
          exact ⟨other, hother, hne, hknown⟩
        · rintro ⟨other, hother, hne, hknown⟩
          exact ⟨hne, other, hother, hknown⟩
      case nodup_registry => exact hregistry.nodup_iff.mpr (hwired.nodup_registry.erase client)

theorem Wired.step (hwired : hub.Wired) {label : HubStep} (hwithin : hub.Within label) :
    (hub.step H label).Wired := by
  cases label with
  | accept kind fd => exact hwired.accept fd hwithin
  | subscribe client topic loopback => exact hwired.subscribe H client topic.bytes loopback
  | unsubscribe client topic => exact hwired.unsubscribe H client topic.bytes
  | disconnect kind client => exact hwired.disconnect H kind client

/-! ### What is sent -/

theorem isSome_send_iff (hub : Hub crypto) (publisher : Option Nat) (topic frame : Bytes)
    (client : Nat) :
    (hub.send publisher topic frame client).isSome = true ↔
      hub.server.holds topic client = true ∧
        ¬(publisher = some client ∧ hub.server.hasLoopback topic client = false) ∧
        (hub.connection client).sendsTo = true := by
  unfold send
  split_ifs with hholds hself hsends <;> simp_all

theorem client_send {publisher : Option Nat} {topic frame : Bytes} {sent : Send}
    (hsent : hub.send publisher topic frame client = some sent) : sent.client = client := by
  unfold send at hsent
  split_ifs at hsent
  rw [← Option.some.inj hsent]

theorem clients_sent (hub : Hub crypto) (publisher : Option Nat) (topic frame : Bytes)
    (clients : List Nat) :
    (clients.filterMap (hub.send publisher topic frame)).map (·.client) =
      clients.filter fun client => (hub.send publisher topic frame client).isSome := by
  induction clients with
  | nil => rfl
  | cons client clients ih =>
      cases hsent : hub.send publisher topic frame client with
      | none =>
          rw [List.filterMap_cons_none hsent, ih, List.filter_cons_of_neg]
          rw [hsent]
          exact Bool.false_ne_true
      | some sent =>
          rw [List.filterMap_cons_some hsent, List.map_cons, client_send hsent, ih,
            List.filter_cons_of_pos]
          rw [hsent]
          rfl

theorem topic_dispatched {manager : Manager crypto} {topic : Bytes}
    (hchannel : manager.findByTopic topic = some channel) :
    (CString.copy (maxTopicPath - 1) topic).bytes = topic := by
  obtain rfl := Manager.topic_eq_of_findByTopic hchannel
  apply CString.bytes_copy
  · exact Nat.le_trans (Nat.le_of_lt channel.length_topic_lt) (by decide)
  · exact channel.zero_not_mem_topic

theorem clients_dispatch (publishing : Nat → Option Nat) {call : MessageCall}
    (hchannel : hub.server.manager.findByTopic call.topic = some channel) :
    ∃ frame, (hub.dispatch publishing call).map (·.client) =
      hub.server.registry.filter fun client =>
        (hub.send (publishing channel.address) call.topic frame client).isSome := by
  unfold dispatch
  dsimp only
  rw [topic_dispatched hchannel, hchannel, Option.bind_some]
  exact ⟨_, hub.clients_sent _ _ _ _⟩

theorem Wired.sendsTo_iff (hwired : hub.Wired) (hconnected : hub.Connected client) :
    (hub.connection client).sendsTo = true ↔ hub.Addressable client := by
  obtain ⟨kind, hclient⟩ := hconnected
  obtain ⟨id, fd, hconnection⟩ := hwired.origin kind client hclient
  have hkind : ∀ other, client ∈ hub.clients other ↔ kind = other := fun other =>
    ⟨hwired.kind_unique hclient, fun hother => hother ▸ hclient⟩
  have hid : (hub.connection client).sessionId = id := by
    rw [hconnection]
    cases kind <;> rfl
  rw [hconnection, Connection.sendsTo_accepted]
  constructor
  · rintro ⟨hws, hquic⟩
    refine ⟨fun hmem => hws ((hkind .ws).mp hmem), fun hmem => ?_⟩
    rw [hid]
    exact hquic ((hkind .quic).mp hmem)
  · rintro ⟨hws, hquic⟩
    rw [hid, hkind] at hquic
    exact ⟨fun hkind' => hws ((hkind .ws).mpr hkind'), hquic⟩

theorem Wired.sent_iff (hwired : hub.Wired) (publisher : Option Nat) (topic frame : Bytes)
    (client : Nat) :
    client ∈ hub.server.registry ∧ (hub.send publisher topic frame client).isSome = true ↔
      hub.Due publisher topic client ∧ hub.Addressable client := by
  rw [isSome_send_iff, hwired.registered]
  constructor
  · rintro ⟨⟨kind, -, hclient⟩, hholds, hothers, hsends⟩
    have hconnected : hub.Connected client := ⟨kind, hclient⟩
    exact ⟨⟨hconnected, hholds, hothers⟩, (hwired.sendsTo_iff hconnected).mp hsends⟩
  · rintro ⟨hdue, haddressable⟩
    obtain ⟨kind, hclient⟩ := hdue.connected
    refine ⟨⟨kind, ?_, hclient⟩, hdue.subscribed, hdue.others,
      (hwired.sendsTo_iff hdue.connected).mpr haddressable⟩
    -- only WebSocket does not register
    cases kind with
    | ws => exact absurd hclient haddressable.notWs
    | tcp => rfl
    | unix => rfl
    | quic => rfl

theorem Wired.deliversOnce_iff (hwired : hub.Wired) (publishing : Nat → Option Nat)
    {call : MessageCall} (hchannel : hub.server.manager.findByTopic call.topic = some channel) :
    hub.DeliversOnce publishing channel call ↔
      ∀ client, hub.Due (publishing channel.address) call.topic client →
        hub.Addressable client := by
  obtain ⟨frame, hclients⟩ := clients_dispatch publishing hchannel
  have hmem : ∀ client, client ∈ (hub.dispatch publishing call).map (·.client) ↔
      hub.Due (publishing channel.address) call.topic client ∧ hub.Addressable client := by
    intro client
    rw [hclients, List.mem_filter]
    exact hwired.sent_iff _ _ frame client
  have hnodup : ((hub.dispatch publishing call).map (·.client)).Nodup := by
    rw [hclients]
    exact hwired.nodup_registry.filter _
  constructor
  · intro honce client hdue
    have hcount := (honce client).1 hdue
    have hsent : client ∈ (hub.dispatch publishing call).map (·.client) := by
      apply List.count_pos_iff.mp
      rw [hcount]
      exact Nat.one_pos
    exact ((hmem client).mp hsent).2
  · intro haddressable client
    constructor
    · intro hdue
      exact List.count_eq_one_of_mem hnodup ((hmem client).mpr ⟨hdue, haddressable client hdue⟩)
    · intro hnot
      apply List.count_eq_zero.mpr
      exact fun hsent => hnot ((hmem client).mp hsent).1

/-- **Dispatch.** In every run in which the registry has room for the sessions that the transports
register, a message on the topic of a channel is sent once to every client that is to get it, and
to no other, exactly if none of those clients is on WebSocket or has a QUIC session with a number
from `2 ^ 31` on. -/
theorem deliversOnce_iff_addressable {manager : Manager crypto} {labels : List HubStep}
    (hwithin : Runs.Meets (step H) Within (start manager) labels)
    (publishing : Nat → Option Nat) {channel : Channel crypto} {call : MessageCall}
    (hchannel : (Runs.run (step H) (start manager) labels).server.manager.findByTopic call.topic =
      some channel) :
    (Runs.run (step H) (start manager) labels).DeliversOnce publishing channel call ↔
      ∀ client, (Runs.run (step H) (start manager) labels).Due (publishing channel.address)
        call.topic client → (Runs.run (step H) (start manager) labels).Addressable client := by
  have hwired : (Runs.run (step H) (start manager) labels).Wired :=
    Runs.invariant_of_meets (step H) Wired (fun _ _ hwired hwithin => hwired.step H hwithin)
      (wired_start manager) hwithin
  exact hwired.deliversOnce_iff publishing hchannel

def greeting : MessageCall :=
  ⟨(Manager.topicOf [1]).bytes, [], [104, 105]⟩

/-- A client on each transport; the one on WebSocket is subscribed to another topic. -/
def mixedClients : List HubStep :=
  [.accept .tcp 5, .accept .unix 6, .accept .quic 0, .accept .ws 7,
    .subscribe 0 (Manager.topicOf [1]) false, .subscribe 1 (Manager.topicOf [1]) false,
    .subscribe 2 (Manager.topicOf [1]) true, .subscribe 3 (Manager.topicOf [2]) true]

open Network (byteHash)

/-- Client `0` publishes the message and gets no copy of it. -/
theorem deliversOnce_mixedClients :
    ∃ manager channel, Manager.withChannel = some manager ∧
      (Runs.run (step byteHash) (start manager) mixedClients).server.manager.findByTopic
        greeting.topic = some channel ∧
      ((Runs.run (step byteHash) (start manager) mixedClients).dispatch (fun _ => some 0)
        greeting).map (·.client) = [1, 2] ∧
      (Runs.run (step byteHash) (start manager) mixedClients).DeliversOnce
        (fun _ => some 0) channel greeting := by
  have hany : (Manager.withChannel.any fun manager =>
      let hub := Runs.run (step byteHash) (start manager) mixedClients
      (hub.server.manager.findByTopic greeting.topic).isSome &&
        decide ((hub.dispatch (fun _ => some 0) greeting).map (·.client) = [1, 2]) &&
        decide (∀ client ∈ hub.clients .ws, hub.server.holds greeting.topic client = false) &&
        decide (∀ client ∈ hub.clients .quic,
          (hub.connection client).sessionId.toNat < 2 ^ 31) &&
        decide (Runs.Meets (step byteHash) Within (start manager) mixedClients)) =
      true := by
    decide +kernel
  obtain ⟨manager, hmanager, hany⟩ := (Option.any_eq_true _ _).mp hany
  simp only [Bool.and_eq_true, decide_eq_true_eq] at hany
  obtain ⟨⟨⟨⟨hsome, hsent⟩, hws⟩, hquic⟩, hwithin⟩ := hany
  obtain ⟨channel, hchannel⟩ := Option.isSome_iff_exists.mp hsome
  refine ⟨manager, channel, hmanager, hchannel, hsent, ?_⟩
  refine (deliversOnce_iff_addressable byteHash hwithin _ hchannel).mpr ?_
  intro client hdue
  refine ⟨fun hclient => ?_, hquic client⟩
  exact Bool.false_ne_true ((hws client hclient).symm.trans hdue.subscribed)

def wsSubscriber : List HubStep :=
  [.accept .ws 7, .subscribe 0 (Manager.topicOf [1]) false]

/-- A client on WebSocket is connected and subscribed, and nothing is sent to it. -/
theorem not_deliversOnce_wsSubscriber :
    ∃ manager channel, Manager.withChannel = some manager ∧
      Runs.Meets (step byteHash) Within (start manager) wsSubscriber ∧
      (Runs.run (step byteHash) (start manager) wsSubscriber).server.manager.findByTopic
        greeting.topic = some channel ∧
      ¬(Runs.run (step byteHash) (start manager) wsSubscriber).DeliversOnce
        (fun _ => none) channel greeting := by
  have hany : (Manager.withChannel.any fun manager =>
      let hub := Runs.run (step byteHash) (start manager) wsSubscriber
      (hub.server.manager.findByTopic greeting.topic).isSome &&
        decide (hub.dispatch (fun _ => none) greeting = []) &&
        decide (0 ∈ hub.clients .ws) && hub.server.holds greeting.topic 0 &&
        decide (Runs.Meets (step byteHash) Within (start manager) wsSubscriber)) =
      true := by
    decide +kernel
  obtain ⟨manager, hmanager, hany⟩ := (Option.any_eq_true _ _).mp hany
  simp only [Bool.and_eq_true, decide_eq_true_eq] at hany
  obtain ⟨⟨⟨⟨hsome, hsent⟩, hclient⟩, hholds⟩, hwithin⟩ := hany
  obtain ⟨channel, hchannel⟩ := Option.isSome_iff_exists.mp hsome
  refine ⟨manager, channel, hmanager, hwithin, hchannel, fun honce => ?_⟩
  have hcount := (honce 0).1 ⟨⟨.ws, hclient⟩, hholds, fun hself => by cases hself.1⟩
  rw [hsent] at hcount
  exact Nat.zero_ne_one hcount

end Hub

end Poseidon
