import Mathlib.Logic.Function.Basic
import Poseidon.Cbor.Load
import Poseidon.Lib.Runs

/-!
# The datagram relay

A relay client wraps a payload into a CBOR array with the endpoints of sender and receiver and
sends it to the relay server. The server does not decode CBOR: it takes the first four bytes of
whatever arrives for the receiver's endpoint id, cuts them off and passes on the rest. The first
four bytes of a wrapped payload are the beginning of the array and the same for every payload, and
what is left behind them is no longer an array.

A connection is a handle the transport gives out; datagrams arrive at once and in order.
-/

namespace Poseidon

open Cbor

namespace Relay

def addrRequestType : Nat := 30

def addrResponseType : Nat := 31

def datagramType : Nat := 32

def punchRequestType : Nat := 33

def punchSyncType : Nat := 34

/-- `MERIDIAN_RELAY_MAX_CLIENTS`. -/
def maxClients : Nat := 256

/-- What `RelayConnectionCallback` does with a datagram. Asking an item that is no array whether it
is a definite one reads another kind of memory than it has, and so does taking the bytes of an
item that is no byte string. -/
inductive Reception where
  | ignored
  | undefined
  | addressed (endpoint : UInt32)
  | delivered (payload : Bytes) (source : UInt32)
deriving DecidableEq, Repr

end Relay

open Relay

/-- `meridian_relay_t`; `onDatagram` says whether a datagram callback is registered. -/
structure RelayClient where
  connection : Option Nat
  connected : Bool
  localEndpointId : UInt32
  onDatagram : Bool
deriving DecidableEq, Repr

namespace RelayClient

def create : RelayClient where
  connection := none
  connected := false
  localEndpointId := 0
  onDatagram := false

/-- The datagram of `meridian_relay_send_datagram`. -/
def sendDatagram (client : RelayClient) (data : Bytes) (dest : UInt32) : Option Bytes :=
  if !client.connected then none
  else (buildArray 4 [.uint .w8 datagramType, .uint .w32 client.localEndpointId.toNat,
    .uint .w32 dest.toNat, .bytestring data]).map serialize

/-- The datagram of `meridian_relay_send_addr_request`; the query id is the local endpoint id in
the upper half of 64 bits. -/
def sendAddrRequest (client : RelayClient) : Option Bytes :=
  if !client.connected then none
  else
    let queryId := client.localEndpointId.toNat <<< 32
    (buildArray 3 [.uint .w8 addrRequestType, .uint .w64 (queryId >>> 32),
      .uint .w64 (queryId % 2 ^ 32)]).map serialize

/-- `meridian_addr_response_decode`, of which the client keeps the endpoint id. -/
def decodeAddrResponse (items : List Item) : Option UInt32 :=
  match items with
  | type :: _ :: _ :: _ :: _ :: endpoint :: _ =>
      if type.getUint8 ≠ addrResponseType then none else some (UInt32.ofNat endpoint.getUint32)
  | _ => none

def receiveDatagram (client : RelayClient) (items : List Item) : Reception :=
  match items with
  | _ :: source :: _ :: payload :: _ =>
      match payload.bytestringData with
      | none => .undefined
      | some data =>
          if client.onDatagram then .delivered data (UInt32.ofNat source.getUint32) else .ignored
  | _ => .ignored

/-- `QUIC_CONNECTION_EVENT_DATAGRAM_RECEIVED` at the client. -/
def receive (client : RelayClient) (datagram : Bytes) : Reception :=
  if datagram.isEmpty then .ignored
  else
    match load datagram with
    | none => .ignored
    | some (.arrayIndefinite _) => .ignored
    | some (.array []) => .ignored
    | some (.array (type :: items)) =>
        if type.getUint8 = addrResponseType then
          (decodeAddrResponse (type :: items)).elim .ignored .addressed
        else if type.getUint8 = datagramType then client.receiveDatagram (type :: items)
        else if type.getUint8 = punchRequestType ∨ type.getUint8 = punchSyncType then
          -- the whole datagram goes to the callback, from no endpoint
          if client.onDatagram then .delivered datagram 0 else .ignored
        else .ignored
    | some _ => .undefined

def absorb (client : RelayClient) : Reception → RelayClient
  | .addressed endpoint => { client with localEndpointId := endpoint }
  | _ => client

end RelayClient

/-- `meridian_relay_client_t`; endpoint id 0 marks a free slot. -/
structure RelaySlot where
  endpointId : UInt32
  connection : Option Nat
deriving DecidableEq, Repr

structure RelayServer where
  clients : List RelaySlot
  nextEndpointId : UInt32
deriving DecidableEq, Repr

namespace RelayServer

def create : RelayServer where
  clients := List.replicate maxClients ⟨0, none⟩
  nextEndpointId := 1

/-- `QUIC_LISTENER_EVENT_NEW_CONNECTION`; `none` refuses the connection. -/
def newConnection (server : RelayServer) (connection : Nat) : Option RelayServer :=
  (server.clients.findIdx? (·.endpointId == 0)).map fun slot =>
    { clients := server.clients.set slot ⟨server.nextEndpointId, some connection⟩
      nextEndpointId := server.nextEndpointId + 1 }

/-- `QUIC_CONNECTION_EVENT_SHUTDOWN_COMPLETE` at the server. -/
def shutdownComplete (server : RelayServer) (connection : Nat) : RelayServer :=
  match server.clients.findIdx? (·.connection == some connection) with
  | none => server
  | some slot => { server with clients := server.clients.set slot ⟨0, none⟩ }

/-- `QUIC_CONNECTION_EVENT_DATAGRAM_RECEIVED` at the server: the connection a datagram is passed on
to, and what is passed on. -/
def route (server : RelayServer) (datagram : Bytes) : Option (Nat × Bytes) :=
  if datagram.length < 4 then none
  else
    match server.clients.find? fun slot =>
        slot.endpointId == UInt32.ofNat (leNat (datagram.take 4)) with
    | none => none
    | some slot => slot.connection.map fun connection => (connection, datagram.drop 4)

end RelayServer

/-- A relay server and its clients. `owner` lists the client of every connection opened so far. -/
structure RelayNetwork where
  server : RelayServer
  clients : Nat → RelayClient
  owner : List Nat

namespace RelayNetwork

inductive Event where
  | connect (client : Nat)
  | disconnect (client : Nat)
  | onDatagram (client : Nat)
  | sendAddrRequest (client : Nat)
  | sendDatagram (client : Nat) (data : Bytes) (dest : UInt32)
deriving DecidableEq, Repr

def start : RelayNetwork where
  server := .create
  clients := fun _ => .create
  owner := []

/-- The client that receives something when `datagram` reaches the server, and how it takes it. -/
def reception (net : RelayNetwork) (datagram : Bytes) : Option (Nat × Reception) :=
  match net.server.route datagram with
  | none => none
  | some (connection, forwarded) =>
      net.owner[connection]?.map fun client => (client, (net.clients client).receive forwarded)

def setClient (net : RelayNetwork) (client : Nat) (value : RelayClient) : RelayNetwork :=
  { net with clients := Function.update net.clients client value }

@[simp]
theorem clients_setClient (net : RelayNetwork) (client : Nat) (value : RelayClient) :
    (net.setClient client value).clients = Function.update net.clients client value := rfl

def transmit (net : RelayNetwork) (datagram : Option Bytes) : RelayNetwork :=
  match datagram.bind net.reception with
  | none => net
  | some (client, received) => net.setClient client ((net.clients client).absorb received)

/-- `meridian_relay_connect` and the events that follow it; the client asks for its address as soon
as the connection stands. -/
def connect (net : RelayNetwork) (client : Nat) : RelayNetwork :=
  if (net.clients client).connected then net
  else
    match net.server.newConnection net.owner.length with
    | none => net
    | some server =>
        let opened := { net.clients client with
          connection := some net.owner.length, connected := true }
        ({ net with server := server, owner := net.owner ++ [client] }.setClient client
          opened).transmit opened.sendAddrRequest

def disconnect (net : RelayNetwork) (client : Nat) : RelayNetwork :=
  match (net.clients client).connection with
  | none => net
  | some connection =>
      { net with server := net.server.shutdownComplete connection }.setClient client
        { net.clients client with connection := none, connected := false }

def step (net : RelayNetwork) : Event → RelayNetwork
  | .connect client => net.connect client
  | .disconnect client => net.disconnect client
  | .onDatagram client => net.setClient client { net.clients client with onDatagram := true }
  | .sendAddrRequest client => net.transmit (net.clients client).sendAddrRequest
  | .sendDatagram client data dest => net.transmit ((net.clients client).sendDatagram data dest)

end RelayNetwork

/-! ### What the server leaves of a datagram -/

/-- Without its first four bytes the datagram begins with a zero. -/
def Beheaded (datagram : Bytes) : Prop :=
  ∃ rest, datagram.drop 4 = 0 :: rest

namespace RelayClient

theorem receive_zero_cons (client : RelayClient) (rest : Bytes) :
    client.receive (0 :: rest) = .undefined := rfl

theorem beheaded_sendDatagram {client : RelayClient} (hlocal : client.localEndpointId = 0)
    {data : Bytes} {dest : UInt32} {datagram : Bytes}
    (hdatagram : client.sendDatagram data dest = some datagram) : Beheaded datagram := by
  unfold sendDatagram at hdatagram
  split_ifs at hdatagram
  rw [hlocal, buildArray_eq] at hdatagram
  obtain rfl := Option.some.inj hdatagram
  exact ⟨_, rfl⟩

theorem beheaded_sendAddrRequest {client : RelayClient} (hlocal : client.localEndpointId = 0)
    {datagram : Bytes} (hdatagram : client.sendAddrRequest = some datagram) :
    Beheaded datagram := by
  unfold sendAddrRequest at hdatagram
  dsimp only at hdatagram
  split_ifs at hdatagram
  rw [hlocal, buildArray_eq] at hdatagram
  obtain rfl := Option.some.inj hdatagram
  exact ⟨_, rfl⟩

end RelayClient

theorem RelayServer.forwarded_eq_drop {server : RelayServer} {datagram forwarded : Bytes}
    {connection : Nat} (hroute : server.route datagram = some (connection, forwarded)) :
    forwarded = datagram.drop 4 := by
  unfold route at hroute
  split_ifs at hroute
  split at hroute
  · exact absurd hroute (Option.some_ne_none _).symm
  · obtain ⟨found, -, hfound⟩ := Option.map_eq_some_iff.mp hroute
    exact (Prod.mk.inj hfound).2.symm

namespace RelayNetwork

/-- No client knows its endpoint id. -/
def Unaddressed (net : RelayNetwork) : Prop :=
  ∀ client, (net.clients client).localEndpointId = 0

theorem reception_of_beheaded (net : RelayNetwork) {datagram : Bytes}
    (hdatagram : Beheaded datagram) {receiver : Nat} {received : Reception}
    (hreception : net.reception datagram = some (receiver, received)) :
    received = .undefined := by
  obtain ⟨rest, hrest⟩ := hdatagram
  unfold reception at hreception
  cases hroute : net.server.route datagram with
  | none =>
      rw [hroute] at hreception
      exact absurd hreception (Option.some_ne_none _).symm
  | some routed =>
      obtain ⟨connection, forwarded⟩ := routed
      obtain rfl := RelayServer.forwarded_eq_drop hroute
      rw [hroute] at hreception
      obtain ⟨client, -, hclient⟩ := Option.map_eq_some_iff.mp hreception
      rw [← (Prod.mk.inj hclient).2, hrest, RelayClient.receive_zero_cons]

theorem transmit_of_beheaded (net : RelayNetwork) {datagram : Option Bytes}
    (hdatagram : ∀ bytes, datagram = some bytes → Beheaded bytes) :
    net.transmit datagram = net := by
  unfold transmit
  cases hreception : datagram.bind net.reception with
  | none => rfl
  | some found =>
      obtain ⟨receiver, received⟩ := found
      obtain ⟨bytes, hbytes, hreceived⟩ := Option.bind_eq_some_iff.mp hreception
      obtain rfl := net.reception_of_beheaded (hdatagram bytes hbytes) hreceived
      simp only [RelayClient.absorb, setClient, Function.update_eq_self]

variable {net : RelayNetwork}

theorem Unaddressed.transmit (hnet : net.Unaddressed) {datagram : Option Bytes}
    (hdatagram : ∀ bytes, datagram = some bytes → Beheaded bytes) :
    (net.transmit datagram).Unaddressed := by
  rw [net.transmit_of_beheaded hdatagram]
  exact hnet

theorem Unaddressed.setClient (hnet : net.Unaddressed) (client : Nat) {value : RelayClient}
    (hvalue : value.localEndpointId = 0) : (net.setClient client value).Unaddressed := by
  intro other
  by_cases hother : other = client
  · subst hother
    rw [clients_setClient, Function.update_self]
    exact hvalue
  · rw [clients_setClient, Function.update_of_ne hother]
    exact hnet other

theorem Unaddressed.step (hnet : net.Unaddressed) (event : Event) :
    (net.step event).Unaddressed := by
  cases event with
  | connect client =>
      simp only [RelayNetwork.step, connect]
      split_ifs
      · exact hnet
      · cases net.server.newConnection net.owner.length with
        | none => exact hnet
        | some server =>
            refine Unaddressed.transmit ?_ fun bytes hbytes => ?_
            · exact Unaddressed.setClient hnet client (hnet client)
            · refine RelayClient.beheaded_sendAddrRequest ?_ hbytes
              exact hnet client
  | disconnect client =>
      simp only [RelayNetwork.step, disconnect]
      cases (net.clients client).connection with
      | none => exact hnet
      | some connection => exact Unaddressed.setClient hnet client (hnet client)
  | onDatagram client => exact Unaddressed.setClient hnet client (hnet client)
  | sendAddrRequest client =>
      exact hnet.transmit fun bytes => RelayClient.beheaded_sendAddrRequest (hnet client)
  | sendDatagram client data dest =>
      exact hnet.transmit fun bytes => RelayClient.beheaded_sendDatagram (hnet client)

theorem unaddressed_run (events : List Event) : (Runs.run step start events).Unaddressed :=
  Runs.invariant step Unaddressed (fun _ event hnet => hnet.step event) fun _ => rfl

/-! ### End to end -/

def endpointOf (net : RelayNetwork) (client : Nat) : Option UInt32 :=
  (net.clients client).connection.bind fun connection =>
    (net.server.clients.find? (·.connection == some connection)).map RelaySlot.endpointId

/-- What sending a payload to an endpoint should do: the callback of the client with that endpoint
is called with the payload and the endpoint of the sender, and no other. -/
def Delivers (net : RelayNetwork) (sender : Nat) (data : Bytes) (dest : UInt32) : Prop :=
  ∃ receiver source, net.endpointOf receiver = some dest ∧ net.endpointOf sender = some source ∧
    ((net.clients sender).sendDatagram data dest).bind net.reception =
      some (receiver, .delivered data source)

/-- **Relay.** In no run does a datagram reach a callback: the server drops it, or passes on bytes
that do not begin with an array. -/
theorem relay_never_delivers (events : List Event) (sender : Nat) (data : Bytes) (dest : UInt32) :
    let net := Runs.run step start events
    ¬net.Delivers sender data dest ∧
      ∀ receiver received, ((net.clients sender).sendDatagram data dest).bind net.reception =
        some (receiver, received) → received = .undefined := by
  intro net
  have hundefined : ∀ receiver received,
      ((net.clients sender).sendDatagram data dest).bind net.reception =
        some (receiver, received) → received = .undefined := by
    intro receiver received hreception
    obtain ⟨datagram, hdatagram, hreceived⟩ := Option.bind_eq_some_iff.mp hreception
    exact net.reception_of_beheaded
      (RelayClient.beheaded_sendDatagram (unaddressed_run events sender) hdatagram) hreceived
  refine ⟨?_, hundefined⟩
  rintro ⟨receiver, source, -, -, hdelivered⟩
  exact Reception.noConfusion (hundefined receiver _ hdelivered)

def twoClients : RelayNetwork :=
  Runs.run step start [.connect 0, .connect 1, .onDatagram 0, .onDatagram 1]

/-- The second client has the endpoint 2. A payload sent to it is dropped by the server, which
looks for the endpoint `0x1A201884`. -/
theorem relay_drops_datagram :
    twoClients.endpointOf 0 = some 1 ∧ twoClients.endpointOf 1 = some 2 ∧
    ((twoClients.clients 0).sendDatagram [7] 2).map (fun datagram => leNat (datagram.take 4)) =
      some 0x1A201884 ∧
    ((twoClients.clients 0).sendDatagram [7] 2).bind twoClients.reception = none ∧
    ¬twoClients.Delivers 0 [7] 2 := by
  have hnone : ((twoClients.clients 0).sendDatagram [7] 2).bind twoClients.reception = none := by
    decide +kernel
  refine ⟨by decide +kernel, by decide +kernel, by decide +kernel, hnone, ?_⟩
  rintro ⟨receiver, source, -, -, hdelivered⟩
  rw [hnone] at hdelivered
  exact (Option.some_ne_none _).symm hdelivered

end RelayNetwork

end Poseidon
