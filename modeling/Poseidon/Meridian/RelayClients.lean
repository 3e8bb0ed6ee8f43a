import Poseidon.Lib.Tables
import Poseidon.Meridian.Relay

/-!
# The clients of the relay server

The server gives each connection it accepts a slot and an endpoint id from a counter. It looks for a
free slot by the id zero, for the slot of a connection that ends by its handle, and for the receiver
of a datagram by its id. `RelayHistory` keeps beside the server what its clients know: the ids given
out and the connections that were accepted and have not ended.
-/

namespace Poseidon

open Relay

/-- `meridian_relay_server_t` with its count of clients. -/
structure RelayRegistry extends RelayServer where
  numClients : UInt64
deriving DecidableEq, Repr

namespace RelayRegistry

def create : RelayRegistry :=
  ⟨.create, 0⟩

/-- `RelayServerListenerCallback` for a new connection; `configured` is the outcome of
`ConnectionSetConfiguration`, and `none` refuses the connection. -/
def newConnection (registry : RelayRegistry) (connection : Nat) (configured : Bool) :
    Option RelayRegistry :=
  if configured then
    (registry.toRelayServer.newConnection connection).map fun server =>
      ⟨server, registry.numClients + 1⟩
  else none

/-- `RelayServerConnectionCallback` for the end of a connection. -/
def shutdownComplete (registry : RelayRegistry) (connection : Nat) : RelayRegistry :=
  match registry.clients.findIdx? (·.connection == some connection) with
  | none => registry
  | some _ => ⟨registry.toRelayServer.shutdownComplete connection, registry.numClients - 1⟩

end RelayRegistry

inductive RelayEvent where
  | newConnection (connection : Nat) (configured : Bool)
  | shutdownComplete (connection : Nat)
  | datagram (data : Bytes)
deriving DecidableEq, Repr

structure RelayHistory where
  registry : RelayRegistry
  assigned : List UInt32
  live : List Nat
deriving DecidableEq, Repr

namespace RelayHistory

def start : RelayHistory :=
  ⟨.create, [], []⟩

/-- A datagram is routed and changes nothing. -/
def step (history : RelayHistory) : RelayEvent → RelayHistory
  | .newConnection connection configured =>
      match history.registry.newConnection connection configured with
      | none => history
      | some registry =>
          ⟨registry, history.assigned ++ [history.registry.nextEndpointId],
            connection :: history.live⟩
  | .shutdownComplete connection =>
      ⟨history.registry.shutdownComplete connection, history.assigned,
        history.live.erase connection⟩
  | .datagram _ => history

end RelayHistory

/-! ### Slots -/

namespace RelaySlot

def occupied (slot : RelaySlot) : Bool :=
  slot.endpointId != 0

end RelaySlot

def liveIds (clients : List RelaySlot) : List UInt32 :=
  (clients.filter RelaySlot.occupied).map RelaySlot.endpointId

theorem liveIds_append (front back : List RelaySlot) :
    liveIds (front ++ back) = liveIds front ++ liveIds back := by
  rw [liveIds, List.filter_append, List.map_append]
  rfl

theorem liveIds_cons_of_occupied {slot : RelaySlot} (hslot : slot.occupied = true)
    (clients : List RelaySlot) :
    liveIds (slot :: clients) = slot.endpointId :: liveIds clients := by
  rw [liveIds, List.filter_cons_of_pos hslot, List.map_cons]
  rfl

theorem liveIds_cons_of_free {slot : RelaySlot} (hslot : slot.occupied = false)
    (clients : List RelaySlot) : liveIds (slot :: clients) = liveIds clients := by
  rw [liveIds, List.filter_cons_of_neg (by simp [hslot])]
  rfl

theorem mem_liveIds {clients : List RelaySlot} {id : UInt32} :
    id ∈ liveIds clients ↔ id ≠ 0 ∧ ∃ slot ∈ clients, slot.endpointId = id := by
  simp only [liveIds, List.mem_map, List.mem_filter, RelaySlot.occupied, bne_iff_ne]
  constructor
  · rintro ⟨slot, ⟨hslot, hne⟩, rfl⟩
    exact ⟨hne, slot, hslot, rfl⟩
  · rintro ⟨hne, slot, hslot, rfl⟩
    exact ⟨slot, ⟨hslot, hne⟩, rfl⟩

namespace RelayRegistry

/-- What holds of the slots, the count and the counter, whatever connections came and went. -/
structure Consistent (registry : RelayRegistry) (assigned : List UInt32) (live : List Nat) :
    Prop where
  length_clients : registry.clients.length = maxClients
  free_iff : ∀ slot ∈ registry.clients, slot.endpointId = 0 ↔ slot.connection = none
  nodup_liveIds : (liveIds registry.clients).Nodup
  liveIds_subset : ∀ id ∈ liveIds registry.clients, id ∈ assigned
  numClients_eq : registry.numClients.toNat = registry.clients.countP RelaySlot.occupied
  next_eq : registry.nextEndpointId.toNat = assigned.length + 1
  assigned_le : ∀ id ∈ assigned, 0 < id.toNat ∧ id.toNat ≤ assigned.length
  nodup_assigned : assigned.Nodup
  connections_perm : (registry.clients.filterMap RelaySlot.connection).Perm live

theorem consistent_create : create.Consistent [] [] := by
  have hslot : ∀ slot ∈ create.clients, slot = ⟨0, none⟩ :=
    fun slot hslot => List.eq_of_mem_replicate hslot
  have hfilter : create.clients.filter RelaySlot.occupied = [] := by
    rw [List.filter_eq_nil_iff]
    intro slot hmem
    rw [hslot slot hmem]
    decide
  refine ⟨List.length_replicate, fun slot hmem => ?_, ?_, ?_, ?_, rfl, ?_, List.nodup_nil, ?_⟩
  · rw [hslot slot hmem]
    exact iff_of_true rfl rfl
  · rw [liveIds, hfilter]
    exact List.nodup_nil
  · rw [liveIds, hfilter]
    simp
  · rw [List.countP_eq_length_filter, hfilter]
    rfl
  · simp
  · rw [List.filterMap_eq_nil_iff.mpr fun slot hmem => by rw [hslot slot hmem]]

section Events

variable {registry next : RelayRegistry} {assigned : List UInt32} {live : List Nat}
  {connection : Nat}

theorem exists_of_newConnection {configured : Bool}
    (haccept : registry.newConnection connection configured = some next) :
    ∃ front slot back, registry.clients = front ++ slot :: back ∧ slot.endpointId = 0 ∧
      next = ⟨⟨front ++ ⟨registry.nextEndpointId, some connection⟩ :: back,
        registry.nextEndpointId + 1⟩, registry.numClients + 1⟩ := by
  unfold newConnection at haccept
  split_ifs at haccept
  obtain ⟨server, hserver, rfl⟩ := Option.map_eq_some_iff.mp haccept
  obtain ⟨index, hindex, rfl⟩ := Option.map_eq_some_iff.mp hserver
  obtain ⟨hlength, hfree, -⟩ := List.findIdx?_eq_some_iff_getElem.mp hindex
  obtain ⟨front, back, hsplit, hset⟩ :=
    exists_split_of_getElem? (List.getElem?_eq_getElem hlength)
  exact ⟨front, _, back, hsplit, beq_iff_eq.mp hfree, by rw [hset]⟩

theorem shutdownComplete_cases (registry : RelayRegistry) (connection : Nat) :
    (registry.shutdownComplete connection = registry ∧
      ∀ slot ∈ registry.clients, slot.connection ≠ some connection) ∨
    ∃ front slot back, registry.clients = front ++ slot :: back ∧
      slot.connection = some connection ∧
      registry.shutdownComplete connection =
        ⟨⟨front ++ ⟨0, none⟩ :: back, registry.nextEndpointId⟩, registry.numClients - 1⟩ := by
  unfold shutdownComplete RelayServer.shutdownComplete
  cases hindex : registry.clients.findIdx? (·.connection == some connection) with
  | none =>
      refine Or.inl ⟨rfl, fun slot hslot hconnection => ?_⟩
      have hne := List.findIdx?_eq_none_iff.mp hindex slot hslot
      rw [hconnection] at hne
      simp at hne
  | some index =>
      obtain ⟨hlength, hconnection, -⟩ := List.findIdx?_eq_some_iff_getElem.mp hindex
      obtain ⟨front, back, hsplit, hset⟩ :=
        exists_split_of_getElem? (List.getElem?_eq_getElem hlength)
      refine Or.inr ⟨front, _, back, hsplit, beq_iff_eq.mp hconnection, ?_⟩
      dsimp only
      rw [hset]

section

variable (hregistry : registry.Consistent assigned live)

include hregistry

theorem Consistent.next_ne_zero : registry.nextEndpointId ≠ 0 := by
  intro hzero
  have hnext := hregistry.next_eq
  rw [hzero] at hnext
  exact absurd hnext (Nat.zero_ne_add_one _)

theorem Consistent.next_not_mem : registry.nextEndpointId ∉ assigned := by
  intro hmem
  have hnext := hregistry.next_eq
  have hle := (hregistry.assigned_le _ hmem).2
  omega

theorem Consistent.toNat_next_add_one (hfew : assigned.length + 1 < 2 ^ 32 - 1) :
    (registry.nextEndpointId + 1).toNat = assigned.length + 2 := by
  have hone : (1 : UInt32).toNat = 1 := rfl
  rw [UInt32.toNat_add, hregistry.next_eq, hone, Nat.mod_eq_of_lt (by omega)]

theorem Consistent.toNat_numClients_add_one :
    (registry.numClients + 1).toNat = registry.clients.countP RelaySlot.occupied + 1 := by
  have hbound : registry.clients.countP RelaySlot.occupied ≤ maxClients :=
    List.countP_le_length.trans_eq hregistry.length_clients
  have hone : (1 : UInt64).toNat = 1 := rfl
  unfold maxClients at hbound
  rw [UInt64.toNat_add, hregistry.numClients_eq, hone, Nat.mod_eq_of_lt (by omega)]

theorem Consistent.newConnection (hfew : assigned.length + 1 < 2 ^ 32 - 1) {configured : Bool}
    (haccept : registry.newConnection connection configured = some next) :
    next.Consistent (assigned ++ [registry.nextEndpointId]) (connection :: live) := by
  obtain ⟨front, slot, back, hsplit, hfree, rfl⟩ := exists_of_newConnection haccept
  have hnonzero := hregistry.next_ne_zero
  have hoccupied : (⟨registry.nextEndpointId, some connection⟩ : RelaySlot).occupied = true := by
    simpa [RelaySlot.occupied] using hnonzero
  have hunoccupied : slot.occupied = false := by
    simp [RelaySlot.occupied, hfree]
  have hfreeIff := hregistry.free_iff
  have hlength := hregistry.length_clients
  have hids := hregistry.nodup_liveIds
  have hsubset := hregistry.liveIds_subset
  have hcount := hregistry.toNat_numClients_add_one
  have hperm := hregistry.connections_perm
  rw [hsplit] at hfreeIff
  have hconnection : slot.connection = none := (hfreeIff slot (by simp)).mp hfree
  rw [hsplit, liveIds_append, liveIds_cons_of_free hunoccupied] at hids hsubset
  have hliveIds : liveIds (front ++ ⟨registry.nextEndpointId, some connection⟩ :: back) =
      liveIds front ++ registry.nextEndpointId :: liveIds back := by
    rw [liveIds_append, liveIds_cons_of_occupied hoccupied]
  constructor
  · rw [← hlength, hsplit, List.length_append, List.length_append]
    rfl
  · exact forall_mem_middle hfreeIff (iff_of_false hnonzero (by simp))
  · rw [hliveIds, List.nodup_middle, List.nodup_cons]
    exact ⟨fun hmem => hregistry.next_not_mem (hsubset _ hmem), hids⟩
  · intro id hid
    rw [hliveIds, List.perm_middle.mem_iff, List.mem_cons] at hid
    obtain rfl | hid := hid
    · exact List.mem_append_right _ (List.mem_singleton_self _)
    · exact List.mem_append_left _ (hsubset id hid)
  · rw [hsplit, List.countP_append, List.countP_cons_of_neg (by simp [hunoccupied])] at hcount
    rw [hcount, List.countP_append, List.countP_cons_of_pos hoccupied, Nat.add_assoc]
  · rw [hregistry.toNat_next_add_one hfew, List.length_append, List.length_singleton]
  · intro id hid
    rw [List.length_append, List.length_singleton]
    obtain hid | hid := List.mem_append.mp hid
    · have hle := hregistry.assigned_le id hid
      omega
    · rw [List.mem_singleton.mp hid, hregistry.next_eq]
      omega
  · rw [← List.concat_eq_append, List.nodup_concat]
    exact ⟨hregistry.next_not_mem, hregistry.nodup_assigned⟩
  · rw [hsplit, List.filterMap_append, List.filterMap_cons_none hconnection] at hperm
    rw [List.filterMap_append, List.filterMap_cons]
    exact List.perm_middle.trans (hperm.cons connection)

theorem Consistent.shutdownComplete (connection : Nat) :
    (registry.shutdownComplete connection).Consistent assigned (live.erase connection) := by
  have hperm := hregistry.connections_perm
  obtain ⟨hsame, habsent⟩ | ⟨front, slot, back, hsplit, hconnection, heq⟩ :=
    registry.shutdownComplete_cases connection
  · have hnot : connection ∉ live := by
      intro hmem
      obtain ⟨slot, hslot, hsome⟩ := List.mem_filterMap.mp (hperm.mem_iff.mpr hmem)
      exact habsent slot hslot hsome
    rw [hsame, List.erase_of_not_mem hnot]
    exact hregistry
  · have hfreeIff := hregistry.free_iff
    rw [hsplit] at hfreeIff
    have hoccupied : slot.occupied = true := by
      have hne := mt (hfreeIff slot (by simp)).mp (by simp [hconnection])
      simpa [RelaySlot.occupied] using hne
    have hlength := hregistry.length_clients
    have hids := hregistry.nodup_liveIds
    have hsubset := hregistry.liveIds_subset
    have hcount := hregistry.numClients_eq
    have hfree : (⟨0, none⟩ : RelaySlot).occupied = false := rfl
    rw [hsplit, liveIds_append, liveIds_cons_of_occupied hoccupied] at hids hsubset
    have hliveIds : liveIds (front ++ ⟨0, none⟩ :: back) = liveIds front ++ liveIds back := by
      rw [liveIds_append, liveIds_cons_of_free hfree]
    rw [heq]
    refine ⟨?_, forall_mem_middle hfreeIff (iff_of_true rfl rfl), ?_, fun id hid => ?_, ?_,
      hregistry.next_eq, hregistry.assigned_le, hregistry.nodup_assigned, ?_⟩
    · rw [← hlength, hsplit, List.length_append, List.length_append]
      rfl
    · rw [hliveIds]
      exact (List.nodup_cons.mp (List.nodup_middle.mp hids)).2
    · rw [hliveIds] at hid
      exact hsubset id (List.perm_middle.mem_iff.mpr (List.mem_cons_of_mem _ hid))
    · rw [hsplit, List.countP_append, List.countP_cons_of_pos hoccupied] at hcount
      have hpositive : 1 ≤ registry.numClients := by
        rw [UInt64.le_iff_toNat_le, hcount]
        exact Nat.le_add_left 1 _
      rw [List.countP_append, List.countP_cons_of_neg (by simp [hfree]),
        UInt64.toNat_sub_of_le _ _ hpositive, hcount]
      exact Nat.add_sub_cancel _ 1
    · rw [hsplit, List.filterMap_append, List.filterMap_cons_some hconnection] at hperm
      rw [List.filterMap_append, List.filterMap_cons_none rfl]
      have herase := (List.perm_middle.symm.trans hperm).erase connection
      rwa [List.erase_cons_head] at herase

end

def destination (datagram : Bytes) : UInt32 :=
  UInt32.ofNat (leNat (datagram.take 4))

/-- **Routing.** A datagram goes to the one live client that has its destination. -/
theorem Consistent.route_eq_some_iff (hregistry : registry.Consistent assigned live)
    {datagram forwarded : Bytes} :
    registry.route datagram = some (connection, forwarded) ↔
      4 ≤ datagram.length ∧ forwarded = datagram.drop 4 ∧
        ∃ slot ∈ registry.clients, slot.endpointId = destination datagram ∧
          slot.connection = some connection := by
  unfold RelayServer.route
  by_cases hshort : datagram.length < 4
  · rw [if_pos hshort]
    exact iff_of_false (by simp) fun hall => absurd hall.1 (Nat.not_le_of_lt hshort)
  · rw [if_neg hshort, and_iff_right (Nat.le_of_not_lt hshort)]
    have hdestination : UInt32.ofNat (leNat (datagram.take 4)) = destination datagram := rfl
    simp only [hdestination]
    cases hfind : registry.clients.find? fun slot => slot.endpointId == destination datagram with
    | none =>
        refine iff_of_false (by simp) ?_
        rintro ⟨-, slot, hslot, hid, -⟩
        exact List.find?_eq_none.mp hfind slot hslot (beq_iff_eq.mpr hid)
    | some found =>
        have hfound := List.mem_of_find?_eq_some hfind
        have hfoundId : found.endpointId = destination datagram := by
          simpa using List.find?_some hfind
        rw [Option.map_eq_some_iff]
        constructor
        · rintro ⟨_, hconnection, heq⟩
          obtain ⟨rfl, rfl⟩ := Prod.mk.inj heq
          exact ⟨rfl, found, hfound, hfoundId, hconnection⟩
        · rintro ⟨rfl, slot, hslot, hid, hconnection⟩
          have hoccupied : slot.occupied = true := by
            have hne := mt (hregistry.free_iff slot hslot).mp (by simp [hconnection])
            simpa [RelaySlot.occupied] using hne
          have hsame : slot.endpointId = found.endpointId := hid.trans hfoundId.symm
          have hfoundOccupied : found.occupied = true := by
            rwa [RelaySlot.occupied, ← hsame]
          have heq : slot = found := List.inj_on_of_nodup_map hregistry.nodup_liveIds
            (List.mem_filter.mpr ⟨hslot, hoccupied⟩)
            (List.mem_filter.mpr ⟨hfound, hfoundOccupied⟩) hsame
          exact ⟨connection, heq ▸ hconnection, rfl⟩

end Events

end RelayRegistry

namespace RelayHistory

theorem length_assigned_le_step (history : RelayHistory) (event : RelayEvent) :
    history.assigned.length ≤ (history.step event).assigned.length := by
  cases event with
  | newConnection connection configured =>
      unfold step
      dsimp only
      split
      · exact Nat.le_refl _
      · simp
  | shutdownComplete => exact Nat.le_refl _
  | datagram => exact Nat.le_refl _

/-- As long as the ids do not run out, everything stays consistent. -/
def Sound (history : RelayHistory) : Prop :=
  history.assigned.length < 2 ^ 32 - 1 →
    history.registry.Consistent history.assigned history.live

theorem Sound.step {history : RelayHistory} (hsound : history.Sound) (event : RelayEvent) :
    (history.step event).Sound := by
  intro hfew
  have hbefore := hsound ((history.length_assigned_le_step event).trans_lt hfew)
  cases event with
  | newConnection connection configured =>
      unfold RelayHistory.step at hfew ⊢
      dsimp only at hfew ⊢
      cases haccept : history.registry.newConnection connection configured with
      | none => exact hbefore
      | some next =>
          rw [haccept] at hfew
          simp only [List.length_append, List.length_singleton] at hfew
          exact hbefore.newConnection hfew haccept
  | shutdownComplete connection => exact hbefore.shutdownComplete connection
  | datagram data => exact hbefore

/-- **The clients of the relay.** Behind any events in which fewer than `2 ^ 32 - 1` connections
were accepted: no id was given out twice; the live clients, which are the connections accepted and
not ended, have ids that were given out, are not zero and differ; the server counts the occupied
slots, of which there are at most 256; and a datagram is forwarded exactly to the live client that
has its destination. -/
theorem relay_bookkeeping (events : List RelayEvent)
    (hfew : (Runs.run step start events).assigned.length < 2 ^ 32 - 1) :
    let history := Runs.run step start events
    let clients := history.registry.clients
    history.assigned.Nodup ∧
      (clients.filterMap RelaySlot.connection).Perm history.live ∧
      (∀ slot ∈ clients, slot.connection.isSome = true →
        slot.endpointId ≠ 0 ∧ slot.endpointId ∈ history.assigned) ∧
      ((clients.filter fun slot => slot.connection.isSome).map RelaySlot.endpointId).Nodup ∧
      history.registry.numClients.toNat = clients.countP (·.connection.isSome) ∧
      clients.countP (·.connection.isSome) ≤ 256 ∧
      ∀ datagram connection forwarded,
        history.registry.route datagram = some (connection, forwarded) ↔
          4 ≤ datagram.length ∧ forwarded = datagram.drop 4 ∧
            ∃ slot ∈ clients, slot.endpointId = RelayRegistry.destination datagram ∧
              slot.connection = some connection := by
  intro history clients
  have hconsistent : history.registry.Consistent history.assigned history.live := by
    refine Runs.invariant step Sound (fun _ event hsound => hsound.step event) ?_ hfew
    exact fun _ => RelayRegistry.consistent_create
  have hlive : ∀ slot ∈ clients, slot.connection.isSome = slot.occupied := by
    intro slot hslot
    have hfree := hconsistent.free_iff slot hslot
    rw [RelaySlot.occupied, Bool.eq_iff_iff, Option.isSome_iff_ne_none, bne_iff_ne, ne_eq, ne_eq,
      hfree]
  have hcount : clients.countP (·.connection.isSome) = clients.countP RelaySlot.occupied :=
    List.countP_congr fun slot hslot => by rw [hlive slot hslot]
  refine ⟨hconsistent.nodup_assigned, hconsistent.connections_perm, fun slot hslot hsome => ?_, ?_,
    hcount ▸ hconsistent.numClients_eq, ?_, fun _ _ _ => hconsistent.route_eq_some_iff⟩
  · rw [hlive slot hslot, RelaySlot.occupied, bne_iff_ne] at hsome
    exact ⟨hsome, hconsistent.liveIds_subset _ (mem_liveIds.mpr ⟨hsome, slot, hslot, rfl⟩)⟩
  · rw [List.filter_congr hlive]
    exact hconsistent.nodup_liveIds
  · exact List.countP_le_length.trans_eq hconsistent.length_clients

def comingAndGoing : List RelayEvent :=
  [.newConnection 7 true, .newConnection 8 false, .newConnection 9 true, .shutdownComplete 7,
    .newConnection 10 true]

theorem relay_bookkeeping_comingAndGoing :
    (Runs.run step start comingAndGoing).assigned.length < 2 ^ 32 - 1 ∧
      (Runs.run step start comingAndGoing).registry.route [3, 0, 0, 0, 5] = some (10, [5]) := by
  have hfew : (Runs.run step start comingAndGoing).assigned.length < 2 ^ 32 - 1 := by
    decide +kernel
  refine ⟨hfew, ?_⟩
  have hroute := (relay_bookkeeping comingAndGoing hfew).2.2.2.2.2.2 [3, 0, 0, 0, 5] 10 [5]
  exact hroute.mpr ⟨by decide, rfl, by decide +kernel⟩

end RelayHistory

end Poseidon
