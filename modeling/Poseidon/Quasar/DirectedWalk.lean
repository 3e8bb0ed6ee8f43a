import Poseidon.Lib.Search
import Poseidon.Quasar.Addressing

/-!
# The directed walk

A node that is not subscribed to the topic of a message looks for the subscribers in the filters
of its neighbours, level by level and in each level neighbour by neighbour. A level is passed over
where the filter also has the key of a publisher: that subscriber has the message already. The
search ends at the first neighbour that is left, and only if there is none is the message passed
on at random.
-/

namespace Poseidon.Quasar

variable (H : HashFn)

/-- At this level the neighbour's filter has the topic and none of the keys that negate it. -/
def Follows (neighbor : NeighborFilter) (topic : Bytes) (negative : List Bytes) (level : Nat) :
    Prop :=
  ∃ filter, neighbor.filter.getLevel level = some filter ∧ filter.contains H topic = true ∧
    ∀ key ∈ negative, filter.contains H key = false

/-- The pairs of a level and a place in the list of neighbours at which the walk can leave. -/
def exits (quasar : Quasar) (topic : Bytes) (negative : List Bytes) : Set (Nat ×ₗ Nat) :=
  {exit | (ofLex exit).1 < quasar.routing.levelCount ∧
    ∃ neighbor, quasar.neighborFilters[(ofLex exit).2]? = some neighbor ∧
      Follows H neighbor topic negative (ofLex exit).1}

/-- What the walk does with a message: the neighbour of the least exit gets it, and it is passed on
at random if there is no exit. -/
def WalksNearest (quasar : Quasar) (msg : RouteMessage) (negative : List Bytes)
    (actions : List Action) : Prop :=
  (∃ level index neighbor packet,
    IsLeast (quasar.exits H msg.topic negative) (toLex (level, index)) ∧
      quasar.neighborFilters[index]? = some neighbor ∧ msg.serialize = some packet ∧
      actions = [.send (some neighbor.node) packet]) ∨
  (quasar.exits H msg.topic negative = ∅ ∧
    actions = randomWalk H quasar.alpha.toNat msg 0 quasar.connectedPeers)

/-! ### The search for an exit -/

variable (quasar : Quasar) {negative : List Bytes}

theorem directedTarget_eq_search (topic : Bytes) (negative : List Bytes) :
    quasar.directedTarget H topic negative =
      (List.range quasar.routing.levelCount).findSome? fun level =>
        quasar.neighborFilters.findSome? (lead H topic negative level) := rfl

theorem lead_eq_some_iff {topic : Bytes} {level : Nat} {neighbor : NeighborFilter}
    {node : MeridianNode} :
    lead H topic negative level neighbor = some node ↔
      Follows H neighbor topic negative level ∧ neighbor.node = node := by
  unfold lead Follows
  cases neighbor.filter.getLevel level with
  | none => simp
  | some filter => simp

theorem isSome_lead_iff {topic : Bytes} {level : Nat} {neighbor : NeighborFilter} :
    (lead H topic negative level neighbor).isSome = true ↔
      Follows H neighbor topic negative level := by
  rw [Option.isSome_iff_exists]
  constructor
  · rintro ⟨node, hnode⟩
    exact ((lead_eq_some_iff H).mp hnode).1
  · intro hfollows
    exact ⟨neighbor.node, (lead_eq_some_iff H).mpr ⟨hfollows, rfl⟩⟩

theorem places_lead (topic : Bytes) (negative : List Bytes) :
    Search.places quasar.routing.levelCount quasar.neighborFilters (lead H topic negative) =
      quasar.exits H topic negative := by
  ext exit
  simp only [Search.places, exits, isSome_lead_iff]

theorem exits_eq_empty_iff {quasar : Quasar} {topic : Bytes} :
    quasar.exits H topic negative = ∅ ↔ quasar.directedTarget H topic negative = none := by
  rw [directedTarget_eq_search, ← places_lead, Search.findSome?_eq_none_iff_places]

theorem directedTarget_cases (topic : Bytes) (negative : List Bytes) :
    (∃ level index neighbor,
      IsLeast (quasar.exits H topic negative) (toLex (level, index)) ∧
        quasar.neighborFilters[index]? = some neighbor ∧
        quasar.directedTarget H topic negative = some neighbor.node) ∨
    (quasar.exits H topic negative = ∅ ∧ quasar.directedTarget H topic negative = none) := by
  cases htarget : quasar.directedTarget H topic negative with
  | none => exact Or.inr ⟨(exits_eq_empty_iff H).mpr htarget, rfl⟩
  | some node =>
      rw [directedTarget_eq_search] at htarget
      obtain ⟨level, index, neighbor, hleast, hneighbor, hlead⟩ :=
        Search.exists_isLeast_of_findSome? htarget
      rw [places_lead] at hleast
      refine Or.inl ⟨level, index, neighbor, hleast, hneighbor, ?_⟩
      rw [((lead_eq_some_iff H).mp hlead).2]

theorem walksNearest_walk {msg : RouteMessage} (hfits : msg.serialize.isSome = true)
    (negative : List Bytes) : quasar.WalksNearest H msg negative (quasar.walk H msg negative) := by
  obtain ⟨packet, hpacket⟩ := Option.isSome_iff_exists.mp hfits
  rcases quasar.directedTarget_cases H msg.topic negative with
    ⟨level, index, neighbor, hleast, hneighbor, htarget⟩ | ⟨hempty, htarget⟩
  · refine Or.inl ⟨level, index, neighbor, packet, hleast, hneighbor, hpacket, ?_⟩
    simp only [walk, htarget, sendMessage, hpacket]
  · refine Or.inr ⟨hempty, ?_⟩
    simp only [walk, htarget]

/-! ### Receiving and publishing -/

def passedOn (quasar : Quasar) (received : RouteMessage) : RouteMessage :=
  { received.addVisited H (some quasar.localNode) with
    hopsRemaining := received.hopsRemaining - 1 }

theorem isSome_serialize_passedOn (received : RouteMessage) :
    (quasar.passedOn H received).serialize.isSome = received.serialize.isSome := by
  rw [Bool.eq_iff_iff, RouteMessage.isSome_serialize_iff, RouteMessage.isSome_serialize_iff]
  exact Iff.rfl

theorem onRouteMessage_eq_walk {quasar : Quasar} {received : RouteMessage}
    (hsubscribed : quasar.isLocallySubscribed received.topic = false)
    (hhops : received.hopsRemaining ≠ 0) (hnew : quasar.accepts H received = true) :
    (quasar.onRouteMessage H received).2 =
      quasar.walk H (quasar.passedOn H received) (received.publishers.map MeridianNode.key) := by
  simp only [onRouteMessage, hnew, if_true, forward, hsubscribed, Bool.false_eq_true, if_false,
    hhops]
  rfl

/-- **Directed walk.** A running node that is not subscribed sends a message it receives, or
publishes, to the neighbour of the least exit, and at random exactly if there is none. A publisher
is taken into account by its key; the own key counts only where the node has an address or a
port. -/
theorem walksNearest_of_running {quasar : Quasar} {protocol : MeridianProtocol}
    (hprotocol : quasar.protocol = some protocol) (hrunning : protocol.running = true) :
    (∀ received : RouteMessage, quasar.isLocallySubscribed received.topic = false →
      received.hopsRemaining ≠ 0 → quasar.accepts H received = true →
      received.serialize.isSome = true →
      quasar.WalksNearest H (quasar.passedOn H received)
        (received.publishers.map MeridianNode.key) (quasar.onRouteMessage H received).2) ∧
    (∀ (ids : Nat → MessageId) (topic data : Bytes), quasar.isLocallySubscribed topic = false →
      (quasar.signedMessage H (ids 0) topic data).serialize.isSome = true →
      protocol.localAddr ≠ 0 ∨ protocol.localPort ≠ 0 →
      quasar.WalksNearest H (quasar.signedMessage H (ids 0) topic data)
        [MeridianNode.key ⟨protocol.localAddr, protocol.localPort⟩]
        (quasar.publish H ids topic data).2) := by
  constructor
  · intro received hsubscribed hhops hnew hfits
    rw [onRouteMessage_eq_walk H hsubscribed hhops hnew]
    exact quasar.walksNearest_walk H ((isSome_serialize_passedOn H quasar received).trans hfits) _
  · intro ids topic data hsubscribed hfits hnode
    have hlocal : quasar.localNode = ⟨protocol.localAddr, protocol.localPort⟩ := by
      simp only [localNode, hprotocol, MeridianProtocol.getLocalNode, hrunning, if_true]
    have hkeys : quasar.negativeKeys =
        [MeridianNode.key ⟨protocol.localAddr, protocol.localPort⟩] := by
      unfold negativeKeys
      rw [hlocal, if_pos hnode]
    rw [publish_eq_walk H hsubscribed (by rw [hprotocol]; rfl), hkeys]
    exact quasar.walksNearest_walk H hfits _

/-- A node without subscriptions that holds the filter of a subscriber to the topic `1`. -/
def besideSubscriber : Quasar :=
  (Host.idle 1 9000).quasar.storeNeighborFilter (Host.subscribed 2 9001).record
    (Host.subscribed 2 9001).quasar.routing

open Network (byteHash)

theorem walksNearest_besideSubscriber :
    besideSubscriber.WalksNearest byteHash
      (besideSubscriber.passedOn byteHash firstMessage) []
      (besideSubscriber.onRouteMessage byteHash firstMessage).2 ∧
    besideSubscriber.WalksNearest byteHash
      (besideSubscriber.signedMessage byteHash ⟨1, 1, 1⟩ [1] [7])
      [MeridianNode.key ⟨0, 9000⟩]
      (besideSubscriber.publish byteHash (fun _ => ⟨1, 1, 1⟩) [1] [7]).2 := by
  obtain ⟨hreceived, hpublished⟩ := @walksNearest_of_running byteHash besideSubscriber
    (Host.started 9000) rfl rfl
  exact ⟨hreceived firstMessage (by decide +kernel) (by decide) (by decide +kernel)
      (by decide +kernel),
    hpublished (fun _ => ⟨1, 1, 1⟩) [1] [7] (by decide +kernel) (by decide +kernel) (by decide)⟩

/-- A node without subscriptions that listens on port 0. Its neighbour subscribes to the topic `1`
and to the topic of six zero bytes, which is also the key of the node. -/
def besideZeroTopic : Quasar :=
  (Host.idle 1 0).quasar.storeNeighborFilter (Host.subscribed 2 9001).record
    ((Host.subscribed 2 9001).quasar.subscribe byteHash [0, 0, 0, 0, 0, 0] 0).routing

/-- The key of the local node is in the filter, and `publish` follows the filter nevertheless. -/
theorem not_walksNearest_besideZeroTopic :
    besideZeroTopic.localNode.key = [0, 0, 0, 0, 0, 0] ∧
    besideZeroTopic.isLocallySubscribed [1] = false ∧
    (besideZeroTopic.protocol.any (·.running)) = true ∧
    ¬besideZeroTopic.WalksNearest byteHash
      (besideZeroTopic.signedMessage byteHash ⟨1, 1, 1⟩ [1] [7])
      [besideZeroTopic.localNode.key]
      (besideZeroTopic.publish byteHash (fun _ => ⟨1, 1, 1⟩) [1] [7]).2 := by
  refine ⟨by decide +kernel, by decide +kernel, by decide +kernel, ?_⟩
  have hempty : besideZeroTopic.exits byteHash [1] [besideZeroTopic.localNode.key] = ∅ :=
    (exits_eq_empty_iff byteHash).mpr (by decide +kernel)
  rintro (⟨level, index, neighbor, packet, hleast, -⟩ | ⟨-, hrandom⟩)
  · have hexit := hleast.1
    rw [show (besideZeroTopic.signedMessage byteHash ⟨1, 1, 1⟩ [1] [7]).topic = [1] from
      rfl, hempty] at hexit
    exact hexit
  · exact absurd hrandom (by decide +kernel)

end Poseidon.Quasar
