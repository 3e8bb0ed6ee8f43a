import Mathlib.Data.List.Count
import Poseidon.Quasar.Node

/-!
# What the routing operations send

One specification per operation: which message ids and hop counts the packets it sends carry, how
many packets there are, and how often the callback runs. The network results use these and never
look at the walks themselves.
-/

namespace Poseidon

/-- Whoever decodes the packet of this call finds the given id and hops in it. -/
def Action.Carries (id : MessageId) (hops : UInt32) : Action → Prop
  | .callback _ _ => True
  | .send _ packet => ∀ msg, RouteMessage.deserialize packet = some msg →
      msg.id = id ∧ msg.hopsRemaining = hops

/-- The packet of this call is the wire form of a message that satisfies `P`. -/
def Action.Sends (P : RouteMessage → Prop) : Action → Prop
  | .callback _ _ => True
  | .send _ packet => ∃ sent, P sent ∧ sent.serialize = some packet

theorem Action.Sends.carries {id : MessageId} {hops : UInt32} {target : Option MeridianNode}
    {packet : Bytes}
    (hsends : (Action.send target packet).Sends fun msg =>
      msg.id = id ∧ msg.hopsRemaining = hops) :
    (Action.send target packet).Carries id hops := by
  obtain ⟨sent, ⟨hid, hhops⟩, hserialize⟩ := hsends
  intro received hreceived
  have hsame := RouteMessage.deserialize_serialize_id hserialize hreceived
  rwa [hid, hhops] at hsame

def Action.isSend : Action → Bool
  | .callback _ _ => false
  | .send _ _ => true

def Action.isCallback (action : Action) : Bool :=
  !action.isSend

namespace Quasar

variable (H : HashFn)

variable (quasar : Quasar) {target : Option MeridianNode} (msg : RouteMessage)
  {P : RouteMessage → Prop} {packet : Bytes}

theorem sends_sendMessage {msg : RouteMessage} (hmsg : P msg) (target : Option MeridianNode) :
    ∀ action ∈ sendMessage msg target, action.Sends P := by
  intro action haction
  unfold sendMessage at haction
  split at haction
  · exact absurd haction List.not_mem_nil
  · rename_i packet hserialize
    obtain rfl := List.mem_singleton.mp haction
    exact ⟨msg, hmsg, hserialize⟩

theorem countP_isSend_sendMessage_le (target : Option MeridianNode) :
    (sendMessage msg target).countP Action.isSend ≤ 1 := by
  unfold sendMessage
  split <;> simp [Action.isSend]

theorem countP_isCallback_sendMessage (target : Option MeridianNode) :
    (sendMessage msg target).countP Action.isCallback = 0 := by
  unfold sendMessage
  split <;> simp [Action.isCallback, Action.isSend]

@[simp]
theorem addVisited_id (peer : Option MeridianNode) : (msg.addVisited H peer).id = msg.id := by
  cases peer <;> rfl

@[simp]
theorem addVisited_hopsRemaining (peer : Option MeridianNode) :
    (msg.addVisited H peer).hopsRemaining = msg.hopsRemaining := by
  cases peer <;> rfl

/-! ### The random walk -/

theorem sends_randomWalk (hvisited : ∀ msg peer, P msg → P (RouteMessage.addVisited H msg peer))
    (alpha : Nat) (peers : List (Option MeridianNode)) :
    ∀ (msg : RouteMessage) (sent : Nat), P msg →
      ∀ action ∈ randomWalk H alpha msg sent peers, action.Sends P := by
  induction peers with
  | nil =>
      intro msg sent _ action haction
      exact absurd haction List.not_mem_nil
  | cons peer peers ih =>
      intro msg sent hmsg action haction
      unfold randomWalk at haction
      split_ifs at haction with hdone hknown
      · exact absurd haction List.not_mem_nil
      · exact ih msg sent hmsg action haction
      · rcases List.mem_append.mp haction with hsend | hrest
        · exact sends_sendMessage hmsg peer action hsend
        · exact ih (msg.addVisited H peer) (sent + 1) (hvisited msg peer hmsg) action hrest

theorem countP_isSend_randomWalk_le (alpha : Nat) (peers : List (Option MeridianNode)) :
    ∀ (msg : RouteMessage) (sent : Nat),
      (randomWalk H alpha msg sent peers).countP Action.isSend ≤ alpha - sent := by
  induction peers with
  | nil =>
      intro msg sent
      simp [randomWalk]
  | cons peer peers ih =>
      intro msg sent
      unfold randomWalk
      split_ifs with hdone hvisited
      · simp
      · exact ih msg sent
      · rw [List.countP_append]
        have hsend := countP_isSend_sendMessage_le msg peer
        have hrest := ih (msg.addVisited H peer) (sent + 1)
        omega

theorem countP_isCallback_randomWalk (alpha : Nat) (peers : List (Option MeridianNode)) :
    ∀ (msg : RouteMessage) (sent : Nat),
      (randomWalk H alpha msg sent peers).countP Action.isCallback = 0 := by
  induction peers with
  | nil =>
      intro msg sent
      simp [randomWalk]
  | cons peer peers ih =>
      intro msg sent
      unfold randomWalk
      split_ifs with hdone hvisited
      · simp
      · exact ih msg sent
      · rw [List.countP_append, countP_isCallback_sendMessage, ih]

theorem sends_walk (hvisited : ∀ msg peer, P msg → P (RouteMessage.addVisited H msg peer))
    (quasar : Quasar) {msg : RouteMessage} (hmsg : P msg) (negative : List Bytes) :
    ∀ action ∈ quasar.walk H msg negative, action.Sends P := by
  intro action haction
  unfold walk at haction
  split at haction
  · exact sends_sendMessage hmsg _ action haction
  · exact sends_randomWalk H hvisited _ _ msg 0 hmsg action haction

def fanout (quasar : Quasar) : Nat :=
  max 1 (max quasar.alpha.toNat quasar.connectedPeers.length)

theorem countP_isSend_walk_le (negative : List Bytes) :
    (quasar.walk H msg negative).countP Action.isSend ≤ quasar.fanout := by
  unfold walk
  split
  · exact (countP_isSend_sendMessage_le msg _).trans (le_max_left _ _)
  · calc
      (randomWalk H quasar.alpha.toNat msg 0 quasar.connectedPeers).countP Action.isSend ≤
          quasar.alpha.toNat := countP_isSend_randomWalk_le H _ _ msg 0
      _ ≤ max quasar.alpha.toNat quasar.connectedPeers.length := le_max_left _ _
      _ ≤ quasar.fanout := le_max_right _ _

theorem countP_isCallback_walk (negative : List Bytes) :
    (quasar.walk H msg negative).countP Action.isCallback = 0 := by
  unfold walk
  split
  · exact countP_isCallback_sendMessage msg _
  · exact countP_isCallback_randomWalk H _ _ msg 0

/-! ### Messages to every peer -/

theorem sends_sendAll {messages : List (RouteMessage × Option MeridianNode)}
    (hmessages : ∀ message ∈ messages, P message.1) :
    ∀ action ∈ sendAll messages, action.Sends P := by
  intro action haction
  obtain ⟨message, hmessage, hsend⟩ := List.mem_flatMap.mp haction
  exact sends_sendMessage (hmessages message hmessage) message.2 action hsend

theorem countP_isSend_sendAll_le (messages : List (RouteMessage × Option MeridianNode)) :
    (sendAll messages).countP Action.isSend ≤ messages.length := by
  induction messages with
  | nil => simp [sendAll]
  | cons message messages ih =>
      have hsend := countP_isSend_sendMessage_le message.1 message.2
      rw [sendAll, List.flatMap_cons, List.countP_append, List.length_cons]
      rw [sendAll] at ih
      omega

theorem countP_isCallback_sendAll (messages : List (RouteMessage × Option MeridianNode)) :
    (sendAll messages).countP Action.isCallback = 0 := by
  induction messages with
  | nil => simp [sendAll]
  | cons message messages ih =>
      rw [sendAll, List.flatMap_cons, List.countP_append, countP_isCallback_sendMessage]
      rw [sendAll] at ih
      rw [ih]

theorem not_send_mem_deliver {quasar : Quasar} {topic data : Bytes} :
    .send target packet ∉ quasar.deliver topic data := by
  unfold deliver
  split <;> simp

theorem countP_isSend_deliver (topic data : Bytes) :
    (quasar.deliver topic data).countP Action.isSend = 0 := by
  unfold deliver
  split <;> simp [Action.isSend]

theorem countP_isCallback_deliver_le (topic data : Bytes) :
    (quasar.deliver topic data).countP Action.isCallback ≤ 1 := by
  unfold deliver
  split <;> simp [Action.isCallback, Action.isSend]

/-! ### Forwarding a received message -/

/-- The hops a message has left behind a node: re-broadcasting by a subscriber keeps them, every
other way of passing it on takes one. -/
def onwardHops (quasar : Quasar) (received : RouteMessage) : UInt32 :=
  if quasar.isLocallySubscribed received.topic then received.hopsRemaining
  else received.hopsRemaining - 1

theorem sends_forward (hvisited : ∀ msg peer, P msg → P (RouteMessage.addVisited H msg peer))
    {quasar : Quasar} {received : RouteMessage}
    (hsubscribed : quasar.isLocallySubscribed received.topic = true →
      P ((received.addVisited H (some quasar.localNode)).addPublisher quasar.localNode))
    (hpassed : quasar.isLocallySubscribed received.topic = false →
      P { received.addVisited H (some quasar.localNode) with
        hopsRemaining := received.hopsRemaining - 1 })
    (hsend : .send target packet ∈ quasar.forward H received) :
    (Action.send target packet).Sends P := by
  unfold forward at hsend
  dsimp only at hsend
  split_ifs at hsend with hsub hzero
  · rcases List.mem_append.mp hsend with hdeliver | hpeers
    · exact absurd hdeliver not_send_mem_deliver
    · apply sends_sendAll _ _ hpeers
      intro message hmessage
      obtain ⟨peer, -, rfl⟩ := List.mem_map.mp hmessage
      exact hsubscribed hsub
  · exact absurd hsend List.not_mem_nil
  · exact sends_walk H hvisited quasar (hpassed (Bool.eq_false_of_not_eq_true hsub)) _ _ hsend

theorem carries_forward {quasar : Quasar} {received : RouteMessage}
    (hsend : .send target packet ∈ quasar.forward H received) :
    (Action.send target packet).Carries received.id (quasar.onwardHops received) := by
  apply Action.Sends.carries
  apply sends_forward H _ _ _ hsend
  · intro msg peer hmsg
    simpa using hmsg
  · intro hsub
    exact ⟨rfl, (if_pos hsub).symm⟩
  · intro hsub
    exact ⟨rfl, (if_neg (Bool.not_eq_true _ ▸ hsub)).symm⟩

theorem subscribed_or_hops_of_send_mem_forward {quasar : Quasar} {received : RouteMessage}
    (hsend : .send target packet ∈ quasar.forward H received) :
    quasar.isLocallySubscribed received.topic = true ∨ received.hopsRemaining ≠ 0 := by
  by_contra hnot
  rw [not_or, not_not, Bool.not_eq_true] at hnot
  simp [forward, hnot.1, hnot.2] at hsend

theorem countP_isSend_forward_le (received : RouteMessage) :
    (quasar.forward H received).countP Action.isSend ≤ quasar.fanout := by
  unfold forward
  dsimp only
  split_ifs with hsub hzero
  · rw [List.countP_append, countP_isSend_deliver, Nat.zero_add]
    apply (countP_isSend_sendAll_le _).trans
    rw [List.length_map]
    calc
      quasar.connectedPeers.length ≤ max quasar.alpha.toNat quasar.connectedPeers.length :=
        le_max_right _ _
      _ ≤ quasar.fanout := le_max_right _ _
  · exact Nat.zero_le _
  · exact countP_isSend_walk_le H quasar _ _

theorem countP_isCallback_forward_le (received : RouteMessage) :
    (quasar.forward H received).countP Action.isCallback ≤ 1 := by
  unfold forward
  dsimp only
  split_ifs with hsub hzero
  · rw [List.countP_append, countP_isCallback_sendAll]
    exact countP_isCallback_deliver_le quasar _ _
  · exact Nat.zero_le _
  · rw [countP_isCallback_walk]
    exact Nat.zero_le _

/-! ### Publishing -/

theorem sends_publish {P : RouteMessage → Prop}
    (hvisited : ∀ msg peer, P msg → P (RouteMessage.addVisited H msg peer)) {quasar : Quasar}
    {ids : Nat → MessageId} {topic data : Bytes}
    (hmsg : ∀ id ∈ quasar.publishedIds ids topic, P (quasar.signedMessage H id topic data))
    {target : Option MeridianNode} {packet : Bytes}
    (hsend : .send target packet ∈ (quasar.publish H ids topic data).2) :
    (Action.send target packet).Sends P := by
  unfold publish publishedIds at *
  dsimp only at hsend
  split_ifs at hsend hmsg with hsub hprotocol
  · rcases List.mem_append.mp hsend with hdeliver | hpeers
    · exact absurd hdeliver not_send_mem_deliver
    · apply sends_sendAll _ _ hpeers
      intro message hmessage
      obtain ⟨⟨peer, i⟩, hpeer, rfl⟩ := List.mem_map.mp hmessage
      refine hmsg (ids i) (List.mem_map.mpr ⟨i, ?_, rfl⟩)
      exact List.mem_range.mpr (by simpa using List.snd_lt_of_mem_zipIdx hpeer)
  · exact absurd hsend List.not_mem_nil
  · exact sends_walk H hvisited quasar (hmsg (ids 0) (List.mem_singleton_self _)) _ _ hsend
  · exact sends_walk H hvisited quasar (hmsg (ids 0) (List.mem_singleton_self _)) _ _ hsend

theorem carries_publish {quasar : Quasar} {ids : Nat → MessageId} {topic data : Bytes}
    (hsend : .send target packet ∈ (quasar.publish H ids topic data).2) :
    ∃ id ∈ quasar.publishedIds ids topic,
      (Action.send target packet).Carries id quasar.maxHops := by
  obtain ⟨sent, ⟨hid, hhops⟩, hserialize⟩ := @sends_publish H
    (fun msg => msg.id ∈ quasar.publishedIds ids topic ∧ msg.hopsRemaining = quasar.maxHops)
    (fun msg peer hmsg => by simpa using hmsg) quasar ids topic data
    (fun id hid => ⟨hid, rfl⟩) target packet hsend
  refine ⟨sent.id, hid, ?_⟩
  exact Action.Sends.carries ⟨sent, ⟨rfl, hhops⟩, hserialize⟩

theorem countP_isCallback_publish_le (ids : Nat → MessageId) (topic data : Bytes) :
    (quasar.publish H ids topic data).2.countP Action.isCallback ≤ 1 := by
  unfold publish
  dsimp only
  split_ifs with hsub hprotocol
  · rw [List.countP_append, countP_isCallback_sendAll]
    exact countP_isCallback_deliver_le quasar _ _
  · exact Nat.zero_le _
  · rw [countP_isCallback_walk]
    exact Nat.zero_le _
  · rw [countP_isCallback_walk]
    exact Nat.zero_le _

/-! ### The filter of seen ids -/

theorem contains_seen_markSeen_of_contains (ids : List MessageId) {key : Bytes}
    (hkey : quasar.seen.contains H key = true) :
    (quasar.markSeen H ids).seen.contains H key = true := by
  unfold markSeen
  dsimp only
  induction ids generalizing quasar with
  | nil => exact hkey
  | cons id ids ih =>
      exact ih { quasar with seen := quasar.seen.add H id.key }
        (BloomFilter.contains_add_of_contains H _ hkey)

theorem contains_seen_markSeen_of_mem {ids : List MessageId} {id : MessageId} (hid : id ∈ ids) :
    (quasar.markSeen H ids).seen.contains H id.key = true := by
  unfold markSeen
  dsimp only
  induction ids generalizing quasar with
  | nil => exact absurd hid List.not_mem_nil
  | cons head ids ih =>
      rcases List.mem_cons.mp hid with rfl | htail
      · exact contains_seen_markSeen_of_contains H { quasar with seen := quasar.seen.add H id.key }
          ids (BloomFilter.contains_add_self H _ _)
      · exact ih { quasar with seen := quasar.seen.add H head.key } htail

end Quasar

end Poseidon
