import Poseidon.Quasar.MessageRoundTrip
import Poseidon.Quasar.Network

/-!
# What receivers accept

A receiver refuses a topic or data of more than 1400 bytes and more than 256 publishers. `publish`
tests neither length, and a subscriber that passes a message on adds itself to the publishers
without counting them. So a packet is acceptable exactly if the publisher kept to the lengths and
the subscribers on its way were few enough.
-/

namespace Poseidon

open RouteMessage (deserialize maxPayloadSize)

namespace RouteMessage

theorem byteSize_mono {small large : Nat} (hle : small ≤ large) :
    BloomFilter.byteSize small ≤ BloomFilter.byteSize large := by
  unfold BloomFilter.byteSize
  split_ifs <;> omega

theorem accepted_iff {msg : RouteMessage} {bytes : Bytes}
    (hserialize : msg.serialize = some bytes) :
    (deserialize bytes).isSome = true ↔
      msg.topic.length % 2 ^ 32 ≤ maxPayloadSize ∧ msg.data.length % 2 ^ 32 ≤ maxPayloadSize ∧
        msg.publishers.length % 2 ^ 32 ≤ maxNodes := by
  obtain ⟨-, rfl⟩ := serialize_eq_some_iff.mp hserialize
  have hmagic : headerWord (msg.header ++ msg.body) 0 = magic % 2 ^ 32 :=
    headerWord_header msg msg.body rfl
  have hversion : headerWord (msg.header ++ msg.body) 1 = version % 2 ^ 32 :=
    headerWord_header msg msg.body rfl
  have htopic : headerWord (msg.header ++ msg.body) 2 = msg.topic.length % 2 ^ 32 :=
    headerWord_header msg msg.body rfl
  have hdata : headerWord (msg.header ++ msg.body) 3 = msg.data.length % 2 ^ 32 :=
    headerWord_header msg msg.body rfl
  have hcount : headerWord (msg.header ++ msg.body) 5 = msg.publishers.length % 2 ^ 32 :=
    headerWord_header msg msg.body rfl
  have hvisited : headerWord (msg.header ++ msg.body) 6 = msg.visited.size % 2 ^ 32 :=
    headerWord_header msg msg.body rfl
  have hlong : ¬(msg.header ++ msg.body).length < 32 := by
    rw [List.length_append, length_header]
    omega
  have hcomplete : ¬(msg.header ++ msg.body).length < 56 + msg.topic.length % 2 ^ 32 +
      msg.data.length % 2 ^ 32 + 6 * (msg.publishers.length % 2 ^ 32) +
        BloomFilter.byteSize (msg.visited.size % 2 ^ 32) := by
    have hbits := byteSize_mono (Nat.mod_le msg.visited.size (2 ^ 32))
    have htopicLe := Nat.mod_le msg.topic.length (2 ^ 32)
    have hdataLe := Nat.mod_le msg.data.length (2 ^ 32)
    have hcountLe := Nat.mod_le msg.publishers.length (2 ^ 32)
    rw [List.length_append, length_header, length_body]
    omega
  simp only [deserialize, hmagic, hversion, htopic, hdata, hcount, hvisited]
  rw [if_neg hlong, if_neg (by decide)]
  constructor
  · intro hsome
    obtain ⟨received, hreceived⟩ := Option.isSome_iff_exists.mp hsome
    simp only [Option.ite_none_left_eq_some] at hreceived
    obtain ⟨hpayload, hnodes, -⟩ := hreceived
    obtain ⟨htopic, hdata⟩ := not_or.mp hpayload
    exact ⟨Nat.le_of_not_lt htopic, Nat.le_of_not_lt hdata, Nat.le_of_not_lt hnodes⟩
  · rintro ⟨htopic, hdata, hnodes⟩
    rw [if_neg (not_or.mpr ⟨htopic.not_gt, hdata.not_gt⟩), if_neg hnodes.not_gt,
      if_neg hcomplete, Option.isSome_some]

end RouteMessage

namespace Quasar

variable (H : HashFn)

/-- What a receiver tests of a message. -/
def Contents (topic data : Bytes) (publishers : List MeridianNode) (msg : RouteMessage) : Prop :=
  msg.topic = topic ∧ msg.data = data ∧ msg.publishers = publishers

theorem Contents.addVisited {topic data : Bytes} {publishers : List MeridianNode}
    (msg : RouteMessage) (peer : Option MeridianNode) (hmsg : Contents topic data publishers msg) :
    Contents topic data publishers (msg.addVisited H peer) := by
  cases peer <;> exact hmsg

variable {target : Option MeridianNode} {packet : Bytes}

theorem accepted_iff_of_sends {topic data : Bytes} {publishers : List MeridianNode}
    (hsends : (Action.send target packet).Sends (Contents topic data publishers)) :
    (deserialize packet).isSome = true ↔
      topic.length % 2 ^ 32 ≤ maxPayloadSize ∧
        data.length % 2 ^ 32 ≤ maxPayloadSize ∧
        publishers.length % 2 ^ 32 ≤ RouteMessage.maxNodes := by
  obtain ⟨sent, ⟨rfl, rfl, rfl⟩, hserialize⟩ := hsends
  exact RouteMessage.accepted_iff hserialize

theorem accepted_publish_iff {quasar : Quasar} {ids : Nat → MessageId} {topic data : Bytes}
    (hsend : .send target packet ∈ (quasar.publish H ids topic data).2) :
    (deserialize packet).isSome = true ↔
      topic.length % 2 ^ 32 ≤ maxPayloadSize ∧
        data.length % 2 ^ 32 ≤ maxPayloadSize := by
  have hsends := sends_publish H (P := Contents topic data [quasar.localNode])
    (Contents.addVisited H) (fun _ _ => ⟨rfl, rfl, rfl⟩) hsend
  rw [accepted_iff_of_sends hsends]
  constructor
  · exact fun haccepted => ⟨haccepted.1, haccepted.2.1⟩
  · intro hlengths
    refine ⟨hlengths.1, hlengths.2, ?_⟩
    rw [List.length_singleton]
    decide

theorem accepted_forward_iff {quasar : Quasar} {bytes : Bytes} {received : RouteMessage}
    (hreceived : deserialize bytes = some received)
    (hsend : .send target packet ∈ quasar.forward H received) :
    (deserialize packet).isSome = true ↔
      (quasar.isLocallySubscribed received.topic = true →
        received.publishers.length < RouteMessage.maxNodes) := by
  have hbounded := RouteMessage.bounded_of_deserialize hreceived
  have htopic : received.topic.length % 2 ^ 32 ≤ maxPayloadSize :=
    (Nat.mod_le _ _).trans hbounded.topic
  have hdata : received.data.length % 2 ^ 32 ≤ maxPayloadSize :=
    (Nat.mod_le _ _).trans hbounded.data
  cases hsub : quasar.isLocallySubscribed received.topic with
  | true =>
      have hsends := sends_forward H (P := Contents received.topic received.data
        (received.publishers ++ [quasar.localNode])) (Contents.addVisited H)
        (fun _ => ⟨rfl, rfl, rfl⟩) (fun hfalse => absurd (hsub.symm.trans hfalse) (by simp)) hsend
      have hcount : (received.publishers ++ [quasar.localNode]).length % 2 ^ 32 =
          received.publishers.length + 1 := by
        have hfew : received.publishers.length ≤ 256 := hbounded.publishers
        rw [List.length_append, List.length_singleton]
        exact Nat.mod_eq_of_lt (by omega)
      rw [accepted_iff_of_sends hsends, hcount]
      constructor
      · exact fun haccepted _ => haccepted.2.2
      · exact fun hfew => ⟨htopic, hdata, hfew rfl⟩
  | false =>
      have hsends := sends_forward H (P := Contents received.topic received.data
        received.publishers) (Contents.addVisited H)
        (fun htrue => absurd (hsub.symm.trans htrue) (by simp)) (fun _ => ⟨rfl, rfl, rfl⟩) hsend
      rw [accepted_iff_of_sends hsends]
      refine iff_of_true ⟨htopic, hdata, (Nat.mod_le _ _).trans hbounded.publishers⟩ ?_
      exact fun htrue => absurd htrue (by simp)

/-- A subscriber of the message's topic can add itself to the publishers. -/
def HasRoom (quasar : Quasar) : Option RouteMessage → Prop
  | none => True
  | some msg => quasar.isLocallySubscribed msg.topic = true →
      msg.publishers.length < RouteMessage.maxNodes

instance (quasar : Quasar) : ∀ msg, Decidable (quasar.HasRoom msg)
  | none => isTrue trivial
  | some _ => inferInstanceAs (Decidable (_ → _))

end Quasar

namespace Network

variable {ι : Type} (H : HashFn)

/-- The message a step delivers, if there is such a packet and it is accepted. -/
def arriving (net : Network ι) (index : Nat) : Option RouteMessage :=
  (net.packets[index]?).bind fun packet => deserialize packet.bytes

/-- The calls a node makes in a step, to the message callback and to
`meridian_protocol_send_packet`, whether or not the transport then takes the packet. -/
def actions (net : Network ι) : Label ι → List Action
  | .publish node ids topic data => ((net.nodes node).publish H ids topic data).2
  | .receive node index =>
      match net.arriving index with
      | none => []
      | some msg => ((net.nodes node).onRouteMessage H msg).2
  | .perform _ _ => []

/-- Every packet handed to the transport in a step is one that a receiver accepts. -/
def HandsOverAcceptable (net : Network ι) (label : Label ι) : Prop :=
  ∀ target packet, .send target packet ∈ net.actions H label →
    (deserialize packet).isSome = true

/-- The publisher keeps to the lengths, and a subscriber receives a message with room for one more
publisher. -/
def Sparing (net : Network ι) : Label ι → Prop
  | .publish _ _ topic data =>
      topic.length ≤ maxPayloadSize ∧ data.length ≤ maxPayloadSize
  | .receive node index => (net.nodes node).HasRoom (net.arriving index)
  | .perform _ _ => True

instance (net : Network ι) : ∀ label, Decidable (net.Sparing label)
  | .publish _ _ _ _ => inferInstanceAs (Decidable (_ ∧ _))
  | .receive _ _ => inferInstanceAs (Decidable (Quasar.HasRoom _ _))
  | .perform _ _ => isTrue trivial

theorem handsOverAcceptable_of_sparing (net : Network ι) (label : Label ι)
    (hsparing : net.Sparing label) : net.HandsOverAcceptable H label := by
  intro target packet hsend
  cases label with
  | publish node ids topic data =>
      apply (Quasar.accepted_publish_iff H hsend).mpr
      exact ⟨(Nat.mod_le _ _).trans hsparing.1, (Nat.mod_le _ _).trans hsparing.2⟩
  | receive node index =>
      cases hmsg : net.arriving index with
      | none =>
          simp only [actions, hmsg] at hsend
          exact absurd hsend List.not_mem_nil
      | some msg =>
          simp only [actions, hmsg, Quasar.onRouteMessage] at hsend
          simp only [Sparing, hmsg, Quasar.HasRoom] at hsparing
          obtain ⟨received, -, hreceived⟩ := Option.bind_eq_some_iff.mp hmsg
          split_ifs at hsend
          · exact (Quasar.accepted_forward_iff H hreceived hsend).mpr hsparing
          · exact absurd hsend List.not_mem_nil
  | perform node operation => exact absurd hsend List.not_mem_nil

/-- **Acceptance.** A packet handed over by `publish` is accepted exactly if topic and data have
lengths a receiver allows, one handed over while a message is passed on exactly if the node is not
subscribed or the message has room for one more publisher; and in every run that is sparing with
both, every packet handed over is accepted. -/
theorem packets_accepted :
    (∀ quasar ids topic data target packet,
      .send target packet ∈ (Quasar.publish H quasar ids topic data).2 →
        ((deserialize packet).isSome = true ↔
          topic.length % 2 ^ 32 ≤ maxPayloadSize ∧
            data.length % 2 ^ 32 ≤ maxPayloadSize)) ∧
    (∀ quasar bytes received target packet, deserialize bytes = some received →
      .send target packet ∈ Quasar.forward H quasar received →
        ((deserialize packet).isSome = true ↔
          (quasar.isLocallySubscribed received.topic = true →
            received.publishers.length < RouteMessage.maxNodes))) ∧
    ∀ [DecidableEq ι] (nodes : ι → Quasar) labels,
      Runs.Meets (step H) Sparing (start nodes) labels →
      Runs.Meets (step H) (HandsOverAcceptable H) (start nodes) labels := by
  refine ⟨?_, ?_, ?_⟩
  · intro quasar ids topic data target packet hsend
    exact Quasar.accepted_publish_iff H hsend
  · intro quasar bytes received target packet hreceived hsend
    exact Quasar.accepted_forward_iff H hreceived hsend
  · intro _ nodes labels hsparing
    exact hsparing.imp (step H) (handsOverAcceptable_of_sparing H)

/-! ### Networks of two nodes -/

/-- A node that publishes and one that subscribes to the topic `1`, connected to each other. -/
def pair : Bool → Quasar
  | false => loopbackNode 3 1 [2]
  | true => (loopbackNode 3 2 [1]).subscribe byteHash [1] 0

def shortRun : List (Label Bool) :=
  [.publish false (fun _ => ⟨1, 1, 1⟩) [1] [7], .receive true 0]

theorem packets_accepted_shortRun :
    (Runs.Meets (step byteHash) Sparing (start pair) shortRun ∧
      (Runs.run (step byteHash) (start pair) shortRun).packets.length = 2) ∧
      Runs.Meets (step byteHash) (HandsOverAcceptable byteHash) (start pair) shortRun := by
  have hsparing : Runs.Meets (step byteHash) Sparing (start pair) shortRun := by decide +kernel
  refine ⟨⟨hsparing, by decide +kernel⟩, ?_⟩
  exact (packets_accepted byteHash).2.2 pair shortRun hsparing

theorem exists_send_of_any {actions : List Action} (hany : actions.any Action.isSend = true) :
    ∃ target packet, .send target packet ∈ actions := by
  obtain ⟨action, haction, hsend⟩ := List.any_eq_true.mp hany
  cases action with
  | callback topic data => exact absurd hsend Bool.false_ne_true
  | send target packet => exact ⟨target, packet, haction⟩

/-- A message that 256 publishers have entered themselves into. -/
def crowded : RouteMessage :=
  { RouteMessage.create ⟨1, 1, 1⟩ [1] [7] 3 Quasar.defaultNegativeSize
      Quasar.defaultNegativeHashes with
    publishers := List.replicate 256 ⟨1, 1⟩ }

/-- Data of 1401 bytes is published, and a 257th publisher is added; no receiver accepts either. -/
theorem packets_refused :
    (∃ target packet, .send target packet ∈ (Quasar.publish byteHash (pair false)
        (fun _ => ⟨1, 1, 1⟩) [1] (List.replicate 1401 0)).2 ∧
      deserialize packet = none) ∧
    ∃ bytes target packet, deserialize bytes = some crowded ∧
      .send target packet ∈ Quasar.forward byteHash (pair true) crowded ∧
      deserialize packet = none := by
  refine ⟨?_, ?_⟩
  · have hany : (Quasar.publish byteHash (pair false) (fun _ => ⟨1, 1, 1⟩) [1]
        (List.replicate 1401 0)).2.any Action.isSend = true := by
      decide +kernel
    obtain ⟨target, packet, hsend⟩ := exists_send_of_any hany
    refine ⟨target, packet, hsend, Option.not_isSome_iff_eq_none.mp ?_⟩
    rw [Quasar.accepted_publish_iff byteHash hsend, List.length_replicate]
    decide
  · have hany : (Quasar.forward byteHash (pair true) crowded).any Action.isSend = true := by
      decide +kernel
    have hfull : crowded.publishers.length = RouteMessage.maxNodes := List.length_replicate
    have hbounded : crowded.Bounded := ⟨by decide, by decide, hfull.le, by decide⟩
    obtain ⟨bytes, -, hreceived⟩ := RouteMessage.deserialize_serialize hbounded
      (BloomFilter.Standard.create Quasar.defaultNegativeSize (by decide))
    obtain ⟨target, packet, hsend⟩ := exists_send_of_any hany
    refine ⟨bytes, target, packet, hreceived, hsend, Option.not_isSome_iff_eq_none.mp ?_⟩
    rw [Quasar.accepted_forward_iff byteHash hreceived hsend]
    intro hroom
    exact hfull.not_lt (hroom (by decide +kernel))

end Network

end Poseidon
