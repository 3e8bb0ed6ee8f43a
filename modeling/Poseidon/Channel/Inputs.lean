import Poseidon.Bloom.Arithmetic
import Poseidon.Channel.Authority
import Poseidon.Quasar.Gossip

/-!
# Sizes taken from the network

Three inputs bring the size of a filter with them: a routed message its `visited` filter, a gossip
packet the levels of a neighbour's filter, and a modify notice the levels and the `seen` filter of
the channel's next Quasar node. None of the three is checked for sizes the filters cannot compute
with, so what is accepted is safe exactly if its sender chose the sizes well. The fields of a level
need not even be integers: what counts is what the getters find in their memory.
-/

namespace Poseidon

open Cbor

theorem forall_mem_mapM_iff {α β : Type*} {f : α → Option β} {items : List α} {values : List β}
    (hmap : items.mapM f = some values) {P : β → Prop} {Q : α → Prop}
    (hiff : ∀ item value, f item = some value → (P value ↔ Q item)) :
    (∀ value ∈ values, P value) ↔ ∀ item ∈ items, Q item := by
  induction items generalizing values with
  | nil =>
      obtain rfl := Option.some.inj hmap
      simp
  | cons item items ih =>
      obtain ⟨first, others, hfirst, hothers, rfl⟩ :=
        AttenuatedBloomFilter.mapM_cons_eq_some hmap
      rw [List.forall_mem_cons, List.forall_mem_cons, hiff item first hfirst, ih hothers]

/-! ### A level of a gossip packet -/

/-- The first three fields of an encoded level as the getters read them: its size, its rounds and
its fingerprint width. -/
def GuardedItem [Memory] : Item → Prop
  | .array (size :: hashCount :: fpBits :: _) =>
      hashCount.getInt % 2 ^ 32 = 0 ∨ size.getUint64 ≠ 0 ∧ fpBits.getInt % 2 ^ 32 < 64
  | _ => True

instance [Memory] : DecidablePred GuardedItem := by
  intro item
  unfold GuardedItem
  split <;> infer_instance

theorem ElasticBloomFilter.guarded_of_decode [Memory] {item : Item} {filter : ElasticBloomFilter}
    (hdecode : decode item = some filter) : filter.Guarded ↔ GuardedItem item := by
  unfold decode at hdecode
  split at hdecode
  · split at hdecode
    · contradiction
    · split_ifs at hdecode
      obtain ⟨next, hfold, rfl⟩ := Option.map_eq_some_iff.mp hdecode
      obtain ⟨hnext, -⟩ := foldlM_decodeBucket_eq_some hfold
      have hsize := congrArg size hnext
      have hcount := congrArg hashCount hnext
      have hbits := congrArg fpBits hnext
      change (next.hashCount = 0 ∨ next.size ≠ 0 ∧ next.fpBits < 64) ↔ _
      rw [hsize, hcount, hbits]
      exact Iff.rfl
  · contradiction

namespace Quasar

/-- The encoded levels of a gossip packet. -/
def gossipLevels (data : Bytes) : List Item :=
  match load data with
  | some (.array (_ :: _ :: .array [_, .array levels] :: _)) => levels
  | _ => []

theorem guarded_of_decodeGossip [Memory] {data : Bytes} {received : AttenuatedBloomFilter}
    (hdecode : decodeGossip data = some received) :
    (∀ level ∈ received.levels, level.Guarded) ↔
      ∀ item ∈ gossipLevels data, GuardedItem item := by
  obtain ⟨type, levelCount, encoded, rest, hload, hfilter⟩ := load_of_decodeGossip hdecode
  unfold AttenuatedBloomFilter.decode at hfilter
  split at hfilter
  · split_ifs at hfilter
    obtain ⟨levels, hlevels, rfl⟩ := Option.map_eq_some_iff.mp hfilter
    simp only [gossipLevels, hload]
    exact forall_mem_mapM_iff hlevels
      fun _ _ hlevel => ElasticBloomFilter.guarded_of_decode hlevel
  · contradiction

variable (H : HashFn)

/-- Every later call on a filter the node holds computes with defined operands. -/
structure FiltersSafe (quasar : Quasar) : Prop where
  routing : quasar.routing.Safe H
  seen : quasar.seen.Safe H
  neighbors : ∀ slot ∈ quasar.neighborFilters, slot.filter.LookupsSafe H

theorem decodeGossip_of_onGossip [Memory] {quasar : Quasar} {data : Bytes}
    {sender : Option MeridianNode} (haccepted : (quasar.onGossip data sender).1 = 0) :
    ∃ received, decodeGossip data = some received := by
  cases hdecode : decodeGossip data with
  | none =>
      rw [onGossip, hdecode] at haccepted
      have hcode : (-1 : Int) = 0 := haccepted
      contradiction
  | some received => exact ⟨received, rfl⟩

theorem filtersSafe_onGossip_iff [Memory] {quasar : Quasar} (hsafe : quasar.FiltersSafe H)
    {data : Bytes} {sender : Option MeridianNode}
    (haccepted : (quasar.onGossip data sender).1 = 0) :
    (quasar.onGossip data sender).2.FiltersSafe H ↔
      (sender.isSome = true → ∀ item ∈ gossipLevels data, GuardedItem item) := by
  obtain ⟨received, hdecode⟩ := decodeGossip_of_onGossip haccepted
  have hmerged : (quasar.routing.merge received).Safe H := hsafe.routing.call H (.merge received)
  rw [← guarded_of_decodeGossip hdecode, ← received.lookupsSafe_iff H, onGossip, hdecode]
  cases sender with
  | none =>
      refine iff_of_true ⟨hmerged, hsafe.seen, hsafe.neighbors⟩ ?_
      intro hsome
      exact absurd hsome Bool.false_ne_true
  | some node =>
      constructor
      · intro hafter _
        exact hafter.neighbors ⟨node, received⟩ (List.mem_append_right _ List.mem_cons_self)
      · intro hlookups
        refine ⟨hmerged, hsafe.seen, ?_⟩
        intro slot hslot
        obtain hold | hnew := List.mem_append.mp hslot
        · exact hsafe.neighbors slot (List.mem_of_mem_eraseP hold)
        · obtain rfl := List.mem_singleton.mp hnew
          exact hlookups rfl

theorem usable_routing_create (protocol : Option MeridianProtocol) (maxHops alpha : UInt32)
    (seenSize seenHashes : Nat) :
    (create protocol maxHops alpha seenSize seenHashes).routing.Usable :=
  AttenuatedBloomFilter.Usable.create (.inr ⟨by decide, by decide⟩) maxHops.toNat defaultOmega

theorem filtersSafe_create (protocol : Option MeridianProtocol) (alpha : UInt32) (seenSize : Nat)
    {maxHops : UInt32} (hhops : 1 ≤ maxHops.toNat) {seenHashes : Nat}
    (hseen : seenHashes = 0 ∨ seenSize ≠ 0) :
    (create protocol maxHops alpha seenSize seenHashes).FiltersSafe H := by
  have husable := usable_routing_create protocol maxHops alpha seenSize seenHashes
  have hcount : (create protocol maxHops alpha seenSize seenHashes).routing.levelCount =
      maxHops.toNat :=
    List.length_replicate
  refine ⟨(husable.safe_iff H).mpr (hcount ▸ hhops), ?_, ?_⟩
  · exact (BloomFilter.safe_iff H _).mpr hseen
  · intro slot hslot
    exact absurd hslot List.not_mem_nil

theorem usable_routing_subscribe {quasar : Quasar} (husable : quasar.routing.Usable)
    (topic : Bytes) (ttl : Nat) : (quasar.subscribe H topic ttl).routing.Usable := by
  have htopic := husable.call H (.subscribe topic)
  unfold subscribe
  dsimp only
  split_ifs
  · exact htopic.call H (.subscribe quasar.localNode.key)
  · exact htopic

theorem levelCount_routing_subscribe (quasar : Quasar) (topic : Bytes) (ttl : Nat) :
    (quasar.subscribe H topic ttl).routing.levelCount = quasar.routing.levelCount := by
  have htopic := quasar.routing.levelCount_call H (.subscribe topic)
  unfold subscribe
  dsimp only
  split_ifs
  · exact ((quasar.routing.subscribe H topic).levelCount_call H
      (.subscribe quasar.localNode.key)).trans htopic
  · exact htopic

end Quasar

namespace Channel

variable {crypto : Crypto} (H : HashFn)

theorem filtersSafe_rejoinWithConfig_iff (channel : Channel crypto) (config : ChannelConfig) :
    (channel.rejoinWithConfig H config).quasar.FiltersSafe H ↔
      1 ≤ config.quasarMaxHops.toNat ∧
        (config.quasarSeenHashes.toNat = 0 ∨ config.quasarSeenSize.toNat ≠ 0) := by
  let fresh := Quasar.create (channel.mapProtocol MeridianProtocol.stop).protocol
    config.quasarMaxHops config.quasarAlpha config.quasarSeenSize.toNat
    config.quasarSeenHashes.toNat
  have husable : (fresh.subscribe H channel.topic 300).routing.Usable :=
    Quasar.usable_routing_subscribe H (Quasar.usable_routing_create _ _ _ _ _) channel.topic 300
  have hcount : (fresh.subscribe H channel.topic 300).routing.levelCount =
      config.quasarMaxHops.toNat :=
    (Quasar.levelCount_routing_subscribe H fresh channel.topic 300).trans List.length_replicate
  have hrouting := husable.safe_iff H
  rw [hcount] at hrouting
  have hseen := fresh.seen.safe_iff H
  constructor
  · intro hsafe
    exact ⟨hrouting.mp hsafe.routing, hseen.mp hsafe.seen⟩
  · rintro ⟨hhops, hsizes⟩
    refine ⟨hrouting.mpr hhops, hseen.mpr hsizes, ?_⟩
    intro slot hslot
    exact absurd hslot List.not_mem_nil

end Channel

namespace Manager

variable {crypto : Crypto} (H : HashFn)

theorem findByTopic_updateChannel {manager : Manager crypto} {topic : Bytes}
    {channel : Channel crypto} (hfind : manager.findByTopic topic = some channel)
    {change : Channel crypto → Channel crypto}
    (htopic : ∀ other, (change other).topic = other.topic) :
    (manager.updateChannel channel.address change).findByTopic topic = some (change channel) := by
  have hsame : ∀ other : Channel crypto,
      (if other.address = channel.address then change other else other).topic = other.topic := by
    intro other
    split_ifs
    · exact htopic other
    · rfl
  unfold findByTopic updateChannel at *
  simp only [List.find?_map, Function.comp_def, hsame, hfind, Option.map_some, if_true]

theorem findByTopic_intercept_modify [Memory] {manager : Manager crypto} {data : Bytes}
    {now : ClockReading} {body : NoticeBody} {config : ChannelConfig} {channel : Channel crypto}
    (hread : DialPacket.read crypto data = some (.notice (.modify body config)))
    (hfind : manager.findByTopic body.topicId.bytes = some channel) :
    (manager.intercept H data now).2.1.findByTopic body.topicId.bytes =
      some (channel.rejoinWithConfig H config) := by
  have hstored : (manager.addTombstone (tombstoneOf (.modify body config) now)).findByTopic
      body.topicId.bytes = some channel := by
    rw [← hfind, findByTopic, findByTopic, channels_addTombstone]
  have hupdated := findByTopic_updateChannel hstored
    (show ∀ other : Channel crypto, (other.rejoinWithConfig H config).topic = other.topic from
      fun _ => rfl)
  simp only [intercept, hread, handlePacket, handleNotice, Notice.body, hstored, applyNotice]
  exact hupdated

end Manager

/-- **Arithmetic on network input.** Whatever calls follow, the filter of an accepted routed
message, the filters a node holds after an accepted gossip packet and the filters of a channel
reconfigured by a verified notice compute with defined operands exactly if the sizes read from that
input, whatever the memory holds, are ones a filter can compute with. -/
theorem arithmetic_defined_iff [Memory] (crypto : Crypto) (H : HashFn) :
    (∀ bytes msg, RouteMessage.deserialize bytes = some msg →
      (msg.visited.Safe H ↔
        RouteMessage.headerWord bytes 7 = 0 ∨ RouteMessage.headerWord bytes 6 ≠ 0)) ∧
    (∀ (quasar : Quasar) data sender, quasar.FiltersSafe H →
      (quasar.onGossip data sender).1 = 0 →
        ((quasar.onGossip data sender).2.FiltersSafe H ↔
          (sender.isSome = true → ∀ item ∈ Quasar.gossipLevels data, GuardedItem item))) ∧
    ∀ (manager : Manager crypto) data now body config channel,
      DialPacket.read crypto data = some (.notice (.modify body config)) →
        manager.findByTopic body.topicId.bytes = some channel →
          ∃ rejoined, (manager.intercept H data now).2.1.findByTopic body.topicId.bytes =
              some rejoined ∧
            (rejoined.quasar.FiltersSafe H ↔
              1 ≤ config.quasarMaxHops.toNat ∧
                (config.quasarSeenHashes.toNat = 0 ∨ config.quasarSeenSize.toNat ≠ 0)) := by
  refine ⟨?_, ?_, ?_⟩
  · intro bytes msg hdeserialize
    rw [BloomFilter.safe_iff]
    simp only [RouteMessage.deserialize, Option.ite_none_left_eq_some, Option.some.injEq]
      at hdeserialize
    obtain ⟨-, -, -, -, -, rfl⟩ := hdeserialize
    exact Iff.rfl
  · intro quasar data sender hsafe haccepted
    exact Quasar.filtersSafe_onGossip_iff H hsafe haccepted
  · intro manager data now body config channel hread hfind
    refine ⟨channel.rejoinWithConfig H config, ?_, ?_⟩
    · exact Manager.findByTopic_intercept_modify H hread hfind
    · exact channel.filtersSafe_rejoinWithConfig_iff H config

/-! ### Well chosen and badly chosen sizes -/

def sizedMessage (visitedSize : Nat) : Bytes :=
  ((RouteMessage.create ⟨1, 2, 3⟩ [7] [8] 3 visitedSize 3).serialize).getD []

def sizedGossip (size fpBits : Nat) : Bytes :=
  serialize (.array [.uint .w8 Quasar.gossipType, .uint .w32 1,
    AttenuatedBloomFilter.encode (.create 1 size 3 (3 / 4) fpBits)])

def sizedNotice (maxHops : UInt32) : Notice :=
  .modify (Manager.ownersBody 1) { ChannelConfig.defaults with quasarMaxHops := maxHops }

theorem read_sizedNotice (maxHops : UInt32) (hsample : maxHops = 0 ∨ maxHops = 2) :
    DialPacket.read Crypto.padded (serialize (sizedNotice maxHops).encode) =
      some (.notice (sizedNotice maxHops)) := by
  obtain rfl | rfl := hsample <;> decide +kernel

open Network (byteHash)

theorem arithmetic_defined_iff_wellSized :
    (∃ msg, RouteMessage.deserialize (sizedMessage 16) = some msg ∧
      msg.visited.Safe byteHash) ∧
    (((Quasar.create none 3 3 64 3).onGossip (sizedGossip 16 8) (some ⟨1, 1⟩)).1 = 0 ∧
      ((Quasar.create none 3 3 64 3).onGossip (sizedGossip 16 8)
        (some ⟨1, 1⟩)).2.FiltersSafe byteHash) ∧
    ∃ manager rejoined, Manager.withChannel = some manager ∧
      (manager.intercept byteHash (serialize (sizedNotice 2).encode)
        ⟨0, 0⟩).2.1.findByTopic (Manager.topicOf [1]).bytes = some rejoined ∧
        rejoined.quasar.FiltersSafe byteHash := by
  have hdefined := arithmetic_defined_iff Crypto.padded byteHash
  have hmessage : (RouteMessage.deserialize (sizedMessage 16)).isSome = true := by decide +kernel
  obtain ⟨msg, hmsg⟩ := Option.isSome_iff_exists.mp hmessage
  have haccepted : ((Quasar.create none 3 3 64 3).onGossip (sizedGossip 16 8)
      (some ⟨1, 1⟩)).1 = 0 := by
    decide +kernel
  obtain ⟨manager, channel, hmanager, hchannel⟩ := Manager.exists_withChannel
  obtain ⟨rejoined, hrejoined, hsafe⟩ := hdefined.2.2 manager _ ⟨0, 0⟩ _ _ channel
    (read_sizedNotice 2 (.inr rfl)) hchannel
  refine ⟨⟨msg, hmsg, ?_⟩, ⟨haccepted, ?_⟩, ⟨manager, rejoined, hmanager, hrejoined, ?_⟩⟩
  · exact (hdefined.1 _ msg hmsg).mpr (.inr (by decide +kernel))
  · apply (hdefined.2.1 _ _ _ (Quasar.filtersSafe_create _ none 3 64 (by decide) (.inr (by decide)))
      haccepted).mpr
    intro _
    decide +kernel
  · exact hsafe.mpr ⟨by decide, .inr (by decide)⟩

/-- A `visited` filter without bits, a neighbour's level without bits and a channel without levels
are all accepted. -/
theorem arithmetic_undefined_on_accepted :
    (∃ msg, RouteMessage.deserialize (sizedMessage 0) = some msg ∧
      ¬msg.visited.Safe byteHash) ∧
    (((Quasar.create none 3 3 64 3).onGossip (sizedGossip 0 8) (some ⟨1, 1⟩)).1 = 0 ∧
      ¬((Quasar.create none 3 3 64 3).onGossip (sizedGossip 0 8)
        (some ⟨1, 1⟩)).2.FiltersSafe byteHash) ∧
    ∃ manager rejoined, Manager.withChannel = some manager ∧
      (manager.intercept byteHash (serialize (sizedNotice 0).encode)
        ⟨0, 0⟩).2.1.findByTopic (Manager.topicOf [1]).bytes = some rejoined ∧
        ¬rejoined.quasar.FiltersSafe byteHash := by
  refine ⟨?_, ?_, ?_⟩
  · have hany : ((RouteMessage.deserialize (sizedMessage 0)).any fun msg =>
        decide (msg.visited.hashCount ≠ 0 ∧ msg.visited.size = 0)) = true := by
      decide +kernel
    obtain ⟨msg, hmsg, hsizes⟩ := (Option.any_eq_true _ _).mp hany
    refine ⟨msg, hmsg, ?_⟩
    rw [BloomFilter.safe_iff, BloomFilter.Guarded, not_or, not_not]
    exact of_decide_eq_true hsizes
  · have haccepted : ((Quasar.create none 3 3 64 3).onGossip (sizedGossip 0 8)
        (some ⟨1, 1⟩)).1 = 0 := by
      decide +kernel
    refine ⟨haccepted, ?_⟩
    rw [Quasar.filtersSafe_onGossip_iff _ (Quasar.filtersSafe_create _ none 3 64 (by decide)
      (.inr (by decide))) haccepted]
    decide +kernel
  · obtain ⟨manager, channel, hmanager, hchannel⟩ := Manager.exists_withChannel
    have hafter := @Manager.findByTopic_intercept_modify _ byteHash _ manager _ ⟨0, 0⟩ _ _
      channel (read_sizedNotice 0 (.inl rfl)) hchannel
    refine ⟨manager, _, hmanager, hafter, ?_⟩
    rw [Channel.filtersSafe_rejoinWithConfig_iff]
    rintro ⟨hhops, -⟩
    exact absurd hhops (by decide)

end Poseidon
