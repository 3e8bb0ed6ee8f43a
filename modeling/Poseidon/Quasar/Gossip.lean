import Poseidon.Bloom.CodecRoundTrip
import Poseidon.Quasar.Subscriptions

/-!
# What gossip carries

A node that accepts gossip merges every level of the received filter into its own level above.
The merge of one level does nothing if the two filters differ in size, and `quasar_on_gossip`
reports success all the same. The sizes differ as soon as one node unsubscribes: its level 0 is
halved, the upper levels never are.

Where sizes and hash parameters agree, gossip arrives: passed on along a path, a subscription is
reported at the end of the path within as many hops as the path has.
-/

namespace Poseidon.Quasar

open Cbor

variable (H : HashFn)

/-! ### The packet -/

theorem lt_length_serialize_encode (level : ElasticBloomFilter) :
    36 ≤ (serialize level.encode).length := by
  have hhead : ∀ major value, 1 ≤ (encodeHead major value).length := by
    intro major value
    unfold encodeHead
    split_ifs <;> simp
  have := hhead 4
  unfold ElasticBloomFilter.encode
  simp only [List.cons_append, serialize, serializeAll, encodeInt, List.length_append,
    List.length_cons, length_beBytes]
  omega

variable {quasar : Quasar} {hops : Nat}

theorem lt_length_gossipPacket (hlevels : 0 < quasar.routing.levelCount) :
    28 ≤ quasar.gossipPacket.length := by
  obtain ⟨level, hlevel⟩ := List.exists_mem_of_length_pos hlevels
  obtain ⟨front, rest, hsplit⟩ := List.append_of_mem hlevel
  have hall : ∀ items : List Item, (serializeAll items).length =
      (items.map fun item => (serialize item).length).sum := by
    intro items
    induction items with
    | nil => rfl
    | cons item items ih => simp [serializeAll, ih]
  have hlength := lt_length_serialize_encode level
  unfold gossipPacket AttenuatedBloomFilter.encode
  rw [hsplit]
  simp only [serialize, serializeAll, hall, List.length_append, List.map_append, List.map_cons,
    List.sum_append, List.sum_cons]
  omega

theorem decodeGossip_gossipPacket [Memory] (hwf : quasar.routing.WellFormed)
    (hfits : quasar.routing.Encodable) (hlevels : 0 < quasar.routing.levelCount) :
    decodeGossip quasar.gossipPacket = some quasar.routing.received := by
  have hshaped : ∀ level ∈ quasar.routing.levels, level.Shaped :=
    fun level hlevel => (hwf level hlevel).shaped
  have hitem : Item.Fits maxStackSize (.array [.uint .w8 gossipType,
      .uint .w32 quasar.routing.levelCount, quasar.routing.encode]) := by
    refine ⟨by decide, by simp, ?_, hfits.levelCount, ?_, trivial⟩
    · change gossipType < 256 ^ IntWidth.w8.bytes
      decide
    · exact AttenuatedBloomFilter.fits_encode hshaped hfits (by decide)
  have hload : load quasar.gossipPacket = some (.array [.uint .w8 gossipType,
      .uint .w32 quasar.routing.levelCount, quasar.routing.encode]) := load_serialize hitem
  have hcount : quasar.routing.received.levelCount =
      (Item.uint .w32 quasar.routing.levelCount).getUint32 :=
    (List.length_map _).trans (Item.read_uint _ rfl hfits.levelCount).symm
  have hlong : ¬quasar.gossipPacket.length < 28 := not_lt.mpr (lt_length_gossipPacket hlevels)
  have htype : (Item.uint .w8 gossipType).getUint8 = gossipType :=
    Item.getUint8_uint (by decide)
  unfold decodeGossip
  rw [if_neg hlong, hload]
  simp [Item.isUint, htype, AttenuatedBloomFilter.decode_encode hshaped hfits, hcount]

theorem onGossip_of_decodeGossip [Memory] (quasar : Quasar) {data : Bytes}
    {received : AttenuatedBloomFilter} (hdecode : decodeGossip data = some received)
    (sender : Option MeridianNode) :
    (quasar.onGossip data sender).1 = 0 ∧
      (quasar.onGossip data sender).2.routing = quasar.routing.merge received := by
  unfold onGossip
  rw [hdecode]
  cases sender with
  | none => exact ⟨rfl, rfl⟩
  | some node => exact ⟨rfl, rfl⟩

theorem routing_onGossip [Memory] (quasar : Quasar) (data : Bytes) (sender : Option MeridianNode) :
    (quasar.onGossip data sender).2.routing = quasar.routing ∨
      ∃ received, decodeGossip data = some received ∧
        (quasar.onGossip data sender).2.routing = quasar.routing.merge received := by
  cases hdecode : decodeGossip data with
  | none =>
      left
      unfold onGossip
      rw [hdecode]
  | some received =>
      exact .inr ⟨received, rfl, (quasar.onGossip_of_decodeGossip hdecode sender).2⟩

theorem levels_zero_gossip [Memory] (quasar : Quasar) (data : Bytes)
    (sender : Option MeridianNode) :
    (quasar.perform H (.gossip data sender)).routing.levels[0]? = quasar.routing.levels[0]? := by
  change (quasar.onGossip data sender).2.routing.levels[0]? = quasar.routing.levels[0]?
  obtain hsame | ⟨received, -, hmerge⟩ := quasar.routing_onGossip data sender
  · rw [hsame]
  · rw [hmerge, AttenuatedBloomFilter.getElem?_levels_merge_zero]

theorem load_of_decodeGossip [Memory] {data : Bytes} {received : AttenuatedBloomFilter}
    (hdecode : decodeGossip data = some received) :
    ∃ type levelCount encoded rest,
      load data = some (.array (type :: levelCount :: encoded :: rest)) ∧
        AttenuatedBloomFilter.decode encoded = some received := by
  unfold decodeGossip at hdecode
  split_ifs at hdecode
  split at hdecode
  · rename_i type levelCount encoded rest hload
    split_ifs at hdecode
    split at hdecode
    · contradiction
    · rename_i filter hfilter
      split_ifs at hdecode
      obtain rfl := Option.some.inj hdecode
      exact ⟨type, levelCount, encoded, rest, hload, hfilter⟩
  · contradiction

theorem wellFormed_of_decodeGossip [Memory] {data : Bytes} {received : AttenuatedBloomFilter}
    (hdecode : decodeGossip data = some received) {level : ElasticBloomFilter}
    (hlevel : level ∈ received.levels) (hpos : 0 < level.size) : level.WellFormed := by
  obtain ⟨-, -, encoded, -, -, hfilter⟩ := load_of_decodeGossip hdecode
  exact AttenuatedBloomFilter.wellFormed_of_decode hfilter hlevel hpos

/-! ### The routing filter of a node over time -/

structure Sound (levels : Nat) (quasar : Quasar) : Prop where
  levelCount : quasar.routing.levelCount = levels
  wellFormed : quasar.routing.WellFormed

theorem sound_create (protocol : Option MeridianProtocol) (maxHops alpha : UInt32)
    (seenSize seenHashes : Nat) :
    (create protocol maxHops alpha seenSize seenHashes).Sound maxHops.toNat :=
  ⟨List.length_replicate, AttenuatedBloomFilter.WellFormed.create (by decide) _ _ _ _⟩

theorem wellFormed_subscribe (hwf : quasar.routing.WellFormed) (topic : Bytes) (ttl : Nat) :
    (quasar.subscribe H topic ttl).routing.WellFormed := by
  unfold subscribe
  dsimp only
  split_ifs
  · exact (hwf.subscribe H topic).subscribe H _
  · exact hwf.subscribe H topic

theorem sameUpper_routing_subscribe (quasar : Quasar) (topic : Bytes) (ttl : Nat) :
    quasar.routing.SameUpper (quasar.subscribe H topic ttl).routing := by
  have hfirst := AttenuatedBloomFilter.sameUpper_subscribe H quasar.routing topic
  unfold subscribe
  dsimp only
  split_ifs
  · exact hfirst.trans (AttenuatedBloomFilter.sameUpper_subscribe H _ _)
  · exact hfirst

theorem wellFormed_tick (hwf : quasar.routing.WellFormed) : (quasar.tick H).routing.WellFormed := by
  unfold tick
  rw [tickSubs_eq]
  exact Runs.invariant (fun routing topic => routing.unsubscribe H topic)
    AttenuatedBloomFilter.WellFormed (fun _ topic hrouting => hrouting.unsubscribe H topic) hwf

theorem sameUpper_tick (quasar : Quasar) :
    quasar.routing.SameUpper (quasar.tick H).routing := by
  unfold tick
  rw [tickSubs_eq]
  exact Runs.invariant (fun routing topic => routing.unsubscribe H topic)
    (AttenuatedBloomFilter.SameUpper quasar.routing)
    (fun routing topic hsame =>
      hsame.trans (AttenuatedBloomFilter.sameUpper_unsubscribe H routing topic))
    (AttenuatedBloomFilter.SameUpper.refl quasar.routing)

theorem Sound.onGossip [Memory] {levels : Nat} (hsound : quasar.Sound levels) (data : Bytes)
    (sender : Option MeridianNode) : (quasar.onGossip data sender).2.Sound levels := by
  obtain hsame | ⟨received, hdecode, hmerge⟩ := quasar.routing_onGossip data sender
  · exact ⟨hsame ▸ hsound.levelCount, hsame ▸ hsound.wellFormed⟩
  · refine ⟨?_, ?_⟩
    · rw [hmerge, AttenuatedBloomFilter.levelCount_merge]
      exact hsound.levelCount
    · rw [hmerge]
      exact hsound.wellFormed.merge fun _ hlevel hpos =>
        wellFormed_of_decodeGossip hdecode hlevel hpos

theorem Sound.perform [Memory] {levels : Nat} (hsound : quasar.Sound levels)
    (operation : Operation) : (quasar.perform H operation).Sound levels := by
  cases operation with
  | subscribe topic ttl =>
      exact ⟨(sameUpper_routing_subscribe H quasar topic ttl).levelCount.trans hsound.levelCount,
        wellFormed_subscribe H hsound.wellFormed topic ttl⟩
  | unsubscribe topic =>
      exact ⟨(AttenuatedBloomFilter.sameUpper_unsubscribe H quasar.routing topic).levelCount.trans
        hsound.levelCount, hsound.wellFormed.unsubscribe H topic⟩
  | tick =>
      exact ⟨(sameUpper_tick H quasar).levelCount.trans hsound.levelCount,
        wellFormed_tick H hsound.wellFormed⟩
  | gossip data sender => exact hsound.onGossip data sender
  | setMessageCallback present => exact ⟨hsound.levelCount, hsound.wellFormed⟩
  | setProtocol protocol => exact ⟨hsound.levelCount, hsound.wellFormed⟩

/-- A level from 1 up to `hops` contains the topic. Such a level only ever takes in more. -/
def Relays (quasar : Quasar) (topic : Bytes) (hops : Nat) : Prop :=
  ∃ i < hops, ∃ level, quasar.routing.levels[i + 1]? = some level ∧
    level.contains H topic = true

theorem Relays.reportsWithin {topic : Bytes} (hrelays : quasar.Relays H topic hops) :
    quasar.routing.ReportsWithin H topic hops := by
  obtain ⟨i, hi, level, hlevel, hcontains⟩ := hrelays
  exact (AttenuatedBloomFilter.reportsWithin_iff H).mpr ⟨i + 1, hi, level, hlevel, hcontains⟩

theorem Relays.of_sameUpper {after : Quasar} {topic : Bytes}
    (hrelays : quasar.Relays H topic hops) (hsame : quasar.routing.SameUpper after.routing) :
    after.Relays H topic hops := by
  obtain ⟨i, hi, level, hlevel, hcontains⟩ := hrelays
  exact ⟨i, hi, level, (hsame.levels i).trans hlevel, hcontains⟩

theorem Relays.onGossip [Memory] {topic : Bytes} (hrelays : quasar.Relays H topic hops)
    (data : Bytes) (sender : Option MeridianNode) :
    (quasar.onGossip data sender).2.Relays H topic hops := by
  obtain ⟨i, hi, level, hlevel, hcontains⟩ := hrelays
  obtain hsame | ⟨received, -, hmerge⟩ := quasar.routing_onGossip data sender
  · exact ⟨i, hi, level, hsame ▸ hlevel, hcontains⟩
  · have hget := AttenuatedBloomFilter.getElem?_levels_merge_succ quasar.routing received i
    rw [hlevel, ← hmerge] at hget
    refine ⟨i, hi, _, hget, ?_⟩
    cases received.levels[i]? with
    | none => exact hcontains
    | some other =>
        exact (AttenuatedBloomFilter.contains_mergeLevel H level other topic).mpr (.inl hcontains)

theorem Relays.perform [Memory] {topic : Bytes} (hrelays : quasar.Relays H topic hops)
    (operation : Operation) : (quasar.perform H operation).Relays H topic hops := by
  cases operation with
  | subscribe other ttl =>
      exact hrelays.of_sameUpper H (sameUpper_routing_subscribe H quasar other ttl)
  | unsubscribe other =>
      exact hrelays.of_sameUpper H
        (AttenuatedBloomFilter.sameUpper_unsubscribe H quasar.routing other)
  | tick => exact hrelays.of_sameUpper H (sameUpper_tick H quasar)
  | gossip data sender => exact hrelays.onGossip H data sender
  | setMessageCallback present => exact hrelays
  | setProtocol protocol => exact hrelays

/-! ### Gossip along a path -/

/-- The levels that a merge puts together have the same shape. -/
def Aligned (source target : Quasar) : Prop :=
  ∀ pair ∈ source.routing.levels.zip target.routing.levels.tail,
    ElasticBloomFilter.SameShape pair.2 pair.1

instance (source target : Quasar) : Decidable (source.Aligned target) :=
  inferInstanceAs (Decidable (∀ pair ∈ _, _))

theorem Aligned.sameShape {source target : Quasar} (haligned : source.Aligned target) {i : Nat}
    {src dest : ElasticBloomFilter} (hsrc : source.routing.levels[i]? = some src)
    (hdest : target.routing.levels[i + 1]? = some dest) :
    ElasticBloomFilter.SameShape dest src := by
  have htail : target.routing.levels.tail[i]? = some dest := by
    rw [List.getElem?_tail]
    exact hdest
  have hzip : (source.routing.levels.zip target.routing.levels.tail)[i]? = some (src, dest) :=
    List.getElem?_zip_eq_some.mpr ⟨hsrc, htail⟩
  exact haligned (src, dest) (List.mem_of_getElem? hzip)

inductive GossipStep (ι : Type) where
  | operate (node : ι) (operation : Operation)
  | propagate (source target : ι) (sender : MeridianNode)

variable {ι : Type} [DecidableEq ι]

def gossipStep [Memory] (nodes : ι → Quasar) : GossipStep ι → ι → Quasar
  | .operate node operation => Function.update nodes node ((nodes node).perform H operation)
  | .propagate source target sender =>
      Function.update nodes target
        ((nodes target).onGossip (nodes source).gossipPacket (some sender)).2

/-- Gossip is sent between aligned nodes, and what is sent fits its encoding. -/
def Compatible (nodes : ι → Quasar) : GossipStep ι → Prop
  | .operate _ _ => True
  | .propagate source target _ =>
      (nodes source).Aligned (nodes target) ∧ (nodes source).routing.Encodable

instance (nodes : ι → Quasar) : ∀ step : GossipStep ι, Decidable (Compatible nodes step)
  | .operate _ _ => isTrue trivial
  | .propagate _ _ _ => inferInstanceAs (Decidable (_ ∧ _))

def passing : ι → List (ι × MeridianNode) → List (GossipStep ι)
  | _, [] => []
  | source, hop :: path => .propagate source hop.1 hop.2 :: passing hop.1 path

def endpoint : ι → List (ι × MeridianNode) → ι
  | source, [] => source
  | _, hop :: path => endpoint hop.1 path

theorem gossipStep_eq_or [Memory] (nodes : ι → Quasar) (step : GossipStep ι) (node : ι) :
    gossipStep H nodes step node = nodes node ∨
      ∃ operation, gossipStep H nodes step node = (nodes node).perform H operation := by
  cases step with
  | operate actor operation =>
      by_cases heq : node = actor
      · subst heq
        exact .inr ⟨operation, Function.update_self ..⟩
      · exact .inl (Function.update_of_ne heq ..)
  | propagate source target sender =>
      by_cases heq : node = target
      · subst heq
        exact .inr ⟨.gossip (nodes source).gossipPacket (some sender), Function.update_self ..⟩
      · exact .inl (Function.update_of_ne heq ..)

variable {nodes : ι → Quasar}

theorem sound_gossipStep [Memory] {levels : Nat} (hsound : ∀ node, (nodes node).Sound levels)
    (step : GossipStep ι) (node : ι) : (gossipStep H nodes step node).Sound levels := by
  obtain hsame | ⟨operation, hperform⟩ := gossipStep_eq_or H nodes step node
  · rw [hsame]
    exact hsound node
  · rw [hperform]
    exact (hsound node).perform H operation

theorem Relays.gossipStep [Memory] {node : ι} {topic : Bytes} {hops : Nat}
    (hrelays : (nodes node).Relays H topic hops) (step : GossipStep ι) :
    (Quasar.gossipStep H nodes step node).Relays H topic hops := by
  obtain hsame | ⟨operation, hperform⟩ := gossipStep_eq_or H nodes step node
  · rw [hsame]
    exact hrelays
  · rw [hperform]
    exact hrelays.perform H operation

theorem relays_propagate [Memory] {levels hops : Nat} {source target : ι} {sender : MeridianNode}
    {topic : Bytes} (hsource : (nodes source).Sound levels)
    (htarget : (nodes target).Sound levels)
    (hcompatible : Compatible nodes (.propagate source target sender))
    (hreports : (nodes source).routing.ReportsWithin H topic hops) (hlevels : hops + 1 < levels) :
    (gossipStep H nodes (.propagate source target sender) target).Relays H topic (hops + 1) := by
  obtain ⟨haligned, hfits⟩ := hcompatible
  obtain ⟨i, hi, level, hlevel, hcontains⟩ :=
    (AttenuatedBloomFilter.reportsWithin_iff H).mp hreports
  have hdecode := decodeGossip_gossipPacket hsource.wellFormed hfits
    (by rw [hsource.levelCount]; omega)
  obtain ⟨-, hmerge⟩ := (nodes target).onGossip_of_decodeGossip hdecode (some sender)
  have hlt : i + 1 < (nodes target).routing.levels.length := by
    have hcount : (nodes target).routing.levels.length = levels := htarget.levelCount
    omega
  have hdest := List.getElem?_eq_getElem hlt
  have hshape := haligned.sameShape hlevel hdest
  have hwf := hsource.wellFormed level (List.mem_of_getElem? hlevel)
  have hreceived : (nodes source).routing.received.levels[i]? = some level.received := by
    simp only [AttenuatedBloomFilter.received, List.getElem?_map, hlevel, Option.map_some]
  have hshape' : ElasticBloomFilter.SameShape (nodes target).routing.levels[i + 1]
      level.received :=
    ⟨hshape.size, hshape.bucketCount, hshape.hashCount, hshape.seedA, hshape.seedB⟩
  simp only [gossipStep, Function.update_self]
  refine ⟨i, by omega, AttenuatedBloomFilter.mergeLevel (nodes target).routing.levels[i + 1]
    level.received, ?_, ?_⟩
  · rw [hmerge, AttenuatedBloomFilter.getElem?_levels_merge_succ, hdest, hreceived]
    rfl
  · apply (AttenuatedBloomFilter.contains_mergeLevel H _ _ topic).mpr
    right
    apply hshape'.takesIn H
    rw [ElasticBloomFilter.contains_received H hwf]
    exact hcontains

theorem relays_run [Memory] {levels : Nat} {topic : Bytes} {labels : List (GossipStep ι)} :
    ∀ {nodes : ι → Quasar} {source : ι} {path : List (ι × MeridianNode)} {hops : Nat},
      (∀ node, (nodes node).Sound levels) → Runs.Meets (gossipStep H) Compatible nodes labels →
      (nodes source).Relays H topic hops → List.Sublist (passing source path) labels →
      hops + path.length < levels →
      (Runs.run (gossipStep H) nodes labels (endpoint source path)).Relays H topic
        (hops + path.length) := by
  induction labels with
  | nil =>
      intro nodes source path hops _ _ hrelays hsublist _
      cases path with
      | nil => exact hrelays
      | cons hop path => exact absurd hsublist (by simp [passing])
  | cons label labels ih =>
      intro nodes source path hops hsound hmeets hrelays hsublist hlevels
      have hsound' := sound_gossipStep H hsound label
      cases path with
      | nil =>
          exact ih hsound' hmeets.2 (hrelays.gossipStep H label) (List.nil_sublist _) hlevels
      | cons hop path =>
          obtain hskip | ⟨rest, hrest, htake⟩ := List.sublist_cons_iff.mp hsublist
          · exact ih hsound' hmeets.2 (hrelays.gossipStep H label) hskip hlevels
          · obtain ⟨rfl, rfl⟩ := List.cons.inj hrest
            rw [List.length_cons] at hlevels ⊢
            have hnext := relays_propagate H (hsound source) (hsound hop.1) hmeets.1
              (hrelays.reportsWithin H) (by omega)
            have hend := ih hsound' hmeets.2 hnext htake (by omega)
            rw [Nat.add_assoc, Nat.add_comm 1] at hend
            exact hend

omit [DecidableEq ι] in
theorem reportsWithin_onGossip_iff [Memory] {quasar : Quasar} {data : Bytes} {sender : MeridianNode}
    (haccepted : (quasar.onGossip data (some sender)).1 = 0) :
    ∃ received, decodeGossip data = some received ∧ ∀ topic hop,
      (quasar.onGossip data (some sender)).2.routing.ReportsWithin H topic (hop + 1) ↔
        quasar.routing.ReportsWithin H topic (hop + 1) ∨
          ∃ i ≤ hop, ∃ level other, quasar.routing.levels[i + 1]? = some level ∧
            received.levels[i]? = some other ∧ level.TakesIn H other topic := by
  cases hdecode : decodeGossip data with
  | none => simp [onGossip, hdecode] at haccepted
  | some received =>
      refine ⟨received, rfl, fun topic hop => ?_⟩
      rw [(quasar.onGossip_of_decodeGossip hdecode (some sender)).2]
      exact AttenuatedBloomFilter.reportsWithin_merge_iff H quasar.routing received topic hop

/-- **What becomes of accepted gossip.** A topic that an accepted packet reports at hop `h` is
reported within `h + 1` hops afterwards exactly if it already was, or if one of the levels takes
it in, which needs filters of the same size. Passed on between nodes whose levels have the same
shape, and whatever else the nodes do in between, a subscription is reported within as many hops
as gossip has passed. -/
theorem accepted_gossip_kept [Memory] :
    (∀ (quasar : Quasar) (data : Bytes) (sender : MeridianNode),
      (quasar.onGossip data (some sender)).1 = 0 →
      ∃ received, decodeGossip data = some received ∧ ∀ topic hop,
        received.check H topic = some hop → hop + 1 < quasar.routing.levelCount →
        ((quasar.onGossip data (some sender)).2.routing.ReportsWithin H topic (hop + 1) ↔
          quasar.routing.ReportsWithin H topic (hop + 1) ∨
            ∃ i ≤ hop, ∃ level other, quasar.routing.levels[i + 1]? = some level ∧
              received.levels[i]? = some other ∧ level.TakesIn H other topic)) ∧
    ∀ (maxHops : UInt32) (nodes : ι → Quasar),
      (∀ node, ∃ protocol alpha seenSize seenHashes,
        nodes node = create protocol maxHops alpha seenSize seenHashes) →
      ∀ (before after : List (GossipStep ι)) (source target : ι) (sender : MeridianNode)
        (path : List (ι × MeridianNode)) (topic : Bytes),
      Runs.Meets (gossipStep H) Compatible nodes
        (before ++ .propagate source target sender :: after) →
      List.Sublist (passing target path) after →
      (Runs.run (gossipStep H) nodes before source).routing.check H topic = some 0 →
      path.length + 1 < maxHops.toNat →
      (Runs.run (gossipStep H) nodes (before ++ .propagate source target sender :: after)
        (endpoint target path)).routing.ReportsWithin H topic (path.length + 1) := by
  constructor
  · intro quasar data sender haccepted
    obtain ⟨received, hdecode, hiff⟩ := reportsWithin_onGossip_iff H haccepted
    exact ⟨received, hdecode, fun topic hop _ _ => hiff topic hop⟩
  · intro maxHops nodes hfresh before after source target sender path topic hmeets hpass hcheck
      hlevels
    have hsound : ∀ node, (nodes node).Sound maxHops.toNat := by
      intro node
      obtain ⟨protocol, alpha, seenSize, seenHashes, hnode⟩ := hfresh node
      rw [hnode]
      exact sound_create protocol maxHops alpha seenSize seenHashes
    have hreached : ∀ node, (Runs.run (gossipStep H) nodes before node).Sound maxHops.toNat :=
      Runs.invariant (gossipStep H) (fun nodes => ∀ node, (nodes node).Sound maxHops.toNat)
        (fun _ step hsound => sound_gossipStep H hsound step) hsound
    obtain ⟨-, hcompatible, hmeets⟩ := (Runs.meets_append (gossipStep H)).mp hmeets
    have hfirst := relays_propagate H (hreached source) (hreached target) hcompatible
      ⟨0, le_rfl, hcheck⟩ (by omega)
    have hlast := relays_run H (sound_gossipStep H hreached _) hmeets hfirst hpass (by omega)
    rw [Runs.run_append, Runs.run_cons, Nat.add_comm path.length]
    exact hlast.reportsWithin H

open Network (byteHash)

/-- Three nodes in a line: the first subscribes, its gossip reaches the second and then the
third. -/
theorem accepted_gossip_kept_line :
    (∃ hop ≤ 2, (Runs.run (gossipStep byteHash)
        (fun _ : Fin 3 => create none 4 3 64 3)
        [.operate 0 (.subscribe [1] 0), .propagate 0 1 ⟨1, 1⟩, .operate 1 (.subscribe [2] 0),
          .propagate 1 2 ⟨1, 2⟩] 2).routing.check byteHash [1] = some hop) ∧
      List.Sublist (passing (1 : Fin 3) [(2, ⟨1, 2⟩)])
        [.operate 1 (.subscribe [2] 0), .propagate 1 2 ⟨1, 2⟩] := by
  have hpass : List.Sublist (passing (1 : Fin 3) [(2, ⟨1, 2⟩)])
      [.operate 1 (.subscribe [2] 0), .propagate 1 2 ⟨1, 2⟩] :=
    List.Sublist.cons _ (List.Sublist.refl _)
  have hkept := (accepted_gossip_kept byteHash).2 4 (fun _ : Fin 3 => create none 4 3 64 3)
    (fun _ => ⟨none, 3, 64, 3, rfl⟩) [.operate 0 (.subscribe [1] 0)]
    [.operate 1 (.subscribe [2] 0), .propagate 1 2 ⟨1, 2⟩] 0 1 ⟨1, 1⟩ [(2, ⟨1, 2⟩)] [1]
    (by decide +kernel) hpass (by decide +kernel) (by decide)
  exact ⟨hkept, hpass⟩

/-- A node with two subscriptions that has dropped one of them: level 0 is half as large as the
levels it is merged into. -/
def shrunken : Quasar :=
  Runs.run (perform byteHash) (create none 3 3 64 3)
    [.subscribe [1] 0, .subscribe [2] 0, .unsubscribe [2]]

theorem check_shrunken :
    ∃ received, decodeGossip shrunken.gossipPacket = some received ∧
      received.check byteHash [1] = some 0 := by
  have hreceived : (decodeGossip shrunken.gossipPacket).bind
      (·.check byteHash [1]) = some 0 := by
    decide +kernel
  exact Option.bind_eq_some_iff.mp hreceived

theorem accepted_gossip_lost :
    ∃ received, decodeGossip shrunken.gossipPacket = some received ∧
      received.check byteHash [1] = some 0 ∧
      0 + 1 < (create none 3 3 64 3).routing.levelCount ∧
      ((create none 3 3 64 3).onGossip shrunken.gossipPacket (some ⟨1, 1⟩)).1 = 0 ∧
      ((create none 3 3 64 3).onGossip shrunken.gossipPacket (some ⟨1, 1⟩)).2.routing.check
        byteHash [1] = none := by
  obtain ⟨received, hdecode, hcheck⟩ := check_shrunken
  exact ⟨received, hdecode, hcheck, by decide +kernel⟩

end Poseidon.Quasar
