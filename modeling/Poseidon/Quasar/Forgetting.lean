import Poseidon.Quasar.Gossip

/-!
# What a node forgets

A neighbour's filter is replaced by its next one, but what it reported has by then been merged
into the routing filter, and nothing ever takes it out again. A topic that a node never subscribed
to is therefore reported, and advertised, exactly if some packet of the past was taken in.
-/

namespace Poseidon.Quasar

open Cbor (Memory)

variable (H : HashFn)

/-- The operation merges the topic into a level above level 0. -/
def TakesInGossip [Memory] (quasar : Quasar) (topic : Bytes) : Operation → Prop
  | .gossip data _ =>
      match decodeGossip data with
      | none => False
      | some received => ∃ pair ∈ received.levels.zip quasar.routing.levels.tail,
          pair.2.TakesIn H pair.1 topic
  | _ => False

instance [Memory] (quasar : Quasar) (topic : Bytes) :
    ∀ operation, Decidable (quasar.TakesInGossip H topic operation)
  | .gossip _ _ => by
      dsimp only [TakesInGossip]
      split <;> infer_instance
  | .subscribe _ _ | .unsubscribe _ | .tick | .setMessageCallback _ | .setProtocol _ =>
      isFalse id

/-- No level above level 0 contains the topic. -/
def Silent (quasar : Quasar) (topic : Bytes) : Prop :=
  ∀ i level, quasar.routing.levels[i + 1]? = some level → level.contains H topic = false

theorem contains_create {size hashCount : Nat} {omega : Rat} {fpBits : Nat} (hhash : 0 < hashCount)
    (topic : Bytes) :
    (ElasticBloomFilter.create size hashCount omega fpBits).contains H topic = false := by
  apply Bool.eq_false_iff.mpr
  intro hcontains
  have hbit := List.all_eq_true.mp hcontains _
    (List.mem_map.mpr ⟨0, List.mem_range.mpr hhash, rfl⟩)
  exact Bool.false_ne_true ((Bitset.get_create _ _).symm.trans hbit)

theorem silent_create (protocol : Option MeridianProtocol) (maxHops alpha : UInt32)
    (seenSize seenHashes : Nat) (topic : Bytes) :
    (create protocol maxHops alpha seenSize seenHashes).Silent H topic := by
  intro i level hlevel
  rw [List.eq_of_mem_replicate (List.mem_of_getElem? hlevel)]
  exact contains_create H (by decide) topic

theorem silent_iff_of_sameUpper {quasar after : Quasar} {topic : Bytes}
    (hsame : quasar.routing.SameUpper after.routing) :
    after.Silent H topic ↔ quasar.Silent H topic := by
  unfold Silent
  simp only [hsame.levels]

theorem silent_merge_iff {quasar after : Quasar} {received : AttenuatedBloomFilter}
    {topic : Bytes} (hmerge : after.routing = quasar.routing.merge received) :
    after.Silent H topic ↔ quasar.Silent H topic ∧
      ¬∃ pair ∈ received.levels.zip quasar.routing.levels.tail, pair.2.TakesIn H pair.1 topic := by
  have hget := AttenuatedBloomFilter.getElem?_levels_merge_succ quasar.routing received
  rw [← hmerge] at hget
  constructor
  · intro hsilent
    constructor
    · intro i level hlevel
      have hnext := hget i
      rw [hlevel, Option.map_some] at hnext
      apply Bool.eq_false_iff.mpr
      intro hcontains
      apply Bool.eq_false_iff.mp (hsilent i _ hnext)
      cases received.levels[i]? with
      | none => exact hcontains
      | some other =>
          exact (AttenuatedBloomFilter.contains_mergeLevel H level other topic).mpr
            (.inl hcontains)
    · rintro ⟨⟨other, level⟩, hpair, htakes⟩
      obtain ⟨i, hzip⟩ := List.mem_iff_getElem?.mp hpair
      obtain ⟨hother, hlevel⟩ := List.getElem?_zip_eq_some.mp hzip
      rw [List.getElem?_tail] at hlevel
      have hnext := hget i
      rw [hlevel, hother, Option.map_some] at hnext
      exact Bool.eq_false_iff.mp (hsilent i _ hnext)
        ((AttenuatedBloomFilter.contains_mergeLevel H level other topic).mpr (.inr htakes))
  · rintro ⟨hsilent, hnone⟩ i level hlevel
    rw [hget i, Option.map_eq_some_iff] at hlevel
    obtain ⟨own, hown, rfl⟩ := hlevel
    have hquiet := hsilent i own hown
    cases hother : received.levels[i]? with
    | none => exact hquiet
    | some other =>
        apply Bool.eq_false_iff.mpr
        intro hcontains
        obtain hold | htakes :=
          (AttenuatedBloomFilter.contains_mergeLevel H own other topic).mp hcontains
        · exact Bool.eq_false_iff.mp hquiet hold
        · apply hnone
          refine ⟨(other, own), List.mem_of_getElem? (List.getElem?_zip_eq_some.mpr
            ⟨hother, ?_⟩), htakes⟩
          rw [List.getElem?_tail]
          exact hown

theorem silent_perform_iff [Memory] (quasar : Quasar) (topic : Bytes) (operation : Operation) :
    (quasar.perform H operation).Silent H topic ↔
      quasar.Silent H topic ∧ ¬quasar.TakesInGossip H topic operation := by
  have hquiet : quasar.Silent H topic ↔ quasar.Silent H topic ∧ ¬False := (and_iff_left id).symm
  cases operation with
  | subscribe other ttl =>
      exact (silent_iff_of_sameUpper H (sameUpper_routing_subscribe H quasar other ttl)).trans
        hquiet
  | unsubscribe other =>
      have hsame : quasar.routing.SameUpper (quasar.unsubscribe H other).routing :=
        AttenuatedBloomFilter.sameUpper_unsubscribe H quasar.routing other
      exact (silent_iff_of_sameUpper H hsame).trans hquiet
  | tick => exact (silent_iff_of_sameUpper H (sameUpper_tick H quasar)).trans hquiet
  | gossip data sender =>
      cases hdecode : decodeGossip data with
      | none =>
          have hsame : quasar.perform H (.gossip data sender) = quasar := by
            simp only [perform, onGossip, hdecode]
          simp only [hsame, TakesInGossip, hdecode, not_false_eq_true, and_true]
      | some received =>
          have hmerge : (quasar.perform H (.gossip data sender)).routing =
              quasar.routing.merge received :=
            (quasar.onGossip_of_decodeGossip hdecode sender).2
          rw [silent_merge_iff H hmerge]
          simp only [TakesInGossip, hdecode]
  | setMessageCallback present => exact hquiet
  | setProtocol protocol => exact hquiet

/-! ### What is advertised -/

theorem check_eq_none_iff {filter : AttenuatedBloomFilter} {topic : Bytes} :
    filter.check H topic = none ↔ ∀ level ∈ filter.levels, level.contains H topic = false :=
  List.findIdx?_eq_none_iff

theorem check_received {filter : AttenuatedBloomFilter} (hwf : filter.WellFormed)
    {topic : Bytes} (hcheck : filter.check H topic = none) :
    filter.received.check H topic = none := by
  rw [check_eq_none_iff] at hcheck ⊢
  intro level hlevel
  obtain ⟨own, hown, rfl⟩ := List.mem_map.mp hlevel
  rw [ElasticBloomFilter.contains_received H (hwf own hown)]
  exact hcheck own hown

theorem eq_received_of_decodeGossip [Memory] {quasar : Quasar} (hwf : quasar.routing.WellFormed)
    (hfits : quasar.routing.Encodable) {advertised : AttenuatedBloomFilter}
    (hdecode : decodeGossip quasar.gossipPacket = some advertised) :
    advertised = quasar.routing.received := by
  have hlevels : 0 < quasar.routing.levelCount := by
    apply Nat.pos_of_ne_zero
    intro hnone
    have hrouting : quasar.routing = ⟨[]⟩ :=
      congrArg AttenuatedBloomFilter.mk (List.length_eq_zero_iff.mp hnone)
    -- a packet without levels is shorter than any that is read
    have hreject : decodeGossip quasar.gossipPacket = none := by
      rw [gossipPacket, hrouting]
      rfl
    rw [hreject] at hdecode
    contradiction
  rw [decodeGossip_gossipPacket hwf hfits hlevels] at hdecode
  exact (Option.some.inj hdecode).symm

theorem check_eq_none_iff_silent {quasar : Quasar} {topic : Bytes}
    (hown : ∀ level, quasar.routing.levels[0]? = some level → level.contains H topic = false) :
    quasar.routing.check H topic = none ↔ quasar.Silent H topic := by
  rw [check_eq_none_iff]
  constructor
  · intro hnone i level hlevel
    exact hnone level (List.mem_of_getElem? hlevel)
  · intro hsilent level hlevel
    obtain ⟨i, hget⟩ := List.mem_iff_getElem?.mp hlevel
    cases i with
    | zero => exact hown level hget
    | succ i => exact hsilent i level hget

/-- The topic is reported at no hop, nor by what the node advertises. -/
def Forgets [Memory] (quasar : Quasar) (topic : Bytes) : Prop :=
  quasar.routing.check H topic = none ∧ ∀ advertised, quasar.routing.Encodable →
    decodeGossip quasar.gossipPacket = some advertised → advertised.check H topic = none

/-- **Unsubscriptions propagate** only where the subscription did not. Behind any operations of a
node that never subscribed to the topic, of whose own items none collides with it at level 0, the
topic is forgotten exactly if no packet was taken in for it. -/
theorem forgets_iff_none_taken_in [Memory] (protocol : Option MeridianProtocol)
    (maxHops alpha : UInt32) (seenSize seenHashes : Nat) (topic : Bytes)
    (operations : List Operation)
    (hnever : ∀ ttl, .subscribe topic ttl ∉ operations)
    (hcollision : (∀ ttl, .subscribe topic ttl ∉ operations) → ∀ level,
      (Runs.run (perform H) (create protocol maxHops alpha seenSize seenHashes)
        operations).routing.levels[0]? = some level → level.contains H topic = false) :
    (Runs.run (perform H) (create protocol maxHops alpha seenSize seenHashes)
      operations).Forgets H topic ↔
      Runs.Meets (perform H) (fun quasar operation => ¬quasar.TakesInGossip H topic operation)
        (create protocol maxHops alpha seenSize seenHashes) operations := by
  have hsound : (Runs.run (perform H) (create protocol maxHops alpha seenSize seenHashes)
      operations).Sound maxHops.toNat :=
    Runs.invariant (perform H) (Sound maxHops.toNat)
      (fun _ operation hsound => hsound.perform H operation)
      (sound_create protocol maxHops alpha seenSize seenHashes)
  have hrun : (Runs.run (perform H) (create protocol maxHops alpha seenSize seenHashes)
      operations).Silent H topic ↔
      (create protocol maxHops alpha seenSize seenHashes).Silent H topic ∧
        Runs.Meets (perform H) (fun quasar operation => ¬quasar.TakesInGossip H topic operation)
          (create protocol maxHops alpha seenSize seenHashes) operations :=
    Runs.invariant_iff_meets (perform H) (fun quasar => quasar.Silent H topic)
      (fun quasar operation => silent_perform_iff H quasar topic operation)
  have hcheck := check_eq_none_iff_silent H (hcollision hnever)
  rw [hrun, and_iff_right (silent_create H protocol maxHops alpha seenSize seenHashes topic)]
    at hcheck
  rw [← hcheck]
  refine ⟨And.left, fun hnone => ⟨hnone, fun advertised hfits hdecode => ?_⟩⟩
  rw [eq_received_of_decodeGossip hsound.wellFormed hfits hdecode]
  exact check_received H hsound.wellFormed hnone

open Network (byteHash)

/-- The first packet reports a topic at a level of another size, the second one nothing. -/
theorem forgets_iff_none_taken_in_shrunken :
    (∃ received, decodeGossip shrunken.gossipPacket = some received ∧
      received.check byteHash [1] = some 0) ∧
    (Runs.run (perform byteHash) (create none 3 3 64 3)
      [.gossip shrunken.gossipPacket (some ⟨1, 1⟩),
        .gossip (create none 3 3 64 3).gossipPacket (some ⟨1, 1⟩)]).Forgets byteHash
          [1] := by
  have hown : ∀ level, (Runs.run (perform byteHash) (create none 3 3 64 3)
      [.gossip shrunken.gossipPacket (some ⟨1, 1⟩),
        .gossip (create none 3 3 64 3).gossipPacket (some ⟨1, 1⟩)]).routing.levels[0]? =
          some level → level.contains byteHash [1] = false := by
    intro level hlevel
    rw [Runs.run_cons, Runs.run_cons, Runs.run_nil, levels_zero_gossip, levels_zero_gossip]
      at hlevel
    rw [List.eq_of_mem_replicate (List.mem_of_getElem? hlevel)]
    exact contains_create byteHash (by decide) [1]
  have hforgets := (forgets_iff_none_taken_in byteHash none 3 3 64 3 [1]
    [.gossip shrunken.gossipPacket (some ⟨1, 1⟩),
      .gossip (create none 3 3 64 3).gossipPacket (some ⟨1, 1⟩)]
    (by simp) (fun _ => hown)).mpr (by decide +kernel)
  exact ⟨check_shrunken, hforgets⟩

/-- A neighbour that subscribes, sends its packet, unsubscribes and sends the next. -/
def subscriber : Quasar :=
  (create none 3 3 64 3).subscribe byteHash [1] 0

theorem reported_after_unsubscription :
    (∃ first second,
      decodeGossip subscriber.gossipPacket = some first ∧
      first.check byteHash [1] = some 0 ∧
      decodeGossip (subscriber.unsubscribe byteHash [1]).gossipPacket = some second ∧
      second.check byteHash [1] = none) ∧
    (Runs.run (perform byteHash) (create none 3 3 64 3)
      [.gossip subscriber.gossipPacket (some ⟨1, 1⟩),
        .gossip (subscriber.unsubscribe byteHash [1]).gossipPacket
          (some ⟨1, 1⟩)]).routing.check byteHash [1] = some 1 := by
  have hfirst : (decodeGossip subscriber.gossipPacket).bind
      (·.check byteHash [1]) = some 0 := by
    decide +kernel
  have hsecond : ((decodeGossip (subscriber.unsubscribe byteHash [1]).gossipPacket).any
      fun second => second.check byteHash [1] == none) = true := by
    decide +kernel
  obtain ⟨first, hdecode, hcheck⟩ := Option.bind_eq_some_iff.mp hfirst
  obtain ⟨second, hdecode', hcheck'⟩ := (Option.any_eq_true _ _).mp hsecond
  exact ⟨⟨first, second, hdecode, hcheck, hdecode', eq_of_beq hcheck'⟩, by decide +kernel⟩

end Poseidon.Quasar
