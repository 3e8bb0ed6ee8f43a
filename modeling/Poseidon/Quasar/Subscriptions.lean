import Poseidon.Bloom.Recorded
import Poseidon.Quasar.Network

/-!
# Local subscriptions in the routing filter

Level 0 of the routing filter should report every topic of `local_subs`. It does as long as it
tracks them, and it can lose one in two ways: an expansion when a topic has no known bit left, and
a removal that takes a fingerprint by which a remaining topic is recorded. The latter happens
already when one topic is subscribed twice and unsubscribed once.
-/

namespace Poseidon.Quasar

variable (H : HashFn)

def topics (quasar : Quasar) : List Bytes :=
  quasar.localSubs.map Subscription.topic

def levelZero (quasar : Quasar) : ElasticBloomFilter :=
  quasar.routing.levels.headD (ElasticBloomFilter.create 0 0 0 0)

def expired (quasar : Quasar) : List Bytes :=
  (quasar.localSubs.filter fun sub => sub.ttl == 1).map Subscription.topic

def surviving (quasar : Quasar) : List Bytes :=
  (quasar.localSubs.filter fun sub => sub.ttl != 1).map Subscription.topic

/-- An operation that loses no subscription: adding expands level 0 only while every topic has a
known bit left, and removing spares the fingerprints of the topics that stay. -/
def lossless (quasar : Quasar) : Operation → Bool
  | .subscribe topic _ =>
      quasar.levelZero.KeepsAdding H quasar.topics topic ∧
        (quasar.localNode.addr ≠ 0 ∨ quasar.localNode.port ≠ 0 →
          (quasar.levelZero.add H topic).KeepsAdding H (quasar.topics ++ [topic])
            quasar.localNode.key)
  | .unsubscribe topic =>
      quasar.levelZero.KeepsRemoving H
        ((quasar.localSubs.eraseP fun sub => sub.topic == topic).map Subscription.topic) topic
  | .tick =>
      Runs.Meets (fun filter topic => filter.remove H topic)
        (fun filter topic => filter.KeepsRemoving H quasar.surviving topic) quasar.levelZero
        quasar.expired
  | _ => true

structure Reports (quasar : Quasar) : Prop where
  levels : quasar.routing.levels = quasar.levelZero :: quasar.routing.levels.tail
  fpBits : quasar.levelZero.fpBits = defaultFpBits
  tracks : quasar.levelZero.Tracks H quasar.topics

variable {quasar : Quasar} {upper : List ElasticBloomFilter} {filter : ElasticBloomFilter}
  {routing : AttenuatedBloomFilter}

theorem Reports.check (hreports : quasar.Reports H) {sub : Subscription}
    (hsub : sub ∈ quasar.localSubs) : quasar.routing.check H sub.topic = some 0 := by
  have hcontains : quasar.levelZero.contains H sub.topic = true :=
    hreports.tracks.contains H (List.mem_map_of_mem hsub)
  unfold AttenuatedBloomFilter.check
  rw [hreports.levels, List.findIdx?_cons, if_pos hcontains]

theorem reports_create (protocol : Option MeridianProtocol) {maxHops : UInt32}
    (hlevels : maxHops ≠ 0) (alpha : UInt32) (seenSize seenHashes : Nat) :
    (create protocol maxHops alpha seenSize seenHashes).Reports H := by
  have hpos : maxHops.toNat ≠ 0 := fun hzero => hlevels (UInt32.toNat_inj.mp hzero)
  obtain ⟨n, hn⟩ := Nat.exists_eq_succ_of_ne_zero hpos
  have hrouting : (create protocol maxHops alpha seenSize seenHashes).routing.levels =
      List.replicate (n + 1) (ElasticBloomFilter.create defaultSize defaultHashCount
        defaultOmega defaultFpBits) := by
    rw [← Nat.succ_eq_add_one, ← hn]
    rfl
  have hzero : (create protocol maxHops alpha seenSize seenHashes).levelZero =
      ElasticBloomFilter.create defaultSize defaultHashCount defaultOmega defaultFpBits := by
    unfold levelZero
    rw [hrouting]
    rfl
  refine ⟨?_, ?_, ?_, ?_, ?_⟩
  · rw [hzero, hrouting]
    rfl
  · rw [hzero]
    rfl
  · rw [hzero]
    exact ElasticBloomFilter.WellFormed.create (by decide) _ _ _
  · rw [hzero]
    exact ⟨10, rfl⟩
  · intro topic htopic
    exact absurd htopic List.not_mem_nil

/-! ### The operations on level 0 -/

theorem fpBits_add (filter : ElasticBloomFilter) (item : Bytes) :
    (filter.add H item).fpBits = filter.fpBits := by
  have hsame := ElasticBloomFilter.sameParameters_insert H filter item
  unfold ElasticBloomFilter.add
  dsimp only
  split_ifs
  · exact hsame.fpBits
  · exact hsame.fpBits

theorem fpBits_remove (filter : ElasticBloomFilter) (item : Bytes) :
    (filter.remove H item).fpBits = filter.fpBits := by
  have hsame := ElasticBloomFilter.sameParameters_erase H filter item
  unfold ElasticBloomFilter.remove
  dsimp only
  split_ifs
  · unfold ElasticBloomFilter.compress
    split_ifs
    · exact hsame.fpBits
    · exact hsame.fpBits
  · exact hsame.fpBits

theorem reports_of_levels (hlevels : quasar.routing.levels = filter :: upper)
    (hbits : filter.fpBits = defaultFpBits) (htracks : filter.Tracks H quasar.topics) :
    quasar.Reports H := by
  have hzero : quasar.levelZero = filter := by
    unfold levelZero
    rw [hlevels]
    rfl
  refine ⟨?_, ?_, ?_⟩
  · rw [hzero, hlevels]
    rfl
  · rw [hzero]
    exact hbits
  · rw [hzero]
    exact htracks

theorem levels_subscribe (hlevels : routing.levels = filter :: upper) (topic : Bytes) :
    (routing.subscribe H topic).levels = filter.add H topic :: upper := by
  unfold AttenuatedBloomFilter.subscribe
  rw [hlevels]
  rfl

theorem levels_unsubscribe (hlevels : routing.levels = filter :: upper) (topic : Bytes) :
    (routing.unsubscribe H topic).levels = filter.remove H topic :: upper := by
  unfold AttenuatedBloomFilter.unsubscribe
  rw [hlevels]
  rfl

theorem reports_subscribe (hreports : quasar.Reports H) {topic : Bytes} {ttl : Nat}
    (hlossless : quasar.lossless H (.subscribe topic ttl) = true) :
    (quasar.subscribe H topic ttl).Reports H := by
  have hkeeps := of_decide_eq_true hlossless
  have hbits : 1 ≤ quasar.levelZero.fpBits ∧ quasar.levelZero.fpBits ≤ 32 := by
    rw [hreports.fpBits]
    decide
  have hadded := hreports.tracks.add H hbits hkeeps.1
  have hlevels := levels_subscribe H hreports.levels topic
  have htopics : (quasar.subscribe H topic ttl).topics = quasar.topics ++ [topic] := by
    simp [topics, subscribe]
  by_cases haddress : quasar.localNode.addr ≠ 0 ∨ quasar.localNode.port ≠ 0
  · have hrouting : (quasar.subscribe H topic ttl).routing.levels =
        (quasar.levelZero.add H topic).add H quasar.localNode.key ::
          quasar.routing.levels.tail := by
      simp only [subscribe, haddress, if_true]
      exact levels_subscribe H hlevels quasar.localNode.key
    apply reports_of_levels H hrouting
    · rw [fpBits_add, fpBits_add]
      exact hreports.fpBits
    · rw [htopics]
      have hboth := hadded.add H (by rw [fpBits_add]; exact hbits) (hkeeps.2 haddress)
      exact hboth.mono H (List.subset_append_left _ _)
  · have hrouting : (quasar.subscribe H topic ttl).routing.levels =
        quasar.levelZero.add H topic :: quasar.routing.levels.tail := by
      simp only [subscribe, haddress, if_false]
      exact hlevels
    apply reports_of_levels H hrouting
    · rw [fpBits_add]
      exact hreports.fpBits
    · rw [htopics]
      exact hadded

theorem reports_unsubscribe (hreports : quasar.Reports H) {topic : Bytes}
    (hlossless : quasar.lossless H (.unsubscribe topic) = true) :
    (quasar.unsubscribe H topic).Reports H := by
  have hkeeps := of_decide_eq_true hlossless
  have hfewer : (quasar.unsubscribe H topic).topics ⊆ quasar.topics :=
    List.map_subset _ List.eraseP_subset
  apply reports_of_levels H (levels_unsubscribe H hreports.levels topic)
  · rw [fpBits_remove]
    exact hreports.fpBits
  · exact (hreports.tracks.mono H hfewer).remove H hkeeps

/-! ### Expiry -/

theorem tickSubs_eq (routing : AttenuatedBloomFilter) (subs : List Subscription) :
    tickSubs H routing subs =
      (((subs.filter fun sub => sub.ttl == 1).map Subscription.topic).foldl
          (fun routing topic => routing.unsubscribe H topic) routing,
        (subs.filter fun sub => sub.ttl != 1).map
          fun sub => { sub with ttl := sub.ttl - 1 }) := by
  induction subs generalizing routing with
  | nil => rfl
  | cons sub subs ih =>
      unfold tickSubs
      split_ifs with hexpired
      · rw [ih]
        simp [hexpired]
      · rw [ih]
        simp [hexpired]

theorem levels_foldl_unsubscribe (expired : List Bytes)
    (hlevels : routing.levels = filter :: upper) :
    (expired.foldl (fun routing topic => routing.unsubscribe H topic) routing).levels =
      expired.foldl (fun filter topic => filter.remove H topic) filter :: upper := by
  induction expired generalizing routing filter with
  | nil => exact hlevels
  | cons topic expired ih => exact ih (levels_unsubscribe H hlevels topic)

theorem reports_tick (hreports : quasar.Reports H) (hlossless : quasar.lossless H .tick = true) :
    (quasar.tick H).Reports H := by
  have hmeets := of_decide_eq_true hlossless
  have hfewer : quasar.surviving ⊆ quasar.topics :=
    List.map_subset _ (List.filter_subset_self _)
  have hkept := Runs.invariant_of_meets (fun filter topic => filter.remove H topic)
    (fun filter => filter.Tracks H quasar.surviving ∧ filter.fpBits = defaultFpBits)
    (fun filter topic htracks hkeeps =>
      ⟨htracks.1.remove H hkeeps, (fpBits_remove H filter topic).trans htracks.2⟩)
    ⟨hreports.tracks.mono H hfewer, hreports.fpBits⟩ hmeets
  have htopics : (quasar.tick H).topics = quasar.surviving := by
    simp [tick, topics, surviving, tickSubs_eq, Function.comp_def]
  have hlevels : (quasar.tick H).routing.levels =
      Runs.run (fun filter topic => filter.remove H topic) quasar.levelZero quasar.expired ::
        quasar.routing.levels.tail := by
    simp only [tick, tickSubs_eq]
    exact levels_foldl_unsubscribe H _ hreports.levels
  apply reports_of_levels H hlevels hkept.2
  rw [htopics]
  exact hkept.1

/-! ### Every run -/

theorem reports_gossip [Cbor.Memory] (hreports : quasar.Reports H) (data : Bytes)
    (sender : Option MeridianNode) : (quasar.onGossip data sender).2.Reports H := by
  unfold onGossip
  cases decodeGossip data with
  | none => exact hreports
  | some received =>
      have hmerged : (quasar.routing.merge received).levels = quasar.levelZero ::
          AttenuatedBloomFilter.mergeUpper quasar.routing.levels.tail received.levels := by
        unfold AttenuatedBloomFilter.merge
        rw [hreports.levels]
        rfl
      cases sender with
      | none => exact reports_of_levels H hmerged hreports.fpBits hreports.tracks
      | some node => exact reports_of_levels H hmerged hreports.fpBits hreports.tracks

theorem reports_perform [Cbor.Memory] (hreports : quasar.Reports H) {operation : Operation}
    (hlossless : quasar.lossless H operation = true) : (quasar.perform H operation).Reports H := by
  cases operation with
  | subscribe topic ttl => exact reports_subscribe H hreports hlossless
  | unsubscribe topic => exact reports_unsubscribe H hreports hlossless
  | tick => exact reports_tick H hreports hlossless
  | gossip data sender => exact reports_gossip H hreports data sender
  | setMessageCallback present => exact ⟨hreports.levels, hreports.fpBits, hreports.tracks⟩
  | setProtocol protocol => exact ⟨hreports.levels, hreports.fpBits, hreports.tracks⟩

/-- **Own subscriptions are advertised.** After every run of lossless operations, the routing
filter reports each topic of `local_subs` at hop 0. -/
theorem check_eq_zero_of_lossless [Cbor.Memory] (protocol : Option MeridianProtocol)
    {maxHops : UInt32} (hlevels : maxHops ≠ 0) (alpha : UInt32) (seenSize seenHashes : Nat)
    {operations : List Operation}
    (hlossless : Runs.Meets (perform H) (fun quasar operation => quasar.lossless H operation = true)
      (create protocol maxHops alpha seenSize seenHashes) operations)
    {sub : Subscription}
    (hsub : sub ∈ (Runs.run (perform H) (create protocol maxHops alpha seenSize seenHashes)
      operations).localSubs) :
    (Runs.run (perform H) (create protocol maxHops alpha seenSize seenHashes)
      operations).routing.check H sub.topic = some 0 := by
  have hreports := Runs.invariant_of_meets (perform H) (Reports H)
    (fun _ _ hreports hlossless => reports_perform H hreports hlossless)
    (reports_create H protocol hlevels alpha seenSize seenHashes) hlossless
  exact hreports.check H hsub

/-- Two topics are subscribed, the first is dropped, the second expires one tick later. -/
def twoTopics : List Operation :=
  [.subscribe [1] 0, .subscribe [2] 2, .tick, .unsubscribe [1]]

open Network (byteHash)

theorem check_eq_zero_of_lossless_twoTopics :
    Runs.Meets (perform byteHash)
        (fun quasar operation => quasar.lossless byteHash operation = true)
        (create none 5 3 64 3) twoTopics ∧
      (Runs.run (perform byteHash) (create none 5 3 64 3) twoTopics).routing.check
        byteHash [2] = some 0 := by
  have hmeets : Runs.Meets (perform byteHash)
      (fun quasar operation => quasar.lossless byteHash operation = true)
      (create none 5 3 64 3) twoTopics := by
    decide +kernel
  have hsub : (⟨[2], 1⟩ : Subscription) ∈
      (Runs.run (perform byteHash) (create none 5 3 64 3) twoTopics).localSubs := by
    decide +kernel
  have hcheck := check_eq_zero_of_lossless byteHash none (by decide) 3 64 3 hmeets hsub
  exact ⟨hmeets, hcheck⟩

/-- A topic subscribed twice and unsubscribed once stays in `local_subs`, and the routing filter
no longer knows it. -/
theorem check_none_of_subscribed_twice :
    ∃ sub ∈ (Runs.run (perform byteHash) (create none 5 3 64 3)
        [.subscribe [1] 0, .subscribe [1] 0, .unsubscribe [1]]).localSubs,
      (Runs.run (perform byteHash) (create none 5 3 64 3)
        [.subscribe [1] 0, .subscribe [1] 0, .unsubscribe [1]]).routing.check
          byteHash sub.topic = none :=
  ⟨⟨[1], 0⟩, by decide +kernel⟩

end Poseidon.Quasar
