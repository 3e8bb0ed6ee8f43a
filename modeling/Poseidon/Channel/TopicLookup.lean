import Poseidon.Channel.Authority
import Poseidon.Crypto.KeyPair
import Poseidon.Util.Base58Canonical

/-!
# Channels by id and by topic

A channel is found by the hash of its id or by its topic, the string of the id. The id read from a
string has the bytes of the string at the front of its hash and zeros behind them, so the strings of
bytes that differ in trailing zeros only have one id. The ids made from keys have no zeros filled
in.
-/

namespace Poseidon

open Base58 (decoded)

namespace NodeId

theorem equals_iff {a b : NodeId} (hlength : a.hash.length = b.hash.length) :
    a.equals b = true ↔ a.hash = b.hash := by
  rw [equals, beq_iff_eq, ← memcmp_eq_zero_iff hlength]
  unfold compare
  generalize memcmp a.hash b.hash = rc
  dsimp only
  split_ifs with hless hgreater
  · exact iff_of_false (by decide) (by omega)
  · exact iff_of_false (by decide) (by omega)
  · exact iff_of_true rfl (by omega)

theorem fromString_eq_some_iff {capacity : Nat} (string : CString capacity) {id : NodeId} :
    fromString string.bytes = some id ↔
      string.bytes.length < nodeIdStringSize ∧ Base58.IsBase58 string.bytes ∧
        (decoded string.bytes).length ≤ nodeIdHashSize ∧
        id.hash = padTo nodeIdHashSize (decoded string.bytes) ∧
        id.str.bytes = string.bytes := by
  unfold fromString
  by_cases hfits : string.bytes.length < nodeIdStringSize
  · have hcopy : CString.ofMemory nodeIdStringSize string.bytes =
        some ⟨string.bytes, hfits, string.zero_not_mem⟩ :=
      CString.ofMemory_bytes ⟨string.bytes, hfits, string.zero_not_mem⟩
    have hlong : string.bytes.length ≤ Base58.bigintSize :=
      le_trans hfits.le (by decide)
    rw [hcopy]
    dsimp only
    rw [Option.map_eq_some_iff]
    constructor
    · rintro ⟨bytes, hdecode, rfl⟩
      obtain ⟨-, hstring, hroom, rfl⟩ := Base58.decode_eq_some_iff.mp hdecode
      exact ⟨hfits, hstring, hroom, rfl, rfl⟩
    · rintro ⟨-, hstring, hroom, hhash, hstr⟩
      refine ⟨_, Base58.decode_eq_some_iff.mpr ⟨hlong, hstring, hroom, rfl⟩, ?_⟩
      cases id
      congr 1
      · exact hhash.symm
      · exact CString.ext hstr.symm
  · have hnone : CString.ofMemory nodeIdStringSize string.bytes = none := dif_neg hfits
    rw [hnone]
    exact iff_of_false (fun heq => by cases heq) fun hall => hfits hall.1

theorem decoded_of_fromPublicKey {crypto : Crypto} {publicKey : Bytes} {id : NodeId}
    (hid : fromPublicKey crypto publicKey = some id) :
    decoded id.str.bytes = id.hash ∧ id.hash.length = nodeIdHashSize := by
  obtain ⟨hencode, hhash⟩ := encode_of_ofHash hid
  have hlength : id.hash.length = nodeIdHashSize := by
    rw [hhash]
    exact crypto.length_blake3 publicKey
  rw [← hhash] at hencode
  have hdecode := Base58.decode_encode hencode hlength.le
  exact ⟨(Base58.decode_eq_some_iff.mp hdecode).2.2.2.symm, hlength⟩

theorem equals_fromString_iff {m n : Nat} (first : CString m) (second : CString n) {a b : NodeId}
    (ha : fromString first.bytes = some a) (hb : fromString second.bytes = some b) :
    a.equals b = true ↔
      first.bytes = second.bytes ∨
        ZeroExtends (decoded first.bytes) (decoded second.bytes) ∨
        ZeroExtends (decoded second.bytes) (decoded first.bytes) := by
  obtain ⟨-, hfirst, hroom, hhash, -⟩ := (fromString_eq_some_iff first).mp ha
  obtain ⟨-, hsecond, hroom', hhash', -⟩ := (fromString_eq_some_iff second).mp hb
  have hlength : a.hash.length = b.hash.length := by
    rw [hhash, hhash', length_padTo hroom, length_padTo hroom']
  have hstrings : decoded first.bytes = decoded second.bytes ↔
      first.bytes = second.bytes := by
    constructor
    · intro hsame
      rw [← Base58.chars_decoded hfirst, hsame, Base58.chars_decoded hsecond]
    · exact congrArg decoded
  rw [equals_iff hlength, hhash, hhash', padTo_eq_iff hroom hroom', hstrings]

end NodeId

namespace Manager

variable {crypto : Crypto}

/-- `poseidon_channel_manager_find_channel`. -/
def findChannelById (manager : Manager crypto) (nodeId : NodeId) : Option (Channel crypto) :=
  manager.channels.find? fun channel => channel.nodeId.compare nodeId == 0

theorem decoded_topic (channel : Channel crypto) :
    decoded channel.topic = channel.nodeId.hash :=
  (NodeId.decoded_of_fromPublicKey channel.nodeId_eq).1

section Lookup

variable {capacity : Nat} (topic : CString capacity) {id : NodeId}
  (hid : NodeId.fromString topic.bytes = some id)

include hid

theorem compare_eq_zero_iff (channel : Channel crypto) :
    (channel.nodeId.compare id == 0) = true ↔
      channel.topic = topic.bytes ∨
        ZeroExtends (decoded topic.bytes) channel.nodeId.hash := by
  obtain ⟨hdecoded, hlength⟩ := NodeId.decoded_of_fromPublicKey channel.nodeId_eq
  obtain ⟨-, -, hroom, -, -⟩ := (NodeId.fromString_eq_some_iff topic).mp hid
  have hown : NodeId.fromString channel.nodeId.str.bytes = some channel.nodeId :=
    NodeId.fromString_of_ofHash channel.nodeId_eq (crypto.length_blake3 channel.publicKey)
  have hequals := NodeId.equals_fromString_iff channel.nodeId.str topic hown hid
  rw [hdecoded] at hequals
  refine hequals.trans (or_congr_right ⟨?_, Or.inr⟩)
  rintro (hlonger | hextends)
  · -- a whole hash is not extended
    exact absurd hlonger.length_lt (by omega)
  · exact hextends

/-- The two lookups find the same channel exactly if no channel has a hash that extends the bytes
of the topic by zeros. -/
theorem findChannelById_eq_findByTopic_iff (manager : Manager crypto) :
    manager.findChannelById id = manager.findByTopic topic.bytes ↔
      ∀ channel ∈ manager.channels,
        ¬ZeroExtends (decoded topic.bytes) channel.nodeId.hash := by
  constructor
  · intro hsame channel hmem hextends
    have hmatch := (compare_eq_zero_iff topic hid channel).mpr (Or.inr hextends)
    have hsome : (manager.findChannelById id).isSome = true := by
      rw [findChannelById, List.find?_isSome]
      exact ⟨channel, hmem, hmatch⟩
    obtain ⟨found, hfound⟩ := Option.isSome_iff_exists.mp hsome
    have hbeq := List.find?_some (p := fun channel : Channel crypto => channel.topic == topic.bytes)
      (hsame.symm.trans hfound)
    have htopic : found.topic = topic.bytes := eq_of_beq hbeq
    obtain ⟨hdecoded, hlength⟩ := NodeId.decoded_of_fromPublicKey found.nodeId_eq
    have hwhole : (decoded topic.bytes).length = nodeIdHashSize := by
      rw [← htopic, decoded_topic, hlength]
    have hshort := hextends.length_lt
    rw [(NodeId.decoded_of_fromPublicKey channel.nodeId_eq).2] at hshort
    omega
  · intro hnone
    rw [findChannelById, findByTopic, ← List.head?_filter, ← List.head?_filter]
    refine congrArg List.head? (List.filter_congr fun channel hmem => ?_)
    rw [Bool.eq_iff_iff, compare_eq_zero_iff topic hid channel, beq_iff_eq]
    exact or_iff_left (hnone channel hmem)

end Lookup

/-- **Topics and ids.** The ids of two accepted strings are equal exactly if the strings are, unless
the bytes of one are those of the other with zeros behind them. The lookups of a channel by the id
and by the string agree, unless the hash of a channel is the bytes of the string with zeros behind
them. -/
theorem topic_canonical_iff {m n : Nat} (first : CString m) (second : CString n) {a b : NodeId}
    (ha : NodeId.fromString first.bytes = some a) (hb : NodeId.fromString second.bytes = some b) :
    ((a.equals b = true ↔ first.bytes = second.bytes) ↔
      ¬ZeroExtends (decoded first.bytes) (decoded second.bytes) ∧
        ¬ZeroExtends (decoded second.bytes) (decoded first.bytes)) ∧
    ∀ (crypto : Crypto) (manager : Manager crypto),
      manager.findChannelById a = manager.findByTopic first.bytes ↔
        ∀ channel ∈ manager.channels,
          ¬ZeroExtends (decoded first.bytes) channel.nodeId.hash := by
  refine ⟨?_, fun _ manager => findChannelById_eq_findByTopic_iff first ha manager⟩
  rw [NodeId.equals_fromString_iff first second ha hb]
  constructor
  · intro hiff
    constructor
    · intro hextends
      exact hextends.ne (congrArg decoded (hiff.mp (Or.inr (Or.inl hextends))))
    · intro hextends
      exact hextends.ne (congrArg decoded (hiff.mp (Or.inr (Or.inr hextends)))).symm
  · rintro ⟨hfirst, hsecond⟩
    exact or_iff_left (by rintro (hextends | hextends); exacts [hfirst hextends, hsecond hextends])

def shortTopic : CString nodeIdStringSize :=
  CString.copy (nodeIdStringSize - 1) [50]

/-- The strings `2` and `3` have two ids. -/
theorem topic_canonical_shortTopic :
    ∃ a b, NodeId.fromString shortTopic.bytes = some a ∧
      NodeId.fromString (CString.copy 1 [51]).bytes = some b ∧
      (a.equals b = true ↔ shortTopic.bytes = (CString.copy 1 [51]).bytes) := by
  have hfirst : (NodeId.fromString shortTopic.bytes).isSome = true := by decide +kernel
  have hsecond : (NodeId.fromString (CString.copy 1 [51]).bytes).isSome = true := by
    decide +kernel
  obtain ⟨a, ha⟩ := Option.isSome_iff_exists.mp hfirst
  obtain ⟨b, hb⟩ := Option.isSome_iff_exists.mp hsecond
  have hlengths : (decoded shortTopic.bytes).length =
      (decoded (CString.copy 1 [51]).bytes).length := by decide +kernel
  refine ⟨a, b, ha, hb, ?_⟩
  refine (topic_canonical_iff shortTopic (CString.copy 1 [51])
    ha hb).1.mpr ⟨fun hextends => ?_, fun hextends => ?_⟩
  · exact absurd hextends.length_lt (by rw [hlengths]; exact lt_irrefl _)
  · exact absurd hextends.length_lt (by rw [hlengths]; exact lt_irrefl _)

/-- The strings `2` and `5R`, of the bytes 1 and 1, 0, have one id; and a channel with the hash 1,
0, .., 0 is found by this id, but not by the topic `2`. -/
theorem topic_not_canonical :
    (∃ a b, NodeId.fromString [50] = some a ∧ NodeId.fromString [53, 82] = some b ∧
      a.equals b = true) ∧
    ∃ a manager, NodeId.fromString [50] = some a ∧ withChannel = some manager ∧
      (manager.findChannelById a).isSome = true ∧ manager.findByTopic [50] = none := by
  have hids : ((NodeId.fromString [50]).any fun a =>
      (NodeId.fromString [53, 82]).any fun b => a.equals b) = true := by decide +kernel
  have hfound : ((NodeId.fromString [50]).any fun a => withChannel.any fun manager =>
      (manager.findChannelById a).isSome && (manager.findByTopic [50]).isNone) = true := by
    decide +kernel
  constructor
  · obtain ⟨a, ha, hany⟩ := (Option.any_eq_true _ _).mp hids
    obtain ⟨b, hb, hequals⟩ := (Option.any_eq_true _ _).mp hany
    exact ⟨a, b, ha, hb, hequals⟩
  · obtain ⟨a, ha, hany⟩ := (Option.any_eq_true _ _).mp hfound
    obtain ⟨manager, hmanager, hboth⟩ := (Option.any_eq_true _ _).mp hany
    obtain ⟨hsome, hnone⟩ := Bool.and_eq_true_iff.mp hboth
    exact ⟨a, manager, ha, hmanager, hsome, Option.isNone_iff_eq_none.mp hnone⟩

end Manager

end Poseidon
