import Mathlib.Data.List.TakeDrop
import Poseidon.Bloom.Arithmetic
import Poseidon.Quasar.Message

/-!
# Messages over the wire and back

What `serialize` writes, `deserialize` reads back, for every message the operations build and whose
parts have the sizes a receiver allows; only the number of items in the `visited` filter is lost.
Conversely an accepted packet is, up to the end of its last field, what `serialize` makes of the
message read from it.
-/

namespace Poseidon

/-! ### The `visited` filters of messages -/

namespace BloomFilter

/-- The seeds and the bytes a filter starts with, and keeps. -/
structure Standard (filter : BloomFilter) : Prop where
  seedA : filter.seedA = 1
  seedB : filter.seedB = 2
  hashCount : filter.hashCount < 2 ^ 32
  size_bits : filter.bits.size = byteSize filter.size

theorem Standard.create (size : Nat) {hashCount : Nat} (hcount : hashCount < 2 ^ 32) :
    (create size hashCount).Standard :=
  ⟨rfl, rfl, hcount, List.length_replicate⟩

theorem size_foldl_set {indices : List Nat} {bits : Bitset} {isNew : Bool}
    (hindices : ∀ index ∈ indices, index / 8 < bits.size) :
    (indices.foldl (fun (state : Bitset × Bool) index =>
      (state.1.set index true, state.2 || !state.1.get index)) (bits, isNew)).1.size =
        bits.size := by
  induction indices generalizing bits isNew with
  | nil => rfl
  | cons index indices ih =>
      have hset := Bitset.size_set (hindices index List.mem_cons_self) true
      rw [List.foldl_cons, ih, hset]
      intro other hother
      rw [hset]
      exact hindices other (List.mem_cons_of_mem index hother)

theorem Standard.add (H : HashFn) {filter : BloomFilter} (hstandard : filter.Standard)
    (hguarded : filter.Guarded) (data : Bytes) : (filter.add H data).Standard := by
  refine ⟨hstandard.seedA, hstandard.seedB, hstandard.hashCount, ?_⟩
  have hindices : ∀ index ∈ filter.indices H data, index / 8 < filter.bits.size := by
    intro index hindex
    obtain ⟨i, hi, rfl⟩ := List.mem_map.mp hindex
    have hrounds : filter.hashCount ≠ 0 := Nat.ne_zero_of_lt (List.mem_range.mp hi)
    rw [hstandard.size_bits]
    apply div_lt_byteSize
    exact Nat.mod_lt _ (Nat.pos_of_ne_zero (hguarded.resolve_left hrounds))
  exact (size_foldl_set hindices).trans hstandard.size_bits

end BloomFilter

namespace RouteMessage

/-! ### Publishers -/

@[simp]
theorem length_publisherBytes (publishers : List MeridianNode) :
    (publisherBytes publishers).length = 6 * publishers.length := by
  rw [publisherBytes, List.length_append, length_flatMap_of_width (fun _ => length_leBytes 4 _),
    length_flatMap_of_width (fun _ => length_leBytes 2 _)]
  omega

theorem readPublisher_publisherBytes {publishers : List MeridianNode} {front rest : Bytes}
    {i : Nat} {node : MeridianNode} (hnode : publishers[i]? = some node) :
    readPublisher (front ++ (publisherBytes publishers ++ rest)) front.length publishers.length i =
      node := by
  have haddr : slice (front ++ (publisherBytes publishers ++ rest)) (front.length + 4 * i) 4 =
      leBytes 4 node.addr.toNat := by
    rw [slice_append_right _ _ _ _ (Nat.le_add_right _ _), Nat.add_sub_cancel_left, publisherBytes,
      List.append_assoc]
    exact slice_flatMap (fun _ => length_leBytes 4 _) _ hnode
  have hport : slice (front ++ (publisherBytes publishers ++ rest))
      (front.length + 4 * publishers.length + 2 * i) 2 = leBytes 2 node.port.toNat := by
    have haddrs : (publishers.flatMap fun node => leBytes 4 node.addr.toNat).length =
        4 * publishers.length :=
      length_flatMap_of_width (fun _ => length_leBytes 4 _) publishers
    rw [slice_append_right _ _ _ _ (by omega), publisherBytes, List.append_assoc,
      slice_append_right _ _ _ _ (by omega), haddrs]
    have hoffset : front.length + 4 * publishers.length + 2 * i - front.length -
        4 * publishers.length = 2 * i := by
      omega
    rw [hoffset]
    exact slice_flatMap (fun _ => length_leBytes 2 _) _ hnode
  rw [readPublisher, haddr, hport, leNat_leBytes (Nat.lt_of_lt_of_eq node.addr.toNat_lt
    (by norm_num)), leNat_leBytes (Nat.lt_of_lt_of_eq node.port.toNat_lt (by norm_num)),
    UInt32.ofNat_toNat, UInt16.ofNat_toNat]

theorem map_readPublisher (publishers : List MeridianNode) (front rest : Bytes) :
    (List.range publishers.length).map (readPublisher
      (front ++ (publisherBytes publishers ++ rest)) front.length publishers.length) =
        publishers := by
  apply List.ext_getElem?
  intro i
  rw [List.getElem?_map]
  by_cases hi : i < publishers.length
  · rw [List.getElem?_range hi, List.getElem?_eq_getElem hi, Option.map_some,
      readPublisher_publisherBytes (List.getElem?_eq_getElem hi)]
  · rw [List.getElem?_eq_none (by simpa using hi), List.getElem?_eq_none (by simpa using hi)]
    rfl

/-! ### Reading what was written -/

def visitedBytes (msg : RouteMessage) : Bytes :=
  msg.visited.bits.data.takeD (BloomFilter.byteSize msg.visited.size) 0

def body (msg : RouteMessage) : Bytes :=
  msg.id.serialize ++ (msg.topic ++ (msg.data ++
    (publisherBytes msg.publishers ++ msg.visitedBytes)))

variable (msg : RouteMessage)

@[simp]
theorem length_visitedBytes : msg.visitedBytes.length = BloomFilter.byteSize msg.visited.size :=
  List.takeD_length _ _ _

theorem length_body :
    msg.body.length = 24 + msg.topic.length + msg.data.length + 6 * msg.publishers.length +
      BloomFilter.byteSize msg.visited.size := by
  simp only [body, List.length_append, MessageId.length_serialize, length_publisherBytes,
    length_visitedBytes]
  omega

theorem slice_id : slice (msg.header ++ msg.body) 32 24 = msg.id.serialize :=
  slice_middle (length_header msg).symm msg.id.length_serialize.symm

theorem slice_topic : slice (msg.header ++ msg.body) 56 msg.topic.length = msg.topic := by
  have hsplit : msg.header ++ msg.body = (msg.header ++ msg.id.serialize) ++ (msg.topic ++
      (msg.data ++ (publisherBytes msg.publishers ++ msg.visitedBytes))) := by
    simp only [body, List.append_assoc]
  rw [hsplit]
  exact slice_middle (by simp) rfl

theorem slice_data :
    slice (msg.header ++ msg.body) (56 + msg.topic.length) msg.data.length = msg.data := by
  have hsplit : msg.header ++ msg.body = (msg.header ++ msg.id.serialize ++ msg.topic) ++
      (msg.data ++ (publisherBytes msg.publishers ++ msg.visitedBytes)) := by
    simp only [body, List.append_assoc]
  rw [hsplit]
  apply slice_middle _ rfl
  simp only [List.length_append, length_header, MessageId.length_serialize]

theorem map_readPublisher_body :
    (List.range msg.publishers.length).map (readPublisher (msg.header ++ msg.body)
      (56 + msg.topic.length + msg.data.length) msg.publishers.length) = msg.publishers := by
  have hsplit : msg.header ++ msg.body = (msg.header ++ msg.id.serialize ++ msg.topic ++
      msg.data) ++ (publisherBytes msg.publishers ++ msg.visitedBytes) := by
    simp only [body, List.append_assoc]
  have hoffset : 56 + msg.topic.length + msg.data.length =
      (msg.header ++ msg.id.serialize ++ msg.topic ++ msg.data).length := by
    simp only [List.length_append, length_header, MessageId.length_serialize]
  rw [hsplit, hoffset]
  exact map_readPublisher msg.publishers _ _

theorem slice_visited :
    slice (msg.header ++ msg.body)
      (56 + msg.topic.length + msg.data.length + 6 * msg.publishers.length)
      (BloomFilter.byteSize msg.visited.size) = msg.visitedBytes := by
  have hsplit : msg.header ++ msg.body = (msg.header ++ msg.id.serialize ++ msg.topic ++
      msg.data ++ publisherBytes msg.publishers) ++ (msg.visitedBytes ++ []) := by
    simp only [body, List.append_assoc, List.append_nil]
  rw [hsplit]
  apply slice_middle _ (length_visitedBytes msg).symm
  simp only [List.length_append, length_header, MessageId.length_serialize, length_publisherBytes]

theorem serialize_eq_some_iff {msg : RouteMessage} {bytes : Bytes} :
    msg.serialize = some bytes ↔
      (msg.header ++ msg.body).length < 2 ^ 64 ∧ bytes = msg.header ++ msg.body := by
  have hlength : (msg.header ++ msg.body).length = 32 + 24 + msg.topic.length +
      msg.data.length + 6 * msg.publishers.length + BloomFilter.byteSize msg.visited.size := by
    rw [List.length_append, length_header, length_body]
    omega
  rw [hlength]
  simp only [serialize, Option.ite_none_right_eq_some, Option.some.injEq]
  exact and_congr_right fun _ => eq_comm

/-- The sizes a receiver accepts. -/
structure Bounded (msg : RouteMessage) : Prop where
  topic : msg.topic.length ≤ maxPayloadSize
  data : msg.data.length ≤ maxPayloadSize
  publishers : msg.publishers.length ≤ maxNodes
  visited : msg.visited.size < 2 ^ 32

theorem byteSize_le {size : Nat} (hsize : size < 2 ^ 32) : BloomFilter.byteSize size ≤ 2 ^ 29 := by
  unfold BloomFilter.byteSize
  split_ifs <;> omega

theorem Bounded.length_lt {msg : RouteMessage} (hbounded : msg.Bounded) :
    (msg.header ++ msg.body).length < 2 ^ 64 := by
  have hvisited := byteSize_le hbounded.visited
  have htopic : msg.topic.length ≤ 1400 := hbounded.topic
  have hdata : msg.data.length ≤ 1400 := hbounded.data
  have hpublishers : msg.publishers.length ≤ 256 := hbounded.publishers
  rw [List.length_append, length_header, length_body]
  omega

theorem deserialize_serialize {msg : RouteMessage} (hbounded : msg.Bounded)
    (hstandard : msg.visited.Standard) :
    ∃ bytes, msg.serialize = some bytes ∧
      deserialize bytes = some { msg with visited := { msg.visited with count := 0 } } := by
  refine ⟨msg.header ++ msg.body, serialize_eq_some_iff.mpr ⟨hbounded.length_lt, rfl⟩, ?_⟩
  have htopic : msg.topic.length ≤ 1400 := hbounded.topic
  have hdata : msg.data.length ≤ 1400 := hbounded.data
  have hpublishers : msg.publishers.length ≤ 256 := hbounded.publishers
  have hword : ∀ {k field}, msg.headerFields[k]? = some field → field < 2 ^ 32 →
      headerWord (msg.header ++ msg.body) k = field := by
    intro k field hfield hfits
    rw [headerWord_header msg msg.body hfield, Nat.mod_eq_of_lt hfits]
  have hmagic : headerWord (msg.header ++ msg.body) 0 = magic := hword rfl (by decide)
  have hversion : headerWord (msg.header ++ msg.body) 1 = version := hword rfl (by decide)
  have htopicLen : headerWord (msg.header ++ msg.body) 2 = msg.topic.length :=
    hword rfl (by omega)
  have hdataLen : headerWord (msg.header ++ msg.body) 3 = msg.data.length := hword rfl (by omega)
  have hhops : headerWord (msg.header ++ msg.body) 4 = msg.hopsRemaining.toNat :=
    hword rfl msg.hopsRemaining.toNat_lt
  have hcount : headerWord (msg.header ++ msg.body) 5 = msg.publishers.length :=
    hword rfl (by omega)
  have hvisitedSize : headerWord (msg.header ++ msg.body) 6 = msg.visited.size :=
    hword rfl hbounded.visited
  have hhashes : headerWord (msg.header ++ msg.body) 7 = msg.visited.hashCount :=
    hword rfl hstandard.hashCount
  have hlong : ¬(msg.header ++ msg.body).length < 32 := by
    rw [List.length_append, length_header]
    omega
  have hcomplete : ¬(msg.header ++ msg.body).length < 56 + msg.topic.length + msg.data.length +
      6 * msg.publishers.length + BloomFilter.byteSize msg.visited.size := by
    rw [List.length_append, length_header, length_body]
    omega
  have hbits : msg.visitedBytes = msg.visited.bits.data := by
    rw [visitedBytes, List.takeD_eq_take 0 hstandard.size_bits.ge, ← hstandard.size_bits]
    exact List.take_length
  have hvisited : { BloomFilter.create msg.visited.size msg.visited.hashCount with
      bits := ⟨msg.visited.bits.data⟩ } = { msg.visited with count := 0 } := by
    rw [BloomFilter.create, ← hstandard.seedA, ← hstandard.seedB]
  simp only [deserialize, hmagic, hversion, htopicLen, hdataLen, hhops, hcount, hvisitedSize,
    hhashes]
  rw [if_neg hlong, if_neg (by simp), if_neg (not_or.mpr ⟨hbounded.topic.not_gt,
    hbounded.data.not_gt⟩), if_neg hbounded.publishers.not_gt, if_neg hcomplete, slice_id,
    slice_topic, slice_data, map_readPublisher_body, slice_visited, hbits, hvisited,
    MessageId.deserialize_serialize, UInt32.ofNat_toNat]

/-! ### Writing what was read -/

theorem beBytes_headerWord {bytes : Bytes} {k : Nat} (hlong : 4 * k + 4 ≤ bytes.length) :
    beBytes 4 (headerWord bytes k) = slice bytes (4 * k) 4 := by
  have hword := beBytes_beNat (slice bytes (4 * k) 4)
  rwa [length_slice hlong] at hword

theorem headerWord_lt (bytes : Bytes) (k : Nat) : headerWord bytes k < 2 ^ 32 := by
  have hlength : (slice bytes (4 * k) 4).length ≤ 4 := List.length_take_le _ _
  calc headerWord bytes k < 256 ^ (slice bytes (4 * k) 4).length := beNat_lt _
    _ ≤ 256 ^ 4 := Nat.pow_le_pow_right (by norm_num) hlength
    _ = 2 ^ 32 := by norm_num

theorem flatMap_beBytes_headerWord {bytes : Bytes} (hlong : 32 ≤ bytes.length) :
    ((List.range 8).map (headerWord bytes)).flatMap (beBytes 4) = slice bytes 0 32 := by
  calc ((List.range 8).map (headerWord bytes)).flatMap (beBytes 4)
      = (List.range 8).flatMap fun k => slice bytes (0 + 4 * k) 4 := by
        rw [List.flatMap_map]
        apply List.flatMap_congr
        intro k hk
        have hbound := List.mem_range.mp hk
        rw [Nat.zero_add]
        exact beBytes_headerWord (by omega)
    _ = slice bytes 0 32 := (slice_mul bytes 0 4 8).symm

theorem leBytes_addr {bytes : Bytes} (hlength : bytes.length = 4) :
    leBytes 4 (UInt32.ofNat (leNat bytes)).toNat = bytes := by
  have hfits : leNat bytes < 2 ^ 32 := by
    calc leNat bytes < 256 ^ bytes.length := leNat_lt bytes
      _ = 2 ^ 32 := by rw [hlength]; norm_num
  rw [UInt32.toNat_ofNat_of_lt' hfits, ← hlength, leBytes_leNat]

theorem leBytes_port {bytes : Bytes} (hlength : bytes.length = 2) :
    leBytes 2 (UInt16.ofNat (leNat bytes)).toNat = bytes := by
  have hfits : leNat bytes < 2 ^ 16 := by
    calc leNat bytes < 256 ^ bytes.length := leNat_lt bytes
      _ = 2 ^ 16 := by rw [hlength]; norm_num
  rw [UInt16.toNat_ofNat_of_lt' hfits, ← hlength, leBytes_leNat]

theorem publisherBytes_readPublisher {bytes : Bytes} {offset count : Nat}
    (hlong : offset + 6 * count ≤ bytes.length) :
    publisherBytes ((List.range count).map (readPublisher bytes offset count)) =
      slice bytes offset (6 * count) := by
  have haddrs : ((List.range count).map (readPublisher bytes offset count)).flatMap
      (fun node => leBytes 4 node.addr.toNat) = slice bytes offset (4 * count) := by
    rw [slice_mul, List.flatMap_map]
    apply List.flatMap_congr
    intro i hi
    have hbound := List.mem_range.mp hi
    exact leBytes_addr (length_slice (by omega))
  have hports : ((List.range count).map (readPublisher bytes offset count)).flatMap
      (fun node => leBytes 2 node.port.toNat) = slice bytes (offset + 4 * count) (2 * count) := by
    rw [slice_mul, List.flatMap_map]
    apply List.flatMap_congr
    intro i hi
    have hbound := List.mem_range.mp hi
    exact leBytes_port (length_slice (by omega))
  have hsplit : 6 * count = 4 * count + 2 * count := by omega
  rw [publisherBytes, haddrs, hports, hsplit, slice_add]

/-- The offset at which `deserialize` has read its last field. -/
def consumed (bytes : Bytes) : Nat :=
  56 + headerWord bytes 2 + headerWord bytes 3 + 6 * headerWord bytes 5 +
    BloomFilter.byteSize (headerWord bytes 6)

theorem take_consumed (bytes : Bytes) :
    bytes.take (consumed bytes) = slice bytes 0 32 ++ (slice bytes 32 24 ++
      (slice bytes 56 (headerWord bytes 2) ++
      (slice bytes (56 + headerWord bytes 2) (headerWord bytes 3) ++
      (slice bytes (56 + headerWord bytes 2 + headerWord bytes 3) (6 * headerWord bytes 5) ++
      slice bytes (56 + headerWord bytes 2 + headerWord bytes 3 + 6 * headerWord bytes 5)
        (BloomFilter.byteSize (headerWord bytes 6)))))) := by
  have htotal : consumed bytes = 32 + 24 + headerWord bytes 2 + headerWord bytes 3 +
      6 * headerWord bytes 5 + BloomFilter.byteSize (headerWord bytes 6) := rfl
  calc bytes.take (consumed bytes)
      = slice bytes 0 (consumed bytes) := by rw [slice, List.drop_zero]
    _ = _ := by
      rw [htotal, slice_add, slice_add, slice_add, slice_add, slice_add]
      simp only [List.append_assoc, Nat.zero_add, Nat.reduceAdd]

theorem bounded_of_deserialize {bytes : Bytes} {msg : RouteMessage}
    (hdeserialize : deserialize bytes = some msg) : msg.Bounded := by
  simp only [deserialize, Option.ite_none_left_eq_some, Option.some.injEq] at hdeserialize
  obtain ⟨-, -, hpayload, hcount, hcomplete, rfl⟩ := hdeserialize
  obtain ⟨htopic, hdata⟩ := not_or.mp hpayload
  refine ⟨?_, ?_, ?_, headerWord_lt bytes 6⟩
  · exact (length_slice (by omega)).trans_le (Nat.le_of_not_lt htopic)
  · exact (length_slice (by omega)).trans_le (Nat.le_of_not_lt hdata)
  · rw [List.length_map, List.length_range]
    exact Nat.le_of_not_lt hcount

theorem serialize_deserialize {bytes : Bytes} {msg : RouteMessage}
    (hdeserialize : deserialize bytes = some msg) :
    msg.serialize = some (bytes.take (consumed bytes)) := by
  have hbounded := bounded_of_deserialize hdeserialize
  simp only [deserialize, Option.ite_none_left_eq_some, Option.some.injEq] at hdeserialize
  obtain ⟨hlong, hmagic, -, -, hcomplete, hmsg⟩ := hdeserialize
  obtain ⟨hmagic, hversion⟩ := not_or.mp hmagic
  have hheader : msg.header = slice bytes 0 32 := by
    have htopic : msg.topic.length = headerWord bytes 2 := by
      rw [← hmsg]
      exact length_slice (by omega)
    have hdata : msg.data.length = headerWord bytes 3 := by
      rw [← hmsg]
      exact length_slice (by omega)
    have hhops : msg.hopsRemaining.toNat = headerWord bytes 4 := by
      rw [← hmsg, UInt32.toNat_ofNat_of_lt' (headerWord_lt bytes 4)]
    have hpublishers : msg.publishers.length = headerWord bytes 5 := by
      rw [← hmsg, List.length_map, List.length_range]
    have hfields : msg.headerFields = (List.range 8).map (headerWord bytes) := by
      rw [headerFields, htopic, hdata, hhops, hpublishers, ← not_not.mp hmagic,
        ← not_not.mp hversion, ← hmsg]
      rfl
    rw [header_eq, hfields, flatMap_beBytes_headerWord (Nat.le_of_not_lt hlong)]
  have hbits : msg.visitedBytes = slice bytes (56 + headerWord bytes 2 + headerWord bytes 3 +
      6 * headerWord bytes 5) (BloomFilter.byteSize (headerWord bytes 6)) := by
    have hlength := length_slice (Nat.le_of_not_lt hcomplete)
    rw [visitedBytes, ← hmsg]
    exact (List.takeD_eq_take 0 hlength.ge).trans (List.take_of_length_le hlength.le)
  have hwire : msg.header ++ msg.body = bytes.take (consumed bytes) := by
    have hid := length_slice (show 32 + 24 ≤ bytes.length by omega)
    rw [take_consumed, body, hheader, hbits, ← hmsg, MessageId.serialize_deserialize hid,
      publisherBytes_readPublisher (by omega)]
  exact serialize_eq_some_iff.mpr ⟨hbounded.length_lt, hwire.symm⟩

/-! ### The messages of the code -/

/-- The messages the operations build. A filter with rounds and no bits is never added to: the
call would divide by zero. -/
inductive Built (H : HashFn) : RouteMessage → Prop where
  | create (id : MessageId) (topic data : Bytes) (maxHops : UInt32) (negSize : Nat)
      {negHashes : Nat} (hhashes : negHashes < 2 ^ 32) :
      Built H (create id topic data maxHops negSize negHashes)
  | addVisited {msg : RouteMessage} (hmsg : Built H msg) (hguarded : msg.visited.Guarded)
      (node : Option MeridianNode) : Built H (msg.addVisited H node)
  | addPublisher {msg : RouteMessage} (hmsg : Built H msg) (node : MeridianNode) :
      Built H (msg.addPublisher node)
  | countDown {msg : RouteMessage} (hmsg : Built H msg) :
      Built H { msg with hopsRemaining := msg.hopsRemaining - 1 }
  | deserialize {bytes : Bytes} {msg : RouteMessage}
      (hdeserialize : RouteMessage.deserialize bytes = some msg) : Built H msg

theorem standard_of_deserialize {bytes : Bytes} {msg : RouteMessage}
    (hdeserialize : RouteMessage.deserialize bytes = some msg) : msg.visited.Standard := by
  simp only [RouteMessage.deserialize, Option.ite_none_left_eq_some, Option.some.injEq]
    at hdeserialize
  obtain ⟨-, -, -, -, hcomplete, rfl⟩ := hdeserialize
  exact ⟨rfl, rfl, headerWord_lt bytes 7, length_slice (Nat.le_of_not_lt hcomplete)⟩

theorem Built.standard {H : HashFn} {msg : RouteMessage} (hbuilt : Built H msg) :
    msg.visited.Standard := by
  induction hbuilt with
  | create id topic data maxHops negSize hhashes => exact .create negSize hhashes
  | addVisited hmsg hguarded node ih =>
      cases node with
      | none => exact ih
      | some node => exact ih.add H hguarded node.key
  | addPublisher hmsg node ih => exact ih
  | countDown hmsg ih => exact ih
  | deserialize hdeserialize => exact standard_of_deserialize hdeserialize

/-- **Lossless codec.** Every message of the code whose parts are not too large is read back with
all its fields and the same answers of its `visited` filter; and the message read from a packet is
written as the part of the packet that was read. -/
theorem codec_lossless (H : HashFn) :
    (∀ msg, Built H msg → msg.topic.length ≤ maxPayloadSize → msg.data.length ≤ maxPayloadSize →
      msg.publishers.length ≤ maxNodes → msg.visited.size < 2 ^ 32 →
        ∃ bytes received, msg.serialize = some bytes ∧
          RouteMessage.deserialize bytes = some received ∧ received.id = msg.id ∧
          received.topic = msg.topic ∧ received.data = msg.data ∧
          received.hopsRemaining = msg.hopsRemaining ∧ received.publishers = msg.publishers ∧
          ∀ item, received.visited.contains H item = msg.visited.contains H item) ∧
    ∀ bytes msg, RouteMessage.deserialize bytes = some msg →
      msg.serialize = some (bytes.take (consumed bytes)) := by
  refine ⟨?_, fun bytes msg hdeserialize => serialize_deserialize hdeserialize⟩
  intro msg hbuilt htopic hdata hpublishers hvisited
  obtain ⟨bytes, hserialize, hdeserialize⟩ := deserialize_serialize
    ⟨htopic, hdata, hpublishers, hvisited⟩ hbuilt.standard
  exact ⟨bytes, _, hserialize, hdeserialize, rfl, rfl, rfl, rfl, rfl, fun _ => rfl⟩

def keyHash : HashFn := fun data seed => UInt64.ofNat (leNat data) * seed

/-- A message that its publisher has entered itself into. -/
def entered : RouteMessage :=
  ((create ⟨1, 2, 3⟩ [7, 7] [8] 3 24 3).addVisited keyHash (some ⟨5, 9000⟩)).addPublisher
    ⟨5, 9000⟩

theorem codec_lossless_entered :
    (entered.publishers = [⟨5, 9000⟩] ∧ entered.hasVisited keyHash (some ⟨5, 9000⟩) = true) ∧
    ∃ bytes received, entered.serialize = some bytes ∧
      RouteMessage.deserialize bytes = some received ∧ received.publishers = [⟨5, 9000⟩] ∧
      received.hasVisited keyHash (some ⟨5, 9000⟩) = true ∧
      received.serialize = some (bytes.take (consumed bytes)) := by
  have hbuilt : Built keyHash entered :=
    ((Built.create ⟨1, 2, 3⟩ [7, 7] [8] 3 24 (by norm_num)).addVisited (.inr (by decide))
      (some ⟨5, 9000⟩)).addPublisher ⟨5, 9000⟩
  have hlossless := codec_lossless keyHash
  have hvisited : entered.hasVisited keyHash (some ⟨5, 9000⟩) = true := by decide +kernel
  obtain ⟨bytes, received, hserialize, hdeserialize, -, -, -, -, hpublishers, hanswers⟩ :=
    hlossless.1 entered hbuilt (by decide) (by decide) (by decide) (by decide)
  refine ⟨⟨rfl, hvisited⟩, bytes, received, hserialize, hdeserialize, hpublishers, ?_, ?_⟩
  · exact (hanswers _).trans hvisited
  · exact hlossless.2 bytes received hdeserialize

end RouteMessage

end Poseidon
