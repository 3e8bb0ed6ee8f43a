import Poseidon.Bloom.BloomFilter
import Poseidon.Meridian.Protocol

/-!
# Routed messages and their wire form

A `quasar_route_message_t` travels as a header of eight 32-bit words in network byte order,
followed by the message id, the topic, the data, the publishers' addresses and ports as they lie
in memory, and the bits of the `visited` filter. The receiver rebuilds the message from these
bytes, so all that one node learns from another passes through `serialize` and `deserialize`.
-/

namespace Poseidon

/-- `quasar_message_id_t`: clock seconds, nanoseconds and a sequence counter. -/
structure MessageId where
  time : UInt64
  nanos : UInt64
  count : UInt64
deriving DecidableEq, Repr

namespace MessageId

-- the `seen` filter hashes the struct as it lies in memory
def key (id : MessageId) : Bytes :=
  leBytes 8 id.time.toNat ++ (leBytes 8 id.nanos.toNat ++ leBytes 8 id.count.toNat)

def serialize (id : MessageId) : Bytes :=
  beBytes 8 id.time.toNat ++ (beBytes 8 id.nanos.toNat ++ beBytes 8 id.count.toNat)

def deserialize (bytes : Bytes) : MessageId where
  time := UInt64.ofNat (beNat (slice bytes 0 8))
  nanos := UInt64.ofNat (beNat (slice bytes 8 8))
  count := UInt64.ofNat (beNat (slice bytes 16 8))

@[simp]
theorem length_serialize (id : MessageId) : id.serialize.length = 24 := by
  simp [serialize]

theorem beNat_beBytes_word (word : UInt64) :
    UInt64.ofNat (beNat (beBytes 8 word.toNat)) = word := by
  rw [beNat_beBytes (Nat.lt_of_lt_of_eq word.toNat_lt (by norm_num)), UInt64.ofNat_toNat]

theorem deserialize_serialize (id : MessageId) : deserialize id.serialize = id := by
  have htime : slice id.serialize 0 8 = beBytes 8 id.time.toNat :=
    slice_append_left _ _ _ (by simp)
  have hnanos : slice id.serialize 8 8 = beBytes 8 id.nanos.toNat := by
    rw [serialize, slice_append_right _ _ _ _ (by simp)]
    exact slice_append_left _ _ _ (by simp)
  have hcount : slice id.serialize 16 8 = beBytes 8 id.count.toNat := by
    rw [serialize, slice_append_right _ _ _ _ (by simp), slice_append_right _ _ _ _ (by simp)]
    exact slice_all _ _ (by simp)
  rw [deserialize, htime, hnanos, hcount, beNat_beBytes_word, beNat_beBytes_word,
    beNat_beBytes_word]

theorem serialize_deserialize {bytes : Bytes} (hlength : bytes.length = 24) :
    (deserialize bytes).serialize = bytes := by
  have hword : ∀ offset, offset + 8 ≤ bytes.length →
      beBytes 8 (UInt64.ofNat (beNat (slice bytes offset 8))).toNat = slice bytes offset 8 := by
    intro offset hoffset
    have hwidth := length_slice hoffset
    have hfits : beNat (slice bytes offset 8) < 2 ^ 64 := by
      calc beNat (slice bytes offset 8) < 256 ^ (slice bytes offset 8).length := beNat_lt _
        _ = 2 ^ 64 := by rw [hwidth]; norm_num
    have hbytes := beBytes_beNat (slice bytes offset 8)
    rw [hwidth] at hbytes
    rw [UInt64.toNat_ofNat_of_lt' hfits, hbytes]
  calc (deserialize bytes).serialize
      = slice bytes 0 8 ++ (slice bytes 8 8 ++ slice bytes 16 8) := by
        rw [serialize, deserialize, hword 0 (by omega), hword 8 (by omega),
          hword 16 (by omega)]
    _ = slice bytes 0 (8 + (8 + 8)) := by rw [slice_add, slice_add]
    _ = bytes := slice_all bytes _ hlength.symm

end MessageId

/-- `quasar_route_message_t`; `publishers` is the pair of arrays `pub_addrs` and `pub_ports`. -/
structure RouteMessage where
  id : MessageId
  topic : Bytes
  data : Bytes
  visited : BloomFilter
  hopsRemaining : UInt32
  publishers : List MeridianNode
deriving DecidableEq, Repr

namespace RouteMessage

def create (id : MessageId) (topic data : Bytes) (maxHops : UInt32) (negSize negHashes : Nat) :
    RouteMessage where
  id := id
  topic := topic
  data := data
  visited := BloomFilter.create negSize negHashes
  hopsRemaining := maxHops
  publishers := []

section Sets

variable (H : HashFn)

-- a connected peer may come without a node: nothing is marked, and it never counts as visited
def addVisited (msg : RouteMessage) : Option MeridianNode → RouteMessage
  | none => msg
  | some node => { msg with visited := msg.visited.add H node.key }

def hasVisited (msg : RouteMessage) : Option MeridianNode → Bool
  | none => false
  | some node => msg.visited.contains H node.key

def addPublisher (msg : RouteMessage) (node : MeridianNode) : RouteMessage :=
  { msg with publishers := msg.publishers ++ [node] }

end Sets

def magic : Nat := 0x51524F54

def version : Nat := 1

def maxPayloadSize : Nat := 1400

def maxNodes : Nat := 256

def header (msg : RouteMessage) : Bytes :=
  beBytes 4 magic ++ (beBytes 4 version ++ (beBytes 4 msg.topic.length ++
    (beBytes 4 msg.data.length ++ (beBytes 4 msg.hopsRemaining.toNat ++
      (beBytes 4 msg.publishers.length ++ (beBytes 4 msg.visited.size ++
        beBytes 4 msg.visited.hashCount))))))

def publisherBytes (publishers : List MeridianNode) : Bytes :=
  publishers.flatMap (fun node => leBytes 4 node.addr.toNat) ++
    publishers.flatMap (fun node => leBytes 2 node.port.toNat)

/-- `quasar_route_message_serialize`, which fails only where the total size leaves `size_t`. -/
def serialize (msg : RouteMessage) : Option Bytes :=
  let visitedBitBytes := BloomFilter.byteSize msg.visited.size
  let totalSize := 32 + 24 + msg.topic.length + msg.data.length + 6 * msg.publishers.length +
    visitedBitBytes
  if totalSize < 2 ^ 64 then
    some (msg.header ++ (msg.id.serialize ++ (msg.topic ++ (msg.data ++
      (publisherBytes msg.publishers ++ msg.visited.bits.data.takeD visitedBitBytes 0)))))
  else none

variable (msg : RouteMessage)

theorem isSome_serialize_iff :
    msg.serialize.isSome = true ↔
      32 + 24 + msg.topic.length + msg.data.length + 6 * msg.publishers.length +
        BloomFilter.byteSize msg.visited.size < 2 ^ 64 := by
  unfold serialize
  dsimp only
  split_ifs with hfits
  · exact iff_of_true rfl hfits
  · exact iff_of_false Bool.false_ne_true hfits

def headerWord (bytes : Bytes) (k : Nat) : Nat :=
  beNat (slice bytes (4 * k) 4)

def readPublisher (bytes : Bytes) (offset pubCount i : Nat) : MeridianNode where
  addr := UInt32.ofNat (leNat (slice bytes (offset + 4 * i) 4))
  port := UInt16.ofNat (leNat (slice bytes (offset + 4 * pubCount + 2 * i) 2))

/-- `quasar_route_message_deserialize`. The overflow tests of the source cannot fire behind the
bounds on the lengths and are left out. -/
def deserialize (bytes : Bytes) : Option RouteMessage :=
  let topicLen := headerWord bytes 2
  let dataLen := headerWord bytes 3
  let pubCount := headerWord bytes 5
  let visitedSize := headerWord bytes 6
  let visitedBitBytes := BloomFilter.byteSize visitedSize
  let pubOffset := 56 + topicLen + dataLen
  let visitedOffset := pubOffset + 6 * pubCount
  if bytes.length < 32 then none
  else if headerWord bytes 0 ≠ magic ∨ headerWord bytes 1 ≠ version then none
  else if topicLen > maxPayloadSize ∨ dataLen > maxPayloadSize then none
  else if pubCount > maxNodes then none
  else if bytes.length < visitedOffset + visitedBitBytes then none
  else some
    { id := MessageId.deserialize (slice bytes 32 24)
      topic := slice bytes 56 topicLen
      data := slice bytes (56 + topicLen) dataLen
      visited := { BloomFilter.create visitedSize (headerWord bytes 7) with
        bits := ⟨slice bytes visitedOffset visitedBitBytes⟩ }
      hopsRemaining := UInt32.ofNat (headerWord bytes 4)
      publishers := (List.range pubCount).map (readPublisher bytes pubOffset pubCount) }

@[simp]
theorem length_header : msg.header.length = 32 := by
  simp [header]

def headerFields (msg : RouteMessage) : List Nat :=
  [magic, version, msg.topic.length, msg.data.length, msg.hopsRemaining.toNat,
    msg.publishers.length, msg.visited.size, msg.visited.hashCount]

theorem header_eq : msg.header = msg.headerFields.flatMap (beBytes 4) := by
  simp [header, headerFields]

theorem headerWord_header (rest : Bytes) {k field : Nat}
    (hfield : msg.headerFields[k]? = some field) :
    headerWord (msg.header ++ rest) k = field % 2 ^ 32 := by
  have hwidth : 256 ^ 4 = 2 ^ 32 := by norm_num
  rw [headerWord, header_eq, slice_flatMap (fun _ => length_beBytes 4 _) rest hfield,
    beNat_beBytes_mod, hwidth]

theorem headerWord_four_header (rest : Bytes) :
    headerWord (msg.header ++ rest) 4 = msg.hopsRemaining.toNat := by
  rw [headerWord_header msg rest rfl, Nat.mod_eq_of_lt msg.hopsRemaining.toNat_lt]

theorem deserialize_serialize_id {msg received : RouteMessage} {bytes : Bytes}
    (hserialize : msg.serialize = some bytes) (hdeserialize : deserialize bytes = some received) :
    received.id = msg.id ∧ received.hopsRemaining = msg.hopsRemaining := by
  simp only [serialize, Option.ite_none_right_eq_some, Option.some.injEq] at hserialize
  obtain ⟨-, rfl⟩ := hserialize
  simp only [deserialize, Option.ite_none_left_eq_some, Option.some.injEq] at hdeserialize
  obtain ⟨-, -, -, -, -, rfl⟩ := hdeserialize
  refine ⟨?_, ?_⟩
  · have hslice : ∀ rest, slice (msg.header ++ (msg.id.serialize ++ rest)) 32 24 =
        msg.id.serialize := by
      intro rest
      rw [slice_append_right _ _ _ _ (by simp), length_header]
      exact slice_append_left _ _ _ (by simp)
    rw [hslice, MessageId.deserialize_serialize]
  · rw [headerWord_four_header, UInt32.ofNat_toNat]

end RouteMessage

end Poseidon
