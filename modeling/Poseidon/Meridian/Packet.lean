import Poseidon.Cbor.Load
import Poseidon.Meridian.Protocol

/-!
# Meridian overlay packets

The packets the overlay's nodes exchange, as CBOR arrays: a header of six items, then for all but
the base packet a count and the entries. A decoder checks the size of the array, the magic number
and the count, and reads everything else without looking at its type. What such a read finds
behind an item narrower than itself is a parameter of the decoder, for each item of the packet and
of each entry; a read beyond the items, or through a pointer of the wrong type, is undefined.
-/

namespace Poseidon

open Cbor

/-- `MERIDIAN_MAGIC_NUMBER`. -/
def magicNumber : UInt32 := 0x0A0B0C0D

/-- `MERIDIAN_MAX_NODES`. -/
def maxNodes : Nat := 256

inductive Decoded (α : Type) where
  | rejected
  | undefined
  | packet (value : α)
deriving DecidableEq, Repr

namespace Decoded

def bind {α β : Type} : Decoded α → (α → Decoded β) → Decoded β
  | .rejected, _ => .rejected
  | .undefined, _ => .undefined
  | .packet value, next => next value

instance : Monad Decoded where
  pure := .packet
  bind := bind

@[simp]
theorem packet_bind {α β : Type} (value : α) (next : α → Decoded β) :
    (Decoded.packet value >>= next) = next value := rfl

@[simp]
theorem undefined_bind {α β : Type} (next : α → Decoded β) :
    ((Decoded.undefined : Decoded α) >>= next) = .undefined := rfl

end Decoded

/-- The memory behind each item: of the packet at entry zero, of its entries from one on. -/
abbrev Behind := Nat → Nat → Nat

/-! ### The header -/

/-- `meridian_packet_t`. -/
structure MeridianPacket where
  type : UInt8
  queryId : UInt64
  magic : UInt32
  rendvAddr : UInt32
  rendvPort : UInt16
deriving DecidableEq, Repr

namespace MeridianPacket

def items (packet : MeridianPacket) : List Item :=
  [.uint .w8 packet.type.toNat, .uint .w64 (packet.queryId.toNat / 2 ^ 32),
    .uint .w64 (packet.queryId.toNat % 2 ^ 32), .uint .w32 packet.magic.toNat,
    .uint .w32 packet.rendvAddr.toNat, .uint .w16 packet.rendvPort.toNat]

/-- Both halves of the query id are read as 64-bit numbers. -/
def joinQueryId (high low : Nat) : UInt64 :=
  UInt64.ofNat (high <<< 32 ||| low)

def read (behind : Nat → Nat) : List Item → Decoded (MeridianPacket × List Item)
  | type :: high :: low :: magic :: addr :: port :: rest =>
      .packet (⟨UInt8.ofNat (type.read (behind 0) 1),
        joinQueryId (high.read (behind 1) 8) (low.read (behind 2) 8),
        UInt32.ofNat (magic.read (behind 3) 4), UInt32.ofNat (addr.read (behind 4) 4),
        UInt16.ofNat (port.read (behind 5) 2)⟩, rest)
  | _ => .undefined

-- the array is allocated for five items, and the header has six
def encode (packet : MeridianPacket) : Option Item :=
  buildArray 5 packet.items

def decode (behind : Behind) : Item → Decoded MeridianPacket
  | .array items =>
      if items.length < 5 then .rejected
      else do
        let (packet, _) ← read (behind 0) items
        if packet.magic ≠ magicNumber then .rejected else return packet
  | _ => .rejected

end MeridianPacket

/-! ### Entries -/

/-- A target of a gossip packet: a node and its rendezvous point. -/
structure RendvNode where
  addr : UInt32
  port : UInt16
  rendvAddr : UInt32
  rendvPort : UInt16
deriving DecidableEq, Repr

def RendvNode.encode (node : RendvNode) : Option Item :=
  buildArray 4 [.uint .w32 node.addr.toNat, .uint .w16 node.port.toNat,
    .uint .w32 node.rendvAddr.toNat, .uint .w16 node.rendvPort.toNat]

def RendvNode.decode (behind : Nat → Nat) : Item → Decoded RendvNode
  | .array [addr, port, rendvAddr, rendvPort] =>
      .packet ⟨UInt32.ofNat (addr.read (behind 0) 4), UInt16.ofNat (port.read (behind 1) 2),
        UInt32.ofNat (rendvAddr.read (behind 2) 4), UInt16.ofNat (rendvPort.read (behind 3) 2)⟩
  | _ => .rejected

/-- `meridian_node_latency_t`, and a node of a ping packet with its latency. -/
structure NodeLatency where
  addr : UInt32
  port : UInt16
  latencyUs : UInt32
deriving DecidableEq, Repr

def NodeLatency.encode (node : NodeLatency) : Option Item :=
  buildArray 3 [.uint .w32 node.addr.toNat, .uint .w16 node.port.toNat,
    .uint .w32 node.latencyUs.toNat]

-- the array of pointers is read as an array of items: the first value is fetched through a
-- pointer that lies beyond the three
def NodeLatency.decode (_behind : Nat → Nat) : Item → Decoded NodeLatency
  | .array [_, _, _] => .undefined
  | _ => .rejected

section Entries

variable {ε : Type}

-- the count is built as a byte
def entryItems (encodeEntry : ε → Option Item) (entries : List ε) : Option (List Item) := do
  let items ← entries.mapM encodeEntry
  return .uint .w8 (entries.length % 256) :: items

def readEntries (decodeEntry : (Nat → Nat) → Item → Decoded ε) (behind : Behind) :
    Nat → List Item → Decoded (List ε)
  | _, [] => return []
  | index, item :: items => do
      let entry ← decodeEntry (behind index) item
      let entries ← readEntries decodeEntry behind (index + 1) items
      return entry :: entries

/-- The count at `position` of the packet, read as a 64-bit number, and as many entries. -/
def decodeEntries (decodeEntry : (Nat → Nat) → Item → Decoded ε) (behind : Behind)
    (position : Nat) : List Item → Decoded (List ε)
  | [] => .undefined
  | count :: items =>
      let number := count.read (behind 0 position) 8
      if number > maxNodes ∨ number > items.length then .rejected
      else readEntries decodeEntry behind 1 (items.take number)

end Entries

/-! ### Packets with entries -/

/-- `meridian_gossip_packet_t`. -/
structure GossipPacket where
  base : MeridianPacket
  targets : List RendvNode
deriving DecidableEq, Repr

/-- `meridian_ping_packet_t`. -/
structure PingPacket where
  base : MeridianPacket
  nodes : List NodeLatency
deriving DecidableEq, Repr

/-- `meridian_ret_response_t`. -/
structure RetResponse where
  base : MeridianPacket
  closest : MeridianNode
  targets : List NodeLatency
deriving DecidableEq, Repr

/-- The decoder of a gossip or ping packet, which accepts arrays of `least` items or more. -/
def decodeWithEntries {ε : Type} (least : Nat) (decodeEntry : (Nat → Nat) → Item → Decoded ε)
    (behind : Behind) : Item → Decoded (MeridianPacket × List ε)
  | .array items =>
      if items.length < least then .rejected
      else do
        let (base, rest) ← MeridianPacket.read (behind 0) items
        if base.magic ≠ magicNumber then .rejected
        else do
          let entries ← decodeEntries decodeEntry behind 6 rest
          return (base, entries)
  | _ => .rejected

def GossipPacket.encode (packet : GossipPacket) : Option Item := do
  let entries ← entryItems RendvNode.encode packet.targets
  buildArray (7 + packet.targets.length) (packet.base.items ++ entries)

def GossipPacket.decode (behind : Behind) (item : Item) : Decoded GossipPacket := do
  let (base, targets) ← decodeWithEntries 7 RendvNode.decode behind item
  return ⟨base, targets⟩

-- the array is allocated without a place for the count
def PingPacket.encode (packet : PingPacket) : Option Item := do
  let entries ← entryItems NodeLatency.encode packet.nodes
  buildArray (6 + packet.nodes.length) (packet.base.items ++ entries)

def PingPacket.decode (behind : Behind) (item : Item) : Decoded PingPacket := do
  let (base, nodes) ← decodeWithEntries 6 NodeLatency.decode behind item
  return ⟨base, nodes⟩

def RetResponse.encode (packet : RetResponse) : Option Item := do
  let entries ← entryItems NodeLatency.encode packet.targets
  buildArray (9 + packet.targets.length) (packet.base.items ++
    [.uint .w32 packet.closest.addr.toNat, .uint .w16 packet.closest.port.toNat] ++ entries)

def RetResponse.decode (behind : Behind) : Item → Decoded RetResponse
  | .array items =>
      if items.length < 9 then .rejected
      else do
        let (base, rest) ← MeridianPacket.read (behind 0) items
        match rest with
        | addr :: port :: rest =>
            let closest : MeridianNode := ⟨UInt32.ofNat (addr.read (behind 0 6) 4),
              UInt16.ofNat (port.read (behind 0 7) 2)⟩
            if base.magic ≠ magicNumber then .rejected
            else do
              let targets ← decodeEntries NodeLatency.decode behind 8 rest
              return ⟨base, closest, targets⟩
        | _ => .undefined
  | _ => .rejected

end Poseidon
