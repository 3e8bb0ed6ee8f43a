import Mathlib.Data.List.TakeDrop
import Poseidon.Cbor.RoundTrip
import Poseidon.Meridian.Packet

/-!
# Overlay packets on the wire

A packet survives the wire when it is encoded, the bytes are loaded by the receiver and decoded to
the same packet. Base and ping packets are never encoded, as their arrays are allocated one item
short. Gossip and response packets are encoded, but the count, a byte, is read as eight, and an
entry of a response is read through a pointer of the wrong type.
-/

namespace Poseidon

open Cbor

/-! ### The header -/

namespace MeridianPacket

theorem joinQueryId_split (queryId : UInt64) :
    joinQueryId (queryId.toNat / 2 ^ 32) (queryId.toNat % 2 ^ 32) = queryId := by
  have hlow : queryId.toNat % 2 ^ 32 < 2 ^ 32 := Nat.mod_lt _ (by decide)
  have hjoin : (queryId.toNat / 2 ^ 32) <<< 32 ||| queryId.toNat % 2 ^ 32 = queryId.toNat := by
    rw [← Nat.shiftLeft_add_eq_or_of_lt hlow, Nat.shiftLeft_eq, Nat.div_add_mod']
  unfold joinQueryId
  rw [hjoin, UInt64.ofNat_toNat]

variable (packet : MeridianPacket)

@[simp]
theorem length_items : packet.items.length = 6 := rfl

theorem fits_items (room : Nat) : ∀ item ∈ packet.items, Item.Fits room item := by
  have hid : packet.queryId.toNat < 2 ^ 64 := packet.queryId.toNat_lt
  have hhigh : packet.queryId.toNat / 2 ^ 32 < 256 ^ 8 := by omega
  have hlow : packet.queryId.toNat % 2 ^ 32 < 256 ^ 8 := by omega
  rw [← fitsAll_iff]
  exact ⟨packet.type.toNat_lt, hhigh, hlow, packet.magic.toNat_lt, packet.rendvAddr.toNat_lt,
    packet.rendvPort.toNat_lt, trivial⟩

@[simp]
theorem read_items (behind : Nat → Nat) (packet : MeridianPacket) (rest : List Item) :
    read behind (packet.items ++ rest) = .packet (packet, rest) := by
  have hid : packet.queryId.toNat < 2 ^ 64 := packet.queryId.toNat_lt
  have hhigh : (Item.uint .w64 (packet.queryId.toNat / 2 ^ 32)).read (behind 1) 8 =
      packet.queryId.toNat / 2 ^ 32 :=
    Item.read_uint (behind 1) rfl (show _ < 256 ^ 8 by omega)
  have hlow : (Item.uint .w64 (packet.queryId.toNat % 2 ^ 32)).read (behind 2) 8 =
      packet.queryId.toNat % 2 ^ 32 :=
    Item.read_uint (behind 2) rfl (show _ < 256 ^ 8 by omega)
  simp only [items, List.cons_append, List.nil_append, read, hhigh, hlow, joinQueryId_split,
    Item.ofNat_read_uint8, Item.ofNat_read_uint16, Item.ofNat_read_uint32]

theorem encode_eq_none : packet.encode = none := by
  unfold encode
  rw [buildArray_eq, if_neg (by simp)]

end MeridianPacket

/-! ### Entries -/

def RendvNode.item (node : RendvNode) : Item :=
  .array [.uint .w32 node.addr.toNat, .uint .w16 node.port.toNat,
    .uint .w32 node.rendvAddr.toNat, .uint .w16 node.rendvPort.toNat]

theorem RendvNode.encode_eq (node : RendvNode) : node.encode = some node.item := rfl

@[simp]
theorem RendvNode.decode_item (behind : Nat → Nat) (node : RendvNode) :
    RendvNode.decode behind node.item = .packet node := by
  simp [RendvNode.item, RendvNode.decode]

theorem RendvNode.fits_item (node : RendvNode) {room : Nat} (hroom : 0 < room) :
    Item.Fits room node.item :=
  ⟨hroom, by simp, node.addr.toNat_lt, node.port.toNat_lt, node.rendvAddr.toNat_lt,
    node.rendvPort.toNat_lt, trivial⟩

def NodeLatency.item (node : NodeLatency) : Item :=
  .array [.uint .w32 node.addr.toNat, .uint .w16 node.port.toNat,
    .uint .w32 node.latencyUs.toNat]

theorem NodeLatency.encode_eq (node : NodeLatency) : node.encode = some node.item := rfl

@[simp]
theorem NodeLatency.decode_item (behind : Nat → Nat) (node : NodeLatency) :
    NodeLatency.decode behind node.item = .undefined := rfl

theorem NodeLatency.fits_item (node : NodeLatency) {room : Nat} (hroom : 0 < room) :
    Item.Fits room node.item :=
  ⟨hroom, by simp, node.addr.toNat_lt, node.port.toNat_lt, node.latencyUs.toNat_lt, trivial⟩

section Entries

variable {ε : Type} {encodeEntry : ε → Option Item} {item : ε → Item}

theorem entryItems_eq (hencode : ∀ entry, encodeEntry entry = some (item entry))
    (entries : List ε) :
    entryItems encodeEntry entries =
      some (.uint .w8 (entries.length % 256) :: entries.map item) := by
  have hmap : entries.mapM encodeEntry = some (entries.map item) := by
    rw [show encodeEntry = fun entry => pure (item entry) from funext hencode]
    exact List.mapM_pure
  unfold entryItems
  rw [hmap]
  rfl

theorem buildArray_entryItems (hencode : ∀ entry, encodeEntry entry = some (item entry))
    (header : List Item) (entries : List ε) (allocated : Nat) :
    ((entryItems encodeEntry entries).bind fun items => buildArray allocated (header ++ items)) =
      if header.length + 1 + entries.length ≤ allocated then
        some (.array (header ++ .uint .w8 (entries.length % 256) :: entries.map item))
      else none := by
  rw [entryItems_eq hencode, Option.bind_some, buildArray_eq]
  refine if_congr ?_ rfl rfl
  rw [List.length_append, List.length_cons, List.length_map]
  omega

def countRead (behind : Nat) (length : Nat) : Nat :=
  length % 256 + 256 * (behind % 256 ^ 7)

theorem decodeEntries_count (decodeEntry : (Nat → Nat) → Item → Decoded ε) (behind : Behind)
    (position : Nat) (entries : List ε) :
    decodeEntries decodeEntry behind position
        (.uint .w8 (entries.length % 256) :: entries.map item) =
      if countRead (behind 0 position) entries.length > maxNodes ∨
          countRead (behind 0 position) entries.length > entries.length then .rejected
      else readEntries decodeEntry behind 1
        ((entries.take (countRead (behind 0 position) entries.length)).map item) := by
  have hcount : (Item.uint .w8 (entries.length % 256)).read (behind 0 position) 8 =
      countRead (behind 0 position) entries.length :=
    Item.read_byte _ (Nat.mod_lt _ (by decide))
  simp only [decodeEntries, hcount, List.length_map, List.map_take]

theorem readEntries_of_decodes {decodeEntry : (Nat → Nat) → Item → Decoded ε}
    (hdecode : ∀ behind entry, decodeEntry behind (item entry) = .packet entry)
    (behind : Behind) (index : Nat) (entries : List ε) :
    readEntries decodeEntry behind index (entries.map item) = .packet entries := by
  induction entries generalizing index with
  | nil => rfl
  | cons entry entries ih =>
      rw [List.map_cons, readEntries, hdecode, Decoded.packet_bind, ih, Decoded.packet_bind]
      rfl

theorem readEntries_of_undefined {decodeEntry : (Nat → Nat) → Item → Decoded ε}
    (hdecode : ∀ behind entry, decodeEntry behind (item entry) = .undefined)
    (behind : Behind) (index : Nat) {entries : List ε} (hentries : entries ≠ []) :
    readEntries decodeEntry behind index (entries.map item) = .undefined := by
  cases entries with
  | nil => contradiction
  | cons entry entries => rw [List.map_cons, readEntries, hdecode, Decoded.undefined_bind]

theorem fits_withEntries {header : List Item} {entries : List ε}
    (hheader : ∀ item ∈ header, Item.Fits (maxStackSize - 1) item) (hlength : header.length ≤ 8)
    (hentries : entries.length ≤ maxNodes)
    (hitem : ∀ entry, Item.Fits (maxStackSize - 1) (item entry)) :
    Item.Fits maxStackSize (.array
      (header ++ .uint .w8 (entries.length % 256) :: entries.map item)) := by
  have hbyte : entries.length % 256 < 256 ^ 1 := Nat.mod_lt _ (by decide)
  unfold maxNodes at hentries
  refine ⟨by decide, ?_, ?_⟩
  · rw [List.length_append, List.length_cons, List.length_map]
    omega
  · rw [fitsAll_iff]
    intro found hfound
    rw [List.mem_append, List.mem_cons, List.mem_map] at hfound
    rcases hfound with hfound | rfl | ⟨entry, _, rfl⟩
    · exact hheader found hfound
    · exact hbyte
    · exact hitem entry

end Entries

/-! ### Packets with entries -/

theorem PingPacket.encode_eq_none (packet : PingPacket) : packet.encode = none := by
  unfold PingPacket.encode
  rw [Option.bind_eq_bind, buildArray_entryItems NodeLatency.encode_eq, if_neg]
  rw [MeridianPacket.length_items]
  omega

theorem GossipPacket.encode_eq (packet : GossipPacket) :
    packet.encode = some (.array (packet.base.items ++
      .uint .w8 (packet.targets.length % 256) :: packet.targets.map RendvNode.item)) := by
  unfold GossipPacket.encode
  rw [Option.bind_eq_bind, buildArray_entryItems RendvNode.encode_eq, if_pos]
  rw [MeridianPacket.length_items]

variable (behind : Behind) (packet : RetResponse)

theorem GossipPacket.decode_items (packet : GossipPacket)
    (hmagic : packet.base.magic = magicNumber) :
    GossipPacket.decode behind (.array (packet.base.items ++
        .uint .w8 (packet.targets.length % 256) :: packet.targets.map RendvNode.item)) =
      if countRead (behind 0 6) packet.targets.length > maxNodes ∨
          countRead (behind 0 6) packet.targets.length > packet.targets.length then .rejected
      else .packet ⟨packet.base,
        packet.targets.take (countRead (behind 0 6) packet.targets.length)⟩ := by
  unfold GossipPacket.decode decodeWithEntries
  dsimp only
  rw [if_neg (show ¬ List.length _ < 7 by simp +arith), MeridianPacket.read_items,
    Decoded.packet_bind]
  dsimp only
  rw [if_neg (not_not.mpr hmagic), decodeEntries_count,
    readEntries_of_decodes RendvNode.decode_item]
  split_ifs <;> rfl

def RetResponse.header (packet : RetResponse) : List Item :=
  packet.base.items ++
    [.uint .w32 packet.closest.addr.toNat, .uint .w16 packet.closest.port.toNat]

theorem RetResponse.encode_eq :
    packet.encode = some (.array (packet.header ++
      .uint .w8 (packet.targets.length % 256) :: packet.targets.map NodeLatency.item)) := by
  have hheader : packet.header.length = 8 := rfl
  refine (buildArray_entryItems NodeLatency.encode_eq packet.header _ _).trans (if_pos ?_)
  rw [hheader]

theorem RetResponse.fits_header (room : Nat) : ∀ item ∈ packet.header, Item.Fits room item := by
  intro item hitem
  rcases List.mem_append.mp hitem with hitem | hitem
  · exact packet.base.fits_items room item hitem
  · refine (fitsAll_iff room _).mp ?_ item hitem
    exact ⟨packet.closest.addr.toNat_lt, packet.closest.port.toNat_lt, trivial⟩

theorem RetResponse.decode_items (hmagic : packet.base.magic = magicNumber) :
    RetResponse.decode behind (.array (packet.header ++
        .uint .w8 (packet.targets.length % 256) :: packet.targets.map NodeLatency.item)) =
      if countRead (behind 0 8) packet.targets.length > maxNodes ∨
          countRead (behind 0 8) packet.targets.length > packet.targets.length then .rejected
      else if countRead (behind 0 8) packet.targets.length = 0 ∨ packet.targets = [] then
        .packet { packet with targets := [] }
      else .undefined := by
  unfold RetResponse.decode RetResponse.header
  dsimp only
  rw [if_neg (show ¬ List.length _ < 9 by simp +arith), List.append_assoc,
    MeridianPacket.read_items, Decoded.packet_bind]
  dsimp only [List.cons_append, List.nil_append]
  rw [if_neg (not_not.mpr hmagic), decodeEntries_count, Item.ofNat_read_uint32,
    Item.ofNat_read_uint16]
  split_ifs with hrejected hnone
  · rfl
  · rw [List.take_eq_nil_iff.mpr hnone]
    rfl
  · rw [readEntries_of_undefined NodeLatency.decode_item behind 1
      (fun hnil => hnone (List.take_eq_nil_iff.mp hnil))]
    rfl

/-! ### Survival -/

/-- The packet is encoded, and the receiver loads and decodes it as it was. -/
def SurvivesWire {α : Type} (encode : α → Option Item) (decode : Item → Decoded α) (packet : α) :
    Prop :=
  ∃ item received, encode packet = some item ∧ load (serialize item) = some received ∧
    decode received = .packet packet

theorem not_survivesWire {α : Type} {encode : α → Option Item} (decode : Item → Decoded α)
    {packet : α} (hencode : encode packet = none) : ¬ SurvivesWire encode decode packet := by
  rintro ⟨item, received, hitem, _⟩
  rw [hencode] at hitem
  contradiction

theorem survivesWire_iff {α : Type} {encode : α → Option Item} (decode : Item → Decoded α)
    {packet : α} {item : Item} (hencode : encode packet = some item)
    (hfits : Item.Fits maxStackSize item) :
    SurvivesWire encode decode packet ↔ decode item = .packet packet := by
  constructor
  · rintro ⟨sent, received, hsent, hload, hdecode⟩
    obtain rfl := Option.some.inj (hencode.symm.trans hsent)
    obtain rfl := Option.some.inj ((load_serialize hfits).symm.trans hload)
    exact hdecode
  · intro hdecode
    exact ⟨item, item, hencode, load_serialize hfits, hdecode⟩

theorem GossipPacket.survives_iff_countRead (packet : GossipPacket)
    (hmagic : packet.base.magic = magicNumber) (hentries : packet.targets.length ≤ maxNodes) :
    SurvivesWire GossipPacket.encode (GossipPacket.decode behind) packet ↔
      countRead (behind 0 6) packet.targets.length = packet.targets.length := by
  have hfits := fits_withEntries (packet.base.fits_items _) (by simp) hentries
    (fun node : RendvNode => node.fits_item (by decide))
  rw [survivesWire_iff _ packet.encode_eq hfits, packet.decode_items behind hmagic]
  split_ifs with hrejected
  · constructor
    · intro hpacket
      contradiction
    · intro hcount
      omega
  · rw [Decoded.packet.injEq, GossipPacket.mk.injEq, List.take_eq_self_iff, and_iff_right rfl]
    omega

theorem RetResponse.survives_iff_countRead (hmagic : packet.base.magic = magicNumber)
    (hentries : packet.targets.length ≤ maxNodes) :
    SurvivesWire RetResponse.encode (RetResponse.decode behind) packet ↔
      packet.targets = [] ∧ countRead (behind 0 8) 0 = 0 := by
  have hfits := fits_withEntries (packet.fits_header _) (Nat.le_refl 8) hentries
    (fun node : NodeLatency => node.fits_item (by decide))
  rw [survivesWire_iff _ packet.encode_eq hfits, packet.decode_items behind hmagic]
  obtain ⟨base, closest, targets⟩ := packet
  split_ifs with hrejected hnone
  · constructor
    · intro hpacket
      contradiction
    · rintro ⟨rfl, hcount⟩
      rw [List.length_nil, hcount] at hrejected
      omega
  · rw [Decoded.packet.injEq, RetResponse.mk.injEq]
    constructor
    · rintro ⟨_, _, rfl⟩
      rw [List.length_nil] at hrejected
      exact ⟨rfl, by omega⟩
    · rintro ⟨rfl, _⟩
      exact ⟨rfl, rfl, rfl⟩
  · constructor
    · intro hpacket
      contradiction
    · rintro ⟨rfl, _⟩
      exact absurd (Or.inr rfl) hnone

/-- The packets of the overlay, each with the encoder and decoder of its kind. -/
inductive OverlayPacket where
  | base (packet : MeridianPacket)
  | ping (packet : PingPacket)
  | gossip (packet : GossipPacket)
  | response (packet : RetResponse)
deriving DecidableEq, Repr

namespace OverlayPacket

def header : OverlayPacket → MeridianPacket
  | .base packet => packet
  | .ping packet => packet.base
  | .gossip packet => packet.base
  | .response packet => packet.base

def entries : OverlayPacket → Nat
  | .base _ => 0
  | .ping packet => packet.nodes.length
  | .gossip packet => packet.targets.length
  | .response packet => packet.targets.length

def Survives (behind : Behind) : OverlayPacket → Prop
  | .base packet => SurvivesWire MeridianPacket.encode (MeridianPacket.decode behind) packet
  | .ping packet => SurvivesWire PingPacket.encode (PingPacket.decode behind) packet
  | .gossip packet => SurvivesWire GossipPacket.encode (GossipPacket.decode behind) packet
  | .response packet => SurvivesWire RetResponse.encode (RetResponse.decode behind) packet

/-- The seven bytes behind the count at `position` of a packet. -/
def behindCount (behind : Behind) (position : Nat) : Nat :=
  behind 0 position % 256 ^ 7

/-- A gossip packet whose receiver finds zeros behind the count, or a one behind the zero that
stands for 256 targets; a response without targets whose receiver finds zeros there. -/
def Spared (behind : Behind) : OverlayPacket → Prop
  | .base _ => False
  | .ping _ => False
  | .gossip packet =>
      packet.targets.length < 256 ∧ behindCount behind 6 = 0 ∨
        packet.targets.length = 256 ∧ behindCount behind 6 = 1
  | .response packet => packet.targets = [] ∧ behindCount behind 8 = 0

/-- **Overlay packets on the wire.** A packet with the magic number and at most `maxNodes` entries
arrives as it was sent exactly when it is spared. -/
theorem survives_iff (behind : Behind) (packet : OverlayPacket)
    (hmagic : packet.header.magic = magicNumber) (hentries : packet.entries ≤ maxNodes) :
    packet.Survives behind ↔ packet.Spared behind := by
  cases packet with
  | base packet => exact iff_false_intro (not_survivesWire _ packet.encode_eq_none)
  | ping packet => exact iff_false_intro (not_survivesWire _ packet.encode_eq_none)
  | gossip packet =>
      refine (packet.survives_iff_countRead behind hmagic hentries).trans ?_
      change packet.targets.length ≤ 256 at hentries
      change packet.targets.length % 256 + 256 * behindCount behind 6 = packet.targets.length ↔
        packet.targets.length < 256 ∧ behindCount behind 6 = 0 ∨
          packet.targets.length = 256 ∧ behindCount behind 6 = 1
      omega
  | response packet =>
      refine (packet.survives_iff_countRead behind hmagic hentries).trans ?_
      change packet.targets = [] ∧ 0 + 256 * behindCount behind 8 = 0 ↔
        packet.targets = [] ∧ behindCount behind 8 = 0
      refine and_congr_right fun _ => ?_
      omega

/-- A gossip packet with one target, received over zeroed memory. -/
theorem survives_iff_gossip :
    ∃ packet : OverlayPacket, packet.Spared (fun _ _ => 0) ∧ packet.Survives (fun _ _ => 0) := by
  let packet : OverlayPacket :=
    .gossip ⟨⟨10, 0x123456789, magicNumber, 0, 0⟩, [⟨0x0100007F, 4000, 0, 0⟩]⟩
  have hspared : packet.Spared (fun _ _ => 0) := Or.inl ⟨by decide, rfl⟩
  exact ⟨packet, hspared, (survives_iff (fun _ _ => 0) packet rfl (by decide)).mpr hspared⟩

/-- The ping a node sends to measure a latency is not encoded. -/
theorem ping_not_encoded :
    ∃ packet : OverlayPacket, packet.header.magic = magicNumber ∧ packet.entries ≤ maxNodes ∧
      ¬ packet.Survives (fun _ _ => 0) := by
  refine ⟨.base ⟨14, 1, magicNumber, 0, 0⟩, rfl, by decide, ?_⟩
  exact not_survivesWire _ (MeridianPacket.encode_eq_none _)

end OverlayPacket

end Poseidon
