import Poseidon.Lib.Bytes

/-!
# CBOR items and their serialization

The items of the CBOR library the packets are built with. Integers remember the width they were
built with and are written at that width, except that a byte below 24 goes into the initial byte;
lengths and tags are written as short as possible. A map lists keys and values alternately.

The getters trust the caller to have checked the type and read the memory of the item. One narrower
than the item returns its low bytes, one wider reads on behind its value, and on an item that is no
integer they return what stands in its place: the raw payload of a float, a pointer, the bytes of a
string. What the memory holds there is an argument of everything that uses a getter. A model that
does not name it runs over a memory of zeros.
-/

namespace Poseidon.Cbor

inductive IntWidth where
  | w8
  | w16
  | w32
  | w64
deriving DecidableEq, Repr

def IntWidth.bytes : IntWidth → Nat
  | .w8 => 1
  | .w16 => 2
  | .w32 => 4
  | .w64 => 8

/-- `cbor_item_t`. -/
inductive Item where
  | uint (width : IntWidth) (value : Nat)
  | negint (width : IntWidth) (value : Nat)
  | bytestring (data : Bytes)
  | bytestringIndefinite (chunks : List Bytes)
  | string (data : Bytes)
  | stringIndefinite (chunks : List Bytes)
  | array (items : List Item)
  | arrayIndefinite (items : List Item)
  | map (items : List Item)
  | mapIndefinite (items : List Item)
  | tag (value : Nat) (item : Item)
  | simple (value : Nat)
  | float (width : IntWidth) (raw : Bytes)

/-- The memory the getters read beside the values of the integers. -/
class Memory where
  behind : Item → Nat

/-- Where a definition fixes the memory, it is zero. -/
instance : Memory := ⟨fun _ => 0⟩

namespace Item

def isUint : Item → Bool
  | .uint _ _ => true
  | _ => false

/-- What a getter of the given width returns if the memory holds `behind`, above the bytes of an
integer, which is little-endian, or in the place of another item's value. -/
def read (behind bytes : Nat) : Item → Nat
  | .uint width value => (value + 256 ^ width.bytes * behind) % 256 ^ bytes
  | .negint width value => (value + 256 ^ width.bytes * behind) % 256 ^ bytes
  | _ => behind % 256 ^ bytes

variable (behind : Nat)

theorem read_uint {width : IntWidth} {bytes : Nat} (hwidth : width.bytes = bytes) {value : Nat}
    (hvalue : value < 256 ^ bytes) : (Item.uint width value).read behind bytes = value := by
  rw [read, hwidth, Nat.add_mul_mod_self_left, Nat.mod_eq_of_lt hvalue]

@[simp]
theorem ofNat_read_uint8 (value : UInt8) :
    UInt8.ofNat ((Item.uint .w8 value.toNat).read behind 1) = value :=
  (congrArg UInt8.ofNat (read_uint behind rfl value.toNat_lt)).trans UInt8.ofNat_toNat

@[simp]
theorem ofNat_read_uint16 (value : UInt16) :
    UInt16.ofNat ((Item.uint .w16 value.toNat).read behind 2) = value :=
  (congrArg UInt16.ofNat (read_uint behind rfl value.toNat_lt)).trans UInt16.ofNat_toNat

@[simp]
theorem ofNat_read_uint32 (value : UInt32) :
    UInt32.ofNat ((Item.uint .w32 value.toNat).read behind 4) = value :=
  (congrArg UInt32.ofNat (read_uint behind rfl value.toNat_lt)).trans UInt32.ofNat_toNat

theorem read_byte {value : Nat} (hvalue : value < 256) :
    (Item.uint .w8 value).read behind 8 = value + 256 * (behind % 256 ^ 7) := by
  change (value + 256 ^ 1 * behind) % 256 ^ 8 = value + 256 * (behind % 256 ^ 7)
  norm_num
  omega

section Getters

variable [Memory]

/-- `cbor_get_int`, which reads an integer at its own width. -/
def getInt : Item → Nat
  | .uint _ value => value
  | .negint _ value => value
  | item => item.read (Memory.behind item) 8

def getUint8 (item : Item) : Nat :=
  item.read (Memory.behind item) 1

def getUint16 (item : Item) : Nat :=
  item.read (Memory.behind item) 2

def getUint32 (item : Item) : Nat :=
  item.read (Memory.behind item) 4

def getUint64 (item : Item) : Nat :=
  item.read (Memory.behind item) 8

@[simp]
theorem ofNat_getUint8 (value : UInt8) :
    UInt8.ofNat (Item.uint .w8 value.toNat).getUint8 = value :=
  ofNat_read_uint8 _ value

@[simp]
theorem ofNat_getUint16 (value : UInt16) :
    UInt16.ofNat (Item.uint .w16 value.toNat).getUint16 = value :=
  ofNat_read_uint16 _ value

@[simp]
theorem ofNat_getUint32 (value : UInt32) :
    UInt32.ofNat (Item.uint .w32 value.toNat).getUint32 = value :=
  ofNat_read_uint32 _ value

@[simp]
theorem ofNat_getUint64 (value : UInt64) :
    UInt64.ofNat (Item.uint .w64 value.toNat).getUint64 = value :=
  (congrArg UInt64.ofNat (read_uint _ rfl value.toNat_lt)).trans UInt64.ofNat_toNat

@[simp]
theorem getUint8_uint {value : Nat} (hvalue : value < 256) :
    (Item.uint .w8 value).getUint8 = value :=
  read_uint _ rfl hvalue

theorem getUint64_uint {value : Nat} (hvalue : value < 2 ^ 64) :
    (Item.uint .w64 value).getUint64 = value :=
  read_uint _ rfl hvalue

end Getters

-- `cbor_bytestring_length` and `cbor_string_length` are zero for an indefinite string

def bytestringData : Item → Option Bytes
  | .bytestring data => some data
  | .bytestringIndefinite _ => some []
  | _ => none

def stringData : Item → Option Bytes
  | .string data => some data
  | .stringIndefinite _ => some []
  | _ => none

def arrayItems : Item → Option (List Item)
  | .array items => some items
  | .arrayIndefinite items => some items
  | _ => none

def mapItems : Item → Option (List Item)
  | .map items => some items
  | .mapIndefinite items => some items
  | _ => none

end Item

/-- `cbor_array_push` into a definite array, which is not reallocated. -/
def arrayPush (allocated : Nat) (items : List Item) (item : Item) : Option (List Item) :=
  if items.length ≥ allocated then none else some (items ++ [item])

/-- A definite array allocated for a number of items, into which `items` are pushed. -/
def buildArray (allocated : Nat) (items : List Item) : Option Item :=
  (items.foldlM (arrayPush allocated) []).map Item.array

theorem foldlM_arrayPush (allocated : Nat) (front items : List Item)
    (hfront : front.length ≤ allocated) :
    items.foldlM (arrayPush allocated) front =
      if front.length + items.length ≤ allocated then some (front ++ items) else none := by
  induction items generalizing front with
  | nil => simp [hfront]
  | cons item items ih =>
      have hpushed : (front ++ [item]).length = front.length + 1 := List.length_append
      rw [List.foldlM_cons, arrayPush, List.length_cons]
      by_cases hfull : front.length ≥ allocated
      · rw [if_pos hfull, if_neg (by omega)]
        rfl
      · rw [if_neg hfull, Option.bind_eq_bind, Option.bind_some,
          ih (front ++ [item]) (by omega), hpushed, Nat.add_assoc, Nat.add_comm 1,
          List.append_assoc, List.singleton_append]

theorem buildArray_eq (allocated : Nat) (items : List Item) :
    buildArray allocated items =
      if items.length ≤ allocated then some (.array items) else none := by
  unfold buildArray
  rw [foldlM_arrayPush allocated [] items (Nat.zero_le _), List.length_nil, Nat.zero_add,
    List.nil_append]
  split_ifs <;> rfl

/-- An initial byte of the given major type with the shortest encoding of `value` behind it. -/
def encodeHead (major value : Nat) : Bytes :=
  if value ≤ 23 then [UInt8.ofNat (major * 32 + value)]
  else if value < 2 ^ 8 then UInt8.ofNat (major * 32 + 24) :: beBytes 1 value
  else if value < 2 ^ 16 then UInt8.ofNat (major * 32 + 25) :: beBytes 2 value
  else if value < 2 ^ 32 then UInt8.ofNat (major * 32 + 26) :: beBytes 4 value
  else UInt8.ofNat (major * 32 + 27) :: beBytes 8 value

def encodeInt (major : Nat) (width : IntWidth) (value : Nat) : Bytes :=
  match width with
  | .w8 =>
      if value ≤ 23 then [UInt8.ofNat (major * 32 + value)]
      else UInt8.ofNat (major * 32 + 24) :: beBytes 1 value
  | .w16 => UInt8.ofNat (major * 32 + 25) :: beBytes 2 value
  | .w32 => UInt8.ofNat (major * 32 + 26) :: beBytes 4 value
  | .w64 => UInt8.ofNat (major * 32 + 27) :: beBytes 8 value

def encodeChunks (major : Nat) (chunks : List Bytes) : Bytes :=
  chunks.flatMap fun chunk => encodeHead major chunk.length ++ chunk

mutual

/-- `cbor_serialize_alloc`. -/
def serialize : Item → Bytes
  | .uint width value => encodeInt 0 width value
  | .negint width value => encodeInt 1 width value
  | .bytestring data => encodeHead 2 data.length ++ data
  | .bytestringIndefinite chunks => 0x5F :: (encodeChunks 2 chunks ++ [0xFF])
  | .string data => encodeHead 3 data.length ++ data
  | .stringIndefinite chunks => 0x7F :: (encodeChunks 3 chunks ++ [0xFF])
  | .array items => encodeHead 4 items.length ++ serializeAll items
  | .arrayIndefinite items => 0x9F :: (serializeAll items ++ [0xFF])
  | .map items => encodeHead 5 (items.length / 2) ++ serializeAll items
  | .mapIndefinite items => 0xBF :: (serializeAll items ++ [0xFF])
  | .tag value item => encodeHead 6 value ++ serialize item
  | .simple value => [UInt8.ofNat (7 * 32 + value)]
  | .float .w16 raw => 0xF9 :: raw
  | .float .w32 raw => 0xFA :: raw
  | .float _ raw => 0xFB :: raw

def serializeAll : List Item → Bytes
  | [] => []
  | item :: items => serialize item ++ serializeAll items

end

end Poseidon.Cbor
