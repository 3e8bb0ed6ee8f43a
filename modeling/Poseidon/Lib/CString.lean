import Mathlib.Data.List.TakeWhile
import Poseidon.Lib.Bytes

/-!
# Strings in fixed buffers

What a `char` array of a given capacity holds as a string: fewer bytes than its capacity, none of
them zero. Reading memory as a string cuts it at the first zero byte. A buffer of bytes carries the
length used of it instead.
-/

namespace Poseidon

/-- The string in a `char[capacity]`. -/
@[ext]
structure CString (capacity : Nat) where
  bytes : Bytes
  length_lt : bytes.length < capacity
  zero_not_mem : (0 : UInt8) ∉ bytes
deriving DecidableEq, Repr

namespace CString

variable {capacity : Nat}

/-- The string at the start of some memory. -/
def cut (memory : Bytes) : Bytes :=
  memory.takeWhile (· != 0)

theorem length_cut_le (memory : Bytes) : (cut memory).length ≤ memory.length :=
  (List.takeWhile_sublist _).length_le

theorem zero_not_mem_cut (memory : Bytes) : (0 : UInt8) ∉ cut memory := by
  intro hmem
  have hne := List.mem_takeWhile_imp hmem
  simp at hne

variable {memory : Bytes}

theorem cut_eq_self (hzero : (0 : UInt8) ∉ memory) : cut memory = memory := by
  unfold cut
  rw [List.takeWhile_eq_self_iff]
  intro byte hbyte
  simp only [bne_iff_ne, ne_eq]
  intro heq
  exact hzero (heq ▸ hbyte)

/-- The bytes are copied into a cleared buffer if they leave room for the final zero. -/
def ofMemory (capacity : Nat) (memory : Bytes) : Option (CString capacity) :=
  if hfits : memory.length < capacity then
    some ⟨cut memory, lt_of_le_of_lt (length_cut_le memory) hfits, zero_not_mem_cut memory⟩
  else none

@[simp]
theorem ofMemory_bytes (string : CString capacity) :
    ofMemory capacity string.bytes = some string := by
  unfold ofMemory
  rw [dif_pos string.length_lt]
  congr 1
  ext1
  exact cut_eq_self string.zero_not_mem

theorem ofMemory_eq_some (hfits : memory.length < capacity) (hzero : (0 : UInt8) ∉ memory) :
    ∃ string, ofMemory capacity memory = some string ∧ string.bytes = memory :=
  ⟨⟨memory, hfits, hzero⟩, ofMemory_bytes ⟨memory, hfits, hzero⟩, rfl⟩

/-- `strncpy` of as many bytes as leave room for the final zero. -/
def copy (room : Nat) (memory : Bytes) : CString (room + 1) where
  bytes := (cut memory).take room
  length_lt := by
    rw [List.length_take]
    omega
  zero_not_mem := fun hmem => zero_not_mem_cut memory (List.mem_of_mem_take hmem)

theorem bytes_copy_eq_take (hzero : (0 : UInt8) ∉ memory) (room : Nat) :
    (copy room memory).bytes = memory.take room := by
  change (cut memory).take room = memory.take room
  rw [cut_eq_self hzero]

theorem bytes_copy {room : Nat} (hfits : memory.length ≤ room) (hzero : (0 : UInt8) ∉ memory) :
    (copy room memory).bytes = memory := by
  rw [bytes_copy_eq_take hzero, List.take_of_length_le hfits]

end CString

/-- A string in memory of any size. -/
@[ext]
structure CText where
  bytes : Bytes
  zero_not_mem : (0 : UInt8) ∉ bytes
deriving DecidableEq, Repr

/-! ### Buffers with a length -/

/-- A buffer of a fixed capacity and the length used of it. -/
@[ext]
structure ByteBuffer (capacity : Nat) where
  bytes : Bytes
  length_le : bytes.length ≤ capacity
deriving DecidableEq, Repr

namespace ByteBuffer

variable {capacity : Nat}

def empty (capacity : Nat) : ByteBuffer capacity :=
  ⟨[], Nat.zero_le _⟩

def ofMemory (capacity : Nat) (memory : Bytes) : Option (ByteBuffer capacity) :=
  if hfits : memory.length ≤ capacity then some ⟨memory, hfits⟩ else none

@[simp]
theorem ofMemory_bytes (buffer : ByteBuffer capacity) :
    ofMemory capacity buffer.bytes = some buffer :=
  dif_pos buffer.length_le

end ByteBuffer

end Poseidon
