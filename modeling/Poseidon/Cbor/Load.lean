import Poseidon.Cbor.Item

/-!
# Loading a CBOR item

`cbor_load` decodes one token after another and hands each to a builder, which keeps the
containers that are still open on a stack. A finished item is appended to the innermost open
container; when that was its last element, the container is itself finished and appended one
level up. Loading ends when an item is finished with no container open. Bytes behind it are not
looked at.
-/

namespace Poseidon.Cbor

inductive Token where
  | uint (width : IntWidth) (value : Nat)
  | negint (width : IntWidth) (value : Nat)
  | byteString (data : Bytes)
  | byteStringStart
  | string (data : Bytes)
  | stringStart
  | arrayStart (size : Nat)
  | indefArrayStart
  | mapStart (size : Nat)
  | indefMapStart
  | tag (value : Nat)
  | simple (value : Nat)
  | float (width : IntWidth) (raw : Bytes)
  | indefBreak
deriving DecidableEq, Repr

/-- `claim_bytes`: the next `length` bytes and what follows them, if there are as many. -/
def claimBytes (length : Nat) (source : Bytes) : Option (Bytes × Bytes) :=
  if length ≤ source.length then some (source.take length, source.drop length) else none

/-- The number an initial byte announces and the width it is given at: in the low five bits
themselves up to 23, in the following 1, 2, 4 or 8 bytes for 24 to 27. -/
def readArgument (info : Nat) (rest : Bytes) : Option (IntWidth × Nat × Bytes) :=
  let wide (width : IntWidth) :=
    (claimBytes width.bytes rest).map fun claimed => (width, beNat claimed.1, claimed.2)
  if info ≤ 23 then some (.w8, info, rest)
  else if info = 24 then wide .w8
  else if info = 25 then wide .w16
  else if info = 26 then wide .w32
  else if info = 27 then wide .w64
  else none

def readString (token : Bytes → Token) (info : Nat) (rest : Bytes) : Option (Token × Bytes) :=
  match readArgument info rest with
  | none => none
  | some (_, length, rest) =>
      (claimBytes length rest).map fun claimed => (token claimed.1, claimed.2)

/-- Major type 7: of the simple values only false, true, null and undefined are accepted. -/
def readSpecial (info : Nat) (rest : Bytes) : Option (Token × Bytes) :=
  let float (width : IntWidth) :=
    (claimBytes width.bytes rest).map fun claimed => (Token.float width claimed.1, claimed.2)
  if 20 ≤ info ∧ info ≤ 23 then some (.simple info, rest)
  else if info = 25 then float .w16
  else if info = 26 then float .w32
  else if info = 27 then float .w64
  else if info = 31 then some (.indefBreak, rest)
  else none

/-- `cbor_stream_decode`: one token, or `none` for malformed or missing bytes. -/
def streamDecode : Bytes → Option (Token × Bytes)
  | [] => none
  | initial :: rest =>
      let info := initial.toNat % 32
      let sized (token : Nat → Token) :=
        (readArgument info rest).map fun argument => (token argument.2.1, argument.2.2)
      match initial.toNat / 32 with
      | 0 => (readArgument info rest).map fun (width, value, rest) => (.uint width value, rest)
      | 1 => (readArgument info rest).map fun (width, value, rest) => (.negint width value, rest)
      | 2 => if info = 31 then some (.byteStringStart, rest) else readString .byteString info rest
      | 3 => if info = 31 then some (.stringStart, rest) else readString .string info rest
      | 4 => if info = 31 then some (.indefArrayStart, rest) else sized .arrayStart
      | 5 => if info = 31 then some (.indefMapStart, rest) else sized .mapStart
      | 6 => sized .tag
      | _ => readSpecial info rest

/-- An open container: what it holds so far, the newest element first, and for a definite one
how many elements it still waits for. -/
inductive Frame where
  | array (items : List Item) (remaining : Nat)
  | arrayIndefinite (items : List Item)
  | map (items : List Item) (remaining : Nat)
  | mapIndefinite (items : List Item)
  | tag (value : Nat)
  | bytestringIndefinite (chunks : List Bytes)
  | stringIndefinite (chunks : List Bytes)

/-- The decoder context behind one callback. -/
inductive Context where
  | finished (root : Item)
  | pending (stack : List Frame)
  | failed

/-- `_cbor_builder_append`. -/
def builderAppend (item : Item) : List Frame → Context
  | [] => .finished item
  | .array items remaining :: stack =>
      if remaining ≤ 1 then builderAppend (.array (item :: items).reverse) stack
      else .pending (.array (item :: items) (remaining - 1) :: stack)
  | .arrayIndefinite items :: stack => .pending (.arrayIndefinite (item :: items) :: stack)
  | .map items remaining :: stack =>
      if remaining ≤ 1 then builderAppend (.map (item :: items).reverse) stack
      else .pending (.map (item :: items) (remaining - 1) :: stack)
  | .mapIndefinite items :: stack => .pending (.mapIndefinite (item :: items) :: stack)
  | .tag value :: stack => builderAppend (.tag value item) stack
  | .bytestringIndefinite _ :: _ => .failed
  | .stringIndefinite _ :: _ => .failed

def maxStackSize : Nat := 2048

def push (frame : Frame) (stack : List Frame) : Context :=
  if stack.length < maxStackSize then .pending (frame :: stack) else .failed

def handleToken (token : Token) (stack : List Frame) : Context :=
  match token, stack with
  | .uint width value, stack => builderAppend (.uint width value) stack
  | .negint width value, stack => builderAppend (.negint width value) stack
  | .byteString data, .bytestringIndefinite chunks :: stack =>
      .pending (.bytestringIndefinite (data :: chunks) :: stack)
  | .byteString data, stack => builderAppend (.bytestring data) stack
  | .byteStringStart, stack => push (.bytestringIndefinite []) stack
  | .string data, .stringIndefinite chunks :: stack =>
      .pending (.stringIndefinite (data :: chunks) :: stack)
  | .string data, stack => builderAppend (.string data) stack
  | .stringStart, stack => push (.stringIndefinite []) stack
  | .arrayStart size, stack =>
      if size > 0 then push (.array [] size) stack else builderAppend (.array []) stack
  | .indefArrayStart, stack => push (.arrayIndefinite []) stack
  | .mapStart size, stack =>
      if size > 0 then push (.map [] (size * 2)) stack else builderAppend (.map []) stack
  | .indefMapStart, stack => push (.mapIndefinite []) stack
  | .tag value, stack => push (.tag value) stack
  | .simple value, stack => builderAppend (.simple value) stack
  | .float width raw, stack => builderAppend (.float width raw) stack
  | .indefBreak, .arrayIndefinite items :: stack =>
      builderAppend (.arrayIndefinite items.reverse) stack
  | .indefBreak, .mapIndefinite items :: stack =>
      -- an indefinite map cannot end while it waits for a value
      if items.length % 2 = 0 then builderAppend (.mapIndefinite items.reverse) stack else .failed
  | .indefBreak, .bytestringIndefinite chunks :: stack =>
      builderAppend (.bytestringIndefinite chunks.reverse) stack
  | .indefBreak, .stringIndefinite chunks :: stack =>
      builderAppend (.stringIndefinite chunks.reverse) stack
  | .indefBreak, _ => .failed

/-- The loop of `cbor_load`. Every token takes at least one byte, so the input's length is
enough fuel. -/
def loadLoop : Nat → Bytes → List Frame → Option Item
  | 0, _, _ => none
  | fuel + 1, source, stack =>
      match streamDecode source with
      | none => none
      | some (token, rest) =>
          match handleToken token stack with
          | .finished root => some root
          | .pending stack => loadLoop fuel rest stack
          | .failed => none

def load (source : Bytes) : Option Item :=
  loadLoop source.length source []

end Poseidon.Cbor
