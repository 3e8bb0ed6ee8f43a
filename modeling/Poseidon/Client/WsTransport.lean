import Mathlib.Data.UInt
import Mathlib.Tactic.IntervalCases
import Poseidon.Lib.Framing

/-!
# The WebSocket transport: frames in the stream

The header of a frame says whether the payload is masked and gives its length in one of three
forms. The unmasked payload of a binary frame holds a length of its own in four bytes and behind it
the request; a payload that does not is skipped. Behind the upgrade, the requests are handled in the
order in which the frames were sent, wherever the stream was cut.
-/

namespace Poseidon

open Framing

def wsReadBufSize : Nat := 65536

def wsFrameHeaderSize : Nat := 4

/-- What `process_ws_frames` does with the frame it found. -/
inductive WsFrame
  /-- The unmasked payload, and what of it is passed to `cbor_load`. -/
  | binary (payload : Bytes) (request : Option Bytes)
  | ping (payload : Bytes)
  | close
  /-- Skipped, as every other opcode is. -/
  | other
  /-- The size of the frame wraps around `size_t`: the accesses behind it leave the buffer. -/
  | overrun
deriving DecidableEq, Repr

/-- What `cbor_load` is called with: the bytes behind the length at the front of the payload, if
`read_frame_header` accepts the length and the payload has as many. -/
def wsRequest (payload : Bytes) : Option Bytes :=
  (Reader.nextPrefixed wsFrameHeaderSize wsReadBufSize payload).map Prod.fst

/-- The loop `payload[i] ^= client->ws_mask_key[i % 4]`. -/
def applyMask (key payload : Bytes) : Bytes :=
  payload.mapIdx fun i byte => byte ^^^ key.getD (i % 4) 0

/-- The size of the header up to the length, and the length of the payload. -/
def wsPayloadLen (second : UInt8) (buffer : Bytes) : Option (Nat × Nat) :=
  if second &&& 0x7F = 126 then
    if buffer.length < 4 then none else some (4, beNat (slice buffer 2 2))
  else if second &&& 0x7F = 127 then
    if buffer.length < 10 then none else some (10, beNat (slice buffer 2 8))
  else some (2, (second &&& 0x7F).toNat)

def wsDispatch (opcode : UInt8) (payload : Bytes) : WsFrame :=
  if opcode = 0x08 then .close
  else if opcode = 0x09 then .ping payload
  else if opcode = 0x02 then .binary payload (wsRequest payload)
  else .other

/-- The frame behind a header whose parts are known: `mask` is the key, if the payload is masked. -/
def wsFrameBehind (opcode : UInt8) (mask : Option Bytes) (headerSize payloadLen : Nat)
    (buffer : Bytes) : Option (WsFrame × Bytes) :=
  -- the sum is computed in 64 bits
  if buffer.length < (headerSize + payloadLen) % 2 ^ 64 then none
  else if 2 ^ 64 ≤ headerSize + payloadLen then some (.overrun, [])
  else
    let payload := slice buffer headerSize payloadLen
    some (wsDispatch opcode (mask.elim payload (applyMask · payload)),
      buffer.drop (headerSize + payloadLen))

/-- One turn of the loop of `process_ws_frames`. -/
def nextWsFrame (buffer : Bytes) : Option (WsFrame × Bytes) :=
  match buffer with
  | first :: second :: _ =>
      match wsPayloadLen second buffer with
      | none => none
      | some (headerSize, payloadLen) =>
          if second &&& 0x80 ≠ 0 then
            if buffer.length < headerSize + 4 then none
            else
              wsFrameBehind (first &&& 0x0F) (some (slice buffer headerSize 4)) (headerSize + 4)
                payloadLen buffer
          else wsFrameBehind (first &&& 0x0F) none headerSize payloadLen buffer
  | _ => none

def WsFrame.ends : WsFrame → Bool
  | .close | .overrun => true
  | .binary _ _ | .ping _ | .other => false

def WsFrame.request : WsFrame → Option Bytes
  | .binary _ request => request
  | .ping _ | .close | .other | .overrun => none

theorem wsFrameBehind_rest {opcode : UInt8} {mask : Option Bytes} {headerSize payloadLen : Nat}
    {buffer rest : Bytes} {frame : WsFrame} (hheader : 0 < headerSize) (hbuffer : buffer ≠ [])
    (hnext : wsFrameBehind opcode mask headerSize payloadLen buffer = some (frame, rest)) :
    rest.length < buffer.length := by
  have hlength := List.length_pos_of_ne_nil hbuffer
  unfold wsFrameBehind at hnext
  split_ifs at hnext
  · obtain ⟨-, rfl⟩ := Prod.mk.inj (Option.some.inj hnext)
    exact hlength
  · obtain ⟨-, rfl⟩ := Prod.mk.inj (Option.some.inj hnext)
    rw [List.length_drop]
    omega

theorem wsPayloadLen_pos {second : UInt8} {buffer : Bytes} {headerSize payloadLen : Nat}
    (hlength : wsPayloadLen second buffer = some (headerSize, payloadLen)) : 0 < headerSize := by
  unfold wsPayloadLen at hlength
  split_ifs at hlength
  all_goals
    obtain ⟨rfl, -⟩ := Prod.mk.inj (Option.some.inj hlength)
    decide

theorem length_rest_nextWsFrame (buffer : Bytes) (frame : WsFrame) (rest : Bytes)
    (hnext : nextWsFrame buffer = some (frame, rest)) : rest.length < buffer.length := by
  match buffer with
  | [] | [_] => contradiction
  | first :: second :: tail =>
      unfold nextWsFrame at hnext
      dsimp only at hnext
      split at hnext
      · contradiction
      · rename_i headerSize payloadLen hlength
        have hheader := wsPayloadLen_pos hlength
        split_ifs at hnext
        · exact wsFrameBehind_rest (Nat.add_pos_left hheader 4) (List.cons_ne_nil _ _) hnext
        · exact wsFrameBehind_rest hheader (List.cons_ne_nil _ _) hnext

/-- The loop of `process_ws_frames`. -/
def wsReader : Reader WsFrame where
  next := nextWsFrame
  ends := WsFrame.ends
  next_nil := rfl
  length_rest_lt := length_rest_nextWsFrame

/-- `ws_client_t` behind the upgrade. -/
abbrev WsClient := Receiver WsFrame wsReadBufSize

namespace WsClient

def upgraded : WsClient :=
  Receiver.fresh WsFrame wsReadBufSize

/-- `ws_read_callback` for a readable socket, with what the socket holds. -/
def readCallback (client : WsClient) (chunk : Bytes) : WsClient :=
  client.read wsReader chunk

/-- What was passed to `cbor_load`, and from there to request handling. -/
def requests (client : WsClient) : List Bytes :=
  client.taken.filterMap WsFrame.request

end WsClient

def wsEncodeFrame (data : Bytes) : Bytes :=
  let length := data.length
  0x82 ::
    ((if length ≤ 125 then [UInt8.ofNat length]
      else if length ≤ 65535 then 126 :: beBytes 2 length
      else 127 :: beBytes 8 length) ++ data)

/-! ### Frames of a client -/

inductive LengthForm
  | seven
  | sixteen
  | sixtyFour
deriving DecidableEq, Repr

namespace LengthForm

def limit : LengthForm → Nat
  | .seven => 126
  | .sixteen => 2 ^ 16
  | .sixtyFour => 2 ^ 64

def code : LengthForm → Nat → Nat
  | .seven, length => length
  | .sixteen, _ => 126
  | .sixtyFour, _ => 127

def extension : LengthForm → Nat → Bytes
  | .seven, _ => []
  | .sixteen, length => beBytes 2 length
  | .sixtyFour, length => beBytes 8 length

theorem code_lt {form : LengthForm} {length : Nat} (hlength : length < form.limit) :
    form.code length < 128 := by
  cases form with
  | seven => exact Nat.lt_trans hlength (by decide : 126 < 128)
  | sixteen => exact (by decide : 126 < 128)
  | sixtyFour => exact (by decide : 127 < 128)

end LengthForm

/-- What a client sends for a payload under a masking key of four octets: octet `i` is octet `i` of
the payload XOR octet `i` modulo four of the key. -/
def maskedOctets (key payload : Bytes) : Bytes :=
  (List.range payload.length).map fun i => payload.getD i 0 ^^^ key.getD (i % 4) 0

/-- An unfragmented binary frame: its first byte, the form of its length, the masking key if it is
masked, and its payload before masking. -/
structure BinaryFrame where
  first : UInt8
  final_binary : first &&& 0x8F = 0x82
  form : LengthForm
  mask : Option { key : Bytes // key.length = 4 }
  payload : Bytes
  length_lt : payload.length < form.limit

namespace BinaryFrame

variable (frame : BinaryFrame)

def maskBit : UInt8 :=
  if frame.mask.isSome then 0x80 else 0

def second : UInt8 :=
  UInt8.ofNat (frame.form.code frame.payload.length) ||| frame.maskBit

def extension : Bytes :=
  frame.form.extension frame.payload.length

def key : Bytes :=
  frame.mask.elim [] Subtype.val

def sentPayload : Bytes :=
  frame.mask.elim frame.payload fun key => maskedOctets key.val frame.payload

/-- What the server makes of the frame. -/
def parsed : WsFrame :=
  .binary frame.payload (wsRequest frame.payload)

def headerSize : Nat :=
  2 + frame.extension.length + frame.key.length

def wire : Bytes :=
  frame.first :: frame.second :: (frame.extension ++ (frame.key ++ frame.sentPayload))

end BinaryFrame

theorem length_maskedOctets (key payload : Bytes) :
    (maskedOctets key payload).length = payload.length := by
  rw [maskedOctets, List.length_map, List.length_range]

theorem applyMask_maskedOctets (key payload : Bytes) :
    applyMask key (maskedOctets key payload) = payload := by
  apply List.ext_getElem
  · rw [applyMask, List.length_mapIdx, length_maskedOctets]
  · intro i _ hi
    simp only [applyMask, maskedOctets, List.getElem_mapIdx, List.getElem_map, List.getElem_range,
      List.getD_eq_getElem?_getD, List.getElem?_eq_getElem hi, Option.getD_some, UInt8.xor_assoc,
      UInt8.xor_self, UInt8.xor_zero]

theorem mask_bit_table : ∀ code : Fin 128,
    (UInt8.ofNat code ||| 0) &&& 0x7F = UInt8.ofNat code ∧ (UInt8.ofNat code ||| 0) &&& 0x80 = 0 ∧
      (UInt8.ofNat code ||| 0x80) &&& 0x7F = UInt8.ofNat code ∧
        (UInt8.ofNat code ||| 0x80) &&& 0x80 ≠ 0 := by
  decide

namespace BinaryFrame

variable (frame : BinaryFrame)

theorem length_sentPayload : frame.sentPayload.length = frame.payload.length := by
  unfold sentPayload
  cases frame.mask with
  | none => rfl
  | some key => exact length_maskedOctets _ _

theorem length_wire : frame.wire.length = frame.headerSize + frame.payload.length := by
  simp only [wire, headerSize, List.length_cons, List.length_append, length_sentPayload]
  omega

theorem second_and_code :
    frame.second &&& 0x7F = UInt8.ofNat (frame.form.code frame.payload.length) := by
  have htable := mask_bit_table ⟨_, LengthForm.code_lt frame.length_lt⟩
  rw [second, maskBit]
  split_ifs
  · exact htable.2.2.1
  · exact htable.1

theorem second_and_mask : frame.second &&& 0x80 ≠ 0 ↔ frame.mask.isSome := by
  have htable := mask_bit_table ⟨_, LengthForm.code_lt frame.length_lt⟩
  rw [second, maskBit]
  split_ifs with hmask
  · exact iff_of_true htable.2.2.2 hmask
  · exact iff_of_false (fun hne => hne htable.2.1) hmask

theorem first_and_opcode : frame.first &&& 0x0F = 0x02 := by
  calc frame.first &&& 0x0F = frame.first &&& (0x8F &&& 0x0F) := rfl
    _ = (frame.first &&& 0x8F) &&& 0x0F := (UInt8.and_assoc _ _ _).symm
    _ = 0x02 := by rw [frame.final_binary]; rfl

variable {buffer : Bytes} (rest : Bytes)

theorem extension_read {width length : Nat} (hlength : length < 256 ^ width)
    (hextension : 2 + width ≤ buffer.length → slice buffer 2 width = beBytes width length) :
    (if buffer.length < 2 + width then none
      else some (2 + width, beNat (slice buffer 2 width))) =
      if buffer.length < 2 + width then none else some (2 + width, length) := by
  split_ifs with hshort
  · rfl
  · rw [hextension (Nat.le_of_not_lt hshort), beNat_beBytes hlength]

theorem wsPayloadLen_eq (hbuffer : 2 ≤ buffer.length)
    (hextension : 2 + frame.extension.length ≤ buffer.length →
      slice buffer 2 frame.extension.length = frame.extension) :
    wsPayloadLen frame.second buffer =
      if buffer.length < 2 + frame.extension.length then none
      else some (2 + frame.extension.length, frame.payload.length) := by
  have hlength := frame.length_lt
  have hcode := frame.second_and_code
  cases hform : frame.form with
  | seven =>
      rw [hform] at hlength hcode
      change frame.payload.length < 126 at hlength
      change frame.second &&& 0x7F = UInt8.ofNat frame.payload.length at hcode
      have hempty : frame.extension = [] := by rw [extension, hform]; rfl
      have htoNat : (frame.second &&& 0x7F).toNat = frame.payload.length := by
        rw [hcode]
        exact UInt8.toNat_ofNat_of_lt' (Nat.lt_trans hlength (by decide))
      have hne : ∀ code : UInt8, 126 ≤ code.toNat → frame.second &&& 0x7F ≠ code := by
        rintro _ hbig rfl
        omega
      rw [wsPayloadLen, if_neg (hne 126 (by decide)), if_neg (hne 127 (by decide)), htoNat, hempty,
        List.length_nil, if_neg (Nat.not_lt.mpr hbuffer)]
  | sixteen =>
      rw [hform] at hlength
      have hcode : frame.second &&& 0x7F = 126 := by rw [hcode, hform]; rfl
      have hbytes : frame.extension = beBytes 2 frame.payload.length := by
        rw [extension, hform]; rfl
      rw [hbytes, length_beBytes] at hextension ⊢
      rw [wsPayloadLen, if_pos hcode]
      exact extension_read hlength hextension
  | sixtyFour =>
      rw [hform] at hlength
      have hcode : frame.second &&& 0x7F = 127 := by rw [hcode, hform]; rfl
      have hne : frame.second &&& 0x7F ≠ 126 := by rw [hcode]; decide
      have hbytes : frame.extension = beBytes 8 frame.payload.length := by
        rw [extension, hform]; rfl
      rw [hbytes, length_beBytes] at hextension ⊢
      rw [wsPayloadLen, if_neg hne, if_pos hcode]
      exact extension_read hlength hextension

theorem slice_eq_of_front {whole : Bytes} (hpart : buffer <+: whole) {offset length : Nat}
    (hlong : offset + length ≤ buffer.length) :
    slice buffer offset length = slice whole offset length := by
  obtain ⟨tail, rfl⟩ := hpart
  rw [slice, slice, List.drop_append_of_le_length (by omega),
    List.take_append_of_le_length (by rw [List.length_drop]; omega)]

theorem slice_extension :
    slice (frame.wire ++ rest) 2 frame.extension.length = frame.extension := by
  have hsplit : frame.wire ++ rest = [frame.first, frame.second] ++
      (frame.extension ++ (frame.key ++ frame.sentPayload ++ rest)) := by
    simp [wire]
  rw [hsplit]
  exact slice_middle rfl rfl

theorem slice_key :
    slice (frame.wire ++ rest) (2 + frame.extension.length) frame.key.length = frame.key := by
  have hsplit : frame.wire ++ rest = ([frame.first, frame.second] ++ frame.extension) ++
      (frame.key ++ (frame.sentPayload ++ rest)) := by
    simp [wire]
  rw [hsplit]
  refine slice_middle ?_ rfl
  rw [List.length_append]
  rfl

theorem slice_payload :
    slice (frame.wire ++ rest) frame.headerSize frame.payload.length = frame.sentPayload := by
  have hsplit : frame.wire ++ rest =
      ([frame.first, frame.second] ++ frame.extension ++ frame.key) ++
        (frame.sentPayload ++ rest) := by
    simp [wire]
  rw [hsplit]
  refine slice_middle ?_ frame.length_sentPayload.symm
  rw [List.length_append, List.length_append]
  rfl

theorem elim_sentPayload :
    (frame.mask.map Subtype.val).elim frame.sentPayload (applyMask · frame.sentPayload) =
      frame.payload := by
  unfold sentPayload
  cases frame.mask with
  | none => rfl
  | some key => exact applyMask_maskedOctets _ _

variable (hsize : frame.wire.length < 2 ^ 64)

include hsize

theorem wsFrameBehind_eq {rest : Bytes} (hpart : buffer <+: frame.wire ++ rest) :
    wsFrameBehind (frame.first &&& 0x0F) (frame.mask.map Subtype.val) frame.headerSize
        frame.payload.length buffer =
      if buffer.length < frame.wire.length then none
      else some (frame.parsed, buffer.drop frame.wire.length) := by
  rw [wsFrameBehind, ← length_wire, Nat.mod_eq_of_lt hsize, if_neg (Nat.not_le.mpr hsize)]
  split_ifs with hshort
  · rfl
  · have hlong : frame.headerSize + frame.payload.length ≤ buffer.length := by
      rw [← length_wire]
      exact Nat.le_of_not_lt hshort
    rw [slice_eq_of_front hpart hlong, slice_payload]
    dsimp only
    rw [elim_sentPayload, first_and_opcode]
    rfl

theorem unmasked_or_masked {rest : Bytes} (hpart : buffer <+: frame.wire ++ rest) :
    (if frame.second &&& 0x80 ≠ 0 then
      if buffer.length < 2 + frame.extension.length + 4 then none
      else
        wsFrameBehind (frame.first &&& 0x0F)
          (some (slice buffer (2 + frame.extension.length) 4)) (2 + frame.extension.length + 4)
          frame.payload.length buffer
    else
      wsFrameBehind (frame.first &&& 0x0F) none (2 + frame.extension.length)
        frame.payload.length buffer) =
      if buffer.length < frame.wire.length then none
      else some (frame.parsed, buffer.drop frame.wire.length) := by
  have hbehind := frame.wsFrameBehind_eq hsize hpart
  cases hmask : frame.mask with
  | none =>
      have hkey : frame.key = [] := by rw [key, hmask]; rfl
      have hbit : ¬frame.second &&& 0x80 ≠ 0 := by
        rw [second_and_mask, hmask]
        exact Bool.false_ne_true
      rw [if_neg hbit]
      rw [hmask, headerSize, hkey] at hbehind
      exact hbehind
  | some key =>
      have hkey : frame.key = key.val := by rw [BinaryFrame.key, hmask]; rfl
      have hfour : frame.key.length = 4 := hkey ▸ key.property
      have hbit : frame.second &&& 0x80 ≠ 0 := by
        rw [second_and_mask, hmask]
        rfl
      rw [if_pos hbit]
      by_cases hshort : buffer.length < 2 + frame.extension.length + 4
      · have hwire := frame.length_wire
        rw [headerSize, hfour] at hwire
        rw [if_pos hshort, if_pos (by omega)]
      · have hslice := frame.slice_key rest
        rw [hfour, hkey] at hslice
        rw [hmask, headerSize, hfour] at hbehind
        rw [if_neg hshort, slice_eq_of_front hpart (Nat.le_of_not_lt hshort), hslice]
        exact hbehind

theorem nextWsFrame_eq {rest : Bytes} (hpart : buffer <+: frame.wire ++ rest) :
    nextWsFrame buffer =
      if buffer.length < frame.wire.length then none
      else some (frame.parsed, buffer.drop frame.wire.length) := by
  have hwire := frame.length_wire
  have hheader : frame.headerSize = 2 + frame.extension.length + frame.key.length := rfl
  match hbuffer : buffer with
  | [] | [_] =>
      rw [if_pos (by simp only [List.length_nil, List.length_singleton]; omega)]
      rfl
  | first :: second :: tail =>
      obtain ⟨rfl, htail⟩ := List.cons_prefix_cons.mp hpart
      obtain ⟨rfl, -⟩ := List.cons_prefix_cons.mp htail
      have hnext := nextWsFrame.eq_1 frame.first frame.second tail
      rw [← hbuffer] at hpart hnext ⊢
      have htwo : 2 ≤ buffer.length := by
        rw [hbuffer]
        exact Nat.le_add_left 2 tail.length
      have hextension : 2 + frame.extension.length ≤ buffer.length →
          slice buffer 2 frame.extension.length = frame.extension := fun hlong =>
        (slice_eq_of_front hpart hlong).trans (frame.slice_extension rest)
      rw [hnext, frame.wsPayloadLen_eq htwo hextension]
      by_cases hshort : buffer.length < 2 + frame.extension.length
      · rw [if_pos hshort, if_pos (by omega)]
      · rw [if_neg hshort]
        exact frame.unmasked_or_masked hsize hpart

end BinaryFrame

namespace BinaryFrame

theorem delimits_wire (frame : BinaryFrame) (hsize : frame.wire.length < 2 ^ 64) :
    wsReader.Delimits frame.wire frame.parsed where
  whole rest := by
    have hlong : ¬(frame.wire ++ rest).length < frame.wire.length := by
      rw [List.length_append]
      omega
    change nextWsFrame (frame.wire ++ rest) = _
    rw [frame.nextWsFrame_eq hsize (List.prefix_rfl), if_neg hlong, List.drop_left]
  part front hfront hne := by
    have hshort : front.length < frame.wire.length :=
      lt_of_le_of_ne hfront.length_le fun hlength => hne (hfront.eq_of_length hlength)
    change nextWsFrame front = none
    rw [frame.nextWsFrame_eq hsize (hfront.trans (List.prefix_append _ [])), if_pos hshort]
  goesOn := rfl

/-- The form `ws_encode_frame` uses. -/
def shortestForm (length : Nat) : LengthForm :=
  if length ≤ 125 then .seven else if length ≤ 65535 then .sixteen else .sixtyFour

theorem lt_limit_shortestForm {length : Nat} (hlength : length < 2 ^ 64) :
    length < (shortestForm length).limit := by
  unfold shortestForm
  split_ifs with hseven hsixteen
  · exact Nat.lt_succ_of_le hseven
  · exact Nat.lt_succ_of_le hsixteen
  · exact hlength

theorem final_binary_encoded : (0x82 : UInt8) &&& 0x8F = 0x82 := rfl

/-- The frame `ws_encode_frame` writes. -/
def encoded (data : Bytes) (hlength : data.length < 2 ^ 64) : BinaryFrame where
  first := 0x82
  final_binary := final_binary_encoded
  form := shortestForm data.length
  mask := none
  payload := data
  length_lt := lt_limit_shortestForm hlength

theorem wire_encoded (data : Bytes) (hlength : data.length < 2 ^ 64) :
    (encoded data hlength).wire = wsEncodeFrame data := by
  have hsecond : (encoded data hlength).second =
      UInt8.ofNat ((shortestForm data.length).code data.length) := UInt8.or_zero
  have hextension : (encoded data hlength).extension =
      (shortestForm data.length).extension data.length := rfl
  rw [wire, hsecond, hextension, wsEncodeFrame]
  unfold shortestForm
  split_ifs <;> rfl

end BinaryFrame

/-! ### Streams -/

/-- However the stream of the frames is cut into chunks that fit the free space: the client stays
connected, the requests in the payloads are passed on in their order, and all of them when the
stream has arrived. -/
def HandlesWsStream (frames : List BinaryFrame) : Prop :=
  ∀ chunks, Runs.Meets WsClient.readCallback Receiver.Fits WsClient.upgraded chunks →
    chunks.flatten <+: frames.flatMap BinaryFrame.wire →
      (Runs.run WsClient.readCallback WsClient.upgraded chunks).isOpen = true ∧
      (Runs.run WsClient.readCallback WsClient.upgraded chunks).requests <+:
        frames.filterMap (wsRequest ·.payload) ∧
      (chunks.flatten = frames.flatMap BinaryFrame.wire →
        (Runs.run WsClient.readCallback WsClient.upgraded chunks).requests =
          frames.filterMap (wsRequest ·.payload))

theorem takesAll_wire {frames : List BinaryFrame}
    (hfit : ∀ frame ∈ frames, frame.wire.length ≤ wsReadBufSize) :
    Receiver.TakesAll wsReader wsReadBufSize BinaryFrame.wire BinaryFrame.parsed frames := by
  have hword : wsReadBufSize < 2 ^ 64 := by decide
  exact Receiver.takesAll_of_length_le
    (fun frame hframe => frame.delimits_wire (Nat.lt_of_le_of_lt (hfit frame hframe) hword)) hfit
    (by decide)

theorem wsRequest_eq_some_iff {payload data : Bytes} :
    wsRequest payload = some data ↔
      ∃ rest, payload = beBytes wsFrameHeaderSize data.length ++ data ++ rest ∧
        0 < data.length ∧ data.length ≤ wsReadBufSize := by
  have hword : wsReadBufSize < 256 ^ wsFrameHeaderSize := by decide
  rw [wsRequest, Option.map_eq_some_iff]
  constructor
  · rintro ⟨⟨request, rest⟩, hnext, rfl⟩
    exact ⟨rest, (Reader.nextPrefixed_eq_some_iff hword).mp hnext⟩
  · rintro ⟨rest, hpayload⟩
    exact ⟨(data, rest), (Reader.nextPrefixed_eq_some_iff hword).mpr hpayload, rfl⟩

theorem takeAll_wsEncodeFrame {data : Bytes} (hsize : (wsEncodeFrame data).length < 2 ^ 64) :
    wsReader.takeAll (wsEncodeFrame data) = ([.binary data (wsRequest data)], []) := by
  have hlength : data.length < 2 ^ 64 := by
    refine Nat.lt_of_le_of_lt ?_ hsize
    rw [wsEncodeFrame, List.length_cons, List.length_append]
    omega
  have hframe : (BinaryFrame.encoded data hlength).wire.length < 2 ^ 64 := by
    rw [BinaryFrame.wire_encoded]
    exact hsize
  have htake := @Reader.takeAll_flatMap WsFrame BinaryFrame wsReader BinaryFrame.wire
    BinaryFrame.parsed [BinaryFrame.encoded data hlength]
    (by simpa using BinaryFrame.delimits_wire _ hframe) [] rfl
  rwa [List.flatMap_singleton, BinaryFrame.wire_encoded, List.append_nil] at htake

/-- **Framing over WebSocket.** Of frames that fit the buffer exactly the requests are handled; a
payload holds a request if that stands in it behind its length. What `ws_encode_frame` writes is
parsed back. -/
theorem handlesWsStream_of_length_le (frames : List BinaryFrame)
    (hfit : ∀ frame ∈ frames, frame.wire.length ≤ wsReadBufSize) :
    HandlesWsStream frames ∧
      (∀ payload data, wsRequest payload = some data ↔
        ∃ rest, payload = beBytes wsFrameHeaderSize data.length ++ data ++ rest ∧
          0 < data.length ∧ data.length ≤ wsReadBufSize) ∧
      ∀ data, (wsEncodeFrame data).length < 2 ^ 64 →
        wsReader.takeAll (wsEncodeFrame data) = ([.binary data (wsRequest data)], []) := by
  refine ⟨fun chunks hmeets hchunks => ?_, fun _ _ => wsRequest_eq_some_iff,
    fun data => takeAll_wsEncodeFrame⟩
  have hrequests : (frames.map BinaryFrame.parsed).filterMap WsFrame.request =
      frames.filterMap (wsRequest ·.payload) := List.filterMap_map
  obtain ⟨hopen, htaken, hall⟩ := takesAll_wire hfit chunks hmeets hchunks
  rw [← hrequests]
  exact ⟨hopen, htaken.filterMap _, fun hwhole => congrArg (·.filterMap WsFrame.request)
    (hall hwhole)⟩

theorem lt_limit_of_lt {length : Nat} (hlength : length < 126) (form : LengthForm) :
    length < form.limit := by
  cases form with
  | seven => exact hlength
  | sixteen => exact Nat.lt_trans hlength (by decide : 126 < 2 ^ 16)
  | sixtyFour => exact Nat.lt_trans hlength (by decide : 126 < 2 ^ 64)

theorem length_sampleKey : ([1, 2, 3, 4] : Bytes).length = 4 := rfl

def sampleFrame (form : LengthForm) (masked : Bool) (payload : Bytes)
    (hlength : payload.length < 126) : BinaryFrame where
  first := 0x82
  final_binary := BinaryFrame.final_binary_encoded
  form := form
  mask := if masked then some ⟨[1, 2, 3, 4], length_sampleKey⟩ else none
  payload := payload
  length_lt := lt_limit_of_lt hlength form

/-- Two requests of two bytes, one of them masked, and a payload without a length of its own. -/
def sampleFrames : List BinaryFrame :=
  [sampleFrame .seven false [0, 0, 0, 2, 5, 6] (Nat.lt_of_sub_pos (Nat.succ_pos 119)),
    sampleFrame .sixteen true [0, 0, 0, 2, 7, 8] (Nat.lt_of_sub_pos (Nat.succ_pos 119)),
    sampleFrame .sixtyFour false [5, 6, 7, 8, 9] (Nat.lt_of_sub_pos (Nat.succ_pos 120))]

theorem handlesWsStream_sampleFrames :
    (∀ frame ∈ sampleFrames, frame.wire.length ≤ wsReadBufSize) ∧ HandlesWsStream sampleFrames ∧
      sampleFrames.filterMap (wsRequest ·.payload) = [[5, 6], [7, 8]] :=
  have hfit : ∀ frame ∈ sampleFrames, frame.wire.length ≤ wsReadBufSize := by decide
  ⟨hfit, (handlesWsStream_of_length_le sampleFrames hfit).1, by decide⟩

/-- The payloads themselves are not what is passed on, also if all frames arrive at once. -/
theorem payloads_not_passed :
    Runs.Meets WsClient.readCallback Receiver.Fits WsClient.upgraded
        [sampleFrames.flatMap BinaryFrame.wire] ∧
      (Runs.run WsClient.readCallback WsClient.upgraded
        [sampleFrames.flatMap BinaryFrame.wire]).requests = [[5, 6], [7, 8]] ∧
      sampleFrames.map (·.payload) =
        [[0, 0, 0, 2, 5, 6], [0, 0, 0, 2, 7, 8], [5, 6, 7, 8, 9]] :=
  ⟨by decide +kernel, by decide +kernel, rfl⟩

end Poseidon
