import Poseidon.Cbor.RoundTrip
import Poseidon.Lib.CString

/-!
# Client frames

The requests, responses and events that a client and the server exchange, as CBOR arrays. An admin
request carries a signature and a configuration where a plain one has its payload. What one side
encodes within the limits of the buffers, the other decodes.
-/

namespace Poseidon

open Cbor

/-! ### Frames -/

def maxTopicPath : Nat := 256

def maxResultData : Nat := 1024

def maxSubtopic : Nat := 256

def maxPayload : Nat := 65536

def maxSignature : Nat := 64

structure RequestFrame where
  requestId : UInt32
  method : UInt8
  topicPath : CString maxTopicPath
  signature : ByteBuffer maxSignature
  payload : ByteBuffer maxPayload
deriving DecidableEq, Repr

structure ResponseFrame where
  requestId : UInt32
  errorCode : UInt8
  resultData : CString maxResultData
deriving DecidableEq, Repr

structure EventFrame where
  eventType : UInt8
  topicPath : CString maxTopicPath
  subtopic : CString maxSubtopic
  payload : ByteBuffer maxPayload
deriving DecidableEq, Repr

/-- `client_frame_t`, with the fields that its type uses. -/
inductive ClientFrame where
  | request (frame : RequestFrame)
  | response (frame : ResponseFrame)
  | event (frame : EventFrame)
deriving DecidableEq, Repr

def requestType : Nat := 1

def responseType : Nat := 2

def eventType : Nat := 3

/-! ### Encoding -/

namespace ClientProtocol

def encodeRequest (requestId : UInt32) (method : UInt8) (topicPath payload : Bytes) : Item :=
  .array [.uint .w8 requestType, .uint .w32 requestId.toNat, .uint .w8 method.toNat,
    .string topicPath, .bytestring payload]

def encodeAdminRequest (requestId : UInt32) (method : UInt8)
    (topicPath signature config : Bytes) : Item :=
  .array [.uint .w8 requestType, .uint .w32 requestId.toNat, .uint .w8 method.toNat,
    .string topicPath, .bytestring signature, .bytestring config]

def encodeResponse (requestId : UInt32) (errorCode : UInt8) (resultData : Bytes) : Item :=
  .array [.uint .w8 responseType, .uint .w32 requestId.toNat, .uint .w8 errorCode.toNat,
    .string resultData]

def encodeEvent (type : UInt8) (topicId subtopic data : Bytes) : Item :=
  .array [.uint .w8 eventType, .uint .w8 type.toNat, .string topicId, .string subtopic,
    .bytestring data]

/-! ### Decoding -/

def readString (capacity : Nat) (item : Item) : Option (CString capacity) :=
  item.stringData.bind (CString.ofMemory capacity)

def readBuffer (capacity : Nat) (item : Item) : Option (ByteBuffer capacity) :=
  item.bytestringData.bind (ByteBuffer.ofMemory capacity)

def decodeRequest : List Item → Option RequestFrame
  | [requestId, method, topicPath, payload] => do
      let topicPath ← readString maxTopicPath topicPath
      let payload ← readBuffer maxPayload payload
      return ⟨UInt32.ofNat requestId.getUint32, UInt8.ofNat method.getUint8, topicPath,
        ByteBuffer.empty maxSignature, payload⟩
  | [requestId, method, topicPath, signature, config] => do
      let topicPath ← readString maxTopicPath topicPath
      let signature ← readBuffer maxSignature signature
      let config ← readBuffer maxPayload config
      return ⟨UInt32.ofNat requestId.getUint32, UInt8.ofNat method.getUint8, topicPath,
        signature, config⟩
  | _ => none

def decodeResponse : List Item → Option ResponseFrame
  | requestId :: errorCode :: resultData :: _ => do
      let resultData ← readString maxResultData resultData
      return ⟨UInt32.ofNat requestId.getUint32, UInt8.ofNat errorCode.getUint8, resultData⟩
  | _ => none

def decodeEvent : List Item → Option EventFrame
  | type :: topicId :: subtopic :: data :: _ => do
      let topicId ← readString maxTopicPath topicId
      let subtopic ← readString maxSubtopic subtopic
      let data ← readBuffer maxPayload data
      return ⟨UInt8.ofNat type.getUint8, topicId, subtopic, data⟩
  | _ => none

/-- `client_protocol_decode`. -/
def decode : Item → Option ClientFrame
  | .array (type :: fields) =>
      if !type.isUint then none
      else if type.getUint8 = requestType then (decodeRequest fields).map .request
      else if type.getUint8 = responseType then (decodeResponse fields).map .response
      else if type.getUint8 = eventType then (decodeEvent fields).map .event
      else none
  | _ => none

def receive (data : Bytes) : Option ClientFrame :=
  (load data).bind decode

/-! ### Round trip -/

variable {capacity : Nat} (requestId : UInt32)

@[simp]
theorem readString_string (string : CString capacity) :
    readString capacity (.string string.bytes) = some string :=
  CString.ofMemory_bytes string

@[simp]
theorem readBuffer_bytestring (buffer : ByteBuffer capacity) :
    readBuffer capacity (.bytestring buffer.bytes) = some buffer :=
  ByteBuffer.ofMemory_bytes buffer

theorem decode_encodeRequest (method : UInt8) (topicPath : CString maxTopicPath)
    (payload : ByteBuffer maxPayload) :
    decode (encodeRequest requestId method topicPath.bytes payload.bytes) =
      some (.request ⟨requestId, method, topicPath, ByteBuffer.empty maxSignature, payload⟩) := by
  simp [encodeRequest, decode, decodeRequest, Item.isUint, requestType]

theorem decode_encodeAdminRequest (method : UInt8) (topicPath : CString maxTopicPath)
    (signature : ByteBuffer maxSignature) (config : ByteBuffer maxPayload) :
    decode (encodeAdminRequest requestId method topicPath.bytes signature.bytes config.bytes) =
      some (.request ⟨requestId, method, topicPath, signature, config⟩) := by
  simp [encodeAdminRequest, decode, decodeRequest, Item.isUint, requestType]

theorem decode_encodeResponse (errorCode : UInt8) (resultData : CString maxResultData) :
    decode (encodeResponse requestId errorCode resultData.bytes) =
      some (.response ⟨requestId, errorCode, resultData⟩) := by
  simp [encodeResponse, decode, decodeResponse, Item.isUint, requestType, responseType]

theorem decode_encodeEvent (type : UInt8) (topicId : CString maxTopicPath)
    (subtopic : CString maxSubtopic) (data : ByteBuffer maxPayload) :
    decode (encodeEvent type topicId.bytes subtopic.bytes data.bytes) =
      some (.event ⟨type, topicId, subtopic, data⟩) := by
  simp [encodeEvent, decode, decodeEvent, Item.isUint, requestType, responseType, eventType]

/-- The item a frame is sent as: a request plain or with a signature, a response, an event. -/
inductive SentAs : Item → ClientFrame → Prop
  | plain (requestId : UInt32) (method : UInt8) (topicPath : CString maxTopicPath)
      (payload : ByteBuffer maxPayload) :
      SentAs (encodeRequest requestId method topicPath.bytes payload.bytes)
        (.request ⟨requestId, method, topicPath, ByteBuffer.empty maxSignature, payload⟩)
  | admin (requestId : UInt32) (method : UInt8) (topicPath : CString maxTopicPath)
      (signature : ByteBuffer maxSignature) (config : ByteBuffer maxPayload) :
      SentAs (encodeAdminRequest requestId method topicPath.bytes signature.bytes config.bytes)
        (.request ⟨requestId, method, topicPath, signature, config⟩)
  | response (requestId : UInt32) (errorCode : UInt8) (resultData : CString maxResultData) :
      SentAs (encodeResponse requestId errorCode resultData.bytes)
        (.response ⟨requestId, errorCode, resultData⟩)
  | event (type : UInt8) (topicId : CString maxTopicPath) (subtopic : CString maxSubtopic)
      (data : ByteBuffer maxPayload) :
      SentAs (encodeEvent type topicId.bytes subtopic.bytes data.bytes)
        (.event ⟨type, topicId, subtopic, data⟩)

theorem length_lt_of_le (hcapacity : capacity ≤ maxPayload) (buffer : ByteBuffer capacity) :
    buffer.bytes.length < 2 ^ 64 :=
  lt_of_le_of_lt (Nat.le_trans buffer.length_le hcapacity) (by decide)

theorem string_length_lt (hcapacity : capacity ≤ maxPayload) (string : CString capacity) :
    string.bytes.length < 2 ^ 64 :=
  lt_trans (lt_of_lt_of_le string.length_lt hcapacity) (by decide)

theorem SentAs.fits {item : Item} {frame : ClientFrame} (hsent : SentAs item frame) :
    Item.Fits maxStackSize item := by
  have htype : ∀ type ∈ [requestType, responseType, eventType], type < 256 := by decide
  cases hsent with
  | plain requestId method topicPath payload =>
      exact ⟨by decide, by simp, htype _ (by simp), requestId.toNat_lt, method.toNat_lt,
        string_length_lt (by decide) topicPath, length_lt_of_le le_rfl payload, trivial⟩
  | admin requestId method topicPath signature config =>
      exact ⟨by decide, by simp, htype _ (by simp), requestId.toNat_lt, method.toNat_lt,
        string_length_lt (by decide) topicPath, length_lt_of_le (by decide) signature,
        length_lt_of_le le_rfl config, trivial⟩
  | response requestId errorCode resultData =>
      exact ⟨by decide, by simp, htype _ (by simp), requestId.toNat_lt, errorCode.toNat_lt,
        string_length_lt (by decide) resultData, trivial⟩
  | event type topicId subtopic data =>
      exact ⟨by decide, by simp, htype _ (by simp), type.toNat_lt,
        string_length_lt (by decide) topicId, string_length_lt (by decide) subtopic,
        length_lt_of_le le_rfl data, trivial⟩

/-- **Frames on the wire.** What one side sends, the other receives. -/
theorem receive_serialize {item : Item} {frame : ClientFrame} (hsent : SentAs item frame) :
    receive (serialize item) = some frame := by
  unfold receive
  rw [load_serialize hsent.fits, Option.bind_some]
  cases hsent with
  | plain => exact decode_encodeRequest _ _ _ _
  | admin => exact decode_encodeAdminRequest _ _ _ _ _
  | response => exact decode_encodeResponse _ _ _
  | event => exact decode_encodeEvent _ _ _ _

/-! ### Lossless encoding -/

/-- A frame with the fields its encoder is given, within the limits of the buffers. -/
inductive SentFrame where
  | request (requestId : UInt32) (method : UInt8) (topicPath : CString maxTopicPath)
      (payload : ByteBuffer maxPayload)
  | adminRequest (requestId : UInt32) (method : UInt8) (topicPath : CString maxTopicPath)
      (signature : ByteBuffer maxSignature) (config : ByteBuffer maxPayload)
  | response (requestId : UInt32) (errorCode : UInt8) (resultData : CString maxResultData)
  | event (type : UInt8) (topicId : CString maxTopicPath) (subtopic : CString maxSubtopic)
      (data : ByteBuffer maxPayload)
deriving DecidableEq, Repr

namespace SentFrame

def encode : SentFrame → Item
  | .request requestId method topicPath payload =>
      encodeRequest requestId method topicPath.bytes payload.bytes
  | .adminRequest requestId method topicPath signature config =>
      encodeAdminRequest requestId method topicPath.bytes signature.bytes config.bytes
  | .response requestId errorCode resultData =>
      encodeResponse requestId errorCode resultData.bytes
  | .event type topicId subtopic data =>
      encodeEvent type topicId.bytes subtopic.bytes data.bytes

/-- The frame with the same type and fields on the other side. -/
def frame : SentFrame → ClientFrame
  | .request requestId method topicPath payload =>
      .request ⟨requestId, method, topicPath, ByteBuffer.empty maxSignature, payload⟩
  | .adminRequest requestId method topicPath signature config =>
      .request ⟨requestId, method, topicPath, signature, config⟩
  | .response requestId errorCode resultData => .response ⟨requestId, errorCode, resultData⟩
  | .event type topicId subtopic data => .event ⟨type, topicId, subtopic, data⟩

theorem sentAs (sent : SentFrame) : SentAs sent.encode sent.frame := by
  cases sent with
  | request => exact .plain _ _ _ _
  | adminRequest => exact .admin _ _ _ _ _
  | response => exact .response _ _ _
  | event => exact .event _ _ _ _

/-- The fields of a plain request are those that the decoder gives; what tells it from an admin
request is the length of the array. -/
theorem encode_injective {left right : SentFrame} (hencode : left.encode = right.encode) :
    left = right := by
  have hframe : left.frame = right.frame := by
    have hleft := receive_serialize left.sentAs
    rw [hencode, receive_serialize right.sentAs] at hleft
    exact (Option.some.inj hleft).symm
  cases left <;> cases right
  case request.request => cases hframe; rfl
  case adminRequest.adminRequest => cases hframe; rfl
  case response.response => cases hframe; rfl
  case event.event => cases hframe; rfl
  case request.adminRequest => simp [encode, encodeRequest, encodeAdminRequest] at hencode
  case adminRequest.request => simp [encode, encodeRequest, encodeAdminRequest] at hencode
  all_goals cases hframe

end SentFrame

/-- **Client frames.** Every frame is received with its type and its fields, and no two frames have
the same bytes. -/
theorem receive_encode_lossless :
    (∀ sent : SentFrame, receive (serialize sent.encode) = some sent.frame) ∧
      ∀ left right : SentFrame, serialize left.encode = serialize right.encode → left = right := by
  refine ⟨fun sent => receive_serialize sent.sentAs, fun left right hbytes => ?_⟩
  have hleft := load_serialize left.sentAs.fits
  rw [hbytes, load_serialize right.sentAs.fits] at hleft
  exact SentFrame.encode_injective (Option.some.inj hleft).symm

end ClientProtocol

end Poseidon
