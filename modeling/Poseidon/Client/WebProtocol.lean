import Poseidon.Client.Protocol

/-!
# Frames of the web client

The client for Node and browsers encodes and decodes the arrays of the frames with a CBOR package.
What that package makes of the bytes of a server's frame is what a CBOR decoder makes of them: the
numbers, texts and byte strings of the array, a text by way of the decoder for UTF-8.
-/

namespace Poseidon

open Cbor

/-- A value in a decoded array, as far as the client tells them apart; a text as its UTF-8. -/
inductive JsValue where
  | number (value : Nat)
  | text (string : Bytes)
  | binary (bytes : Bytes)
  | other
deriving DecidableEq, Repr

/-- The frames of `decodeFrame`. -/
inductive WebFrame where
  | adminRequest (requestId method : JsValue) (topicPath signature configData : Bytes)
  | request (requestId method : JsValue) (topicPath payload : Bytes)
  | response (requestId errorCode : JsValue) (resultData : Bytes)
  | event (eventType : JsValue) (topicId subtopic payload : Bytes)
deriving DecidableEq, Repr

/-- The CBOR package, with no result where it throws or returns no array; `String` of the language;
and what the decoder for UTF-8 makes of bytes. -/
structure WebRuntime where
  cborDecode : Bytes → Option (List JsValue)
  string : JsValue → Bytes
  decodeText : Bytes → Bytes
  string_text : ∀ text, string (.text text) = text
  cborDecode_response : ∀ (requestId : UInt32) (errorCode : UInt8)
    (resultData : CString maxResultData),
    cborDecode (serialize (ClientProtocol.encodeResponse requestId errorCode resultData.bytes)) =
      some [.number responseType, .number requestId.toNat, .number errorCode.toNat,
        .text (decodeText resultData.bytes)]
  cborDecode_event : ∀ (type : UInt8) (topicId : CString maxTopicPath)
    (subtopic : CString maxSubtopic) (data : ByteBuffer maxPayload),
    cborDecode (serialize (ClientProtocol.encodeEvent type topicId.bytes subtopic.bytes
        data.bytes)) =
      some [.number eventType, .number type.toNat, .text (decodeText topicId.bytes),
        .text (decodeText subtopic.bytes), .binary data.bytes]

namespace WebProtocol

def toUint8Array : JsValue → Bytes
  | .binary bytes => bytes
  | .text string => string
  | .number _ | .other => []

def encodeRequest (requestId method : Nat) (topicPath : Bytes) (payload : Option Bytes) :
    List JsValue :=
  [.number requestType, .number requestId, .number method, .text topicPath,
    .binary (payload.getD [])]

def encodeAdminRequest (requestId method : Nat) (topicPath signature : Bytes)
    (configData : Option Bytes) : List JsValue :=
  [.number requestType, .number requestId, .number method, .text topicPath, .binary signature,
    .binary (configData.getD [])]

variable (runtime : WebRuntime)

/-- The frame in an array, by its type and length. -/
def frameOf : List JsValue → Option WebFrame
  | .number 1 :: requestId :: method :: topicPath :: signature :: configData :: _ =>
      some (.adminRequest requestId method (runtime.string topicPath) (toUint8Array signature)
        (toUint8Array configData))
  | [.number 1, requestId, method, topicPath, payload] =>
      some (.request requestId method (runtime.string topicPath) (toUint8Array payload))
  | .number 2 :: requestId :: errorCode :: resultData :: _ =>
      some (.response requestId errorCode (runtime.string resultData))
  | .number 3 :: eventType :: topicId :: subtopic :: payload :: _ =>
      some (.event eventType (runtime.string topicId) (runtime.string subtopic)
        (toUint8Array payload))
  | _ => none

def decodeFrame (data : Bytes) : Option WebFrame :=
  (runtime.cborDecode data).bind (frameOf runtime)

variable {runtime}

theorem decodeFrame_response (requestId : UInt32) (errorCode : UInt8)
    (resultData : CString maxResultData) :
    decodeFrame runtime
        (serialize (ClientProtocol.encodeResponse requestId errorCode resultData.bytes)) =
      some (.response (.number requestId.toNat) (.number errorCode.toNat)
        (runtime.decodeText resultData.bytes)) := by
  rw [decodeFrame, runtime.cborDecode_response, Option.bind_some, responseType, frameOf,
    runtime.string_text]

theorem decodeFrame_event (type : UInt8) (topicId : CString maxTopicPath)
    (subtopic : CString maxSubtopic) (data : ByteBuffer maxPayload) :
    decodeFrame runtime (serialize (ClientProtocol.encodeEvent type topicId.bytes subtopic.bytes
        data.bytes)) =
      some (.event (.number type.toNat) (runtime.decodeText topicId.bytes)
        (runtime.decodeText subtopic.bytes) data.bytes) := by
  rw [decodeFrame, runtime.cborDecode_event, Option.bind_some, eventType, frameOf,
    runtime.string_text, runtime.string_text, toUint8Array]

end WebProtocol

/-! ### A runtime -/

def JsValue.ofItem : Item → JsValue
  | .uint _ value => .number value
  | .string data => .text data
  | .bytestring data => .binary data
  | _ => .other

def JsValue.ofArray : Item → Option (List JsValue)
  | .array items => some (items.map ofItem)
  | _ => none

def JsValue.toText : JsValue → Bytes
  | .text string => string
  | _ => []

theorem JsValue.ofArray_load_response (requestId : UInt32) (errorCode : UInt8)
    (resultData : CString maxResultData) :
    (load (serialize (ClientProtocol.encodeResponse requestId errorCode resultData.bytes))).bind
        JsValue.ofArray =
      some [.number responseType, .number requestId.toNat, .number errorCode.toNat,
        .text resultData.bytes] := by
  rw [load_serialize (ClientProtocol.SentAs.response requestId errorCode resultData).fits]
  rfl

theorem JsValue.ofArray_load_event (type : UInt8) (topicId : CString maxTopicPath)
    (subtopic : CString maxSubtopic) (data : ByteBuffer maxPayload) :
    (load (serialize (ClientProtocol.encodeEvent type topicId.bytes subtopic.bytes
        data.bytes))).bind JsValue.ofArray =
      some [.number eventType, .number type.toNat, .text topicId.bytes, .text subtopic.bytes,
        .binary data.bytes] := by
  rw [load_serialize (ClientProtocol.SentAs.event type topicId subtopic data).fits]
  rfl

def WebRuntime.ofLoad : WebRuntime where
  cborDecode data := (load data).bind JsValue.ofArray
  string := JsValue.toText
  decodeText := id
  string_text _ := rfl
  cborDecode_response := JsValue.ofArray_load_response
  cborDecode_event := JsValue.ofArray_load_event

end Poseidon
