import Poseidon.Cbor.Contents
import Poseidon.Cbor.RoundTrip
import Poseidon.Channel.Subtopic

/-!
# Messages of a channel

A message with a subtopic is published in an envelope, an array of the subtopic and the data; one
without is published as it is. The receiver cannot see which it was. Whatever loads as an envelope
of fitting parts is opened, and everything else is delivered as it came, also an envelope whose
parts do not fit the buffers.
-/

namespace Poseidon

open Cbor

/-- An envelope as it is opened into the buffers of the handler. -/
structure ChannelMessage where
  subtopic : CString 256
  payload : ByteBuffer 4096
deriving DecidableEq, Repr

namespace ChannelMessage

/-- `channel_message_encode`. -/
def encode (subtopic data : Bytes) : Item :=
  .array [.string subtopic, .bytestring data]

/-- `channel_message_decode`, for the buffers of the handler. -/
def decode (item : Item) : Option ChannelMessage :=
  match item.arrayItems with
  | some [subtopic, data] => do
      let subtopic ← subtopic.stringData.bind (CString.ofMemory 256)
      let payload ← data.bytestringData.bind (ByteBuffer.ofMemory 4096)
      return ⟨subtopic, payload⟩
  | _ => none

end ChannelMessage

/-- What `poseidon_channel_publish_subtopic` passes to `quasar_publish`;
`poseidon_channel_publish` passes the data as it is. -/
def envelope (subtopic data : Bytes) : Bytes :=
  serialize (ChannelMessage.encode subtopic data)

/-- One call of the message callback. -/
structure MessageCall where
  topic : Bytes
  subtopic : Bytes
  payload : Bytes
deriving DecidableEq, Repr

/-- What the handler reads of its channel. `intercept` answers for the intercept callback, and is
false where there is none. -/
structure MessageSink where
  intercept : Bytes → Bool
  messageCallback : Bool
  subtopicSubs : SubtopicTable

namespace MessageSink

variable (sink : MessageSink)

/-- `channel_quasar_message_handler`: the calls of the message callback. -/
def handleMessage (topic data : Bytes) : List MessageCall :=
  if sink.intercept data then []
  else if !sink.messageCallback then []
  else
    match load data with
    | none => [⟨topic, [], data⟩]
    | some item =>
        match ChannelMessage.decode item with
        | some message =>
            if sink.subtopicSubs.shouldDeliver message.subtopic.bytes then
              [⟨topic, message.subtopic.bytes, message.payload.bytes⟩]
            else []
        | none => [⟨topic, [], data⟩]

end MessageSink

/-! ### Envelopes -/

/-- What the handler opens as an envelope. -/
def openEnvelope (data : Bytes) : Option ChannelMessage :=
  (load data).bind ChannelMessage.decode

theorem load_envelope {subtopic data : Bytes} (hsubtopic : subtopic.length < 2 ^ 64)
    (hdata : data.length < 2 ^ 64) :
    load (envelope subtopic data) = some (ChannelMessage.encode subtopic data) :=
  load_serialize ⟨by decide, by simp, hsubtopic, hdata, trivial⟩

theorem ChannelMessage.decode_encode {subtopic data : Bytes} (hzero : (0 : UInt8) ∉ subtopic)
    (hsubtopic : subtopic.length < 256) (hdata : data.length ≤ 4096) :
    decode (encode subtopic data) = some ⟨⟨subtopic, hsubtopic, hzero⟩, ⟨data, hdata⟩⟩ := by
  have hstring := CString.ofMemory_bytes (⟨subtopic, hsubtopic, hzero⟩ : CString 256)
  have hbuffer := ByteBuffer.ofMemory_bytes (⟨data, hdata⟩ : ByteBuffer 4096)
  simp only at hstring hbuffer
  simp [decode, encode, Item.arrayItems, Item.stringData, Item.bytestringData, hstring, hbuffer]

theorem ChannelMessage.decode_encode_of_long {subtopic data : Bytes}
    (hlong : ¬(subtopic.length < 256 ∧ data.length ≤ 4096)) :
    decode (encode subtopic data) = none := by
  simp only [decode, encode, Item.arrayItems, Item.stringData, Item.bytestringData,
    Option.bind_some]
  by_cases hsubtopic : subtopic.length < 256
  · have hdata : ByteBuffer.ofMemory 4096 data = none :=
      dif_neg fun hle => hlong ⟨hsubtopic, hle⟩
    simp [hdata]
  · have hstring : CString.ofMemory 256 subtopic = none := dif_neg hsubtopic
    simp [hstring]

theorem length_payload_lt {data : Bytes} {message : ChannelMessage}
    (hopen : openEnvelope data = some message) : message.payload.bytes.length < data.length := by
  obtain ⟨item, hload, hdecode⟩ := Option.bind_eq_some_iff.mp hopen
  unfold ChannelMessage.decode at hdecode
  split at hdecode
  · rename_i subtopic payload hitems
    simp only [Option.bind_eq_bind, Option.bind_eq_some_iff, Option.pure_def,
      Option.some.injEq] at hdecode
    obtain ⟨-, -, buffer, ⟨bytes, hbytes, hbuffer⟩, rfl⟩ := hdecode
    have hsame : buffer.bytes = bytes := by
      unfold ByteBuffer.ofMemory at hbuffer
      split_ifs at hbuffer
      rw [← Option.some.inj hbuffer]
    rw [hsame]
    exact length_lt_of_load hload hitems (List.mem_cons_of_mem _ List.mem_cons_self) hbytes
  · contradiction

namespace MessageSink

variable {sink : MessageSink}

theorem handleMessage_of_callback (hcallback : sink.messageCallback = true) (topic data : Bytes) :
    sink.handleMessage topic data =
      if sink.intercept data then []
      else
        match openEnvelope data with
        | some message =>
            if sink.subtopicSubs.shouldDeliver message.subtopic.bytes then
              [⟨topic, message.subtopic.bytes, message.payload.bytes⟩]
            else []
        | none => [⟨topic, [], data⟩] := by
  unfold handleMessage openEnvelope
  rw [hcallback]
  cases load data <;> rfl

theorem handleMessage_envelope_iff (hcallback : sink.messageCallback = true) (topic : Bytes)
    {subtopic data : Bytes} (hzero : (0 : UInt8) ∉ subtopic) (hsubtopic : subtopic.length < 2 ^ 64)
    (hdata : data.length < 2 ^ 64) :
    sink.handleMessage topic (envelope subtopic data) =
        (if sink.subtopicSubs.shouldDeliver subtopic then [⟨topic, subtopic, data⟩] else []) ↔
      if sink.intercept (envelope subtopic data) then
        sink.subtopicSubs.shouldDeliver subtopic = false
      else subtopic.length < 256 ∧ data.length ≤ 4096 := by
  have hload := load_envelope hsubtopic hdata
  have hopen : openEnvelope (envelope subtopic data) =
      ChannelMessage.decode (ChannelMessage.encode subtopic data) := by
    rw [openEnvelope, hload, Option.bind_some]
  rw [handleMessage_of_callback hcallback, hopen]
  by_cases hintercept : sink.intercept (envelope subtopic data)
  · rw [if_pos hintercept, if_pos hintercept]
    cases sink.subtopicSubs.shouldDeliver subtopic <;> simp
  · rw [if_neg hintercept, if_neg hintercept]
    by_cases hfits : subtopic.length < 256 ∧ data.length ≤ 4096
    · rw [ChannelMessage.decode_encode hzero hfits.1 hfits.2]
      exact iff_of_true rfl hfits
    · rw [ChannelMessage.decode_encode_of_long hfits]
      refine iff_of_false (fun heq => ?_) hfits
      -- the envelope itself is delivered, and it is longer than the data in it
      have hlonger : data.length < (envelope subtopic data).length :=
        length_lt_of_load hload rfl (List.mem_cons_of_mem _ List.mem_cons_self) rfl
      cases hdeliver : sink.subtopicSubs.shouldDeliver subtopic with
      | true =>
          rw [hdeliver] at heq
          have hpayload : envelope subtopic data = data := by
            simpa using congrArg (List.map MessageCall.payload) heq
          rw [hpayload] at hlonger
          exact absurd hlonger (Nat.lt_irrefl _)
      | false =>
          rw [hdeliver] at heq
          contradiction

theorem handleMessage_plain_iff (hcallback : sink.messageCallback = true) (topic data : Bytes) :
    sink.handleMessage topic data = [⟨topic, [], data⟩] ↔
      sink.intercept data = false ∧ openEnvelope data = none := by
  rw [handleMessage_of_callback hcallback]
  cases hintercept : sink.intercept data with
  | true => simp
  | false =>
      cases hopen : openEnvelope data with
      | none => simp
      | some message =>
          refine iff_of_false (fun heq => ?_) (by simp)
          have hshorter := length_payload_lt hopen
          rw [if_neg Bool.false_ne_true] at heq
          dsimp only at heq
          split_ifs at heq
          have hpayload : message.payload.bytes = data := by
            simpa using congrArg (List.map MessageCall.payload) heq
          rw [hpayload] at hshorter
          exact absurd hshorter (Nat.lt_irrefl _)

/-- **Envelopes.** On a channel with a message callback, a message with a subtopic calls it with the
subtopic and the data, or not at all, as the subscriptions say, exactly if its parts fit the
handler's buffers; a message without calls it with its data exactly if it does not read as an
envelope. What the intercept callback takes is not delivered. -/
theorem handleMessage_iff (sink : MessageSink) (hcallback : sink.messageCallback = true)
    (topic : Bytes) :
    (∀ subtopic data : Bytes, (0 : UInt8) ∉ subtopic → subtopic.length < 2 ^ 64 →
      data.length < 2 ^ 64 →
      (sink.handleMessage topic (envelope subtopic data) =
          (if sink.subtopicSubs.shouldDeliver subtopic then [⟨topic, subtopic, data⟩] else []) ↔
        if sink.intercept (envelope subtopic data) then
          sink.subtopicSubs.shouldDeliver subtopic = false
        else subtopic.length < 256 ∧ data.length ≤ 4096)) ∧
    ∀ data : Bytes, sink.handleMessage topic data = [⟨topic, [], data⟩] ↔
      sink.intercept data = false ∧ openEnvelope data = none :=
  ⟨fun _ _ hzero hsubtopic hdata =>
    handleMessage_envelope_iff hcallback topic hzero hsubtopic hdata,
    fun data => handleMessage_plain_iff hcallback topic data⟩

/-- A data channel subscribed to the subtopic `f`. -/
def subscribedToF : MessageSink where
  intercept := fun _ => false
  messageCallback := true
  subtopicSubs := (SubtopicTable.create.subscribe [102] 300).2

theorem handleMessage_subscribedToF :
    subscribedToF.handleMessage [116] (envelope [102, 47, 103] [1, 2]) =
        [⟨[116], [102, 47, 103], [1, 2]⟩] ∧
      subscribedToF.handleMessage [116] (envelope [103] [1, 2]) = [] ∧
      subscribedToF.handleMessage [116] [1, 2] = [⟨[116], [], [1, 2]⟩] := by
  have hiff := handleMessage_iff subscribedToF rfl [116]
  have hmatching := (hiff.1 [102, 47, 103] [1, 2] (by decide) (by decide) (by decide)).mpr
    (by decide)
  have hother := (hiff.1 [103] [1, 2] (by decide) (by decide) (by decide)).mpr (by decide)
  exact ⟨hmatching, hother, (hiff.2 [1, 2]).mpr (by decide)⟩

/-- A payload that does not fit the handler's buffer is delivered in its envelope, past the
subscriptions, and a plain payload that reads as an envelope is opened. -/
theorem handleMessage_subscribedToF_fails :
    subscribedToF.subtopicSubs.shouldDeliver [103] = false ∧
      subscribedToF.handleMessage [116] (envelope [103] (List.replicate 4097 0)) ≠ [] ∧
      subscribedToF.handleMessage [116] (envelope [] [1]) ≠ [⟨[116], [], envelope [] [1]⟩] := by
  refine ⟨by decide, fun hnone => ?_, by decide⟩
  have hlength : (List.replicate 4097 (0 : UInt8)).length = 4097 := List.length_replicate
  have hsize : (List.replicate 4097 (0 : UInt8)).length < 2 ^ 64 := by
    rw [hlength]
    decide
  have hfits := (@handleMessage_envelope_iff subscribedToF rfl [116] [103] _ (by decide)
    (by decide) hsize).mp hnone
  rw [hlength] at hfits
  exact absurd hfits (by decide)

end MessageSink

end Poseidon
