import Poseidon.Client.TcpTransport
import Poseidon.Client.WebProtocol
import Poseidon.Lib.Intake

/-!
# The receive loops of the clients

The clients keep what has arrived of the server's frames in a buffer. The C client over QUIC drops
what arrives at once if it does not fit a buffer of fixed size, whole frames included. The web
client doubles its buffer once; what does not fit then either is lost with the exception that
copying it raises. Where nothing is lost, both hand over the server's frames in their order, however
the stream was cut.
-/

namespace Poseidon

open Framing

/-! ### The C client over QUIC -/

def clientReadBufSize : Nat := 65536

/-- The loop over the buffer of the C client, with its own `read_frame_header`. -/
def clientFrameReader : Reader Bytes :=
  Reader.prefixed frameHeaderSize clientReadBufSize frameHeaderSize_pos

/-- The receiving part of `poseidon_client_t`, with the frames passed to `cbor_load` so far. -/
structure QuicClient where
  readBuf : Bytes
  length_readBuf_le : readBuf.length ≤ clientReadBufSize
  connected : Bool
  taken : List Bytes

namespace QuicClient

def opened : QuicClient :=
  ⟨[], Nat.zero_le _, true, []⟩

/-- A header that `read_frame_header` refuses stands at the front. -/
def refusesHeader (buffer : Bytes) : Bool :=
  frameHeaderSize ≤ buffer.length &&
    (Reader.readLength frameHeaderSize clientReadBufSize buffer).isNone

theorem length_rest_le {client : QuicClient} {received : Bytes}
    (hroom : client.readBuf.length + received.length ≤ clientReadBufSize) :
    (clientFrameReader.takeAll (client.readBuf ++ received)).2.length ≤ clientReadBufSize := by
  refine Nat.le_trans (Reader.length_takeLoop_le _ _ _) ?_
  rw [List.length_append]
  exact hroom

/-- `QUIC_STREAM_EVENT_RECEIVE`, with its buffers. -/
def receive (client : QuicClient) (buffers : List Bytes) : QuicClient :=
  if hroom : client.readBuf.length + buffers.flatten.length ≤ clientReadBufSize then
    let loop := clientFrameReader.takeAll (client.readBuf ++ buffers.flatten)
    { readBuf := loop.2
      length_readBuf_le := length_rest_le hroom
      connected := client.connected && !refusesHeader loop.2
      taken := client.taken ++ loop.1 }
  -- the data is reported as received and dropped
  else client

/-- The frames that reach `process_received_frame`: those that can be decoded. -/
def processed (client : QuicClient) : List Bytes :=
  client.taken.filter fun frame => (ClientProtocol.receive frame).isSome

/-- What arrives fits behind the bytes that are not used yet. -/
def Fits (client : QuicClient) (buffers : List Bytes) : Prop :=
  client.readBuf.length + buffers.flatten.length ≤ clientReadBufSize

instance (client : QuicClient) (buffers : List Bytes) : Decidable (client.Fits buffers) :=
  inferInstanceAs (Decidable (_ ≤ _))

theorem feed (client : QuicClient) (buffers : List Bytes) (hfits : client.Fits buffers) :
    (client.receive buffers).taken =
        client.taken ++ (clientFrameReader.takeAll (client.readBuf ++ buffers.flatten)).1 ∧
      (client.receive buffers).readBuf =
        (clientFrameReader.takeAll (client.readBuf ++ buffers.flatten)).2 := by
  rw [Fits] at hfits
  unfold receive
  rw [dif_pos hfits]
  exact ⟨rfl, rfl⟩

theorem drop (client : QuicClient) (buffers : List Bytes) (hlost : ¬client.Fits buffers) :
    buffers.flatten ≠ [] ∧ (client.receive buffers).taken = client.taken ∧
      (client.receive buffers).readBuf = client.readBuf := by
  have hsame : client.receive buffers = client := dif_neg hlost
  refine ⟨fun hnil => hlost ?_, ?_, ?_⟩
  · rw [Fits, hnil]
    exact client.length_readBuf_le
  · rw [hsame]
  · rw [hsame]

def intake : Intake QuicClient (List Bytes) Bytes where
  receive := receive
  bytes := List.flatten
  buffer := readBuf
  taken := taken
  reader _ _ := clientFrameReader
  Fits := Fits
  feed := feed
  drop := drop

end QuicClient

/-! ### The web client -/

/-- The receiving part of a `Connection`: the bytes up to `readLen`, the size of `readBuf` and the
frames passed to `decodeFrame` so far. -/
structure WebReader where
  unread : Bytes
  bufLength : Nat
  length_unread_le : unread.length ≤ bufLength
  initial_le : 65536 ≤ bufLength
  taken : List Bytes

namespace WebReader

def created : WebReader :=
  ⟨[], 65536, Nat.zero_le _, le_rfl, []⟩

/-- The size of the buffer that `data` is copied into. -/
def grown (reader : WebReader) (data : Bytes) : Nat :=
  if reader.unread.length + data.length > reader.bufLength then reader.bufLength * 2
  else reader.bufLength

variable (reader : WebReader) (data : Bytes)

theorem bufLength_le_grown : reader.bufLength ≤ reader.grown data := by
  unfold grown
  split_ifs <;> omega

/-- The loop of `_onData`: a frame may be as long as the buffer. -/
def frameReader (bufLength : Nat) : Reader Bytes :=
  Reader.prefixed frameHeaderSize bufLength frameHeaderSize_pos

theorem length_rest_le {reader : WebReader} {data : Bytes}
    (hroom : reader.unread.length + data.length ≤ reader.grown data) :
    ((frameReader (reader.grown data)).takeAll (reader.unread ++ data)).2.length ≤
      reader.grown data := by
  refine Nat.le_trans (Reader.length_takeLoop_le _ _ _) ?_
  rw [List.length_append]
  exact hroom

def onData (reader : WebReader) (data : Bytes) : WebReader :=
  if hroom : reader.unread.length + data.length ≤ reader.grown data then
    let loop := (frameReader (reader.grown data)).takeAll (reader.unread ++ data)
    { unread := loop.2
      bufLength := reader.grown data
      length_unread_le := length_rest_le hroom
      initial_le := Nat.le_trans reader.initial_le (reader.bufLength_le_grown data)
      taken := reader.taken ++ loop.1 }
  else
    -- `set` throws; the larger buffer is in place, and `readLen` is as it was
    { reader with
      bufLength := reader.grown data
      length_unread_le := Nat.le_trans reader.length_unread_le (reader.bufLength_le_grown data)
      initial_le := Nat.le_trans reader.initial_le (reader.bufLength_le_grown data) }

/-- `_onData` has a handler for the frame. -/
def handles (runtime : WebRuntime) (frame : Bytes) : Bool :=
  match WebProtocol.decodeFrame runtime frame with
  | some (.response _ _ _) | some (.event _ _ _ _) => true
  | _ => false

/-- The frames that reach `_handleResponse` and `_handleEvent`. -/
def processed (runtime : WebRuntime) (reader : WebReader) : List Bytes :=
  reader.taken.filter (handles runtime)

/-- What arrives fits a buffer of at most twice the size. -/
def Fits (reader : WebReader) (data : Bytes) : Prop :=
  reader.unread.length + data.length ≤ 2 * reader.bufLength

instance (reader : WebReader) (data : Bytes) : Decidable (reader.Fits data) :=
  inferInstanceAs (Decidable (_ ≤ _))

theorem fits_iff {reader : WebReader} {data : Bytes} :
    reader.Fits data ↔ reader.unread.length + data.length ≤ reader.grown data := by
  unfold Fits grown
  split_ifs <;> omega

theorem feed (hfits : reader.Fits data) :
    (reader.onData data).taken = reader.taken ++
        ((frameReader (reader.grown data)).takeAll (reader.unread ++ data)).1 ∧
      (reader.onData data).unread =
        ((frameReader (reader.grown data)).takeAll (reader.unread ++ data)).2 := by
  unfold onData
  rw [dif_pos (fits_iff.mp hfits)]
  exact ⟨rfl, rfl⟩

theorem drop (hlost : ¬reader.Fits data) :
    data ≠ [] ∧ (reader.onData data).taken = reader.taken ∧
      (reader.onData data).unread = reader.unread := by
  refine ⟨?_, ?_⟩
  · rintro rfl
    have hunread := reader.length_unread_le
    rw [Fits, List.length_nil] at hlost
    omega
  · unfold onData
    rw [dif_neg fun hroom => hlost (fits_iff.mpr hroom)]
    exact ⟨rfl, rfl⟩

def intake : Intake WebReader Bytes Bytes where
  receive := onData
  bytes := id
  buffer := unread
  taken := taken
  reader reader data := frameReader (reader.grown data)
  Fits := Fits
  feed := feed
  drop := drop

end WebReader

/-! ### Streams -/

/-- A frame of the server that both clients can decode, of up to 65536 bytes. -/
structure WellFormed (runtime : WebRuntime) (frame : Bytes) : Prop where
  length_pos : 0 < frame.length
  length_le : frame.length ≤ 65536
  decodes : (ClientProtocol.receive frame).isSome = true
  handles : WebReader.handles runtime frame = true

theorem sized_prefixed (limit : Nat) :
    (Reader.prefixed frameHeaderSize limit frameHeaderSize_pos).Sized
      fun frame => frameHeaderSize + frame.length :=
  fun _ _ _ hnext => (Reader.length_nextPrefixed hnext).le

theorem delimits_prefixed {limit : Nat} (hlimit : 65536 ≤ limit) {frame : Bytes}
    (hpositive : 0 < frame.length) (hlength : frame.length ≤ 65536) :
    (Reader.prefixed frameHeaderSize limit frameHeaderSize_pos).Delimits (sendFrame frame) frame :=
  Reader.delimits_withLength frameHeaderSize_pos hpositive (Nat.le_trans hlength hlimit)
    (Nat.lt_of_le_of_lt hlength (by decide))

theorem sendFrame_ne_nil (frame : Bytes) : sendFrame frame ≠ [] := by
  refine List.ne_nil_of_length_pos ?_
  rw [length_sendFrame]
  exact Nat.lt_of_lt_of_le frameHeaderSize_pos (Nat.le_add_right _ _)

section Stream

variable {runtime : WebRuntime} {frames : List Bytes}
  (hframes : ∀ frame ∈ frames, WellFormed runtime frame)

include hframes

theorem quic_processed_iff {events : List (List Bytes)}
    (hevents : events.flatten.flatten = frames.flatMap sendFrame) :
    (Runs.run QuicClient.receive QuicClient.opened events).processed = frames ↔
      Runs.Meets QuicClient.receive QuicClient.Fits QuicClient.opened events := by
  have hbytes : events.flatMap QuicClient.intake.bytes = frames.flatMap sendFrame := by
    rw [← hevents, List.flatMap_def]
    exact List.flatten_flatten.symm
  have htaken : QuicClient.intake.taken QuicClient.opened = [] := rfl
  have hiff := QuicClient.intake.kept_eq_iff
    (fun _ _ frame hframe => delimits_prefixed le_rfl (hframes frame hframe).length_pos
      (hframes frame hframe).length_le)
    (fun _ _ => sized_prefixed clientReadBufSize) (fun frame _ => sendFrame_ne_nil frame)
    (fun frame _ => length_sendFrame frame) (fun frame hframe => (hframes frame hframe).decodes)
    htaken rfl hbytes
  rwa [List.map_id'] at hiff

theorem web_processed_iff {chunks : List Bytes}
    (hchunks : chunks.flatten = frames.flatMap sendFrame) :
    (Runs.run WebReader.onData WebReader.created chunks).processed runtime = frames ↔
      Runs.Meets WebReader.onData WebReader.Fits WebReader.created chunks := by
  have hbytes : chunks.flatMap WebReader.intake.bytes = frames.flatMap sendFrame := by
    rw [← hchunks, List.flatMap_def]
    exact congrArg List.flatten (List.map_id chunks)
  have htaken : WebReader.intake.taken WebReader.created = [] := rfl
  have hiff := WebReader.intake.kept_eq_iff
    (fun reader data frame hframe => delimits_prefixed
      (Nat.le_trans reader.initial_le (reader.bufLength_le_grown data))
      (hframes frame hframe).length_pos (hframes frame hframe).length_le)
    (fun reader data => sized_prefixed (reader.grown data)) (fun frame _ => sendFrame_ne_nil frame)
    (fun frame _ => length_sendFrame frame) (fun frame hframe => (hframes frame hframe).handles)
    htaken rfl hbytes
  rwa [List.map_id'] at hiff

/-- **Receiving.** However the stream of the server's frames is cut: the C client hands over exactly
these frames, once each and in order, if and only if whatever arrives at once fits its buffer, and
the web client if and only if whatever arrives at once fits its buffer doubled. -/
theorem processed_in_order (events : List (List Bytes))
    (hevents : events.flatten.flatten = frames.flatMap sendFrame) (chunks : List Bytes)
    (hchunks : chunks.flatten = frames.flatMap sendFrame) :
    ((Runs.run QuicClient.receive QuicClient.opened events).processed = frames ↔
        Runs.Meets QuicClient.receive QuicClient.Fits QuicClient.opened events) ∧
      ((Runs.run WebReader.onData WebReader.created chunks).processed runtime = frames ↔
        Runs.Meets WebReader.onData WebReader.Fits WebReader.created chunks) :=
  ⟨quic_processed_iff hframes hevents, web_processed_iff hframes hchunks⟩

end Stream

/-! ### Frames of the server -/

section Server

open Cbor ClientProtocol

theorem wellFormed_of_decoded {runtime : WebRuntime} {frame : Bytes} {decoded : ClientFrame}
    (hlength : frame.length ≤ 65536) (hreceive : receive frame = some decoded)
    (hhandles : WebReader.handles runtime frame = true) : WellFormed runtime frame where
  length_pos := by
    refine List.length_pos_of_ne_nil fun hnil => ?_
    have hnone : receive [] = none := rfl
    rw [hnil, hnone] at hreceive
    cases hreceive
  length_le := hlength
  decodes := by
    rw [hreceive]
    rfl
  handles := hhandles

variable (runtime : WebRuntime)

theorem wellFormed_response (requestId : UInt32) (errorCode : UInt8)
    (resultData : CString maxResultData)
    (hlength : (serialize (encodeResponse requestId errorCode resultData.bytes)).length ≤ 65536) :
    WellFormed runtime (serialize (encodeResponse requestId errorCode resultData.bytes)) := by
  refine wellFormed_of_decoded hlength (receive_serialize (.response _ _ _)) ?_
  rw [WebReader.handles, WebProtocol.decodeFrame_response]

theorem wellFormed_event (type : UInt8) (topicId : CString maxTopicPath)
    (subtopic : CString maxSubtopic) (data : ByteBuffer maxPayload)
    (hlength : (serialize (encodeEvent type topicId.bytes subtopic.bytes data.bytes)).length ≤
      65536) :
    WellFormed runtime (serialize (encodeEvent type topicId.bytes subtopic.bytes data.bytes)) := by
  refine wellFormed_of_decoded hlength (receive_serialize (.event _ _ _ _)) ?_
  rw [WebReader.handles, WebProtocol.decodeFrame_event]

def okFrame : Bytes :=
  serialize (encodeResponse 0 0 [])

theorem wellFormed_okFrame : WellFormed runtime okFrame :=
  wellFormed_response runtime 0 0 ⟨[], by decide, List.not_mem_nil⟩ (by decide)

/-- Two frames in three parts. -/
theorem processed_okFrames :
    (∀ frame ∈ [okFrame, okFrame], WellFormed WebRuntime.ofLoad frame) ∧
      (Runs.run QuicClient.receive QuicClient.opened
        [[[0, 0]], [[0, 9], okFrame ++ [0]], [[0, 0, 9] ++ okFrame]]).processed =
          [okFrame, okFrame] ∧
      (Runs.run WebReader.onData WebReader.created
        [[0, 0], [0, 9] ++ okFrame ++ [0], [0, 0, 9] ++ okFrame]).processed WebRuntime.ofLoad =
          [okFrame, okFrame] := by
  have hframes : ∀ frame ∈ [okFrame, okFrame], WellFormed WebRuntime.ofLoad frame := by
    simp only [List.forall_mem_cons, wellFormed_okFrame, true_and]
    exact List.forall_mem_nil _
  obtain ⟨hquic, hweb⟩ := processed_in_order hframes
    [[[0, 0]], [[0, 9], okFrame ++ [0]], [[0, 0, 9] ++ okFrame]] (by decide)
    [[0, 0], [0, 9] ++ okFrame ++ [0], [0, 0, 9] ++ okFrame] (by decide)
  exact ⟨hframes, hquic.mpr (by decide +kernel), hweb.mpr (by decide +kernel)⟩

/-- An event that does not fit the buffer of the C client together with its header. -/
def longEvent : Bytes :=
  serialize (encodeEvent 1 [] [] (List.replicate 65526 0))

theorem length_longEvent : longEvent.length = 65534 := by
  simp only [longEvent, encodeEvent, serialize, serializeAll, encodeInt, encodeHead,
    List.length_append, List.length_replicate, List.length_nil, List.length_cons]
  decide

theorem wellFormed_longEvent : WellFormed runtime longEvent :=
  wellFormed_event runtime 1 ⟨[], by decide, List.not_mem_nil⟩ ⟨[], by decide, List.not_mem_nil⟩
    ⟨List.replicate 65526 0, (List.length_replicate).le.trans (by decide)⟩
    (length_longEvent.le.trans (by decide))

/-- A frame that does not fit with its header is lost wherever it is cut: the second part finds no
room behind the first. -/
theorem not_meets_cut {frame : Bytes} (hpositive : 0 < frame.length)
    (hlength : frame.length ≤ 65536) (hlong : clientReadBufSize < frameHeaderSize + frame.length)
    {cut : Nat} (hcut : cut < (sendFrame frame).length) :
    ¬Runs.Meets QuicClient.receive QuicClient.Fits QuicClient.opened
      [[(sendFrame frame).take cut], [(sendFrame frame).drop cut]] := by
  rintro ⟨hfirst, hsecond, -⟩
  have hfront : ((sendFrame frame).take cut).length = cut := List.length_take_of_le hcut.le
  have hnone : clientFrameReader.next ((sendFrame frame).take cut) = none := by
    refine (delimits_prefixed le_rfl hpositive hlength).part _ (List.take_prefix _ _) ?_
    intro hwhole
    rw [hwhole] at hfront
    omega
  have hrest := (QuicClient.feed _ _ hfirst).2
  rw [List.flatten_singleton] at hrest
  change _ = (clientFrameReader.takeAll ((sendFrame frame).take cut)).2 at hrest
  rw [Reader.takeAll, Reader.takeLoop_of_none _ hnone] at hrest
  rw [QuicClient.Fits, hrest, List.flatten_singleton, hfront, List.length_drop,
    length_sendFrame] at hsecond
  rw [length_sendFrame] at hcut
  omega

/-- More frames than a buffer of twice the size holds. -/
def manyFrames : List Bytes :=
  List.replicate 12000 okFrame

theorem not_meets_manyFrames :
    ¬Runs.Meets WebReader.onData WebReader.Fits WebReader.created
      [manyFrames.flatMap sendFrame] := by
  rintro ⟨hfits, -⟩
  have hlength : (manyFrames.flatMap sendFrame).length = 156000 := by
    rw [manyFrames, List.length_flatMap, List.map_replicate, List.sum_replicate]
    decide
  rw [WebReader.Fits, hlength] at hfits
  exact absurd hfits (by decide)

/-- The C client loses an event that comes in two halves, and the web client frames that come at
once. -/
theorem not_processed_longEvent_manyFrames :
    WellFormed WebRuntime.ofLoad longEvent ∧
      (∀ frame ∈ manyFrames, WellFormed WebRuntime.ofLoad frame) ∧
      (Runs.run QuicClient.receive QuicClient.opened [[(sendFrame longEvent).take 32769],
        [(sendFrame longEvent).drop 32769]]).processed ≠ [longEvent] ∧
      (Runs.run WebReader.onData WebReader.created [manyFrames.flatMap sendFrame]).processed
        WebRuntime.ofLoad ≠ manyFrames := by
  have hlong : ∀ frame ∈ [longEvent], WellFormed WebRuntime.ofLoad frame := by
    intro frame hframe
    rw [List.mem_singleton.mp hframe]
    exact wellFormed_longEvent _
  have hmany : ∀ frame ∈ manyFrames, WellFormed WebRuntime.ofLoad frame := by
    intro frame hframe
    rw [List.eq_of_mem_replicate hframe]
    exact wellFormed_okFrame _
  refine ⟨wellFormed_longEvent _, hmany, fun hall => ?_, fun hall => ?_⟩
  · have hstream : [[(sendFrame longEvent).take 32769],
        [(sendFrame longEvent).drop 32769]].flatten.flatten = [longEvent].flatMap sendFrame := by
      rw [List.flatMap_singleton, List.flatten_cons, List.flatten_singleton, List.singleton_append,
        List.flatten_cons, List.flatten_singleton, List.take_append_drop]
    have hlength : (sendFrame longEvent).length = frameHeaderSize + 65534 := by
      rw [length_sendFrame, length_longEvent]
    have hform := wellFormed_longEvent WebRuntime.ofLoad
    refine not_meets_cut hform.length_pos hform.length_le ?_ ?_
      ((quic_processed_iff hlong hstream).mp hall)
    · rw [length_longEvent]
      decide
    · rw [hlength]
      decide
  · refine not_meets_manyFrames ((web_processed_iff hmany ?_).mp hall)
    exact List.flatten_singleton

end Server

end Poseidon
