import Mathlib.Data.List.Forall2
import Poseidon.Client.AliasRequests
import Poseidon.Client.ClientCalls
import Poseidon.Client.ReceiveLoops
import Poseidon.Client.Requests

/-!
# Calls over TCP, from end to end

The threads of an application call the C client; the server reads the stream of their frames in
whatever pieces it arrives, handles one request after the other, and writes the responses, and the
events for this client in between, to the same socket. The thread of the client that receives reads
this stream in pieces of its own and calls the callbacks.

Between two requests of the client the daemon may be changed in any way, by other clients and by
what arrives from the overlay. Only the thread of the transport writes to the socket.
-/

namespace Poseidon

open Cbor ClientProtocol Framing

/-! ### The server -/

/-- A client of the TCP transport with the daemon behind it: the requests it has handled with their
results, and the frames it has written to the socket. -/
structure Service (crypto : Crypto) where
  tcp : TcpClient
  daemon : Daemon crypto
  handled : List (RequestFrame × Except RequestError RequestSuccess)
  written : List Bytes

/-- What reaches the server next: some bytes of the client's stream; or the daemon is changed, and
an event for the client is written. -/
inductive ServiceEvent (crypto : Crypto) where
  | read (chunk : Bytes)
  | change (daemon : Daemon crypto)
  | push (type : UInt8) (topicId : CString maxTopicPath) (subtopic : CString maxSubtopic)
      (data : ByteBuffer maxPayload)

def ServiceEvent.chunk {crypto : Crypto} : ServiceEvent crypto → Bytes
  | .read chunk => chunk
  | .change _ => []
  | .push _ _ _ _ => []

def requestIn (data : Bytes) : Option RequestFrame :=
  (ClientProtocol.receive data).bind fun frame =>
    match frame with
    | .request request => some request
    | _ => none

namespace Service

variable {crypto : Crypto}

def accepted (daemon : Daemon crypto) : Service crypto :=
  ⟨.accepted, daemon, [], []⟩

section Steps

variable (H : HashFn) (keyring : Keyring) (inputs : Nat → RequestInputs) (client : Nat)

/-- The body of the loop of `process_client_data` for one frame. -/
def handle (s : Service crypto) (data : Bytes) : Service crypto :=
  match s.daemon.serve H keyring (inputs s.handled.length) client data with
  | none => s
  | some (item, answer) =>
      { s with
        daemon := answer.daemon
        handled := s.handled ++ ((requestIn data).map fun frame => (frame, answer.result)).toList
        written := s.written ++ [serialize item] }

/-- `tcp_read_callback`: the frames that the chunk completes are handled. -/
def read (s : Service crypto) (chunk : Bytes) : Service crypto :=
  let tcp := s.tcp.readCallback chunk
  (tcp.taken.drop s.tcp.taken.length).foldl (handle H keyring inputs client) { s with tcp := tcp }

def step (s : Service crypto) : ServiceEvent crypto → Service crypto
  | .read chunk => s.read H keyring inputs client chunk
  | .change daemon => { s with daemon := daemon }
  | .push type topicId subtopic data =>
      { s with written := s.written ++
          [serialize (encodeEvent type topicId.bytes subtopic.bytes data.bytes)] }

end Steps

/-- A chunk fits the free space of the buffer, and an event the buffer of the client. -/
def Fits (s : Service crypto) : ServiceEvent crypto → Prop
  | .read chunk => s.tcp.Fits chunk
  | .change _ => True
  | .push type topicId subtopic data =>
      (serialize (encodeEvent type topicId.bytes subtopic.bytes data.bytes)).length ≤
        clientReadBufSize - frameHeaderSize

def downstream (s : Service crypto) : Bytes :=
  s.written.flatMap sendFrame

end Service

/-! ### The receiving thread -/

/-- The loop of `recv_thread_func`: a header that is refused ends the thread. -/
def recvNext (buffer : Bytes) : Option (Option Bytes × Bytes) :=
  if QuicClient.refusesHeader buffer then some (none, buffer.drop frameHeaderSize)
  else (clientFrameReader.next buffer).map fun taken => (some taken.1, taken.2)

theorem length_rest_recvNext (buffer : Bytes) (frame : Option Bytes) (rest : Bytes)
    (hnext : recvNext buffer = some (frame, rest)) : rest.length < buffer.length := by
  unfold recvNext at hnext
  split_ifs at hnext with hrefuses
  · obtain ⟨-, rfl⟩ := Prod.mk.inj (Option.some.inj hnext)
    have hheader : frameHeaderSize ≤ buffer.length := by
      simpa using (Bool.and_eq_true_iff.mp hrefuses).1
    have hpositive := frameHeaderSize_pos
    rw [List.length_drop]
    omega
  · obtain ⟨⟨found, behind⟩, hfound, htaken⟩ := Option.map_eq_some_iff.mp hnext
    obtain ⟨-, rfl⟩ := Prod.mk.inj htaken
    exact clientFrameReader.length_rest_lt buffer found behind hfound

theorem recvNext_nil : recvNext [] = none := rfl

def recvReader : Reader (Option Bytes) where
  next := recvNext
  ends := Option.isNone
  next_nil := recvNext_nil
  length_rest_lt := length_rest_recvNext

/-- The receiving thread, with the frames it has passed to `cbor_load`. -/
abbrev RecvThread := Receiver (Option Bytes) clientReadBufSize

def responsesIn (frames : List Bytes) : List ResponseFrame :=
  frames.filterMap fun frame => (ClientProtocol.receive frame).bind fun received =>
    match received with
    | .response response => some response
    | _ => none

namespace RecvThread

def started : RecvThread :=
  Receiver.fresh (Option Bytes) clientReadBufSize

/-- One turn of the loop, with what `recv` returns. -/
def recv (thread : RecvThread) (chunk : Bytes) : RecvThread :=
  thread.read recvReader chunk

/-- What the response callback has been called with. -/
def responses (thread : RecvThread) : List ResponseFrame :=
  responsesIn (thread.taken.filterMap id)

end RecvThread

/-! ### Frames at the receiving thread -/

theorem refusesHeader_of_next {buffer : Bytes} {taken : Bytes × Bytes}
    (hnext : clientFrameReader.next buffer = some taken) :
    QuicClient.refusesHeader buffer = false := by
  unfold QuicClient.refusesHeader
  cases hread : Reader.readLength frameHeaderSize clientReadBufSize buffer with
  | some length => simp
  | none =>
      have hnone : clientFrameReader.next buffer = none := by
        change Reader.nextPrefixed frameHeaderSize clientReadBufSize buffer = none
        unfold Reader.nextPrefixed
        rw [hread]
        split_ifs <;> rfl
      rw [hnone] at hnext
      exact absurd hnext (Option.some_ne_none _).symm

theorem refusesHeader_of_front {front wire : Bytes} (hfront : front <+: wire)
    (hwire : QuicClient.refusesHeader wire = false) : QuicClient.refusesHeader front = false := by
  by_contra hrefuses
  rw [Bool.not_eq_false] at hrefuses
  obtain ⟨hheader, hnone⟩ := Bool.and_eq_true_iff.mp hrefuses
  have hlength : frameHeaderSize ≤ front.length := of_decide_eq_true hheader
  obtain ⟨rest, rfl⟩ := hfront
  have hsame : (front ++ rest).take frameHeaderSize = front.take frameHeaderSize :=
    List.take_append_of_le_length hlength
  have hlonger : frameHeaderSize ≤ (front ++ rest).length := by
    rw [List.length_append]
    omega
  rw [QuicClient.refusesHeader, Reader.readLength, hsame, decide_eq_true hlonger,
    Bool.true_and] at hwire
  rw [Reader.readLength] at hnone
  exact Bool.false_ne_true (hwire.symm.trans hnone)

theorem delimits_recvReader {frame : Bytes} (hpositive : 0 < frame.length)
    (hlength : frame.length ≤ 65536) : recvReader.Delimits (sendFrame frame) (some frame) := by
  have hdelimits : clientFrameReader.Delimits (sendFrame frame) frame :=
    delimits_prefixed le_rfl hpositive hlength
  refine ⟨fun rest => ?_, fun front hfront hne => ?_, rfl⟩
  · change recvNext (sendFrame frame ++ rest) = some (some frame, rest)
    rw [recvNext, refusesHeader_of_next (hdelimits.whole rest), hdelimits.whole rest]
    rfl
  · have hwire : QuicClient.refusesHeader (sendFrame frame) = false := by
      have hwhole := hdelimits.whole []
      rw [List.append_nil] at hwhole
      exact refusesHeader_of_next hwhole
    change recvNext front = none
    rw [recvNext, refusesHeader_of_front hfront hwire, hdelimits.part front hfront hne]
    rfl

theorem delimits_of_fits {frame : Bytes} (hpositive : 0 < frame.length)
    (hlength : frame.length ≤ clientReadBufSize - frameHeaderSize) :
    recvReader.Delimits (sendFrame frame) (some frame) ∧
      (sendFrame frame).length ≤ clientReadBufSize := by
  have hroom : clientReadBufSize - frameHeaderSize + frameHeaderSize = clientReadBufSize := rfl
  have hsize : clientReadBufSize = 65536 := rfl
  refine ⟨delimits_recvReader hpositive (by omega), ?_⟩
  rw [length_sendFrame]
  omega

theorem responsesIn_append (first second : List Bytes) :
    responsesIn (first ++ second) = responsesIn first ++ responsesIn second :=
  List.filterMap_append

/-! ### Requests and responses on the wire -/

/-- The topic path is a string for its buffer, signature and payload fit theirs, and the frame fits
the buffer of the transport together with its header. -/
def CallBody.Within (body : CallBody) : Prop :=
  (ClientCall.mk 0 body).bytes.length ≤ readBufSize - frameHeaderSize ∧
    match body with
    | .request _ topicPath payload =>
        topicPath.length < maxTopicPath ∧ 0 ∉ topicPath ∧ payload.length ≤ maxPayload
    | .adminRequest _ topicPath signature config =>
        topicPath.length < maxTopicPath ∧ 0 ∉ topicPath ∧ signature.length ≤ maxSignature ∧
          config.length ≤ maxPayload

instance : ∀ body : CallBody, Decidable body.Within
  | .request _ topicPath payload => inferInstanceAs (Decidable (_ ∧
      topicPath.length < maxTopicPath ∧ 0 ∉ topicPath ∧ payload.length ≤ maxPayload))
  | .adminRequest _ topicPath signature config => inferInstanceAs (Decidable (_ ∧
      topicPath.length < maxTopicPath ∧ 0 ∉ topicPath ∧ signature.length ≤ maxSignature ∧
        config.length ≤ maxPayload))

def ClientCall.Arrives (call : ClientCall) (frame : RequestFrame) : Prop :=
  frame.requestId = call.id ∧
    match call.body with
    | .request method topicPath payload =>
        frame.method = method ∧ frame.topicPath.bytes = topicPath ∧ frame.signature.bytes = [] ∧
          frame.payload.bytes = payload
    | .adminRequest method topicPath signature config =>
        frame.method = method ∧ frame.topicPath.bytes = topicPath ∧
          frame.signature.bytes = signature ∧ frame.payload.bytes = config

def Answers (handled : RequestFrame × Except RequestError RequestSuccess)
    (response : ResponseFrame) : Prop :=
  response.requestId = handled.1.requestId ∧
    match handled.2 with
    | .error error => response.errorCode = error.code ∧ response.resultData.bytes = []
    | .ok success => response.errorCode = 0 ∧ response.resultData.bytes = success.text

namespace ClientCall

theorem length_bytes (id : UInt32) (body : CallBody) :
    (ClientCall.mk id body).bytes.length = (ClientCall.mk 0 body).bytes.length := by
  cases body <;>
    simp [bytes, item, encodeRequest, encodeAdminRequest, serialize, serializeAll, encodeInt,
      length_beBytes]

theorem exists_sentAs {call : ClientCall} (hwithin : call.body.Within) :
    ∃ frame, SentAs call.item (.request frame) ∧ call.Arrives frame := by
  obtain ⟨id, body⟩ := call
  cases body with
  | request method topicPath payload =>
      obtain ⟨-, htopic, hzero, hpayload⟩ := hwithin
      exact ⟨_, .plain id method ⟨topicPath, htopic, hzero⟩ ⟨payload, hpayload⟩,
        rfl, rfl, rfl, rfl, rfl⟩
  | adminRequest method topicPath signature config =>
      obtain ⟨-, htopic, hzero, hsignature, hconfig⟩ := hwithin
      exact ⟨_, .admin id method ⟨topicPath, htopic, hzero⟩ ⟨signature, hsignature⟩
        ⟨config, hconfig⟩, rfl, rfl, rfl, rfl, rfl⟩

theorem exists_requestIn {call : ClientCall} (hwithin : call.body.Within) :
    ∃ frame, requestIn call.bytes = some frame ∧ call.Arrives frame := by
  obtain ⟨frame, hsent, harrives⟩ := exists_sentAs hwithin
  refine ⟨frame, ?_, harrives⟩
  rw [requestIn, bytes, receive_serialize hsent]
  rfl

end ClientCall

theorem length_pos_of_receive {data : Bytes} {frame : ClientFrame}
    (hreceive : ClientProtocol.receive data = some frame) : 0 < data.length := by
  refine List.length_pos_of_ne_nil fun hnil => ?_
  have hnone : ClientProtocol.receive [] = none := rfl
  rw [hnil, hnone] at hreceive
  exact absurd hreceive (Option.some_ne_none _).symm

theorem receive_of_requestIn {data : Bytes} {request : RequestFrame}
    (hrequest : requestIn data = some request) :
    ClientProtocol.receive data = some (.request request) := by
  obtain ⟨frame, hframe, hfound⟩ := Option.bind_eq_some_iff.mp hrequest
  cases frame with
  | request found =>
      obtain rfl := Option.some.inj hfound
      exact hframe
  | _ => exact absurd hfound (Option.some_ne_none _).symm

theorem length_encodeHead_le (major value : Nat) : (encodeHead major value).length ≤ 9 := by
  unfold encodeHead
  split_ifs <;> simp [length_beBytes]

theorem length_encodeInt_le (major : Nat) (width : IntWidth) (value : Nat) :
    (encodeInt major width value).length ≤ 9 := by
  unfold encodeInt
  split
  · split_ifs <;> simp [length_beBytes]
  all_goals simp [length_beBytes]

theorem length_encodeResponse_le (requestId : UInt32) (errorCode : UInt8)
    (resultData : CString maxResultData) :
    (serialize (encodeResponse requestId errorCode resultData.bytes)).length ≤
      clientReadBufSize - frameHeaderSize := by
  have hdata : resultData.bytes.length < 1024 := resultData.length_lt
  have hroom : clientReadBufSize - frameHeaderSize = 65532 := rfl
  have harray := length_encodeHead_le 4 4
  have htype := length_encodeInt_le 0 .w8 responseType
  have hid := length_encodeInt_le 0 .w32 requestId.toNat
  have hcode := length_encodeInt_le 0 .w8 errorCode.toNat
  have hhead := length_encodeHead_le 3 resultData.bytes.length
  simp only [encodeResponse, serialize, serializeAll, List.length_append, List.length_cons,
    List.length_nil, Nat.reduceAdd]
  omega

theorem exists_text (success : RequestSuccess) :
    ∃ text : CString maxResultData, text.bytes = success.text := by
  cases success with
  | resolved topic =>
      exact ⟨⟨topic.bytes, lt_of_lt_of_le topic.length_lt (by decide), topic.zero_not_mem⟩, rfl⟩
  | _ => exact ⟨⟨_, by decide, by decide⟩, rfl⟩

theorem exists_response (frame : RequestFrame) (result : Except RequestError RequestSuccess) :
    ∃ response, ClientProtocol.receive (serialize (encodeResult frame.requestId result)) =
        some (.response response) ∧ Answers (frame, result) response ∧
      (serialize (encodeResult frame.requestId result)).length ≤
        clientReadBufSize - frameHeaderSize := by
  cases result with
  | error error =>
      let empty : CString maxResultData := ⟨[], by decide, List.not_mem_nil⟩
      exact ⟨⟨frame.requestId, error.code, empty⟩,
        receive_serialize (.response frame.requestId error.code empty), ⟨rfl, rfl, rfl⟩,
        length_encodeResponse_le frame.requestId error.code empty⟩
  | ok success =>
      obtain ⟨text, htext⟩ := exists_text success
      have hencode : encodeResult frame.requestId (.ok success) =
          encodeResponse frame.requestId 0 text.bytes := by
        rw [htext]
        rfl
      rw [hencode]
      exact ⟨⟨frame.requestId, 0, text⟩, receive_serialize (.response frame.requestId 0 text),
        ⟨rfl, rfl, htext⟩, length_encodeResponse_le frame.requestId 0 text⟩

/-! ### What the server writes -/

namespace Service

variable {crypto : Crypto} {H : HashFn} {keyring : Keyring} {inputs : Nat → RequestInputs}
  {client : Nat}

/-- The requests in the frames taken have been handled and answered, in their order. -/
structure Answering (taken : List Bytes) (s : Service crypto) : Prop where
  handled : taken.map requestIn = s.handled.map fun entry => some entry.1
  answered : List.Forall₂ Answers s.handled (responsesIn s.written)
  sound : ∀ frame ∈ s.written,
    0 < frame.length ∧ frame.length ≤ clientReadBufSize - frameHeaderSize

theorem tcp_handle (s : Service crypto) (data : Bytes) :
    (s.handle H keyring inputs client data).tcp = s.tcp := by
  unfold handle
  split <;> rfl

theorem Answering.handle {taken : List Bytes} {s : Service crypto} (hs : s.Answering taken)
    {data : Bytes} {request : RequestFrame} (hrequest : requestIn data = some request) :
    (s.handle H keyring inputs client data).Answering (taken ++ [data]) := by
  have hreceive := receive_of_requestIn hrequest
  obtain ⟨response, hresponse, hanswers, hlength⟩ := exists_response request
    (s.daemon.handleRequest H keyring (inputs s.handled.length) client request).result
  unfold Service.handle Daemon.serve
  rw [hreceive, hrequest]
  refine ⟨?_, ?_, fun frame hframe => ?_⟩
  · simp only [List.map_append, hs.handled, List.map_cons, hrequest, List.map_nil, Option.map_some,
      Option.toList_some]
  · simp only [Option.map_some, Option.toList_some, responsesIn_append]
    refine List.rel_append hs.answered ?_
    have hnew : responsesIn [serialize (encodeResult request.requestId
        (s.daemon.handleRequest H keyring (inputs s.handled.length) client request).result)] =
          [response] := by
      simp only [responsesIn, List.filterMap_cons, hresponse, Option.bind_some, List.filterMap_nil]
    rw [hnew]
    exact .cons hanswers .nil
  · rcases List.mem_append.mp hframe with hold | hnew
    · exact hs.sound frame hold
    · rw [List.mem_singleton.mp hnew]
      exact ⟨length_pos_of_receive hresponse, hlength⟩

theorem Answering.foldl {new taken : List Bytes} {s : Service crypto} (hs : s.Answering taken)
    (hnew : ∀ data ∈ new, (requestIn data).isSome) :
    (new.foldl (Service.handle H keyring inputs client) s).Answering (taken ++ new) ∧
      (new.foldl (Service.handle H keyring inputs client) s).tcp = s.tcp := by
  induction new generalizing taken s with
  | nil =>
      rw [List.append_nil]
      exact ⟨hs, rfl⟩
  | cons data new ih =>
      obtain ⟨request, hrequest⟩ := Option.isSome_iff_exists.mp (hnew data List.mem_cons_self)
      obtain ⟨hfold, htcp⟩ := ih (hs.handle hrequest)
        fun other hother => hnew other (List.mem_cons_of_mem _ hother)
      rw [List.append_assoc] at hfold
      exact ⟨hfold, htcp.trans (tcp_handle s data)⟩

/-- What has arrived of the client's stream has been taken apart, handled and answered. -/
structure Serving (frames : List Bytes) (received : Bytes) (s : Service crypto) : Prop where
  tracks : Receiver.Tracks sendFrame id frames received s.tcp
  answering : s.Answering s.tcp.taken

section Serving

variable {frames : List Bytes}
  (hframes : ∀ data ∈ frames, (requestIn data).isSome ∧
    data.length ≤ readBufSize - frameHeaderSize)

include hframes

theorem delimits_of_requestIn {data : Bytes} (hdata : data ∈ frames) :
    frameReader.Delimits (sendFrame data) (id data) ∧
      (sendFrame data).length ≤ readBufSize := by
  obtain ⟨hrequest, hlength⟩ := hframes data hdata
  obtain ⟨request, hrequest⟩ := Option.isSome_iff_exists.mp hrequest
  have hpositive := length_pos_of_receive (receive_of_requestIn hrequest)
  have hroom : readBufSize - frameHeaderSize + frameHeaderSize = readBufSize := rfl
  have hfits : data.length < 256 ^ frameHeaderSize := Nat.lt_of_le_of_lt hlength (by decide)
  refine ⟨Reader.delimits_withLength frameHeaderSize_pos hpositive
    (Nat.le_trans hlength (Nat.sub_le _ _)) hfits, ?_⟩
  rw [length_sendFrame]
  omega

theorem Serving.read {received chunk : Bytes} {s : Service crypto}
    (hs : s.Serving frames received) (hfits : s.tcp.Fits chunk)
    (hchunk : received ++ chunk <+: frames.flatMap sendFrame) :
    (s.read H keyring inputs client chunk).Serving frames (received ++ chunk) := by
  have htracks : Receiver.Tracks sendFrame id frames (received ++ chunk)
      (s.tcp.readCallback chunk) :=
    hs.tracks.read (fun data hdata => (delimits_of_requestIn hframes hdata).1)
      (fun data hdata => (delimits_of_requestIn hframes hdata).2) (by decide) hfits hchunk
  obtain ⟨new, hnew⟩ := Receiver.taken_front_read frameReader s.tcp chunk
  change s.tcp.taken ++ new = (s.tcp.readCallback chunk).taken at hnew
  have hrequests : ∀ data ∈ new, (requestIn data).isSome := by
    intro data hdata
    obtain ⟨-, ahead, hfollows⟩ := htracks
    have hmem : data ∈ (s.tcp.readCallback chunk).taken :=
      hnew ▸ List.mem_append_right _ hdata
    have hframe := hfollows.taken_front.subset hmem
    rw [List.map_id] at hframe
    exact (hframes data hframe).1
  have hstored : Answering s.tcp.taken { s with tcp := s.tcp.readCallback chunk } :=
    ⟨hs.answering.handled, hs.answering.answered, hs.answering.sound⟩
  have hread : s.read H keyring inputs client chunk =
      new.foldl (Service.handle H keyring inputs client)
        { s with tcp := s.tcp.readCallback chunk } := by
    unfold Service.read
    dsimp only
    rw [← hnew, List.drop_left]
  obtain ⟨hanswering, htcp⟩ := hstored.foldl hrequests
  rw [hread]
  refine ⟨?_, ?_⟩
  · rw [htcp]
    exact htracks
  · rw [htcp]
    rw [hnew] at hanswering
    exact hanswering

/-- **Serving.** However the client's stream is cut, and whatever happens in between, the requests
are handled and answered one after the other. -/
theorem Serving.run {events : List (ServiceEvent crypto)} {received : Bytes} {s : Service crypto}
    (hs : s.Serving frames received)
    (hfits : Runs.Meets (step H keyring inputs client) Fits s events)
    (hstream : received ++ events.flatMap ServiceEvent.chunk <+: frames.flatMap sendFrame) :
    (Runs.run (step H keyring inputs client) s events).Serving frames
      (received ++ events.flatMap ServiceEvent.chunk) := by
  induction events generalizing received s with
  | nil =>
      rw [List.flatMap_nil, List.append_nil]
      exact hs
  | cons event events ih =>
      rw [List.flatMap_cons, ← List.append_assoc] at hstream ⊢
      rw [Runs.run_cons]
      refine ih ?_ hfits.2 hstream
      have hfirst : received ++ event.chunk <+: frames.flatMap sendFrame :=
        (List.prefix_append _ _).trans hstream
      cases event with
      | read chunk => exact hs.read hframes hfits.1 hfirst
      | change daemon =>
          rw [ServiceEvent.chunk, List.append_nil]
          exact ⟨hs.tracks, hs.answering.handled, hs.answering.answered, hs.answering.sound⟩
      | push type topicId subtopic data =>
          rw [ServiceEvent.chunk, List.append_nil]
          have hreceive := receive_serialize (.event type topicId subtopic data)
          refine ⟨hs.tracks, hs.answering.handled, ?_, fun frame hframe => ?_⟩
          · change List.Forall₂ Answers s.handled (responsesIn (s.written ++ [_]))
            rw [responsesIn_append]
            have hnone : responsesIn
                [serialize (encodeEvent type topicId.bytes subtopic.bytes data.bytes)] = [] := by
              simp only [responsesIn, List.filterMap_cons, hreceive, Option.bind_some,
                List.filterMap_nil]
            rw [hnone, List.append_nil]
            exact hs.answering.answered
          · rcases List.mem_append.mp hframe with hold | hnew
            · exact hs.answering.sound frame hold
            · rw [List.mem_singleton.mp hnew]
              exact ⟨length_pos_of_receive hreceive, hfits.1⟩

end Serving

end Service

/-! ### From end to end -/

theorem RecvThread.responses_run {written : List Bytes}
    (hwritten : ∀ frame ∈ written,
      0 < frame.length ∧ frame.length ≤ clientReadBufSize - frameHeaderSize)
    {chunks : List Bytes}
    (hmeets : Runs.Meets RecvThread.recv Receiver.Fits RecvThread.started chunks)
    (hstream : chunks.flatten <+: written.flatMap sendFrame) :
    let thread := Runs.run RecvThread.recv RecvThread.started chunks
    thread.isOpen = true ∧ thread.responses <+: responsesIn written ∧
      (chunks.flatten = written.flatMap sendFrame → thread.responses = responsesIn written) := by
  intro thread
  have hfits : ∀ frame ∈ written, recvReader.Delimits (sendFrame frame) (some frame) ∧
      (sendFrame frame).length ≤ clientReadBufSize :=
    fun frame hframe => delimits_of_fits (hwritten frame hframe).1 (hwritten frame hframe).2
  obtain ⟨hopen, hfront, hall⟩ :=
    Receiver.takesAll_of_length_le (fun frame hframe => (hfits frame hframe).1)
      (fun frame hframe => (hfits frame hframe).2) (by decide) chunks hmeets hstream
  have hsome : (written.map some).filterMap id = written := by
    rw [List.filterMap_map]
    exact List.filterMap_some
  refine ⟨hopen, ?_, fun hwhole => ?_⟩
  · have hframes := hfront.filterMap id
    rw [hsome] at hframes
    exact hframes.filterMap _
  · have hframes := congrArg (List.filterMap id) (hall hwhole)
    rw [hsome] at hframes
    exact congrArg responsesIn hframes

theorem forall₂_arrives {calls : List ClientCall} {requests : List RequestFrame}
    (hwithin : ∀ call ∈ calls, call.body.Within)
    (hrequests : (calls.map ClientCall.bytes).map requestIn = requests.map some) :
    List.Forall₂ ClientCall.Arrives calls requests := by
  induction calls generalizing requests with
  | nil =>
      obtain rfl := List.map_eq_nil_iff.mp hrequests.symm
      exact .nil
  | cons call calls ih =>
      cases requests with
      | nil => simp at hrequests
      | cons request requests =>
          obtain ⟨hfirst, hrest⟩ := List.cons.inj hrequests
          obtain ⟨frame, hframe, harrives⟩ :=
            ClientCall.exists_requestIn (hwithin call List.mem_cons_self)
          obtain rfl := Option.some.inj (hframe.symm.trans hfirst)
          exact .cons harrives
            (ih (fun other hother => hwithin other (List.mem_cons_of_mem _ hother)) hrest)

section EndToEnd

variable {crypto : Crypto} {H : HashFn} {keyring : Keyring} {inputs : Nat → RequestInputs}
  {client : Nat}

/-- The frame of which the header has been written, if there is one. -/
theorem exists_begun {begun : Bytes} (hbegun : begun = [] ∨
      ∃ call : ClientCall, call.body.Within ∧ begun = writeFrameHeader call.bytes.length) :
    ∃ more : List ClientCall, (∀ call ∈ more, call.body.Within) ∧
      begun <+: more.flatMap (fun call => sendFrame call.bytes) ∧
      (more = [] ∨ ∃ call, more = [call] ∧ begun.length < (sendFrame call.bytes).length) := by
  rcases hbegun with rfl | ⟨call, hcall, rfl⟩
  · exact ⟨[], by simp, List.nil_prefix, .inl rfl⟩
  · refine ⟨[call], by simpa using hcall, ?_, .inr ⟨call, rfl, ?_⟩⟩
    · rw [List.flatMap_singleton]
      exact List.prefix_append _ _
    · obtain ⟨frame, hframe, -⟩ := ClientCall.exists_requestIn hcall
      have hpositive := length_pos_of_receive (receive_of_requestIn hframe)
      rw [length_sendFrame, writeFrameHeader, length_beBytes]
      omega

theorem requestIn_of_within {calls : List ClientCall} (hcalls : ∀ call ∈ calls, call.body.Within) :
    ∀ data ∈ calls.map ClientCall.bytes, (requestIn data).isSome ∧
      data.length ≤ readBufSize - frameHeaderSize := by
  intro data hdata
  obtain ⟨⟨id, body⟩, hcall, rfl⟩ := List.mem_map.mp hdata
  obtain ⟨frame, hframe, -⟩ := ClientCall.exists_requestIn (hcalls _ hcall)
  refine ⟨Option.isSome_of_eq_some hframe, ?_⟩
  rw [ClientCall.length_bytes id body]
  exact (hcalls _ hcall).1

/-- Of the calls that were sent, the server has handled the first ones, as they were sent; and all
of them once it has read all that was written. -/
theorem handled_run (daemon : Daemon crypto) {turns : List (Threads.Turn CallBody)}
    (hturns : ∀ thread body, .call thread body ∈ turns → body.Within)
    {events : List (ServiceEvent crypto)}
    (hevents : Runs.Meets (Service.step H keyring inputs client) Service.Fits
      (Service.accepted daemon) events)
    (hupstream :
      events.flatMap ServiceEvent.chunk <+: (CallingClient.run turns).shared.wire) :
    let sent := (CallingClient.run turns).shared.sent
    let s := Runs.run (Service.step H keyring inputs client) (Service.accepted daemon) events
    s.tcp.isOpen = true ∧ s.Answering s.tcp.taken ∧
    ∃ done, done <+: sent ∧ List.Forall₂ ClientCall.Arrives done (s.handled.map Prod.fst) ∧
      (events.flatMap ServiceEvent.chunk = (CallingClient.run turns).shared.wire →
        done = sent) := by
  intro sent s
  obtain ⟨hsent, begun, hwire, hbegun⟩ := CallingClient.wire_run hturns
  obtain ⟨more, hmore, hheader, hlast⟩ := exists_begun hbegun
  have hcalls : ∀ call ∈ sent ++ more, call.body.Within :=
    List.forall_mem_append.mpr ⟨hsent, hmore⟩
  have hframes := requestIn_of_within hcalls
  have hstream : ([] : Bytes) ++ events.flatMap ServiceEvent.chunk <+:
      ((sent ++ more).map ClientCall.bytes).flatMap sendFrame := by
    rw [List.nil_append, List.flatMap_map, List.flatMap_append]
    refine hupstream.trans ?_
    rw [hwire]
    exact (List.prefix_append_right_inj _).mpr hheader
  have hstart : (Service.accepted daemon : Service crypto).Serving
      ((sent ++ more).map ClientCall.bytes) [] :=
    ⟨⟨rfl, _, Reader.Follows.start sendFrame id _⟩, rfl, .nil, by simp [Service.accepted]⟩
  have hserving := hstart.run hframes hevents hstream
  rw [List.nil_append] at hserving
  obtain ⟨⟨hopen, ahead, hfollows⟩, hanswering⟩ := hserving
  refine ⟨hopen, hanswering, ?_⟩
  have hsentLength : ((sent.map ClientCall.bytes).flatMap sendFrame).length + begun.length =
      (CallingClient.run turns).shared.wire.length := by
    rw [hwire, List.length_append, List.flatMap_map]
  have hcount : s.tcp.taken.length ≤ sent.length := by
    rcases hlast with rfl | ⟨call, rfl, hshort⟩
    · have hlength := hfollows.taken_front.length_le
      rwa [List.map_id, List.append_nil, List.length_map] at hlength
    · apply hfollows.length_taken_le
      rw [List.take_of_length_le (by simp), List.map_append, List.flatMap_append,
        List.length_append, List.map_singleton, List.flatMap_singleton]
      have hread := hupstream.length_le
      omega
  have htaken : s.tcp.taken = (sent.take s.tcp.taken.length).map ClientCall.bytes := by
    have hfront := List.prefix_iff_eq_take.mp hfollows.taken_front
    rw [List.map_id, List.map_append, List.take_append_of_le_length (by simpa using hcount),
      ← List.map_take] at hfront
    exact hfront
  refine ⟨sent.take s.tcp.taken.length, List.take_prefix _ _, ?_, fun hwhole => ?_⟩
  · apply forall₂_arrives fun call hcall => hsent call (List.mem_of_mem_take hcall)
    rw [← htaken, hanswering.handled, List.map_map]
    rfl
  · apply List.take_of_length_le
    apply hfollows.le_length_taken (fun data _ => sendFrame_ne_nil data) (by simp)
    rw [List.map_append, List.take_left' (List.length_map _), hwhole]
    omega

theorem exists_front_of_forall₂ {α β : Type*} {R : α → β → Prop} {left : List α}
    {right front : List β} (hrelated : List.Forall₂ R left right) (hfront : front <+: right) :
    ∃ part, part <+: left ∧ List.Forall₂ R part front ∧ (front = right → part = left) := by
  obtain ⟨rest, rfl⟩ := hfront
  refine ⟨left.take front.length, List.take_prefix _ _, ?_, fun hwhole => ?_⟩
  · have htaken := List.forall₂_take front.length hrelated
    rwa [List.take_left] at htaken
  · apply List.take_of_length_le
    rw [hrelated.length_eq, ← hwhole]

/-- **Remote calls.** However the threads of the application take turns, however the two streams are
cut, and whatever happens to the daemon in between: the server handles the requests that were sent,
each once, in the order in which they stand in the stream and as they were made; and the response
callback is called with the results of these requests under their ids, in the same order. Nothing is
left out once both streams have been read to their end. As long as the ids have not all been used,
no two requests have the same. -/
theorem calls_answered_in_order (daemon : Daemon crypto) {turns : List (Threads.Turn CallBody)}
    (hturns : ∀ thread body, .call thread body ∈ turns → body.Within)
    {events : List (ServiceEvent crypto)}
    (hevents : Runs.Meets (Service.step H keyring inputs client) Service.Fits
      (Service.accepted daemon) events)
    (hupstream :
      events.flatMap ServiceEvent.chunk <+: (CallingClient.run turns).shared.wire)
    {chunks : List Bytes}
    (hchunks : Runs.Meets RecvThread.recv Receiver.Fits RecvThread.started chunks)
    (hdownstream : chunks.flatten <+: (Runs.run (Service.step H keyring inputs client)
      (Service.accepted daemon) events).downstream) :
    let output := (CallingClient.run turns).shared
    let s := Runs.run (Service.step H keyring inputs client) (Service.accepted daemon) events
    let thread := Runs.run RecvThread.recv RecvThread.started chunks
    s.tcp.isOpen = true ∧ thread.isOpen = true ∧
    (output.issued ≤ 2 ^ 32 → (output.sent.map ClientCall.id).Nodup) ∧
    (∃ done, done <+: output.sent ∧
      List.Forall₂ ClientCall.Arrives done (s.handled.map Prod.fst) ∧
      (events.flatMap ServiceEvent.chunk = output.wire → done = output.sent)) ∧
    ∃ answered, answered <+: s.handled ∧ List.Forall₂ Answers answered thread.responses ∧
      (chunks.flatten = s.downstream → answered = s.handled) := by
  intro output s thread
  obtain ⟨hopen, hanswering, hhandled⟩ := handled_run daemon hturns hevents hupstream
  obtain ⟨halive, hresponses, hall⟩ :=
    RecvThread.responses_run hanswering.sound hchunks hdownstream
  obtain ⟨answered, hfront, hanswers, hwhole⟩ :=
    exists_front_of_forall₂ hanswering.answered hresponses
  exact ⟨hopen, halive, CallingClient.nodup_ids_run, hhandled, answered, hfront, hanswers,
    fun hread => hwhole (hall hread)⟩

end EndToEnd

theorem withChannel_isSome : Manager.withChannel.isSome = true := by
  decide +kernel

def oneChannelDaemon : Daemon Crypto.padded :=
  Daemon.start (Manager.withChannel.get withChannel_isSome)

/-- Two threads call. The first takes its id, and the second overtakes it. -/
def overtaking : List (Threads.Turn CallBody) :=
  Threads.calls 0 (CallBody.request 99 [97] []) 3 ++
    Threads.calls 1 (CallBody.request 99 [98] [1]) 7 ++ Threads.goes 0 4

/-- What the server reads of the two calls, and the client of the answers. -/
def overtakingEvents : List (ServiceEvent Crypto.padded) :=
  [.read (CallingClient.run overtaking).shared.wire]

def overtakingService : Service Crypto.padded :=
  Runs.run (Service.step Network.byteHash Daemon.silentKeyring (fun _ => .atTime 0) 0)
    (Service.accepted oneChannelDaemon) overtakingEvents

def overtakingChunks : List Bytes :=
  let answer := fun id : UInt32 => sendFrame (serialize (encodeResponse id 1 []))
  [(answer 2).take 5, (answer 2).drop 5 ++ answer 1]

/-- The server handles the second request first, and so the callback gets its response first. -/
theorem calls_answered_in_order_sample :
    let thread := Runs.run RecvThread.recv RecvThread.started overtakingChunks
    (∃ done, done <+: (CallingClient.run overtaking).shared.sent ∧
      List.Forall₂ ClientCall.Arrives done (overtakingService.handled.map Prod.fst) ∧
      done.map ClientCall.id = [2, 1]) ∧
    ∃ answered, answered <+: overtakingService.handled ∧
      List.Forall₂ Answers answered thread.responses ∧
      thread.responses.map ResponseFrame.requestId = [2, 1] := by
  intro thread
  have hwithin : ∀ thread body, .call thread body ∈ overtaking → body.Within := by
    intro thread body hcall
    have hbody : body = .request 99 [97] [] ∨ body = .request 99 [98] [1] := by
      simp only [overtaking, Threads.calls, Threads.goes, List.mem_append, List.mem_cons,
        List.mem_replicate, Threads.Turn.call.injEq, reduceCtorEq, and_false, or_false] at hcall
      exact hcall.imp And.right And.right
    rcases hbody with rfl | rfl <;> decide +kernel
  have hevents : Runs.Meets
      (Service.step Network.byteHash Daemon.silentKeyring (fun _ => .atTime 0) 0)
      Service.Fits (Service.accepted oneChannelDaemon) overtakingEvents := by
    refine ⟨?_, trivial⟩
    change TcpClient.accepted.Fits (CallingClient.run overtaking).shared.wire
    decide +kernel
  have hupstream : overtakingEvents.flatMap ServiceEvent.chunk =
      (CallingClient.run overtaking).shared.wire := List.append_nil _
  have hchunks : Runs.Meets RecvThread.recv Receiver.Fits RecvThread.started overtakingChunks := by
    decide +kernel
  have hdownstream : overtakingChunks.flatten = overtakingService.downstream := by
    decide +kernel
  obtain ⟨-, -, -, ⟨done, hdone, harrives, hall⟩, answered, hfront, hanswers, -⟩ :=
    calls_answered_in_order oneChannelDaemon hwithin hevents (hupstream ▸ List.prefix_rfl)
      hchunks (hdownstream ▸ List.prefix_rfl)
  refine ⟨⟨done, hdone, harrives, ?_⟩, answered, hfront, hanswers, by decide +kernel⟩
  rw [hall hupstream]
  decide +kernel

end Poseidon
