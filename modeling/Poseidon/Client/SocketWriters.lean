import Poseidon.Client.RemoteCalls

/-!
# Two threads that write to one socket

The thread of a transport answers the requests of a client, and a message that arrives on the
thread of another transport, or from the overlay, is dispatched to the same client there. Both write
the header and the data of their frame with two calls of `send`, and neither takes a lock.

The socket is not one with TLS, and a write to it is complete.
-/

namespace Poseidon

open Function (update update_self update_of_ne)

open Cbor ClientProtocol Framing

/-- The two writes of `tcp_transport_send`, and of `process_client_data` for a response. -/
inductive SocketWrite where
  | header (frame : SentFrame)
  | data (frame : SentFrame)
deriving DecidableEq

namespace SocketWrite

def frameBytes (frame : SentFrame) : Bytes :=
  serialize frame.encode

def bytes : SocketWrite → Bytes
  | .header frame => writeFrameHeader (frameBytes frame).length
  | .data frame => frameBytes frame

def begins : SocketWrite → Option SentFrame
  | .header frame => some frame
  | .data _ => none

def next : SocketWrite → List (Threads.Instr Empty SocketWrite)
  | .header frame => [.act (.data frame)]
  | .data _ => []

/-- There is a lock in the transport, and no function takes it. -/
def code : Threads.Code Empty SocketWrite (List (Nat × SocketWrite)) SentFrame where
  exec thread write writes := some (writes ++ [(thread, write)], write.next)
  program frame := [.act (.header frame)]

theorem sequential_code : Threads.Sequential code where
  program _ := Nat.le_refl 1
  exec thread write writes writes' next hexec := by
    obtain ⟨-, rfl⟩ := Prod.mk.inj (Option.some.inj hexec)
    cases write <;> simp [SocketWrite.next, Threads.actions]

end SocketWrite

open SocketWrite (frameBytes)

/-- The threads that write, with what each of them has written so far. -/
abbrev SharedSocket := Threads.System Empty SocketWrite (List (Nat × SocketWrite))

namespace SharedSocket

def start : SharedSocket where
  shared := []
  holder _ := none
  todo _ := []

abbrev run (turns : List (Threads.Turn SentFrame)) : SharedSocket :=
  Runs.run (Threads.step SocketWrite.code) start turns

def stream (writes : List (Nat × SocketWrite)) : Bytes :=
  writes.flatMap fun entry => entry.2.bytes

def frames (writes : List (Nat × SocketWrite)) : List SentFrame :=
  writes.filterMap fun entry => entry.2.begins

def whole (entry : Nat × SentFrame) : List (Nat × SocketWrite) :=
  [(entry.1, .header entry.2), (entry.1, .data entry.2)]

/-- Nothing is written between the header of a frame and its data. -/
def Undivided (writes : List (Nat × SocketWrite)) : Prop :=
  ∃ done : List (Nat × SentFrame), writes = done.flatMap whole

theorem stream_whole (done : List (Nat × SentFrame)) :
    stream (done.flatMap whole) = ((done.map Prod.snd).map frameBytes).flatMap sendFrame := by
  induction done with
  | nil => rfl
  | cons entry done ih =>
      rw [List.map_cons, List.map_cons, List.flatMap_cons, List.flatMap_cons, ← ih, stream,
        List.flatMap_append]
      simp only [whole, List.flatMap_cons, List.flatMap_nil, List.append_nil, SocketWrite.bytes,
        sendFrame, stream]

theorem frames_whole (done : List (Nat × SentFrame)) :
    frames (done.flatMap whole) = done.map Prod.snd := by
  induction done with
  | nil => rfl
  | cons entry done ih =>
      rw [List.flatMap_cons, List.map_cons, ← ih, frames, List.filterMap_append]
      rfl

theorem not_undivided {done : List (Nat × SentFrame)} {thread other : Nat} {frame next : SentFrame}
    {rest : List (Nat × SocketWrite)} : ¬Undivided
      (done.flatMap whole ++ (thread, .header frame) :: (other, .header next) :: rest) := by
  rintro ⟨entries, hentries⟩
  induction done generalizing entries with
  | nil => cases entries <;> simp [whole] at hentries
  | cons entry done ih =>
      cases entries with
      | nil => simp [whole] at hentries
      | cons first entries =>
          rw [List.flatMap_cons, List.flatMap_cons, List.append_assoc] at hentries
          exact ih entries (List.append_inj_right hentries rfl)

/-! ### What the threads do -/

/-- Every frame so far was written whole; or the last one is begun; or one was divided, and the
thread that began it has finished it since, or will. -/
inductive Stage (writes : List (Nat × SocketWrite)) (place : Nat → Option SocketWrite) : Prop where
  | between (done : List (Nat × SentFrame)) (hwrites : writes = done.flatMap whole)
      (hnone : ∀ thread frame, place thread ≠ some (.data frame))
  | begun (done : List (Nat × SentFrame)) (thread : Nat) (frame : SentFrame)
      (hwrites : writes = done.flatMap whole ++ [(thread, .header frame)])
      (hplace : place thread = some (.data frame))
      (hnone : ∀ other later, other ≠ thread → place other ≠ some (.data later))
  | divided (done : List (Nat × SentFrame)) (thread other : Nat) (frame next : SentFrame)
      (rest : List (Nat × SocketWrite))
      (hwrites : writes =
        done.flatMap whole ++ (thread, .header frame) :: (other, .header next) :: rest)
      (hdata : (thread, .data frame) ∈ rest ∨ place thread = some (.data frame))

section Steps

variable {writes : List (Nat × SocketWrite)} {place : Nat → Option SocketWrite} {thread : Nat}

theorem Stage.starts (hs : Stage writes place) (frame : SentFrame) (hplace : place thread = none) :
    Stage writes (update place thread (some (.header frame))) := by
  have hkept : ∀ other later, place other = some (.data later) ↔
      update place thread (some (.header frame)) other = some (.data later) := by
    intro other later
    by_cases hother : other = thread
    · subst hother
      simp [hplace]
    · rw [update_of_ne hother]
  cases hs with
  | between done hwrites hnone =>
      exact .between done hwrites fun other later => mt (hkept other later).mpr (hnone other later)
  | begun done writer begun hwrites hwriter hnone =>
      exact .begun done writer begun hwrites ((hkept _ _).mp hwriter)
        fun other later hother => mt (hkept other later).mpr (hnone other later hother)
  | divided done writer other begun next rest hwrites hdata =>
      exact .divided done writer other begun next rest hwrites
        (hdata.imp_right (hkept _ _).mp)

theorem Stage.sendHeader (hs : Stage writes place) {frame : SentFrame}
    (hplace : place thread = some (.header frame)) :
    Stage (writes ++ [(thread, .header frame)])
      (update place thread (some (.data frame))) := by
  have hne : ∀ {writer begun}, place writer = some (.data begun) → writer ≠ thread := by
    rintro writer begun hwriter rfl
    rw [hplace] at hwriter
    exact absurd (Option.some.inj hwriter) (by simp)
  cases hs with
  | between done hwrites hnone =>
      refine .begun done thread frame (congrArg (· ++ _) hwrites) (update_self _ _ _) ?_
      intro other later hother
      rw [update_of_ne hother]
      exact hnone other later
  | begun done writer begun hwrites hwriter hnone =>
      refine .divided done writer thread begun frame [] ?_ (.inr ?_)
      · rw [hwrites, List.append_assoc]
        rfl
      · rwa [update_of_ne (hne hwriter)]
  | divided done writer other begun next rest hwrites hdata =>
      refine .divided done writer other begun next (rest ++ [(thread, .header frame)]) ?_ ?_
      · rw [hwrites, List.append_assoc]
        rfl
      · refine hdata.imp (List.mem_append_left _) fun hwriter => ?_
        rwa [update_of_ne (hne hwriter)]

theorem Stage.sendData (hs : Stage writes place) {frame : SentFrame}
    (hplace : place thread = some (.data frame)) :
    Stage (writes ++ [(thread, .data frame)]) (update place thread none) := by
  cases hs with
  | between done hwrites hnone => exact absurd hplace (hnone thread frame)
  | begun done writer begun hwrites hwriter hnone =>
      obtain rfl : thread = writer := by
        by_contra hother
        exact hnone thread frame hother hplace
      obtain rfl : frame = begun := by simpa [hplace] using hwriter
      refine .between (done ++ [(thread, frame)]) ?_ fun other later => ?_
      · rw [hwrites, List.flatMap_append, List.append_assoc]
        rfl
      · by_cases hother : other = thread
        · simp [hother]
        · rw [update_of_ne hother]
          exact hnone other later hother
  | divided done writer other begun next rest hwrites hdata =>
      refine .divided done writer other begun next (rest ++ [(thread, .data frame)]) ?_ ?_
      · rw [hwrites, List.append_assoc]
        rfl
      · rw [List.mem_append, List.mem_singleton]
        by_cases hwriter : writer = thread
        · subst hwriter
          refine .inl (hdata.imp_right fun hbegun => ?_)
          obtain rfl : frame = begun := by simpa [hplace] using hbegun
          rfl
        · rw [update_of_ne hwriter]
          exact hdata.imp_left Or.inl

end Steps

theorem stage_run (turns : List (Threads.Turn SentFrame)) :
    Stage (run turns).shared (run turns).place := by
  have hmeets : Runs.Meets (Threads.step SocketWrite.code) (fun _ _ => True) start turns :=
    Runs.meets_of_forall _ fun _ _ _ => trivial
  refine Threads.invariant_of_jumps SocketWrite.sequential_code Stage
    (fun s turn writes place hs _ hjumps => ?_) (fun _ => Nat.zero_le _)
    (.between [] rfl fun _ _ => (Option.some_ne_none _).symm) hmeets
  cases hjumps with
  | stays => exact hs
  | starts thread frame hplace => exact hs.starts frame hplace
  | acts thread write writes next hplace hexec =>
      obtain ⟨rfl, rfl⟩ := Prod.mk.inj (Option.some.inj hexec)
      cases write with
      | header frame => exact hs.sendHeader hplace
      | data frame => exact hs.sendData hplace

/-! ### What the client receives -/

theorem length_frameBytes_pos (frame : SentFrame) : 0 < (frameBytes frame).length :=
  length_pos_of_receive (receive_serialize frame.sentAs)

theorem receive_zero_cons (rest : Bytes) : ClientProtocol.receive (0 :: rest) = none := rfl

theorem writeFrameHeader_eq_cons {length : Nat} (hlength : length < 256 ^ 3) :
    writeFrameHeader length = 0 :: beBytes 3 length := by
  have hzero : length / 256 ^ 3 = 0 := Nat.div_eq_of_lt hlength
  change UInt8.ofNat (length / 256 ^ 3) :: beBytes 3 length = _
  rw [hzero]
  rfl

theorem length_le_of_mem {entry : Nat × SocketWrite} {writes : List (Nat × SocketWrite)}
    (hmem : entry ∈ writes) : entry.2.bytes.length ≤ (stream writes).length := by
  obtain ⟨before, behind, rfl⟩ := List.append_of_mem hmem
  rw [stream, List.flatMap_append, List.flatMap_cons, List.length_append, List.length_append]
  omega

/-- Behind the header of the divided frame, the client finds the header of the next one first. -/
theorem exists_stream_divided {done : List (Nat × SentFrame)} {thread other : Nat}
    {frame next : SentFrame} {rest : List (Nat × SocketWrite)}
    (hdata : (thread, .data frame) ∈ rest) (hnext : (frameBytes next).length < 256 ^ 3) :
    ∃ bytes tail, bytes.length = (frameBytes frame).length ∧
      ClientProtocol.receive bytes = none ∧
      stream (done.flatMap whole ++ (thread, .header frame) :: (other, .header next) :: rest) =
        ((done.map Prod.snd).map frameBytes ++ [bytes]).flatMap sendFrame ++ tail := by
  let behind := writeFrameHeader (frameBytes next).length ++ stream rest
  have hlong : (frameBytes frame).length ≤ behind.length := by
    have hlength : (frameBytes frame).length ≤ (stream rest).length := length_le_of_mem hdata
    rw [List.length_append]
    omega
  have hlength : (behind.take (frameBytes frame).length).length = (frameBytes frame).length :=
    List.length_take_of_le hlong
  refine ⟨behind.take (frameBytes frame).length, behind.drop (frameBytes frame).length,
    hlength, ?_, ?_⟩
  · obtain ⟨count, hcount⟩ := Nat.exists_eq_add_of_lt (length_frameBytes_pos frame)
    have hbehind : behind = 0 :: (beBytes 3 (frameBytes next).length ++ stream rest) := by
      change writeFrameHeader (frameBytes next).length ++ stream rest = _
      rw [writeFrameHeader_eq_cons hnext, List.cons_append]
    rw [hcount, hbehind, List.take_succ_cons]
    exact receive_zero_cons _
  · calc stream (done.flatMap whole ++ (thread, .header frame) :: (other, .header next) :: rest)
        = stream (done.flatMap whole) ++
            (writeFrameHeader (frameBytes frame).length ++ behind) := List.flatMap_append
      _ = ((done.map Prod.snd).map frameBytes).flatMap sendFrame ++
            (sendFrame (behind.take (frameBytes frame).length) ++
              behind.drop (frameBytes frame).length) := by
          rw [stream_whole, sendFrame, hlength, List.append_assoc, List.take_append_drop]
      _ = _ := by
          rw [List.flatMap_append, List.flatMap_singleton, List.append_assoc]

theorem delimits_frameBytes {sent : List SentFrame}
    (hlengths : ∀ frame ∈ sent, (frameBytes frame).length ≤ clientReadBufSize - frameHeaderSize) :
    ∀ content ∈ sent.map frameBytes, recvReader.Delimits (sendFrame content) (some content) ∧
      (sendFrame content).length ≤ clientReadBufSize :=
  List.forall_mem_map.mpr fun frame hframe =>
    delimits_of_fits (length_frameBytes_pos frame) (hlengths frame hframe)

/-- Of a stream that begins with these frames, and goes on with anything, they are taken first. -/
theorem taken_or_front {contents chunks : List Bytes} {tail : Bytes}
    (hfits : ∀ content ∈ contents, recvReader.Delimits (sendFrame content) (some content) ∧
      (sendFrame content).length ≤ clientReadBufSize)
    (hmeets : Runs.Meets RecvThread.recv Receiver.Fits RecvThread.started chunks)
    (hchunks : chunks.flatten <+: contents.flatMap sendFrame ++ tail) :
    let taken := (Runs.run RecvThread.recv RecvThread.started chunks).taken
    (taken <+: contents.map some ∨ contents.map some <+: taken) ∧
      (contents.flatMap sendFrame <+: chunks.flatten → contents.map some <+: taken) := by
  have hstart : Receiver.Tracks sendFrame some contents [] RecvThread.started :=
    ⟨rfl, _, Reader.Follows.start sendFrame some _⟩
  exact hstart.run_or_front (fun content hcontent => (hfits content hcontent).1)
    (fun content hcontent => (hfits content hcontent).2) (by decide) hmeets hchunks

/-- **A shared socket.** If no write of another thread comes between the header of a frame and its
data, the client takes all frames, however the stream is cut. Otherwise it takes the frames before
the first one that was divided, and then, in its place, bytes that it cannot decode: all of these
once so many bytes have arrived. -/
theorem shared_socket_frames {turns : List (Threads.Turn SentFrame)}
    (hdone : ∀ thread, (run turns).todo thread = [])
    (hlengths : ∀ frame ∈ frames (run turns).shared,
      (frameBytes frame).length ≤ clientReadBufSize - frameHeaderSize) :
    let writes := (run turns).shared
    (Undivided writes → stream writes = ((frames writes).map frameBytes).flatMap sendFrame ∧
      Receiver.TakesAll recvReader clientReadBufSize sendFrame some
        ((frames writes).map frameBytes)) ∧
    (¬Undivided writes → ∃ (done : List (Nat × SentFrame)) (thread : Nat) (frame : SentFrame)
      (later : List (Nat × SocketWrite)) (bytes : Bytes),
      writes = done.flatMap whole ++ (thread, .header frame) :: later ∧
      later.head? ≠ some (thread, .data frame) ∧ ClientProtocol.receive bytes = none ∧
      let found := (done.map Prod.snd).map frameBytes ++ [bytes]
      found.flatMap sendFrame <+: stream writes ∧
      ∀ chunks, Runs.Meets RecvThread.recv Receiver.Fits RecvThread.started chunks →
        chunks.flatten <+: stream writes →
        let taken := (Runs.run RecvThread.recv RecvThread.started chunks).taken
        (taken <+: found.map some ∨ found.map some <+: taken) ∧
          (found.flatMap sendFrame <+: chunks.flatten → found.map some <+: taken)) := by
  intro writes
  have hfits := delimits_frameBytes hlengths
  constructor
  · rintro ⟨done, hwrites⟩
    refine ⟨?_, Receiver.takesAll_of_length_le (fun content hcontent => (hfits content hcontent).1)
      (fun content hcontent => (hfits content hcontent).2) (by decide)⟩
    rw [hwrites, frames_whole]
    exact stream_whole done
  · intro hdivided
    cases stage_run turns with
    | between done hwrites hnone => exact absurd ⟨done, hwrites⟩ hdivided
    | begun done thread frame hwrites hplace hnone =>
        rw [Threads.System.place, hdone thread] at hplace
        exact absurd hplace (Option.some_ne_none _).symm
    | divided done thread other frame next rest hwrites hdata =>
        rw [Threads.System.place, hdone thread] at hdata
        have hframes : frames writes = done.map Prod.snd ++ frame :: next :: frames rest := by
          change frames (run turns).shared = _
          rw [hwrites, frames, List.filterMap_append]
          exact congrArg (· ++ _) (frames_whole done)
        have hnext : (frameBytes next).length < 256 ^ 3 :=
          Nat.lt_of_le_of_lt (hlengths next (by rw [hframes]; simp)) (by decide)
        obtain ⟨bytes, tail, hlength, hnone, hstream⟩ := @exists_stream_divided done thread other
          frame next rest (hdata.resolve_right (Option.some_ne_none _).symm) hnext
        have hwhole : stream writes = _ := (congrArg stream hwrites).trans hstream
        refine ⟨done, thread, frame, (other, .header next) :: rest, bytes, hwrites, by simp, hnone,
          ?_, fun chunks hmeets hchunks => ?_⟩
        · rw [hwhole]
          exact List.prefix_append _ _
        · rw [hwhole] at hchunks
          refine taken_or_front (List.forall_mem_append.mpr ⟨?_, ?_⟩) hmeets hchunks
          · refine delimits_frameBytes fun sent hsent => hlengths sent ?_
            rw [hframes]
            exact List.mem_append_left _ hsent
          · rw [List.forall_mem_singleton]
            apply delimits_of_fits (hlength ▸ length_frameBytes_pos frame)
            rw [hlength]
            exact hlengths frame (by rw [hframes]; simp)

def answer : SentFrame :=
  .response 7 0 (CString.copy 1023 [111, 107])

def message : SentFrame :=
  .event 1 (CString.copy 255 [97]) (CString.copy 255 []) (ByteBuffer.empty maxPayload)

/-- The header of the message is written between the header of the answer and its data. -/
def crossing : List (Threads.Turn SentFrame) :=
  Threads.calls 0 answer 1 ++ Threads.calls 1 message 1 ++ Threads.goes 0 1 ++ Threads.goes 1 1

theorem todo_crossing (thread : Nat) : (run crossing).todo thread = [] := by
  by_cases hfirst : thread = 0
  · subst hfirst
    rfl
  · by_cases hsecond : thread = 1
    · subst hsecond
      rfl
    · apply Threads.todo_run_of_forall_ne
      simp [crossing, Threads.calls, Threads.goes, Threads.Turn.thread, hfirst, hsecond]

/-- What the client takes first is neither the answer nor the message. -/
theorem shared_socket_frames_crossing :
    ¬Undivided (run crossing).shared ∧ ∃ bytes, ClientProtocol.receive bytes = none ∧
      sendFrame bytes <+: stream (run crossing).shared ∧
      ∀ chunks, Runs.Meets RecvThread.recv Receiver.Fits RecvThread.started chunks →
        chunks.flatten <+: stream (run crossing).shared →
        sendFrame bytes <+: chunks.flatten →
          [some bytes] <+: (Runs.run RecvThread.recv RecvThread.started chunks).taken := by
  have hlengths : ∀ frame ∈ frames (run crossing).shared,
      (frameBytes frame).length ≤ clientReadBufSize - frameHeaderSize := by
    decide +kernel
  have hdivided : ¬Undivided (run crossing).shared := @not_undivided [] 0 1 answer message
    [(0, .data answer), (1, .data message)]
  obtain ⟨done, thread, frame, later, bytes, hwrites, -, hnone, hstream, htaken⟩ :=
    (shared_socket_frames todo_crossing hlengths).2 hdivided
  have hshared : (run crossing).shared = [(0, .header answer), (1, .header message),
      (0, .data answer), (1, .data message)] := rfl
  cases done with
  | nil =>
      have hfound : [bytes].flatMap sendFrame = sendFrame bytes := List.flatMap_singleton _ _
      refine ⟨hdivided, bytes, hnone, hfound ▸ hstream, fun chunks hmeets hchunks harrived => ?_⟩
      exact (htaken chunks hmeets hchunks).2 (hfound.symm ▸ harrived)
  | cons entry done =>
      rw [hshared] at hwrites
      simp [whole] at hwrites

end SharedSocket

end Poseidon
