import Poseidon.Lib.Framing

/-!
# The TCP transport: frames in the stream

A client's requests arrive as frames, each behind a header with its length in four bytes. The
length may be as large as the read buffer; the header then no longer fits, the buffer fills up
before the frame is complete, and the read into the full buffer returns nothing, which the
transport takes for the end of the connection.
-/

namespace Poseidon

open Framing

def readBufSize : Nat := 65536

def frameHeaderSize : Nat := 4

theorem frameHeaderSize_pos : 0 < frameHeaderSize :=
  Nat.succ_pos 3

/-- `read_frame_header`: the length, if it is one the transport accepts. -/
def readFrameHeader (buffer : Bytes) : Option Nat :=
  Reader.readLength frameHeaderSize readBufSize buffer

def writeFrameHeader (length : Nat) : Bytes :=
  beBytes frameHeaderSize length

def sendFrame (frame : Bytes) : Bytes :=
  writeFrameHeader frame.length ++ frame

/-- The loop of `process_client_data`. What it takes from the buffer is passed to `cbor_load`;
behind an invalid header the loop is left, and client and buffer stay as they are. -/
def frameReader : Reader Bytes :=
  Reader.prefixed frameHeaderSize readBufSize frameHeaderSize_pos

/-- `tcp_client_t`: its read buffer, whether it is connected, and the frames handled so far. -/
abbrev TcpClient := Receiver Bytes readBufSize

namespace TcpClient

/-- The client behind `tcp_accept_callback`. -/
def accepted : TcpClient :=
  Receiver.fresh Bytes readBufSize

/-- `tcp_read_callback` for a readable socket, with what the socket holds. -/
def readCallback (client : TcpClient) (chunk : Bytes) : TcpClient :=
  client.read frameReader chunk

end TcpClient

/-! ### Frames in the buffer -/

theorem length_sendFrame (frame : Bytes) :
    (sendFrame frame).length = frameHeaderSize + frame.length :=
  Reader.length_withLength frameHeaderSize frame

/-- The transport accepts the length of the frame. -/
def AcceptsLength (frame : Bytes) : Prop :=
  readFrameHeader (writeFrameHeader frame.length) = some frame.length

instance (frame : Bytes) : Decidable (AcceptsLength frame) :=
  inferInstanceAs (Decidable (_ = _))

theorem delimits_sendFrame {frame : Bytes} (haccepts : AcceptsLength frame) :
    frameReader.Delimits (sendFrame frame) frame := by
  have hread : readFrameHeader (writeFrameHeader frame.length) = some frame.length := haccepts
  unfold readFrameHeader Reader.readLength at hread
  rw [writeFrameHeader, List.take_of_length_le (length_beBytes _ _).le] at hread
  dsimp only at hread
  split_ifs at hread with hlength
  have hsame : beNat (beBytes frameHeaderSize frame.length) = frame.length :=
    Option.some.inj hread
  have hfits := beNat_lt (beBytes frameHeaderSize frame.length)
  rw [hsame] at hlength hfits
  rw [length_beBytes] at hfits
  exact Reader.delimits_withLength frameHeaderSize_pos hlength.1 hlength.2 hfits

/-! ### Streams -/

/-- However the stream of the frames is cut into chunks that fit the free space: the client stays
connected, the frames are handled in their order, and all of them when the stream has arrived. -/
def HandlesStream (frames : List Bytes) : Prop :=
  ∀ chunks, Runs.Meets TcpClient.readCallback Receiver.Fits TcpClient.accepted chunks →
    chunks.flatten <+: frames.flatMap sendFrame →
      (Runs.run TcpClient.readCallback TcpClient.accepted chunks).isOpen = true ∧
      (Runs.run TcpClient.readCallback TcpClient.accepted chunks).taken <+: frames ∧
      (chunks.flatten = frames.flatMap sendFrame →
        (Runs.run TcpClient.readCallback TcpClient.accepted chunks).taken = frames)

/-- **Framing over TCP.** Frames of accepted lengths are handled whatever the packet boundaries
exactly if each of them fits the read buffer together with its header. -/
theorem handlesStream_iff (frames : List Bytes) (haccepts : ∀ frame ∈ frames, AcceptsLength frame) :
    HandlesStream frames ↔ ∀ frame ∈ frames, frame.length ≤ readBufSize - frameHeaderSize := by
  have hdelimits : ∀ frame ∈ frames, frameReader.Delimits (sendFrame frame) (id frame) :=
    fun frame hframe => delimits_sendFrame (haccepts frame hframe)
  have hstream := Receiver.takesAll_iff hdelimits (by decide : 0 < readBufSize)
  unfold Receiver.TakesAll at hstream
  rw [List.map_id] at hstream
  refine hstream.trans (forall₂_congr fun frame _ => ?_)
  have hheader : frameHeaderSize ≤ readBufSize := by decide
  rw [length_sendFrame]
  omega

theorem handlesStream_two_frames :
    (∀ frame ∈ [[7], [8, 9]], AcceptsLength frame) ∧ HandlesStream [[7], [8, 9]] := by
  refine ⟨by decide, (handlesStream_iff [[7], [8, 9]] (by decide)).mpr ?_⟩
  decide

/-- A frame one byte longer than what is left of the buffer behind a header. -/
def longFrame : Bytes :=
  List.replicate (readBufSize - frameHeaderSize + 1) 0

/-- The buffer is full before the frame is complete, and the next read drops the client. -/
theorem not_handlesStream_longFrame :
    AcceptsLength longFrame ∧ ¬HandlesStream [longFrame] := by
  have hlength : longFrame.length = 65533 := List.length_replicate
  have haccepts : AcceptsLength longFrame := by
    rw [AcceptsLength, hlength]
    decide
  refine ⟨haccepts, fun hhandles => ?_⟩
  have hlong : readBufSize < (sendFrame longFrame).length := by
    rw [length_sendFrame, hlength]
    decide
  have hpositive : 0 < readBufSize := by decide
  obtain ⟨hmeets, hclosed⟩ := @Receiver.run_overlong Bytes Bytes readBufSize frameReader sendFrame
    id TcpClient.accepted longFrame (delimits_sendFrame haccepts) hlong hpositive rfl rfl
  have hpart : [(sendFrame longFrame).take readBufSize, []].flatten
      <+: [longFrame].flatMap sendFrame := by
    rw [List.flatten_cons, List.flatten_singleton, List.append_nil, List.flatMap_singleton]
    exact List.take_prefix _ _
  have hopen := (hhandles _ hmeets hpart).1
  exact absurd (hclosed.symm.trans hopen) Bool.false_ne_true

end Poseidon
