import Poseidon.Lib.Bytes
import Poseidon.Lib.Runs

/-!
# Frames in a stream of bytes

A receiver keeps the bytes it has not used in a buffer of fixed capacity and takes one frame after
another from its front, until the buffer holds no whole frame. A frame may end the processing, and a
read that returns nothing closes the receiver. If a frame is recognised exactly when all of its
bytes are there, and every frame fits the buffer, then what is taken from a stream of frames does
not depend on how the stream was cut into chunks.
-/

namespace Poseidon.Framing

variable {φ ψ : Type*}

/-- How a receiver finds the frame at the front of its buffer and what follows it, and after which
frames it stops. -/
structure Reader (φ : Type*) where
  next : Bytes → Option (φ × Bytes)
  ends : φ → Bool
  next_nil : next [] = none
  length_rest_lt : ∀ buffer frame rest, next buffer = some (frame, rest) →
    rest.length < buffer.length

namespace Reader

variable (reader : Reader φ)

/-- The loop over the buffer: the frames taken, and what is left. -/
def takeLoop : Nat → Bytes → List φ × Bytes
  | 0, buffer => ([], buffer)
  | fuel + 1, buffer =>
      match reader.next buffer with
      | none => ([], buffer)
      | some (frame, rest) =>
          if reader.ends frame then ([frame], rest)
          else
            let more := takeLoop fuel rest
            (frame :: more.1, more.2)

/-- A frame takes at least one byte, so the length of the buffer is enough fuel. -/
def takeAll (buffer : Bytes) : List φ × Bytes :=
  reader.takeLoop buffer.length buffer

theorem length_takeLoop_le (fuel : Nat) (buffer : Bytes) :
    (reader.takeLoop fuel buffer).2.length ≤ buffer.length := by
  induction fuel generalizing buffer with
  | zero => exact Nat.le_refl _
  | succ fuel ih =>
      rw [takeLoop]
      split
      · exact Nat.le_refl _
      · rename_i frame rest hframe
        have hshorter := Nat.le_of_lt (reader.length_rest_lt buffer frame rest hframe)
        split_ifs
        · exact hshorter
        · exact Nat.le_trans (ih rest) hshorter

theorem takeLoop_of_none {buffer : Bytes} (hnone : reader.next buffer = none) (fuel : Nat) :
    reader.takeLoop fuel buffer = ([], buffer) := by
  cases fuel with
  | zero => rfl
  | succ fuel => rw [takeLoop, hnone]

/-- `wire` is a whole frame with the given content, and no proper part at its front is one. -/
structure Delimits (wire : Bytes) (content : φ) : Prop where
  whole : ∀ rest, reader.next (wire ++ rest) = some (content, rest)
  part : ∀ front, front <+: wire → front ≠ wire → reader.next front = none
  goesOn : reader.ends content = false

variable {reader}

theorem Delimits.wire_ne_nil {wire : Bytes} {content : φ}
    (hdelimits : reader.Delimits wire content) : wire ≠ [] := by
  rintro rfl
  have hwhole := hdelimits.whole []
  rw [List.append_nil, reader.next_nil] at hwhole
  contradiction

section Stream

variable {wire : ψ → Bytes} {content : ψ → φ} {frames ahead : List ψ} {received buffer : Bytes}
  {taken : List φ}

/-- Whatever stands behind them, the frames at the front are taken first. -/
theorem takeLoop_flatMap
    (hframes : ∀ frame ∈ frames, reader.Delimits (wire frame) (content frame)) (rest : Bytes)
    (fuel : Nat) : reader.takeLoop (frames.length + fuel) (frames.flatMap wire ++ rest) =
      (frames.map content ++ (reader.takeLoop fuel rest).1, (reader.takeLoop fuel rest).2) := by
  induction frames with
  | nil =>
      rw [List.length_nil, Nat.zero_add]
      rfl
  | cons frame frames ih =>
      have hframe := hframes frame List.mem_cons_self
      have htail := ih fun other hother => hframes other (List.mem_cons_of_mem _ hother)
      rw [List.length_cons, Nat.succ_add, takeLoop, List.flatMap_cons, List.append_assoc,
        hframe.whole]
      dsimp only
      rw [hframe.goesOn, if_neg Bool.false_ne_true, htail, List.map_cons, List.cons_append]

theorem length_le_length_flatMap (hwire : ∀ frame ∈ frames, wire frame ≠ []) :
    frames.length ≤ (frames.flatMap wire).length := by
  induction frames with
  | nil => exact Nat.zero_le _
  | cons frame frames ih =>
      have hhead := List.length_pos_of_ne_nil (hwire frame List.mem_cons_self)
      have htail := ih fun other hother => hwire other (List.mem_cons_of_mem _ hother)
      rw [List.flatMap_cons, List.length_append, List.length_cons]
      omega

theorem takeAll_flatMap_append
    (hframes : ∀ frame ∈ frames, reader.Delimits (wire frame) (content frame)) (rest : Bytes) :
    ∃ fuel, reader.takeAll (frames.flatMap wire ++ rest) =
      (frames.map content ++ (reader.takeLoop fuel rest).1, (reader.takeLoop fuel rest).2) := by
  have hlength := length_le_length_flatMap fun frame hframe =>
    (hframes frame hframe).wire_ne_nil
  obtain ⟨fuel, hfuel⟩ := Nat.exists_eq_add_of_le
    (hlength.trans (List.prefix_append (frames.flatMap wire) rest).length_le)
  refine ⟨fuel, ?_⟩
  rw [takeAll, hfuel]
  exact takeLoop_flatMap hframes rest fuel

theorem takeAll_flatMap
    (hframes : ∀ frame ∈ frames, reader.Delimits (wire frame) (content frame)) {rest : Bytes}
    (hrest : reader.next rest = none) :
    reader.takeAll (frames.flatMap wire ++ rest) = (frames.map content, rest) := by
  obtain ⟨fuel, htake⟩ := takeAll_flatMap_append hframes rest
  rw [htake, reader.takeLoop_of_none hrest, List.append_nil]

/-- Nothing, or the beginning of the next frame. -/
def Unfinished (wire : ψ → Bytes) (ahead : List ψ) (rest : Bytes) : Prop :=
  rest = [] ∨ ∃ frame later, ahead = frame :: later ∧ rest <+: wire frame ∧ rest ≠ wire frame

theorem Unfinished.next_eq_none {rest : Bytes}
    (hframes : ∀ frame ∈ ahead, reader.Delimits (wire frame) (content frame))
    (hrest : Unfinished wire ahead rest) : reader.next rest = none := by
  obtain rfl | ⟨frame, later, rfl, hpart, hne⟩ := hrest
  · exact reader.next_nil
  · exact (hframes frame List.mem_cons_self).part rest hpart hne

theorem exists_cut {bytes : Bytes} (hbytes : bytes <+: frames.flatMap wire) :
    ∃ done ahead rest, frames = done ++ ahead ∧ bytes = done.flatMap wire ++ rest ∧
      Unfinished wire ahead rest := by
  induction frames generalizing bytes with
  | nil => exact ⟨[], [], [], rfl, List.prefix_nil.mp hbytes, .inl rfl⟩
  | cons frame frames ih =>
      rw [List.flatMap_cons] at hbytes
      by_cases hwhole : wire frame <+: bytes
      · obtain ⟨tail, rfl⟩ := hwhole
        obtain ⟨done, ahead, rest, rfl, rfl, hrest⟩ :=
          ih ((List.prefix_append_right_inj (wire frame)).mp hbytes)
        refine ⟨frame :: done, ahead, rest, rfl, ?_, hrest⟩
        rw [List.flatMap_cons, List.append_assoc]
      · have hfront : bytes <+: wire frame := by
          obtain hle | hle := List.prefix_or_prefix_of_prefix hbytes (List.prefix_append _ _)
          · exact hle
          · exact absurd hle hwhole
        refine ⟨[], frame :: frames, bytes, rfl, rfl, .inr ⟨frame, frames, rfl, hfront, ?_⟩⟩
        rintro rfl
        exact hwhole (List.prefix_refl _)

/-- After `received`, a beginning of the stream, the frames in it have been taken and the buffer
holds the beginning of the next. -/
structure Follows (wire : ψ → Bytes) (content : ψ → φ) (frames : List ψ) (received : Bytes)
    (taken : List φ) (buffer : Bytes) (ahead : List ψ) : Prop where
  split : ∃ done, frames = done ++ ahead ∧ taken = done.map content ∧
    received = done.flatMap wire ++ buffer
  unfinished : Unfinished wire ahead buffer

theorem Follows.start (wire : ψ → Bytes) (content : ψ → φ) (frames : List ψ) :
    Follows wire content frames [] [] [] frames :=
  ⟨⟨[], rfl, rfl, rfl⟩, .inl rfl⟩

/-- **One chunk.** Whatever part of the stream comes next, the frames it completes are taken. -/
theorem Follows.feed
    (hframes : ∀ frame ∈ frames, reader.Delimits (wire frame) (content frame))
    {chunk : Bytes} (hfollows : Follows wire content frames received taken buffer ahead)
    (hchunk : received ++ chunk <+: frames.flatMap wire) :
    ∃ later, Follows wire content frames (received ++ chunk)
      (taken ++ (reader.takeAll (buffer ++ chunk)).1)
      (reader.takeAll (buffer ++ chunk)).2 later := by
  obtain ⟨done, rfl, rfl, rfl⟩ := hfollows.split
  rw [List.append_assoc, List.flatMap_append] at hchunk
  obtain ⟨extra, later, rest, rfl, hcut, hrest⟩ :=
    exists_cut ((List.prefix_append_right_inj _).mp hchunk)
  have hextra : ∀ frame ∈ extra, reader.Delimits (wire frame) (content frame) :=
    fun frame hframe => hframes frame
      (List.mem_append_right _ (List.mem_append_left _ hframe))
  have hlater : ∀ frame ∈ later, reader.Delimits (wire frame) (content frame) :=
    fun frame hframe => hframes frame
      (List.mem_append_right _ (List.mem_append_right _ hframe))
  have htaken := takeAll_flatMap hextra (hrest.next_eq_none hlater)
  rw [hcut, htaken]
  refine ⟨later, ⟨done ++ extra, ?_, ?_, ?_⟩, hrest⟩
  · rw [List.append_assoc]
  · rw [List.map_append]
  · rw [List.append_assoc, hcut, List.flatMap_append, List.append_assoc]

theorem Follows.taken_front
    (hfollows : Follows wire content frames received taken buffer ahead) :
    taken <+: frames.map content := by
  obtain ⟨done, rfl, rfl, -⟩ := hfollows.split
  rw [List.map_append]
  exact List.prefix_append _ _

theorem length_flatMap_take_le {fewer more : Nat} (hle : fewer ≤ more) :
    ((frames.take fewer).flatMap wire).length ≤ ((frames.take more).flatMap wire).length := by
  have hfront : frames.take fewer <+: frames.take more := List.take_prefix_take_left hle
  obtain ⟨rest, hrest⟩ := hfront
  rw [← hrest, List.flatMap_append, List.length_append]
  exact Nat.le_add_right _ _

theorem Follows.le_length_taken (hwire : ∀ frame ∈ frames, wire frame ≠ [])
    (hfollows : Follows wire content frames received taken buffer ahead) {count : Nat}
    (hcount : count ≤ frames.length)
    (harrived : ((frames.take count).flatMap wire).length ≤ received.length) :
    count ≤ taken.length := by
  obtain ⟨done, rfl, rfl, rfl⟩ := hfollows.split
  rw [List.length_map]
  by_contra hlt
  cases ahead with
  | nil =>
      rw [List.append_nil] at hcount
      omega
  | cons frame later =>
      have hnext : (done ++ frame :: later).take (done.length + 1) = done ++ [frame] := by
        rw [List.take_length_add_append]
        rfl
      have hmore := @length_flatMap_take_le ψ wire (done ++ frame :: later) (done.length + 1) count
        (by omega)
      rw [hnext, List.flatMap_append, List.flatMap_singleton, List.length_append] at hmore
      rw [List.length_append] at harrived
      have hpart : buffer.length < (wire frame).length := by
        obtain rfl | ⟨first, rest, hfirst, hpart, hne⟩ := hfollows.unfinished
        · exact List.length_pos_of_ne_nil
            (hwire frame (List.mem_append_right _ List.mem_cons_self))
        · obtain ⟨rfl, -⟩ := List.cons.inj hfirst
          exact lt_of_le_of_ne hpart.length_le fun heq => hne (hpart.eq_of_length heq)
      omega

theorem Follows.taken_eq (hwire : ∀ frame ∈ frames, wire frame ≠ [])
    (hfollows : Follows wire content frames received taken buffer ahead)
    (harrived : (frames.flatMap wire).length ≤ received.length) : taken = frames.map content := by
  have hcount := hfollows.le_length_taken hwire le_rfl (by rwa [List.take_length])
  refine hfollows.taken_front.eq_of_length_le ?_
  rwa [List.length_map]

theorem Follows.length_taken_le
    (hfollows : Follows wire content frames received taken buffer ahead)
    {count : Nat} (hmissing : received.length < ((frames.take (count + 1)).flatMap wire).length) :
    taken.length ≤ count := by
  obtain ⟨done, rfl, rfl, rfl⟩ := hfollows.split
  rw [List.length_map]
  by_contra hlt
  have hfewer := @length_flatMap_take_le ψ wire (done ++ ahead) (count + 1) done.length (by omega)
  rw [List.take_left] at hfewer
  rw [List.length_append] at hmissing
  omega

end Stream

/-! ### Frames behind their length -/

section Prefixed

variable (width limit : Nat)

/-- The length in front of a frame, if it is one that is accepted. -/
def readLength (buffer : Bytes) : Option Nat :=
  let length := beNat (buffer.take width)
  if 0 < length ∧ length ≤ limit then some length else none

def nextPrefixed (buffer : Bytes) : Option (Bytes × Bytes) :=
  if buffer.length < width then none
  else
    match readLength width limit buffer with
    | none => none
    | some length =>
        if buffer.length < width + length then none
        else some (slice buffer width length, buffer.drop (width + length))

def withLength (frame : Bytes) : Bytes :=
  beBytes width frame.length ++ frame

theorem length_withLength (frame : Bytes) :
    (withLength width frame).length = width + frame.length := by
  rw [withLength, List.length_append, length_beBytes]

variable {width limit}

theorem length_nextPrefixed {buffer frame rest : Bytes}
    (hnext : nextPrefixed width limit buffer = some (frame, rest)) :
    width + frame.length + rest.length = buffer.length := by
  unfold nextPrefixed at hnext
  split_ifs at hnext with hheader
  split at hnext
  · contradiction
  · rename_i length _
    split_ifs at hnext with hpart
    obtain ⟨rfl, rfl⟩ := Prod.mk.inj (Option.some.inj hnext)
    rw [length_slice (by omega), List.length_drop]
    omega

theorem length_rest_nextPrefixed (hwidth : 0 < width) (buffer frame rest : Bytes)
    (hnext : nextPrefixed width limit buffer = some (frame, rest)) :
    rest.length < buffer.length := by
  have hlength := length_nextPrefixed hnext
  omega

/-- The frames of a stream in which each is preceded by its length. -/
def prefixed (width limit : Nat) (hwidth : 0 < width) : Reader Bytes where
  next := nextPrefixed width limit
  ends := fun _ => false
  next_nil := if_pos hwidth
  length_rest_lt := length_rest_nextPrefixed hwidth

theorem nextPrefixed_of_take_eq {buffer frame : Bytes} (hpositive : 0 < frame.length)
    (hlimit : frame.length ≤ limit) (hfits : frame.length < 256 ^ width)
    (hheader : buffer.take width = beBytes width frame.length) :
    nextPrefixed width limit buffer =
      if buffer.length < width + frame.length then none
      else some (slice buffer width frame.length, buffer.drop (width + frame.length)) := by
  have hlong : ¬buffer.length < width := by
    have hlength := congrArg List.length hheader
    rw [List.length_take, length_beBytes] at hlength
    omega
  have hread : readLength width limit buffer = some frame.length := by
    unfold readLength
    rw [hheader, beNat_beBytes hfits]
    exact if_pos ⟨hpositive, hlimit⟩
  rw [nextPrefixed, if_neg hlong, hread]

theorem nextPrefixed_withLength {frame : Bytes} (hpositive : 0 < frame.length)
    (hlimit : frame.length ≤ limit) (hfits : frame.length < 256 ^ width) (rest : Bytes) :
    nextPrefixed width limit (withLength width frame ++ rest) = some (frame, rest) := by
  have hheader : (withLength width frame ++ rest).take width = beBytes width frame.length := by
    rw [withLength, List.append_assoc, List.take_left' (length_beBytes _ _)]
  have hwhole : ¬(withLength width frame ++ rest).length < width + frame.length := by
    rw [List.length_append, length_withLength]
    omega
  rw [nextPrefixed_of_take_eq hpositive hlimit hfits hheader, if_neg hwhole]
  congr 2
  · rw [withLength, List.append_assoc, slice, List.drop_left' (length_beBytes _ _),
      List.take_left]
  · rw [List.drop_left' (length_withLength width frame)]

theorem nextPrefixed_eq_some_iff (hword : limit < 256 ^ width) {buffer frame rest : Bytes} :
    nextPrefixed width limit buffer = some (frame, rest) ↔
      buffer = withLength width frame ++ rest ∧ 0 < frame.length ∧ frame.length ≤ limit := by
  constructor
  · intro hnext
    unfold nextPrefixed at hnext
    split_ifs at hnext with hshort
    split at hnext
    · contradiction
    rename_i length hread
    split_ifs at hnext with hpart
    obtain ⟨rfl, rfl⟩ := Prod.mk.inj (Option.some.inj hnext)
    unfold readLength at hread
    dsimp only at hread
    split_ifs at hread with haccepted
    obtain rfl := Option.some.inj hread
    have hframe : (slice buffer width (beNat (buffer.take width))).length =
        beNat (buffer.take width) := length_slice (by omega)
    have hheader : beBytes width (beNat (buffer.take width)) = buffer.take width := by
      have hall := beBytes_beNat (buffer.take width)
      rwa [List.length_take_of_le (by omega)] at hall
    refine ⟨?_, by rwa [hframe]⟩
    rw [withLength, hframe, hheader, slice, List.append_assoc, ← List.drop_drop,
      List.take_append_drop, List.take_append_drop]
  · rintro ⟨rfl, hpositive, hlimit⟩
    exact nextPrefixed_withLength hpositive hlimit (Nat.lt_of_le_of_lt hlimit hword) rest

theorem delimits_withLength (hwidth : 0 < width) {frame : Bytes} (hpositive : 0 < frame.length)
    (hlimit : frame.length ≤ limit) (hfits : frame.length < 256 ^ width) :
    (prefixed width limit hwidth).Delimits (withLength width frame) frame where
  whole := nextPrefixed_withLength hpositive hlimit hfits
  part front hfront hne := by
    have htake := List.prefix_iff_eq_take.mp hfront
    have hshort : front.length < width + frame.length := by
      rw [← length_withLength]
      exact lt_of_le_of_ne hfront.length_le fun hlength => hne (hfront.eq_of_length hlength)
    change nextPrefixed width limit front = none
    by_cases hheader : front.length < width
    · rw [nextPrefixed, if_pos hheader]
    · have hfirst : front.take width = beBytes width frame.length := by
        rw [htake, List.take_take, Nat.min_eq_left (Nat.le_of_not_lt hheader), withLength,
          List.take_left' (length_beBytes _ _)]
      rw [nextPrefixed_of_take_eq hpositive hlimit hfits hfirst, if_pos hshort]
  goesOn := rfl

end Prefixed

end Reader

/-! ### Receivers -/

/-- A receiver with the frames it has taken so far. -/
structure Receiver (φ : Type*) (capacity : Nat) where
  buffer : Bytes
  length_buffer_le : buffer.length ≤ capacity
  isOpen : Bool
  taken : List φ

namespace Receiver

variable {capacity : Nat} (reader : Reader φ)

def fresh (φ : Type*) (capacity : Nat) : Receiver φ capacity :=
  ⟨[], Nat.zero_le _, true, []⟩

def free (receiver : Receiver φ capacity) : Nat :=
  capacity - receiver.buffer.length

/-- The frames in the buffer are taken; one that ends the processing closes the receiver. -/
def process (receiver : Receiver φ capacity) : Receiver φ capacity where
  buffer := (reader.takeAll receiver.buffer).2
  length_buffer_le := Nat.le_trans (reader.length_takeLoop_le _ _) receiver.length_buffer_le
  isOpen := receiver.isOpen && !(reader.takeAll receiver.buffer).1.any reader.ends
  taken := receiver.taken ++ (reader.takeAll receiver.buffer).1

/-- What a read put behind the bytes of the buffer: no more than there was room for. -/
def store (receiver : Receiver φ capacity) (chunk : Bytes) : Receiver φ capacity :=
  { receiver with
    buffer := receiver.buffer ++ chunk.take receiver.free
    length_buffer_le := by
      have hroom := receiver.length_buffer_le
      rw [List.length_append, List.length_take, free]
      omega }

/-- One read. A read into a full buffer returns nothing, as one at the end of the stream does. -/
def read (receiver : Receiver φ capacity) (chunk : Bytes) : Receiver φ capacity :=
  if receiver.isOpen then
    if chunk.take receiver.free = [] then { receiver with isOpen := false }
    else (receiver.store chunk).process reader
  else receiver

/-- The chunk fits the free space, and a read returns nothing only if there is no space. -/
def Fits (receiver : Receiver φ capacity) (chunk : Bytes) : Prop :=
  chunk.length ≤ receiver.free ∧ (chunk = [] → receiver.free = 0)

instance (receiver : Receiver φ capacity) (chunk : Bytes) : Decidable (receiver.Fits chunk) :=
  inferInstanceAs (Decidable (chunk.length ≤ receiver.free ∧ (chunk = [] → receiver.free = 0)))

theorem read_of_length_le {receiver : Receiver φ capacity} {chunk : Bytes}
    (hopen : receiver.isOpen = true) (hfits : chunk.length ≤ receiver.free) (hne : chunk ≠ []) :
    (receiver.read reader chunk).buffer = (reader.takeAll (receiver.buffer ++ chunk)).2 ∧
      (receiver.read reader chunk).taken =
        receiver.taken ++ (reader.takeAll (receiver.buffer ++ chunk)).1 ∧
      (receiver.read reader chunk).isOpen =
        !(reader.takeAll (receiver.buffer ++ chunk)).1.any reader.ends := by
  have htake : chunk.take receiver.free = chunk := List.take_of_length_le hfits
  have hstored : (receiver.store chunk).buffer = receiver.buffer ++ chunk :=
    congrArg (receiver.buffer ++ ·) htake
  have hread : receiver.read reader chunk = (receiver.store chunk).process reader := by
    rw [read, if_pos hopen, htake, if_neg hne]
  rw [hread, ← hstored]
  refine ⟨rfl, rfl, ?_⟩
  change (receiver.isOpen && _) = _
  rw [hopen, Bool.true_and]

theorem taken_front_read (receiver : Receiver φ capacity) (chunk : Bytes) :
    receiver.taken <+: (receiver.read reader chunk).taken := by
  unfold read
  split_ifs
  · exact List.prefix_rfl
  · exact List.prefix_append _ _
  · exact List.prefix_rfl

section Stream

variable {reader} {wire : ψ → Bytes} {content : ψ → φ} {frames : List ψ} {received : Bytes}
  {receiver : Receiver φ capacity}

/-- The receiver is open and has taken the frames of what it received of the stream. -/
def Tracks (wire : ψ → Bytes) (content : ψ → φ) (frames : List ψ) (received : Bytes)
    (receiver : Receiver φ capacity) : Prop :=
  receiver.isOpen = true ∧
    ∃ ahead, Reader.Follows wire content frames received receiver.taken receiver.buffer ahead

theorem Tracks.free_pos
    (hfit : ∀ frame ∈ frames, (wire frame).length ≤ capacity) (hcapacity : 0 < capacity)
    (htracks : Tracks wire content frames received receiver) : 0 < receiver.free := by
  obtain ⟨-, ahead, hfollows⟩ := htracks
  unfold free
  obtain hnil | ⟨frame, later, rfl, hpart, hne⟩ := hfollows.unfinished
  · rw [hnil]
    exact hcapacity
  · -- the buffer holds less than a frame, and a frame fits
    obtain ⟨done, rfl, -, -⟩ := hfollows.split
    have hwhole := hfit frame (List.mem_append_right _ List.mem_cons_self)
    have hshort : receiver.buffer.length < (wire frame).length :=
      lt_of_le_of_ne hpart.length_le fun heq => hne (hpart.eq_of_length heq)
    omega

section Fitting

variable (hframes : ∀ frame ∈ frames, reader.Delimits (wire frame) (content frame))
  (hfit : ∀ frame ∈ frames, (wire frame).length ≤ capacity) (hcapacity : 0 < capacity)

include hframes hfit hcapacity

theorem Tracks.read {chunk : Bytes} (htracks : Tracks wire content frames received receiver)
    (hfits : receiver.Fits chunk) (hchunk : received ++ chunk <+: frames.flatMap wire) :
    Tracks wire content frames (received ++ chunk) (receiver.read reader chunk) := by
  have hfree := htracks.free_pos hfit hcapacity
  obtain ⟨hopen, ahead, hfollows⟩ := htracks
  have hne : chunk ≠ [] := fun hnil => absurd (hfits.2 hnil) hfree.ne'
  obtain ⟨later, hlater⟩ := hfollows.feed hframes hchunk
  have hgoesOn : (reader.takeAll (receiver.buffer ++ chunk)).1.any reader.ends = false := by
    obtain ⟨done, rfl, htaken, -⟩ := hlater.split
    rw [List.any_eq_false]
    intro frame hframe
    have hmem : frame ∈ done.map content := htaken ▸ List.mem_append_right _ hframe
    obtain ⟨sent, hsent, rfl⟩ := List.mem_map.mp hmem
    rw [(hframes sent (List.mem_append_left _ hsent)).goesOn]
    exact Bool.false_ne_true
  obtain ⟨hbuffer, htaken, hstays⟩ := read_of_length_le reader hopen hfits.1 hne
  rw [hgoesOn] at hstays
  refine ⟨hstays, later, ?_⟩
  rw [hbuffer, htaken]
  exact hlater

theorem Tracks.run {chunks : List Bytes}
    (htracks : Tracks wire content frames received receiver)
    (hmeets : Runs.Meets (Receiver.read reader) Fits receiver chunks)
    (hchunks : received ++ chunks.flatten <+: frames.flatMap wire) :
    Tracks wire content frames (received ++ chunks.flatten)
      (Runs.run (Receiver.read reader) receiver chunks) := by
  induction chunks generalizing received receiver with
  | nil =>
      rw [List.flatten_nil, List.append_nil]
      exact htracks
  | cons chunk chunks ih =>
      rw [List.flatten_cons, ← List.append_assoc] at hchunks ⊢
      have hfront : received ++ chunk <+: frames.flatMap wire :=
        (List.prefix_append _ _).trans hchunks
      exact ih (htracks.read hframes hfit hcapacity hmeets.1 hfront) hmeets.2 hchunks

/-- However the stream of these frames is cut into chunks that fit: the receiver stays open, takes
the frames in their order, and has taken all of them when the stream has arrived. -/
def TakesAll (reader : Reader φ) (capacity : Nat) (wire : ψ → Bytes) (content : ψ → φ)
    (frames : List ψ) : Prop :=
  ∀ chunks, Runs.Meets (Receiver.read reader) Fits (fresh φ capacity) chunks →
    chunks.flatten <+: frames.flatMap wire →
      (Runs.run (Receiver.read reader) (fresh φ capacity) chunks).isOpen = true ∧
      (Runs.run (Receiver.read reader) (fresh φ capacity) chunks).taken <+: frames.map content ∧
      (chunks.flatten = frames.flatMap wire →
        (Runs.run (Receiver.read reader) (fresh φ capacity) chunks).taken = frames.map content)

theorem takesAll_of_length_le : TakesAll reader capacity wire content frames := by
  intro chunks hmeets hchunks
  have hstart : Tracks wire content frames [] (fresh φ capacity) :=
    ⟨rfl, frames, Reader.Follows.start wire content frames⟩
  have htracks := hstart.run hframes hfit hcapacity hmeets hchunks
  rw [List.nil_append] at htracks
  obtain ⟨hopen, ahead, hfollows⟩ := htracks
  refine ⟨hopen, hfollows.taken_front, ?_⟩
  intro hall
  exact hfollows.taken_eq (fun frame hframe => (hframes frame hframe).wire_ne_nil)
    (congrArg List.length hall).ge

/-- The chunk brings the end of the last frame, and anything behind it. -/
theorem Tracks.front_read {chunk : Bytes}
    (htracks : Tracks wire content frames received receiver) (hfits : receiver.Fits chunk)
    (hchunk : frames.flatMap wire <+: received ++ chunk) :
    frames.map content <+: (receiver.read reader chunk).taken := by
  have hfree := htracks.free_pos hfit hcapacity
  have hne : chunk ≠ [] := fun hnil => absurd (hfits.2 hnil) hfree.ne'
  obtain ⟨hopen, ahead, hfollows⟩ := htracks
  obtain ⟨-, htaken, -⟩ := read_of_length_le reader hopen hfits.1 hne
  obtain ⟨done, rfl, hdone, rfl⟩ := hfollows.split
  obtain ⟨extra, hextra⟩ := hchunk
  rw [List.flatMap_append, List.append_assoc, List.append_assoc] at hextra
  have hbuffer := List.append_cancel_left hextra
  obtain ⟨fuel, htake⟩ := Reader.takeAll_flatMap_append
    (fun frame hframe => hframes frame (List.mem_append_right done hframe)) extra
  rw [htaken, hdone, ← hbuffer, htake, List.map_append]
  exact (List.prefix_append_right_inj _).mpr (List.prefix_append _ _)

/-- Behind the frames the stream may go on with anything: what is taken first are the frames. -/
theorem Tracks.run_or_front {chunks : List Bytes} {tail : Bytes}
    (htracks : Tracks wire content frames received receiver)
    (hmeets : Runs.Meets (Receiver.read reader) Fits receiver chunks)
    (hchunks : received ++ chunks.flatten <+: frames.flatMap wire ++ tail) :
    let taken := (Runs.run (Receiver.read reader) receiver chunks).taken
    (taken <+: frames.map content ∨ frames.map content <+: taken) ∧
      (frames.flatMap wire <+: received ++ chunks.flatten → frames.map content <+: taken) := by
  induction chunks generalizing received receiver with
  | nil =>
      obtain ⟨-, ahead, hfollows⟩ := htracks
      refine ⟨.inl hfollows.taken_front, fun harrived => ?_⟩
      rw [List.flatten_nil, List.append_nil] at harrived
      have htaken := hfollows.taken_eq (fun frame hframe => (hframes frame hframe).wire_ne_nil)
        harrived.length_le
      exact ⟨[], (List.append_nil _).trans htaken.symm⟩
  | cons chunk chunks ih =>
      rw [List.flatten_cons, ← List.append_assoc] at hchunks ⊢
      rw [Runs.run_cons]
      by_cases hwithin : received ++ chunk <+: frames.flatMap wire
      · exact ih (htracks.read hframes hfit hcapacity hmeets.1 hwithin) hmeets.2 hchunks
      · have hwhole : frames.flatMap wire <+: received ++ chunk :=
          (List.prefix_or_prefix_of_prefix ((List.prefix_append _ _).trans hchunks)
            (List.prefix_append _ _)).resolve_left hwithin
        have hfront : frames.map content <+:
            (Runs.run (Receiver.read reader) (receiver.read reader chunk) chunks).taken :=
          (htracks.front_read hframes hfit hcapacity hmeets.1 hwhole).trans
            (Runs.invariant (Receiver.read reader)
              (fun later => (receiver.read reader chunk).taken <+: later.taken)
              (fun later next hlater => hlater.trans (taken_front_read reader later next))
              List.prefix_rfl)
        exact ⟨.inr hfront, fun _ => hfront⟩

end Fitting

theorem read_wire {frame : ψ}
    (hframe : reader.Delimits (wire frame) (content frame))
    (hfit : (wire frame).length ≤ capacity) (hopen : receiver.isOpen = true)
    (hempty : receiver.buffer = []) :
    receiver.Fits (wire frame) ∧ (receiver.read reader (wire frame)).isOpen = true ∧
      (receiver.read reader (wire frame)).buffer = [] := by
  have hfree : (wire frame).length ≤ receiver.free := by
    rw [free, hempty]
    exact hfit
  have hne := hframe.wire_ne_nil
  obtain ⟨hbuffer, -, hstays⟩ := read_of_length_le reader hopen hfree hne
  have hall : ∀ other ∈ [frame], reader.Delimits (wire other) (content other) := by
    intro other hother
    rw [List.mem_singleton.mp hother]
    exact hframe
  have htaken := Reader.takeAll_flatMap hall reader.next_nil
  rw [List.flatMap_singleton, List.append_nil, List.map_singleton] at htaken
  rw [hempty, List.nil_append, htaken] at hbuffer hstays
  refine ⟨⟨hfree, fun hnil => absurd hnil hne⟩, ?_, hbuffer⟩
  rw [hstays, List.any_cons, hframe.goesOn]
  rfl

theorem run_wires
    (hframes : ∀ frame ∈ frames, reader.Delimits (wire frame) (content frame))
    (hfit : ∀ frame ∈ frames, (wire frame).length ≤ capacity) (hopen : receiver.isOpen = true)
    (hempty : receiver.buffer = []) :
    Runs.Meets (Receiver.read reader) Fits receiver (frames.map wire) ∧
      (Runs.run (Receiver.read reader) receiver (frames.map wire)).isOpen = true ∧
      (Runs.run (Receiver.read reader) receiver (frames.map wire)).buffer = [] := by
  induction frames generalizing receiver with
  | nil => exact ⟨trivial, hopen, hempty⟩
  | cons frame frames ih =>
      obtain ⟨hfits, hstays, hrest⟩ := read_wire (hframes frame List.mem_cons_self)
        (hfit frame List.mem_cons_self) hopen hempty
      obtain ⟨hmeets, hrun⟩ := ih
        (fun other hother => hframes other (List.mem_cons_of_mem _ hother))
        (fun other hother => hfit other (List.mem_cons_of_mem _ hother)) hstays hrest
      exact ⟨⟨hfits, hmeets⟩, hrun⟩

theorem run_overlong {frame : ψ}
    (hframe : reader.Delimits (wire frame) (content frame))
    (hlong : capacity < (wire frame).length) (hcapacity : 0 < capacity)
    (hopen : receiver.isOpen = true) (hempty : receiver.buffer = []) :
    Runs.Meets (Receiver.read reader) Fits receiver [(wire frame).take capacity, []] ∧
      (Runs.run (Receiver.read reader) receiver [(wire frame).take capacity, []]).isOpen =
        false := by
  let front := (wire frame).take capacity
  have hlength : front.length = capacity := List.length_take_of_le hlong.le
  have hfree : receiver.free = capacity := by
    rw [free, hempty]
    rfl
  have hne : front ≠ [] := List.ne_nil_of_length_pos (hlength ▸ hcapacity)
  have hwait : reader.next front = none := by
    refine hframe.part front (List.take_prefix _ _) fun heq => ?_
    rw [heq] at hlength
    omega
  have hnone : reader.takeAll front = ([], front) := reader.takeLoop_of_none hwait _
  obtain ⟨hbuffer, -, hstays⟩ := read_of_length_le reader hopen (hlength.trans hfree.symm).le hne
  rw [hempty, List.nil_append, hnone] at hbuffer hstays
  have hfull : (receiver.read reader front).free = 0 := by
    rw [free, hbuffer, hlength, Nat.sub_self]
  refine ⟨⟨⟨(hlength.trans hfree.symm).le, fun hnil => absurd hnil hne⟩,
    ⟨Nat.zero_le _, fun _ => hfull⟩, trivial⟩, ?_⟩
  rw [Runs.run_cons, Runs.run_cons, Runs.run_nil]
  have hkept : (receiver.read reader front).isOpen = true := hstays
  change ((receiver.read reader front).read reader []).isOpen = false
  rw [read, if_pos hkept, if_pos List.take_nil]

/-- **Framing.** A stream of frames is received whole, however it is cut, exactly if every frame
fits the buffer. -/
theorem takesAll_iff (hframes : ∀ frame ∈ frames, reader.Delimits (wire frame) (content frame))
    (hcapacity : 0 < capacity) :
    TakesAll reader capacity wire content frames ↔
      ∀ frame ∈ frames, (wire frame).length ≤ capacity := by
  refine ⟨fun htakes => ?_, fun hfit => takesAll_of_length_le hframes hfit hcapacity⟩
  by_contra hlong
  -- the frames before the first one that does not fit are received one by one
  obtain ⟨front, frame, back, rfl, hfit, hframe⟩ : ∃ front frame back,
      frames = front ++ frame :: back ∧ (∀ other ∈ front, (wire other).length ≤ capacity) ∧
        capacity < (wire frame).length := by
    have hsome : (frames.find? fun other => decide (capacity < (wire other).length)).isSome := by
      rw [List.find?_isSome]
      simpa using hlong
    obtain ⟨frame, hfind⟩ := Option.isSome_iff_exists.mp hsome
    obtain ⟨hframe, front, back, hsplit, hfront⟩ := List.find?_eq_some_iff_append.mp hfind
    refine ⟨front, frame, back, hsplit, fun other hother => ?_, of_decide_eq_true hframe⟩
    simpa using hfront other hother
  have hfront : ∀ other ∈ front, reader.Delimits (wire other) (content other) :=
    fun other hother => hframes other (List.mem_append_left _ hother)
  obtain ⟨hmeets, hopen, hempty⟩ :=
    @run_wires φ ψ capacity reader wire content front (fresh φ capacity) hfront hfit rfl rfl
  obtain ⟨hthen, hclosed⟩ := run_overlong
    (hframes frame (List.mem_append_right _ List.mem_cons_self)) hframe hcapacity hopen hempty
  have hrun := htakes (front.map wire ++ [(wire frame).take capacity, []])
    ((Runs.meets_append _).mpr ⟨hmeets, hthen⟩) (by
      rw [List.flatten_append, ← List.flatMap_def, List.flatMap_append, List.flatMap_cons]
      apply (List.prefix_append_right_inj _).mpr
      rw [List.flatten_cons, List.flatten_singleton, List.append_nil]
      exact (List.take_prefix _ _).trans (List.prefix_append _ _))
  rw [Runs.run_append, hclosed] at hrun
  exact absurd hrun.1 Bool.false_ne_true

end Stream

end Receiver

end Poseidon.Framing
