import Mathlib.Tactic.IntervalCases
import Poseidon.Cbor.Load

/-!
# What is serialized loads back

`Loads bytes stack next` says that the loop of `cbor_load`, started with `stack` open, consumes
exactly `bytes` and is then in context `next`, whatever follows. Such statements compose along
concatenation, so loading a serialized item is followed token by token.
-/

namespace Poseidon.Cbor

/-! ### Tokens -/

theorem claimBytes_append (front rest : Bytes) :
    claimBytes front.length (front ++ rest) = some (front, rest) := by
  unfold claimBytes
  rw [if_pos (by simp), List.take_left, List.drop_left]

theorem claimBytes_beBytes (width value : Nat) (rest : Bytes) :
    claimBytes width (beBytes width value ++ rest) = some (beBytes width value, rest) := by
  have hclaim := claimBytes_append (beBytes width value) rest
  rwa [length_beBytes] at hclaim

/-- `source` starts with a byte of the given major type whose argument is `value`, at `width`. -/
def Heads (major : Nat) (width : IntWidth) (value : Nat) (source : Bytes) : Prop :=
  ∃ info tail, source = UInt8.ofNat (major * 32 + info) :: tail ∧ info < 28 ∧
    ∀ rest, readArgument info (tail ++ rest) = some (width, value, rest)

variable {width : IntWidth} {major value : Nat}

theorem heads_inline (hvalue : value ≤ 23) :
    Heads major .w8 value [UInt8.ofNat (major * 32 + value)] := by
  refine ⟨value, [], rfl, by omega, fun rest => ?_⟩
  simp [readArgument, hvalue]

theorem heads_wide {info : Nat}
    (hinfo : (width, info) ∈ [(IntWidth.w8, 24), (.w16, 25), (.w32, 26), (.w64, 27)])
    (hvalue : value < 256 ^ width.bytes) :
    Heads major width value (UInt8.ofNat (major * 32 + info) :: beBytes width.bytes value) := by
  refine ⟨info, _, rfl, ?_, fun rest => ?_⟩
  · simp only [List.mem_cons, Prod.mk.injEq, List.not_mem_nil, or_false] at hinfo
    omega
  · have hclaim := claimBytes_beBytes width.bytes value rest
    simp only [List.mem_cons, Prod.mk.injEq, List.not_mem_nil, or_false] at hinfo
    obtain ⟨rfl, rfl⟩ | ⟨rfl, rfl⟩ | ⟨rfl, rfl⟩ | ⟨rfl, rfl⟩ := hinfo <;>
      simp [readArgument, hclaim, beNat_beBytes hvalue]

theorem heads_encodeHead (major : Nat) (hvalue : value < 2 ^ 64) :
    ∃ width, Heads major width value (encodeHead major value) := by
  unfold encodeHead
  split_ifs with h5 h8 h16 h32
  · exact ⟨_, heads_inline h5⟩
  · exact ⟨.w8, heads_wide (by decide) h8⟩
  · exact ⟨.w16, heads_wide (by decide) h16⟩
  · exact ⟨.w32, heads_wide (by decide) h32⟩
  · exact ⟨.w64, heads_wide (by decide) hvalue⟩

theorem heads_encodeInt (hvalue : value < 256 ^ width.bytes) :
    Heads major width value (encodeInt major width value) := by
  cases width with
  | w8 =>
      unfold encodeInt
      dsimp only
      split_ifs with h5
      · exact heads_inline h5
      · exact heads_wide (by decide) hvalue
  | w16 => exact heads_wide (by decide) hvalue
  | w32 => exact heads_wide (by decide) hvalue
  | w64 => exact heads_wide (by decide) hvalue

theorem toNat_initial {info : Nat} (major : Nat) (hmajor : major < 8) (hinfo : info < 32) :
    (UInt8.ofNat (major * 32 + info)).toNat / 32 = major ∧
      (UInt8.ofNat (major * 32 + info)).toNat % 32 = info := by
  have htoNat : (UInt8.ofNat (major * 32 + info)).toNat = major * 32 + info := by
    simp
    omega
  rw [htoNat]
  omega

/-- The token that a head of major type 0, 1, 4, 5 or 6 stands for. -/
def headToken (major : Nat) (width : IntWidth) (value : Nat) : Token :=
  match major with
  | 0 => .uint width value
  | 1 => .negint width value
  | 4 => .arrayStart value
  | 5 => .mapStart value
  | _ => .tag value

theorem streamDecode_of_heads {source : Bytes} (hmajor : major ∈ [0, 1, 4, 5, 6])
    (hheads : Heads major width value source) (rest : Bytes) :
    streamDecode (source ++ rest) = some (headToken major width value, rest) := by
  obtain ⟨info, tail, rfl, hinfo, hread⟩ := hheads
  have hdefinite : info ≠ 31 := by omega
  simp only [List.mem_cons, List.not_mem_nil, or_false] at hmajor
  obtain ⟨hhigh, hlow⟩ := toNat_initial major (by omega) (show info < 32 by omega)
  obtain rfl | rfl | rfl | rfl | rfl := hmajor <;>
    simp only [List.cons_append, streamDecode, headToken, hhigh, hlow, hdefinite, hread, if_false,
      Option.map_some]

/-- The token of a definite string of major type 2 or 3. -/
def stringToken (major : Nat) (data : Bytes) : Token :=
  if major = 2 then .byteString data else .string data

theorem streamDecode_encodeString (hmajor : major = 2 ∨ major = 3) {data : Bytes}
    (hlength : data.length < 2 ^ 64) (rest : Bytes) :
    streamDecode (encodeHead major data.length ++ data ++ rest) =
      some (stringToken major data, rest) := by
  obtain ⟨width, info, tail, hhead, hinfo, hread⟩ := heads_encodeHead major hlength
  obtain ⟨hhigh, hlow⟩ := toNat_initial major (by omega) (show info < 32 by omega)
  have hdefinite : info ≠ 31 := by omega
  have hstring : ∀ token : Bytes → Token,
      readString token info (tail ++ (data ++ rest)) = some (token data, rest) := by
    intro token
    simp only [readString, hread, claimBytes_append, Option.map_some]
  rw [hhead]
  obtain rfl | rfl := hmajor <;>
    simp only [List.cons_append, List.append_assoc, streamDecode, stringToken, hhigh, hlow,
      hdefinite, hstring, if_false, if_true, Nat.reduceEqDiff]

/-! ### Loading -/

/-- How the loop goes on behind a token. -/
def resume (fuel : Nat) (rest : Bytes) : Context → Option Item
  | .finished root => some root
  | .pending stack => loadLoop fuel rest stack
  | .failed => none

/-- Started with `stack` open, the loop consumes exactly `bytes` and is then in `next`. -/
def Loads (bytes : Bytes) (stack : List Frame) (next : Context) : Prop :=
  ∃ tokens ≤ bytes.length, ∀ fuel rest,
    loadLoop (tokens + fuel) (bytes ++ rest) stack = resume fuel rest next

theorem loads_token {bytes : Bytes} {token : Token}
    (hdecode : ∀ rest, streamDecode (bytes ++ rest) = some (token, rest)) (stack : List Frame) :
    Loads bytes stack (handleToken token stack) := by
  refine ⟨1, ?_, fun fuel rest => ?_⟩
  · cases bytes with
    | nil => exact absurd (hdecode []) (by simp [streamDecode])
    | cons byte bytes => simp
  · rw [Nat.add_comm, loadLoop, hdecode]
    dsimp only
    cases handleToken token stack <;> rfl

theorem loads_nil (stack : List Frame) : Loads [] stack (.pending stack) :=
  ⟨0, le_rfl, fun fuel rest => by rw [Nat.zero_add]; rfl⟩

theorem Loads.append {front back : Bytes} {stack middle : List Frame} {next : Context}
    (hfront : Loads front stack (.pending middle)) (hback : Loads back middle next) :
    Loads (front ++ back) stack next := by
  obtain ⟨m, hm, hfront⟩ := hfront
  obtain ⟨n, hn, hback⟩ := hback
  refine ⟨m + n, ?_, fun fuel rest => ?_⟩
  · rw [List.length_append]
    exact Nat.add_le_add hm hn
  · rw [List.append_assoc, Nat.add_assoc, hfront]
    exact hback fuel rest

theorem Loads.load {bytes : Bytes} {item : Item} (hloads : Loads bytes [] (.finished item))
    (rest : Bytes) : load (bytes ++ rest) = some item := by
  obtain ⟨tokens, hle, hloop⟩ := hloads
  have hfuel : (bytes ++ rest).length =
      tokens + ((bytes ++ rest).length - tokens) := by
    rw [List.length_append]
    omega
  unfold Cbor.load
  rw [hfuel]
  exact hloop _ rest

/-! ### Items -/

mutual

/-- The item fits its encoding, and its containers fit into `room` further entries of the
stack. -/
def Item.Fits : Nat → Item → Prop
  | _, .uint width value => value < 256 ^ width.bytes
  | _, .negint width value => value < 256 ^ width.bytes
  | _, .bytestring data => data.length < 2 ^ 64
  | room, .bytestringIndefinite chunks => 0 < room ∧ ∀ chunk ∈ chunks, chunk.length < 2 ^ 64
  | _, .string data => data.length < 2 ^ 64
  | room, .stringIndefinite chunks => 0 < room ∧ ∀ chunk ∈ chunks, chunk.length < 2 ^ 64
  | room, .array items => 0 < room ∧ items.length < 2 ^ 64 ∧ FitsAll (room - 1) items
  | room, .arrayIndefinite items => 0 < room ∧ FitsAll (room - 1) items
  | room, .map items => 0 < room ∧ items.length % 2 = 0 ∧ items.length / 2 < 2 ^ 64 ∧
      FitsAll (room - 1) items
  | room, .mapIndefinite items => 0 < room ∧ items.length % 2 = 0 ∧ FitsAll (room - 1) items
  | room, .tag value item => 0 < room ∧ value < 2 ^ 64 ∧ Item.Fits (room - 1) item
  | _, .simple value => 20 ≤ value ∧ value ≤ 23
  | _, .float width raw => width ≠ .w8 ∧ raw.length = width.bytes

def FitsAll : Nat → List Item → Prop
  | _, [] => True
  | room, item :: items => Item.Fits room item ∧ FitsAll room items

end

theorem fitsAll_iff (room : Nat) (items : List Item) :
    FitsAll room items ↔ ∀ item ∈ items, Item.Fits room item := by
  induction items with
  | nil => simp [FitsAll]
  | cons item items ih => simp [FitsAll, ih]

/-- The innermost open container takes items, not chunks of a string. -/
def TakesItems : List Frame → Prop
  | .bytestringIndefinite _ :: _ => False
  | .stringIndefinite _ :: _ => False
  | _ => True

/-- The item loads wherever the stack leaves it room. -/
def LoadsItem (room : Nat) (item : Item) : Prop :=
  ∀ stack, stack.length + room ≤ maxStackSize → TakesItems stack →
    Loads (serialize item) stack (builderAppend item stack)

variable {stack : List Frame} {room : Nat}

theorem handleToken_byteString (htakes : TakesItems stack) (data : Bytes) :
    handleToken (.byteString data) stack = builderAppend (.bytestring data) stack := by
  cases stack with
  | nil => rfl
  | cons frame stack => cases frame with
    | bytestringIndefinite chunks => exact htakes.elim
    | _ => rfl

theorem handleToken_string (htakes : TakesItems stack) (data : Bytes) :
    handleToken (.string data) stack = builderAppend (.string data) stack := by
  cases stack with
  | nil => rfl
  | cons frame stack => cases frame with
    | stringIndefinite chunks => exact htakes.elim
    | _ => rfl

theorem push_eq_pending (hroom : 0 < room) (hstack : stack.length + room ≤ maxStackSize)
    (frame : Frame) : push frame stack = .pending (frame :: stack) := by
  unfold push
  rw [if_pos (by omega)]

theorem loads_indefinite (opened : List Item → Frame) (happend : ∀ item items stack,
      builderAppend item (opened items :: stack) = .pending (opened (item :: items) :: stack))
    (htakes : ∀ items stack, TakesItems (opened items :: stack)) {items : List Item}
    (hitems : ∀ item ∈ items, LoadsItem room item) (front : List Item) (stack : List Frame)
    (hstack : stack.length + 1 + room ≤ maxStackSize) :
    Loads (serializeAll items) (opened front :: stack)
      (.pending (opened (items.reverse ++ front) :: stack)) := by
  induction items generalizing front with
  | nil => exact loads_nil _
  | cons item items ih =>
      have hitem := hitems item List.mem_cons_self (opened front :: stack) hstack
        (htakes front stack)
      rw [happend] at hitem
      have hrest := ih (fun item hmem => hitems item (List.mem_cons_of_mem _ hmem)) (item :: front)
      rw [List.reverse_cons, List.append_assoc]
      exact hitem.append hrest

theorem loads_chunks (opened : List Bytes → Frame) {major : Nat} (hmajor : major = 2 ∨ major = 3)
    (hchunk : ∀ data chunks stack, handleToken (stringToken major data) (opened chunks :: stack) =
      .pending (opened (data :: chunks) :: stack))
    {chunks : List Bytes} (hchunks : ∀ chunk ∈ chunks, chunk.length < 2 ^ 64)
    (front : List Bytes) (stack : List Frame) :
    Loads (encodeChunks major chunks) (opened front :: stack)
      (.pending (opened (chunks.reverse ++ front) :: stack)) := by
  induction chunks generalizing front with
  | nil => exact loads_nil _
  | cons chunk chunks ih =>
      have htoken := loads_token
        (streamDecode_encodeString hmajor (hchunks chunk List.mem_cons_self))
        (opened front :: stack)
      rw [hchunk] at htoken
      have hrest := ih (fun other hmem => hchunks other (List.mem_cons_of_mem _ hmem))
        (chunk :: front)
      rw [List.reverse_cons, List.append_assoc]
      exact htoken.append hrest

section Definite

variable (opened : List Item → Nat → Frame) (closed : List Item → Item)
  (happend : ∀ item items remaining stack, builderAppend item (opened items remaining :: stack) =
    if remaining ≤ 1 then builderAppend (closed (item :: items).reverse) stack
    else .pending (opened (item :: items) (remaining - 1) :: stack))
  (htakes : ∀ items remaining stack, TakesItems (opened items remaining :: stack))

include happend htakes

theorem loads_definite {items : List Item} (hitems : ∀ item ∈ items, LoadsItem room item)
    (hne : items ≠ []) (front : List Item) (stack : List Frame)
    (hstack : stack.length + 1 + room ≤ maxStackSize) :
    Loads (serializeAll items) (opened front items.length :: stack)
      (builderAppend (closed (front.reverse ++ items)) stack) := by
  induction items generalizing front with
  | nil => exact absurd rfl hne
  | cons item items ih =>
      have hitem := hitems item List.mem_cons_self (opened front (items.length + 1) :: stack)
        hstack (htakes front (items.length + 1) stack)
      rw [happend] at hitem
      unfold serializeAll
      cases items with
      | nil =>
          rw [List.length_nil, if_pos (by omega)] at hitem
          rw [serializeAll, List.append_nil]
          simpa using hitem
      | cons next items =>
          rw [List.length_cons, if_neg (by omega)] at hitem
          have hrest := ih (fun item hmem => hitems item (List.mem_cons_of_mem _ hmem))
            (List.cons_ne_nil _ _) (item :: front)
          rw [List.reverse_cons, List.append_assoc] at hrest
          exact hitem.append hrest

/-- The head of a definite container and its elements. Without elements the head closes it. -/
theorem loads_headed {head : Bytes} {token : Token} {items : List Item}
    (hitems : ∀ item ∈ items, LoadsItem (room - 1) item) (hroom : 0 < room)
    (hstack : stack.length + room ≤ maxStackSize)
    (hhead : ∀ rest, streamDecode (head ++ rest) = some (token, rest))
    (hempty : items = [] → handleToken token stack = builderAppend (closed []) stack)
    (hopen : items ≠ [] → handleToken token stack = push (opened [] items.length) stack) :
    Loads (head ++ serializeAll items) stack (builderAppend (closed items) stack) := by
  have hstart := loads_token hhead stack
  by_cases hne : items = []
  · subst hne
    rw [serializeAll, List.append_nil, ← hempty rfl]
    exact hstart
  · rw [hopen hne, push_eq_pending hroom hstack] at hstart
    exact hstart.append
      (loads_definite opened closed happend htakes hitems hne [] stack (by omega))

end Definite

/-- A start byte, a body that leaves the container open, and the break that closes it. -/
theorem loads_bracketed {start : UInt8} {body : Bytes} {token : Token} {opened full : Frame}
    {item : Item} (hroom : 0 < room) (hstack : stack.length + room ≤ maxStackSize)
    (hstart : ∀ rest, streamDecode (start :: rest) = some (token, rest))
    (hopen : handleToken token stack = push opened stack)
    (hbody : Loads body (opened :: stack) (.pending (full :: stack)))
    (hclose : handleToken .indefBreak (full :: stack) = builderAppend item stack) :
    Loads (start :: (body ++ [0xFF])) stack (builderAppend item stack) := by
  have hfirst : Loads [start] stack (handleToken token stack) := loads_token hstart stack
  rw [hopen, push_eq_pending hroom hstack] at hfirst
  have hlast : Loads [0xFF] (full :: stack) (handleToken .indefBreak (full :: stack)) :=
    loads_token (fun _ => rfl) _
  rw [hclose] at hlast
  exact hfirst.append (hbody.append hlast)

theorem streamDecode_simple {value : Nat} (hfits : Item.Fits room (.simple value)) (rest : Bytes) :
    streamDecode (serialize (.simple value) ++ rest) = some (.simple value, rest) := by
  obtain ⟨hlow, hhigh⟩ := hfits
  interval_cases value <;> rfl

theorem streamDecode_float {width : IntWidth} {raw : Bytes}
    (hfits : Item.Fits room (.float width raw)) (rest : Bytes) :
    streamDecode (serialize (.float width raw) ++ rest) = some (.float width raw, rest) := by
  obtain ⟨hwidth, hraw⟩ := hfits
  have hclaim := claimBytes_append raw rest
  rw [hraw] at hclaim
  cases width with
  | w8 => exact absurd rfl hwidth
  | w16 => simp [serialize, streamDecode, readSpecial, hclaim]
  | w32 => simp [serialize, streamDecode, readSpecial, hclaim]
  | w64 => simp [serialize, streamDecode, readSpecial, hclaim]

mutual

theorem loadsItem : ∀ (item : Item) (room : Nat), Item.Fits room item → LoadsItem room item
  | .uint width value, room, hfits => by
      intro stack _ _
      exact loads_token (streamDecode_of_heads (by decide) (heads_encodeInt hfits)) stack
  | .negint width value, room, hfits => by
      intro stack _ _
      exact loads_token (streamDecode_of_heads (by decide) (heads_encodeInt hfits)) stack
  | .bytestring data, room, hfits => by
      intro stack _ htakes
      rw [← handleToken_byteString htakes]
      exact loads_token (streamDecode_encodeString (.inl rfl) hfits) stack
  | .bytestringIndefinite chunks, room, hfits => by
      intro stack hstack _
      have hbody := loads_chunks .bytestringIndefinite (.inl rfl) (fun _ _ _ => rfl) hfits.2 []
        stack
      apply loads_bracketed hfits.1 hstack (fun _ => rfl) rfl hbody
      simp [handleToken]
  | .string data, room, hfits => by
      intro stack _ htakes
      rw [← handleToken_string htakes]
      exact loads_token (streamDecode_encodeString (.inr rfl) hfits) stack
  | .stringIndefinite chunks, room, hfits => by
      intro stack hstack _
      have hbody := loads_chunks .stringIndefinite (.inr rfl) (fun _ _ _ => rfl) hfits.2 [] stack
      apply loads_bracketed hfits.1 hstack (fun _ => rfl) rfl hbody
      simp [handleToken]
  | .array items, room, ⟨hroom, hlength, hitems⟩ => by
      intro stack hstack _
      obtain ⟨width, hheads⟩ := heads_encodeHead 4 hlength
      apply loads_headed .array .array (fun _ _ _ _ => rfl) (fun _ _ _ => trivial)
        (loadsItem_of_mem items (room - 1) hitems) hroom hstack
        (streamDecode_of_heads (by decide) hheads)
      · rintro rfl
        rfl
      · intro hne
        have hpos : 0 < items.length := List.length_pos_iff.mpr hne
        simp only [headToken, handleToken, hpos, if_true]
  | .arrayIndefinite items, room, ⟨hroom, hitems⟩ => by
      intro stack hstack _
      have hbody := loads_indefinite .arrayIndefinite (fun _ _ _ => rfl) (fun _ _ => trivial)
        (loadsItem_of_mem items (room - 1) hitems) [] stack (by omega)
      apply loads_bracketed hroom hstack (fun _ => rfl) rfl hbody
      simp [handleToken]
  | .map items, room, ⟨hroom, heven, hlength, hitems⟩ => by
      intro stack hstack _
      obtain ⟨width, hheads⟩ := heads_encodeHead 5 hlength
      apply loads_headed .map .map (fun _ _ _ _ => rfl) (fun _ _ _ => trivial)
        (loadsItem_of_mem items (room - 1) hitems) hroom hstack
        (streamDecode_of_heads (by decide) hheads)
      · rintro rfl
        rfl
      · intro hne
        have hpos : 0 < items.length := List.length_pos_iff.mpr hne
        have hpairs : items.length / 2 * 2 = items.length := by omega
        have hsome : items.length / 2 > 0 := by omega
        simp only [headToken, handleToken, hsome, if_true, hpairs]
  | .mapIndefinite items, room, ⟨hroom, heven, hitems⟩ => by
      intro stack hstack _
      have hbody := loads_indefinite .mapIndefinite (fun _ _ _ => rfl) (fun _ _ => trivial)
        (loadsItem_of_mem items (room - 1) hitems) [] stack (by omega)
      apply loads_bracketed hroom hstack (fun _ => rfl) rfl hbody
      simp [handleToken, heven]
  | .tag value item, room, ⟨hroom, hvalue, hitem⟩ => by
      intro stack hstack _
      obtain ⟨width, hheads⟩ := heads_encodeHead 6 hvalue
      have hstart := loads_token (streamDecode_of_heads (by decide) hheads) stack
      have hopen : handleToken (headToken 6 width value) stack =
          .pending (.tag value :: stack) := push_eq_pending hroom hstack _
      rw [hopen] at hstart
      have hinner := loadsItem item (room - 1) hitem (.tag value :: stack)
        (by rw [List.length_cons]; omega) trivial
      exact hstart.append hinner
  | .simple value, room, hfits => by
      intro stack _ _
      exact loads_token (streamDecode_simple hfits) stack
  | .float width raw, room, hfits => by
      intro stack _ _
      exact loads_token (streamDecode_float hfits) stack

theorem loadsItem_of_mem : ∀ (items : List Item) (room : Nat), FitsAll room items →
    ∀ item ∈ items, LoadsItem room item
  | [], _, _, item, hmem => absurd hmem List.not_mem_nil
  | first :: items, room, ⟨hfirst, hitems⟩, item, hmem => by
      obtain heq | hmem := List.mem_cons.mp hmem
      · rw [heq]
        exact loadsItem first room hfirst
      · exact loadsItem_of_mem items room hitems item hmem

end

/-- **Round trip.** An item that fits is loaded from its serialization, whatever follows it. -/
theorem load_serialize_append {item : Item} (hfits : Item.Fits maxStackSize item) (rest : Bytes) :
    load (serialize item ++ rest) = some item :=
  (loadsItem item maxStackSize hfits [] (by simp) trivial).load rest

theorem load_serialize {item : Item} (hfits : Item.Fits maxStackSize item) :
    load (serialize item) = some item := by
  have hload := load_serialize_append hfits []
  rwa [List.append_nil] at hload

end Poseidon.Cbor
