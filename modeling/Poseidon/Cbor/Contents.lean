import Mathlib.Data.List.Basic
import Poseidon.Cbor.Load

/-!
# What an array was loaded from

A byte string that is an element of a loaded array is shorter than the bytes the array was loaded
from: every token takes its initial byte from the input and its contents from what follows.
-/

namespace Poseidon.Cbor

/-! ### Tokens -/

variable {info : Nat} {source rest : Bytes}

theorem length_claimBytes {length : Nat} {claimed : Bytes}
    (hclaim : claimBytes length source = some (claimed, rest)) :
    claimed.length ≤ source.length ∧ rest.length ≤ source.length := by
  unfold claimBytes at hclaim
  split_ifs at hclaim
  obtain ⟨rfl, rfl⟩ := Prod.mk.inj (Option.some.inj hclaim)
  exact ⟨List.length_take_le' _ _, (List.drop_sublist _ _).length_le⟩

theorem length_readArgument {width : IntWidth} {value : Nat}
    (hread : readArgument info source = some (width, value, rest)) :
    rest.length ≤ source.length := by
  have hwide : ∀ wide : IntWidth,
      ((claimBytes wide.bytes source).map fun claimed => (wide, beNat claimed.1, claimed.2)) =
        some (width, value, rest) → rest.length ≤ source.length := by
    intro wide hmap
    obtain ⟨⟨claimed, behind⟩, hclaim, heq⟩ := Option.map_eq_some_iff.mp hmap
    obtain ⟨-, -, rfl⟩ : wide = width ∧ beNat claimed = value ∧ behind = rest := by
      simpa using heq
    exact (length_claimBytes hclaim).2
  unfold readArgument at hread
  dsimp only at hread
  split_ifs at hread
  · obtain ⟨-, -, rfl⟩ : _ ∧ _ ∧ source = rest := by simpa using hread
    exact Nat.le_refl _
  all_goals exact hwide _ hread

def Token.contents : Token → Bytes
  | .byteString data => data
  | .string data => data
  | _ => []

theorem length_readString {token : Bytes → Token}
    (hcontents : ∀ data, (token data).contents = data) {read : Token}
    (hread : readString token info source = some (read, rest)) :
    read.contents.length ≤ source.length ∧ rest.length ≤ source.length := by
  unfold readString at hread
  split at hread
  · contradiction
  · rename_i behind hargument
    have hlength := length_readArgument hargument
    obtain ⟨⟨claimed, last⟩, hclaim, heq⟩ := Option.map_eq_some_iff.mp hread
    obtain ⟨rfl, rfl⟩ := Prod.mk.inj heq
    have hclaimed := length_claimBytes hclaim
    rw [hcontents]
    exact ⟨hclaimed.1.trans hlength, hclaimed.2.trans hlength⟩

theorem length_readSpecial {read : Token} (hread : readSpecial info source = some (read, rest)) :
    read.contents = [] ∧ rest.length ≤ source.length := by
  have hfloat : ∀ wide : IntWidth,
      ((claimBytes wide.bytes source).map fun claimed =>
        (Token.float wide claimed.1, claimed.2)) = some (read, rest) →
      read.contents = [] ∧ rest.length ≤ source.length := by
    intro wide hmap
    obtain ⟨⟨claimed, behind⟩, hclaim, heq⟩ := Option.map_eq_some_iff.mp hmap
    obtain ⟨rfl, rfl⟩ := Prod.mk.inj heq
    exact ⟨rfl, (length_claimBytes hclaim).2⟩
  unfold readSpecial at hread
  dsimp only at hread
  split_ifs at hread
  · obtain ⟨rfl, rfl⟩ := Prod.mk.inj (Option.some.inj hread)
    exact ⟨rfl, Nat.le_refl _⟩
  · exact hfloat _ hread
  · exact hfloat _ hread
  · exact hfloat _ hread
  · obtain ⟨rfl, rfl⟩ := Prod.mk.inj (Option.some.inj hread)
    exact ⟨rfl, Nat.le_refl _⟩

theorem length_readArgument_map (make : IntWidth → Nat → Token)
    (hmake : ∀ width value, (make width value).contents = []) {token : Token}
    (hread : ((readArgument info source).map fun argument =>
      (make argument.1 argument.2.1, argument.2.2)) = some (token, rest)) :
    token.contents.length ≤ source.length ∧ rest.length ≤ source.length := by
  obtain ⟨⟨width, value, behind⟩, hargument, heq⟩ := Option.map_eq_some_iff.mp hread
  obtain ⟨rfl, rfl⟩ := Prod.mk.inj heq
  rw [hmake]
  exact ⟨Nat.zero_le _, length_readArgument hargument⟩

theorem length_streamDecode {token : Token} (hdecode : streamDecode source = some (token, rest)) :
    token.contents.length < source.length ∧ rest.length < source.length := by
  match source with
  | [] => contradiction
  | initial :: source =>
      suffices hle : token.contents.length ≤ source.length ∧ rest.length ≤ source.length from
        ⟨Nat.lt_succ_of_le hle.1, Nat.lt_succ_of_le hle.2⟩
      have hstart : ∀ {start : Token}, start.contents = [] →
          some (start, source) = some (token, rest) →
          token.contents.length ≤ source.length ∧ rest.length ≤ source.length := by
        intro start hcontents heq
        obtain ⟨rfl, rfl⟩ := Prod.mk.inj (Option.some.inj heq)
        rw [hcontents]
        exact ⟨Nat.zero_le _, Nat.le_refl _⟩
      unfold streamDecode at hdecode
      dsimp only at hdecode
      split at hdecode
      · exact length_readArgument_map .uint (fun _ _ => rfl) hdecode
      · exact length_readArgument_map .negint (fun _ _ => rfl) hdecode
      · split_ifs at hdecode
        · exact hstart rfl hdecode
        · exact length_readString (fun _ => rfl) hdecode
      · split_ifs at hdecode
        · exact hstart rfl hdecode
        · exact length_readString (fun _ => rfl) hdecode
      · split_ifs at hdecode
        · exact hstart rfl hdecode
        · exact length_readArgument_map (fun _ => .arrayStart) (fun _ _ => rfl) hdecode
      · split_ifs at hdecode
        · exact hstart rfl hdecode
        · exact length_readArgument_map (fun _ => .mapStart) (fun _ _ => rfl) hdecode
      · exact length_readArgument_map (fun _ => .tag) (fun _ _ => rfl) hdecode
      · obtain ⟨hcontents, hrest⟩ := length_readSpecial hdecode
        rw [hcontents]
        exact ⟨Nat.zero_le _, hrest⟩

/-! ### Items -/

variable (limit : Nat)

def Item.ShortBytes (item : Item) : Prop :=
  ∀ data, item.bytestringData = some data → data.length < limit

def Item.ShortElements (item : Item) : Prop :=
  ∀ items, item.arrayItems = some items → ∀ element ∈ items, element.ShortBytes limit

def Frame.elements : Frame → List Item
  | .array items _ => items
  | .arrayIndefinite items => items
  | _ => []

def ShortFrames (stack : List Frame) : Prop :=
  ∀ frame ∈ stack, ∀ element ∈ frame.elements, element.ShortBytes limit

def Context.Short : Context → Prop
  | .finished root => root.ShortElements limit
  | .pending stack => ShortFrames limit stack
  | .failed => True

variable {limit}

theorem Item.shortBytes_of_none {item : Item} (hnone : item.bytestringData = none) :
    item.ShortBytes limit := by
  intro data hdata
  rw [hnone] at hdata
  contradiction

theorem Item.shortElements_of_none {item : Item} (hnone : item.arrayItems = none) :
    item.ShortElements limit := by
  intro items hitems
  rw [hnone] at hitems
  contradiction

theorem ShortFrames.cons {frame : Frame} {stack : List Frame}
    (hframe : ∀ element ∈ frame.elements, element.ShortBytes limit)
    (hstack : ShortFrames limit stack) : ShortFrames limit (frame :: stack) := by
  intro other hother
  obtain rfl | hrest := List.mem_cons.mp hother
  · exact hframe
  · exact hstack other hrest

variable {stack : List Frame}

theorem ShortFrames.tail {frame : Frame} (hstack : ShortFrames limit (frame :: stack)) :
    ShortFrames limit stack :=
  fun below hbelow => hstack below (List.mem_cons_of_mem _ hbelow)

theorem shortElements_reverse {items : List Item} {closed : List Item → Item}
    (hclosed : ∀ items, (closed items).arrayItems = some items)
    (hitems : ∀ element ∈ items, element.ShortBytes limit) :
    (closed items.reverse).ShortElements limit := by
  intro elements helements element helement
  rw [hclosed] at helements
  obtain rfl := Option.some.inj helements
  exact hitems element (List.mem_reverse.mp helement)

theorem short_builderAppend {item : Item} (hbytes : item.ShortBytes limit)
    (helements : item.ShortElements limit) (hstack : ShortFrames limit stack) :
    (builderAppend item stack).Short limit := by
  induction stack generalizing item with
  | nil => exact helements
  | cons frame stack ih =>
      have hrest : ShortFrames limit stack := hstack.tail
      have hitems : ∀ items, frame.elements = items →
          ∀ element ∈ item :: items, element.ShortBytes limit := by
        rintro _ rfl element helement
        obtain rfl | hold := List.mem_cons.mp helement
        · exact hbytes
        · exact hstack frame List.mem_cons_self element hold
      cases frame with
      | array items remaining =>
          rw [builderAppend]
          split_ifs
          · exact ih (Item.shortBytes_of_none rfl)
              (shortElements_reverse (fun _ => rfl) (hitems items rfl)) hrest
          · exact ShortFrames.cons (hitems items rfl) hrest
      | arrayIndefinite items => exact ShortFrames.cons (hitems items rfl) hrest
      | map items remaining =>
          rw [builderAppend]
          split_ifs
          · exact ih (Item.shortBytes_of_none rfl) (Item.shortElements_of_none rfl) hrest
          · exact ShortFrames.cons (fun _ hnone => absurd hnone List.not_mem_nil) hrest
      | mapIndefinite items =>
          exact ShortFrames.cons (fun _ hnone => absurd hnone List.not_mem_nil) hrest
      | tag value =>
          exact ih (Item.shortBytes_of_none rfl) (Item.shortElements_of_none rfl) hrest
      | bytestringIndefinite chunks => exact trivial
      | stringIndefinite chunks => exact trivial

theorem short_push {frame : Frame} (hframe : frame.elements = [])
    (hstack : ShortFrames limit stack) : (push frame stack).Short limit := by
  unfold push
  split_ifs
  · refine ShortFrames.cons (fun element helement => ?_) hstack
    rw [hframe] at helement
    exact absurd helement List.not_mem_nil
  · exact trivial

theorem short_leaf {item : Item} (hbytes : item.bytestringData = none)
    (helements : item.arrayItems = none) (hstack : ShortFrames limit stack) :
    (builderAppend item stack).Short limit :=
  short_builderAppend (Item.shortBytes_of_none hbytes) (Item.shortElements_of_none helements) hstack

theorem ShortFrames.replace {frame other : Frame} (hother : other.elements = [])
    (hstack : ShortFrames limit (frame :: stack)) : ShortFrames limit (other :: stack) := by
  refine ShortFrames.cons (fun element helement => ?_) hstack.tail
  rw [hother] at helement
  exact absurd helement List.not_mem_nil

theorem short_handleToken {token : Token} (htoken : token.contents.length < limit)
    (hstack : ShortFrames limit stack) : (handleToken token stack).Short limit := by
  have hbytes : ∀ item : Item, (∀ data, item.bytestringData = some data →
      data.length ≤ token.contents.length) → item.ShortBytes limit :=
    fun item hle data hdata => Nat.lt_of_le_of_lt (hle data hdata) htoken
  have hempty : ∀ closed : List Item → Item, (∀ items, (closed items).arrayItems = some items) →
      (closed []).ShortElements limit := by
    intro closed hclosed items hitems element helement
    rw [hclosed] at hitems
    obtain rfl := Option.some.inj hitems
    exact absurd helement List.not_mem_nil
  unfold handleToken
  split
  · exact short_leaf rfl rfl hstack
  · exact short_leaf rfl rfl hstack
  · exact ShortFrames.replace rfl hstack
  · refine short_builderAppend (hbytes _ fun data hdata => ?_) (Item.shortElements_of_none rfl)
      hstack
    obtain rfl := Option.some.inj hdata
    exact Nat.le_refl _
  · exact short_push rfl hstack
  · exact ShortFrames.replace rfl hstack
  · exact short_leaf rfl rfl hstack
  · exact short_push rfl hstack
  · split_ifs
    · exact short_push rfl hstack
    · exact short_builderAppend (Item.shortBytes_of_none rfl) (hempty .array fun _ => rfl) hstack
  · exact short_push rfl hstack
  · split_ifs
    · exact short_push rfl hstack
    · exact short_leaf rfl rfl hstack
  · exact short_push rfl hstack
  · exact short_push rfl hstack
  · exact short_leaf rfl rfl hstack
  · exact short_leaf rfl rfl hstack
  · exact short_builderAppend (Item.shortBytes_of_none rfl)
      (shortElements_reverse (fun _ => rfl) (hstack _ List.mem_cons_self)) hstack.tail
  · split_ifs
    · exact short_leaf rfl rfl hstack.tail
    · exact trivial
  · refine short_builderAppend (hbytes _ fun data hdata => ?_) (Item.shortElements_of_none rfl)
      hstack.tail
    obtain rfl := Option.some.inj hdata
    exact Nat.zero_le _
  · exact short_leaf rfl rfl hstack.tail
  · exact trivial

theorem shortElements_of_loadLoop {fuel : Nat} {source : Bytes} {root : Item}
    (hsource : source.length ≤ limit) (hstack : ShortFrames limit stack)
    (hload : loadLoop fuel source stack = some root) : root.ShortElements limit := by
  induction fuel generalizing source stack with
  | zero => contradiction
  | succ fuel ih =>
      rw [loadLoop] at hload
      split at hload
      · contradiction
      · rename_i token rest hdecode
        obtain ⟨hcontents, hrest⟩ := length_streamDecode hdecode
        have hshort := short_handleToken (Nat.lt_of_lt_of_le hcontents hsource) hstack
        split at hload
        · rename_i finished hfinished
          obtain rfl := Option.some.inj hload
          rwa [hfinished] at hshort
        · rename_i pending hpending
          rw [hpending] at hshort
          exact ih (Nat.le_trans (Nat.le_of_lt hrest) hsource) hshort hload
        · contradiction

theorem length_lt_of_load {source : Bytes} {root : Item} (hload : load source = some root)
    {items : List Item} (hitems : root.arrayItems = some items) {element : Item}
    (helement : element ∈ items) {data : Bytes} (hdata : element.bytestringData = some data) :
    data.length < source.length :=
  shortElements_of_loadLoop (Nat.le_refl _) (fun _ hframe => absurd hframe List.not_mem_nil) hload
    items hitems element helement data hdata

end Poseidon.Cbor
