import Mathlib.Data.List.GetD
import Mathlib.Data.List.Induction
import Mathlib.Data.List.Zip
import Poseidon.Bloom.Bitset

/-!
# The order of buffers

`buffer_compare` goes over the bytes both buffers have and remembers those that differ, the later
ones in the place of the earlier ones; `bitset_compare` stops at the first. So the one is decided by
the last difference and the other, as the lexicographic order is, by the first.
-/

namespace Poseidon

/-- `buffer_t`: its bytes, whose number is `size`. -/
structure Buffer where
  data : Bytes
deriving DecidableEq, Repr

namespace Buffer

def size (buf : Buffer) : Nat :=
  buf.data.length

def getIndex (buf : Buffer) (index : Nat) : UInt8 :=
  buf.data.getD index 0

/-- `buffer_compare`. The loop goes on behind a difference. -/
def compare (buf1 buf2 : Buffer) : Int :=
  let length := if buf2.size > buf1.size then buf1.size else buf2.size
  let tails := (List.range length).foldl (fun tails i =>
    let val1 := buf1.getIndex i
    let val2 := buf2.getIndex i
    if val1 != val2 then (val1.toNat, val2.toNat) else tails) (buf1.size, buf2.size)
  if tails.1 > tails.2 then 1 else if tails.2 > tails.1 then -1 else 0

end Buffer

/-- `compare_buffer`, the comparison of the hash maps. -/
def compareBuffer (data1 data2 : Buffer) : Int :=
  data1.compare data2

/-! ### What decides -/

def orderSign : Ordering → Int
  | .lt => -1
  | .eq => 0
  | .gt => 1

/-- The lexicographic order of strings of bytes: a proper prefix is smaller. -/
def lexicographic (left right : Bytes) : Int :=
  orderSign (compare left right)

/-- The pairs of bytes at one place that differ. -/
def differences (left right : Bytes) : List (UInt8 × UInt8) :=
  (left.zip right).filter fun pair => pair.1 != pair.2

/-- The order by a pair of bytes, or by the lengths where there is none. -/
def decidedBy (left right : Bytes) : Option (UInt8 × UInt8) → Int
  | some pair => Bitset.compareTails pair.1.toNat pair.2.toNat
  | none => Bitset.compareTails left.length right.length

theorem map_range_getD (left right : Bytes) :
    (List.range (min left.length right.length)).map (fun i => (left.getD i 0, right.getD i 0)) =
      left.zip right := by
  apply List.ext_getElem
  · rw [List.length_map, List.length_range, List.length_zip]
  · intro i hmap hzip
    rw [List.length_zip, Nat.lt_min] at hzip
    rw [List.getElem_map, List.getElem_range, List.getElem_zip,
      List.getD_eq_getElem _ _ hzip.1, List.getD_eq_getElem _ _ hzip.2]

theorem foldl_overwrite {α β : Type*} (p : α → Bool) (f : α → β) (items : List α) (start : β) :
    items.foldl (fun kept item => if p item then f item else kept) start =
      ((items.filter p).getLast?.map f).getD start := by
  induction items using List.reverseRecOn with
  | nil => rfl
  | append_singleton items item ih =>
      rw [List.foldl_append, ih, List.filter_append]
      cases hitem : p item with
      | true => simp [hitem]
      | false => simp [hitem]

theorem min_eq_ite (a b : Nat) : (if a < b then a else b) = min a b := by
  rw [Nat.min_def]
  split_ifs <;> omega

theorem Bitset.compare_eq_decidedBy (a b : Bitset) :
    a.compare b = decidedBy a.data b.data (differences a.data b.data).head? := by
  rw [differences, List.head?_filter, ← map_range_getD, List.find?_map]
  have hlength : (if a.size < b.size then a.size else b.size) =
      min a.data.length b.data.length := min_eq_ite _ _
  unfold Bitset.compare
  dsimp only
  rw [hlength]
  change _ = decidedBy _ _ (((List.range (min a.data.length b.data.length)).find? fun i =>
    a.data.getD i 0 != b.data.getD i 0).map fun i => (a.data.getD i 0, b.data.getD i 0))
  cases (List.range (min a.data.length b.data.length)).find? fun i =>
      a.data.getD i 0 != b.data.getD i 0 with
  | none => rfl
  | some i => rfl

theorem Buffer.compare_eq_decidedBy (buf1 buf2 : Buffer) :
    buf1.compare buf2 =
      decidedBy buf1.data buf2.data (differences buf1.data buf2.data).getLast? := by
  have hlength : (if buf2.size > buf1.size then buf1.size else buf2.size) =
      min buf1.data.length buf2.data.length := min_eq_ite _ _
  have hloop : (List.range (min buf1.data.length buf2.data.length)).foldl (fun tails i =>
      if buf1.getIndex i != buf2.getIndex i then
        ((buf1.getIndex i).toNat, (buf2.getIndex i).toNat) else tails) (buf1.size, buf2.size) =
      ((differences buf1.data buf2.data).getLast?.map fun pair =>
        (pair.1.toNat, pair.2.toNat)).getD (buf1.size, buf2.size) := by
    rw [differences, ← foldl_overwrite, ← map_range_getD, List.foldl_map]
    rfl
  unfold Buffer.compare
  dsimp only
  rw [hlength, hloop]
  cases (differences buf1.data buf2.data).getLast? with
  | none => rfl
  | some pair => rfl

theorem compareTails_toNat (left right : UInt8) :
    Bitset.compareTails left.toNat right.toNat = orderSign (compare left right) := by
  change _ = orderSign (compareOfLessAndEq left right)
  unfold compareOfLessAndEq Bitset.compareTails
  rcases Nat.lt_trichotomy left.toNat right.toNat with hless | hsame | hgreater
  · rw [if_neg (by omega), if_pos hless, if_pos (UInt8.lt_iff_toNat_lt.mpr hless)]
    rfl
  · have hequal := UInt8.toNat_inj.mp hsame
    rw [if_neg (by omega), if_neg (by omega), if_neg (by rw [UInt8.lt_iff_toNat_lt]; omega),
      if_pos hequal]
    rfl
  · have hne : left ≠ right := fun hequal => by rw [hequal] at hgreater; omega
    rw [if_pos hgreater, if_neg (by rw [UInt8.lt_iff_toNat_lt]; omega), if_neg hne]
    rfl

theorem differences_cons_self (byte : UInt8) (left right : Bytes) :
    differences (byte :: left) (byte :: right) = differences left right := by
  unfold differences
  rw [List.zip_cons_cons, List.filter_cons_of_neg]
  simp

theorem differences_cons_of_ne {byte other : UInt8} (hne : byte ≠ other) (left right : Bytes) :
    differences (byte :: left) (other :: right) = (byte, other) :: differences left right := by
  unfold differences
  rw [List.zip_cons_cons, List.filter_cons_of_pos]
  exact bne_iff_ne.mpr hne

theorem decidedBy_cons (byte other : UInt8) (left right : Bytes)
    (pair : Option (UInt8 × UInt8)) :
    decidedBy (byte :: left) (other :: right) pair = decidedBy left right pair := by
  cases pair with
  | none =>
      unfold decidedBy Bitset.compareTails
      rw [List.length_cons, List.length_cons]
      split_ifs <;> omega
  | some pair => rfl

theorem lexicographic_eq_decidedBy (left right : Bytes) :
    lexicographic left right = decidedBy left right (differences left right).head? := by
  induction left generalizing right with
  | nil =>
      cases right with
      | nil => rfl
      | cons other right => rw [lexicographic, List.compare_nil_cons]; rfl
  | cons byte left ih =>
      cases right with
      | nil => rw [lexicographic, List.compare_cons_nil]; rfl
      | cons other right =>
          rw [lexicographic, List.compare_cons_cons]
          by_cases hsame : byte = other
          · subst hsame
            have hself : compare byte byte = .eq := Std.ReflCmp.compare_self
            rw [differences_cons_self, decidedBy_cons, ← ih, lexicographic, hself,
              Ordering.eq_then]
          · have hne : compare byte other ≠ .eq := fun heq =>
              hsame (Std.LawfulEqCmp.eq_of_compare heq)
            rw [differences_cons_of_ne hsame, List.head?_cons, decidedBy, compareTails_toNat]
            cases hbyte : compare byte other with
            | lt => rfl
            | eq => exact absurd hbyte hne
            | gt => rfl

theorem Bitset.compare_eq_lexicographic (a b : Bitset) :
    a.compare b = lexicographic a.data b.data := by
  rw [Bitset.compare_eq_decidedBy, lexicographic_eq_decidedBy]

/-! ### When the last difference agrees with the first -/

/-- At the first and at the last place where the strings differ, the smaller byte is in the same
string. -/
def SameDirection (left right : Bytes) : Prop :=
  ∀ first ∈ (differences left right).head?, ∀ last ∈ (differences left right).getLast?,
    (first.1 < first.2 ↔ last.1 < last.2)

theorem ne_of_mem_differences {left right : Bytes} {pair : UInt8 × UInt8}
    (hpair : pair ∈ differences left right) : pair.1.toNat ≠ pair.2.toNat := by
  have hne := (List.mem_filter.mp hpair).2
  rw [bne_iff_ne] at hne
  exact fun hsame => hne (UInt8.toNat_inj.mp hsame)

theorem compareTails_eq_iff {first last : UInt8 × UInt8} (hfirst : first.1.toNat ≠ first.2.toNat)
    (hlast : last.1.toNat ≠ last.2.toNat) :
    Bitset.compareTails last.1.toNat last.2.toNat =
        Bitset.compareTails first.1.toNat first.2.toNat ↔
      (first.1 < first.2 ↔ last.1 < last.2) := by
  rw [UInt8.lt_iff_toNat_lt, UInt8.lt_iff_toNat_lt]
  unfold Bitset.compareTails
  split_ifs <;> simp <;> omega

theorem decidedBy_getLast?_eq_head?_iff (left right : Bytes) :
    decidedBy left right (differences left right).getLast? =
        decidedBy left right (differences left right).head? ↔
      SameDirection left right := by
  unfold SameDirection
  cases hfirst : (differences left right).head? with
  | none =>
      rw [List.head?_eq_none_iff.mp hfirst]
      exact iff_of_true rfl fun first hnone => absurd hnone (by simp)
  | some first =>
      have hne : differences left right ≠ [] := by
        intro hnil
        rw [hnil] at hfirst
        cases hfirst
      have hlast := List.getLast?_eq_some_getLast hne
      rw [hlast, decidedBy, decidedBy,
        compareTails_eq_iff (ne_of_mem_differences (List.mem_of_head? hfirst))
          (ne_of_mem_differences (List.getLast_mem hne))]
      constructor
      · rintro hiff first' hfirst' last hlast'
        obtain rfl := Option.some.inj hfirst'
        obtain rfl := Option.some.inj hlast'
        exact hiff
      · intro hsame
        exact hsame first rfl _ rfl

/-! ### The order laws -/

theorem orderSign_eq_zero_iff (order : Ordering) : orderSign order = 0 ↔ order = .eq := by
  cases order <;> decide

theorem orderSign_nonpos_iff (order : Ordering) : orderSign order ≤ 0 ↔ order.isLE = true := by
  cases order <;> decide

theorem lexicographic_eq_zero_iff (left right : Bytes) :
    lexicographic left right = 0 ↔ left = right := by
  rw [lexicographic, orderSign_eq_zero_iff]
  exact Std.LawfulEqCmp.compare_eq_iff_eq

theorem lexicographic_trans {left middle right : Bytes} (hleft : lexicographic left middle ≤ 0)
    (hright : lexicographic middle right ≤ 0) : lexicographic left right ≤ 0 := by
  rw [lexicographic, orderSign_nonpos_iff] at hleft hright ⊢
  exact Std.TransCmp.isLE_trans hleft hright

theorem decidedBy_ne_zero {left right : Bytes} {pair : UInt8 × UInt8}
    (hpair : pair ∈ differences left right) : decidedBy left right (some pair) ≠ 0 := by
  have hne := ne_of_mem_differences hpair
  change Bitset.compareTails pair.1.toNat pair.2.toNat ≠ 0
  unfold Bitset.compareTails
  split_ifs with hgreater hless
  · decide
  · decide
  · omega

theorem differences_swap (left right : Bytes) :
    differences right left = (differences left right).map Prod.swap := by
  unfold differences
  rw [← List.zip_swap left right, List.filter_map]
  refine congrArg (List.map Prod.swap) (List.filter_congr fun pair _ => ?_)
  exact bne_comm

theorem decidedBy_swap (left right : Bytes) (pair : Option (UInt8 × UInt8)) :
    decidedBy right left (pair.map Prod.swap) = -decidedBy left right pair := by
  cases pair with
  | none =>
      unfold decidedBy Bitset.compareTails
      dsimp only [Option.map_none]
      split_ifs <;> omega
  | some pair =>
      unfold decidedBy Bitset.compareTails
      dsimp only [Option.map_some, Prod.fst_swap, Prod.snd_swap]
      split_ifs <;> omega

namespace Buffer

theorem compare_eq_zero_iff (buf1 buf2 : Buffer) : buf1.compare buf2 = 0 ↔ buf1 = buf2 := by
  have hdata : buf1.data = buf2.data ↔ buf1 = buf2 := by
    cases buf1
    cases buf2
    rw [Buffer.mk.injEq]
  rw [compare_eq_decidedBy, ← hdata, ← lexicographic_eq_zero_iff, lexicographic_eq_decidedBy]
  cases hdifferences : differences buf1.data buf2.data with
  | nil => rfl
  | cons first others =>
      have hmem : ∀ pair ∈ first :: others, pair ∈ differences buf1.data buf2.data := by
        rw [hdifferences]
        exact fun pair hpair => hpair
      have hlast := List.getLast?_eq_some_getLast (List.cons_ne_nil first others)
      rw [hlast, List.head?_cons]
      refine iff_of_false (decidedBy_ne_zero (hmem _ (List.getLast_mem _)))
        (decidedBy_ne_zero (hmem _ List.mem_cons_self))

theorem compare_swap (buf1 buf2 : Buffer) : buf2.compare buf1 = -buf1.compare buf2 := by
  rw [compare_eq_decidedBy, compare_eq_decidedBy, differences_swap, List.getLast?_map,
    decidedBy_swap]

theorem compare_eq_lexicographic_iff (buf1 buf2 : Buffer) :
    buf1.compare buf2 = lexicographic buf1.data buf2.data ↔
      SameDirection buf1.data buf2.data := by
  rw [compare_eq_decidedBy, lexicographic_eq_decidedBy, decidedBy_getLast?_eq_head?_iff]

/-- **Order of buffers.** Two buffers are in lexicographic order, as their bytes are by
`bitset_compare`, exactly if their first and their last difference have the same direction; and
buffers that have are in a total order. Only equal buffers compare as equal. -/
theorem compare_lexicographic_iff (buf1 buf2 : Buffer) :
    ((compareBuffer buf1 buf2 = lexicographic buf1.data buf2.data ∧
        compareBuffer buf1 buf2 = Bitset.compare ⟨buf1.data⟩ ⟨buf2.data⟩) ↔
      SameDirection buf1.data buf2.data) ∧
    (compareBuffer buf1 buf2 = 0 ↔ buf1 = buf2) ∧
    compareBuffer buf2 buf1 = -compareBuffer buf1 buf2 ∧
    ∀ buf3 : Buffer, SameDirection buf1.data buf2.data → SameDirection buf2.data buf3.data →
      SameDirection buf1.data buf3.data → compareBuffer buf1 buf2 ≤ 0 →
      compareBuffer buf2 buf3 ≤ 0 → compareBuffer buf1 buf3 ≤ 0 := by
  unfold compareBuffer
  refine ⟨?_, compare_eq_zero_iff buf1 buf2, compare_swap buf1 buf2, ?_⟩
  · rw [Bitset.compare_eq_lexicographic, and_self_iff, compare_eq_lexicographic_iff]
  · intro buf3 h12 h23 h13 hle hle'
    rw [(compare_eq_lexicographic_iff _ _).mpr h12] at hle
    rw [(compare_eq_lexicographic_iff _ _).mpr h23] at hle'
    rw [(compare_eq_lexicographic_iff _ _).mpr h13]
    exact lexicographic_trans hle hle'

/-- The last difference decides where the first should, and three buffers are in a cycle. -/
theorem compare_not_lexicographic :
    (compareBuffer ⟨[1, 2]⟩ ⟨[2, 1]⟩ = 1 ∧ lexicographic [1, 2] [2, 1] = -1 ∧
      Bitset.compare ⟨[1, 2]⟩ ⟨[2, 1]⟩ = -1) ∧
    compareBuffer ⟨[5, 1]⟩ ⟨[6]⟩ = -1 ∧ compareBuffer ⟨[6]⟩ ⟨[7, 0]⟩ = -1 ∧
      compareBuffer ⟨[7, 0]⟩ ⟨[5, 1]⟩ = -1 := by
  decide

end Buffer

end Poseidon
