import Mathlib.Data.Prod.Lex
import Mathlib.Order.Bounds.Basic

/-!
# Searches

A nested loop that goes through rows `0`, `1`, ... and in each row through one list, and stops at
the first answer, answers from the lexicographically least place that has an answer. A loop that
remembers the least value so far ends with the least of all, at the first index that has it.
-/

namespace Poseidon.Search

variable {α β : Type*}

/-- The places, a row and an index in the list, that have an answer in the first `rows` rows. -/
def places (rows : Nat) (entries : List α) (answer : Nat → α → Option β) : Set (Nat ×ₗ Nat) :=
  {place | (ofLex place).1 < rows ∧
    ∃ entry, entries[(ofLex place).2]? = some entry ∧
      (answer (ofLex place).1 entry).isSome = true}

theorem mem_places {rows : Nat} {entries : List α} {answer : Nat → α → Option β}
    {row index : Nat} :
    toLex (row, index) ∈ places rows entries answer ↔
      row < rows ∧ ∃ entry, entries[index]? = some entry ∧ (answer row entry).isSome = true :=
  Iff.rfl

theorem exists_first_of_findSome? {entries : List α} {answer : α → Option β} {found : β}
    (hfound : entries.findSome? answer = some found) :
    ∃ index entry, entries[index]? = some entry ∧ answer entry = some found ∧
      ∀ (before : Nat) (other : α), before < index → entries[before]? = some other →
        answer other = none := by
  obtain ⟨front, entry, back, rfl, hanswer, hfront⟩ := List.findSome?_eq_some_iff.mp hfound
  refine ⟨front.length, entry, by simp, hanswer, fun before other hbefore hother => ?_⟩
  rw [List.getElem?_append_left hbefore] at hother
  exact hfront other (List.mem_of_getElem? hother)

/-- **Search.** What the nested loop finds stands at the least place. -/
theorem exists_isLeast_of_findSome? {rows : Nat} {entries : List α}
    {answer : Nat → α → Option β} {found : β}
    (hfound : (List.range rows).findSome? (fun row => entries.findSome? (answer row)) =
      some found) :
    ∃ row index entry, IsLeast (places rows entries answer) (toLex (row, index)) ∧
      entries[index]? = some entry ∧ answer row entry = some found := by
  obtain ⟨row, row', hrow, hrowFound, hrows⟩ := exists_first_of_findSome? hfound
  obtain ⟨hrowLt, rfl⟩ : row < rows ∧ row = row' := by
    obtain ⟨hlength, hvalue⟩ := List.getElem?_eq_some_iff.mp hrow
    exact ⟨by simpa using hlength, by simpa using hvalue⟩
  obtain ⟨index, entry, hentry, hanswer, hbefore⟩ := exists_first_of_findSome? hrowFound
  refine ⟨row, index, entry, ⟨mem_places.mpr ⟨hrowLt, entry, hentry, by simp [hanswer]⟩, ?_⟩,
    hentry, hanswer⟩
  rintro place ⟨hplaceRow, other, hother, hsome⟩
  rw [Prod.Lex.le_iff]
  rcases lt_trichotomy row (ofLex place).1 with hless | hsame | hgreater
  · exact Or.inl hless
  · refine Or.inr ⟨hsame, ?_⟩
    by_contra hnot
    rw [← hsame, hbefore _ other (Nat.lt_of_not_le hnot) hother] at hsome
    exact Bool.false_ne_true hsome
  · have hnone := hrows (ofLex place).1 (ofLex place).1 hgreater
      (List.getElem?_range hplaceRow)
    rw [List.findSome?_eq_none_iff.mp hnone other (List.mem_of_getElem? hother)] at hsome
    exact absurd hsome Bool.false_ne_true

theorem findSome?_eq_none_iff_places {rows : Nat} {entries : List α}
    {answer : Nat → α → Option β} :
    (List.range rows).findSome? (fun row => entries.findSome? (answer row)) = none ↔
      places rows entries answer = ∅ := by
  simp only [List.findSome?_eq_none_iff, List.mem_range]
  constructor
  · intro hnone
    apply Set.eq_empty_of_forall_notMem
    rintro place ⟨hrow, entry, hentry, hsome⟩
    rw [hnone _ hrow entry (List.mem_of_getElem? hentry)] at hsome
    exact Bool.false_ne_true hsome
  · intro hempty row hrow entry hmem
    obtain ⟨index, hentry⟩ := List.mem_iff_getElem?.mp hmem
    by_contra hsome
    have hplace : toLex (row, index) ∈ places rows entries answer :=
      mem_places.mpr ⟨hrow, entry, hentry, Option.isSome_iff_ne_none.mpr hsome⟩
    rw [hempty] at hplace
    exact hplace

/-! ### The first least value -/

/-- A loop over indices that remembers the last index whose key was less than all before it, from
an index and a value to begin with. -/
def scanLeast {κ : Type*} [LinearOrder κ] (key : Nat → κ) (start : Nat × κ) (indices : List Nat) :
    Nat × κ :=
  indices.foldl (fun best i => if key i < best.2 then (i, key i) else best) start

section Least

variable {κ : Type*} [LinearOrder κ] (key : Nat → κ)

theorem scanLeast_cases (start : Nat × κ) (indices : List Nat) :
    scanLeast key start indices = start ∨
      ∃ i ∈ indices, scanLeast key start indices = (i, key i) ∧ key i < start.2 := by
  induction indices generalizing start with
  | nil => exact Or.inl rfl
  | cons i indices ih =>
      by_cases hless : key i < start.2
      · have hnext : scanLeast key start (i :: indices) = scanLeast key (i, key i) indices := by
          simp only [scanLeast, List.foldl_cons, if_pos hless]
        rw [hnext]
        obtain hsame | ⟨j, hj, hscan, hlt⟩ := ih (i, key i)
        · exact Or.inr ⟨i, List.mem_cons_self, hsame, hless⟩
        · exact Or.inr ⟨j, List.mem_cons_of_mem _ hj, hscan, hlt.trans hless⟩
      · have hnext : scanLeast key start (i :: indices) = scanLeast key start indices := by
          simp only [scanLeast, List.foldl_cons, if_neg hless]
        rw [hnext]
        obtain hsame | ⟨j, hj, hscan, hlt⟩ := ih start
        · exact Or.inl hsame
        · exact Or.inr ⟨j, List.mem_cons_of_mem _ hj, hscan, hlt⟩

theorem scanLeast_le_start (start : Nat × κ) (indices : List Nat) :
    (scanLeast key start indices).2 ≤ start.2 := by
  obtain hsame | ⟨i, -, hscan, hlt⟩ := scanLeast_cases key start indices
  · rw [hsame]
  · rw [hscan]
    exact hlt.le

theorem scanLeast_le {start : Nat × κ} {indices : List Nat} {i : Nat} (hi : i ∈ indices) :
    (scanLeast key start indices).2 ≤ key i := by
  induction indices generalizing start with
  | nil => exact absurd hi List.not_mem_nil
  | cons j indices ih =>
      obtain rfl | hrest := List.mem_cons.mp hi
      · refine (scanLeast_le_start key _ indices).trans ?_
        dsimp only
        split_ifs with hless
        · exact le_refl _
        · exact le_of_not_gt hless
      · exact ih hrest

theorem scanLeast_lt {start : Nat × κ} {indices : List Nat} {i : Nat}
    (hsorted : indices.Pairwise (· < ·)) (hstart : ∀ j ∈ indices, start.1 < j)
    (hi : i ∈ indices) (hbefore : i < (scanLeast key start indices).1) :
    (scanLeast key start indices).2 < key i := by
  induction indices generalizing start with
  | nil => exact absurd hi List.not_mem_nil
  | cons j indices ih =>
      obtain ⟨hhead, htail⟩ := List.pairwise_cons.mp hsorted
      have hnext : scanLeast key start (j :: indices) =
          scanLeast key (if key j < start.2 then (j, key j) else start) indices := rfl
      rw [hnext] at hbefore ⊢
      obtain rfl | hrest := List.mem_cons.mp hi
      · have hself := hstart i List.mem_cons_self
        split_ifs at hbefore ⊢ with hless
        · obtain hsame | ⟨k, -, hscan, hlt⟩ := scanLeast_cases key (i, key i) indices
          · rw [hsame] at hbefore
            exact absurd hbefore (Nat.lt_irrefl i)
          · rw [hscan]
            exact hlt
        · obtain hsame | ⟨k, -, hscan, hlt⟩ := scanLeast_cases key start indices
          · rw [hsame] at hbefore
            omega
          · rw [hscan]
            exact hlt.trans_le (le_of_not_gt hless)
      · refine ih htail ?_ hrest hbefore
        intro k hk
        split_ifs
        · exact hhead k hk
        · exact hstart k (List.mem_cons_of_mem _ hk)

end Least

end Poseidon.Search
