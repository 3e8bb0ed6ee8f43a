import Mathlib.Data.Finset.Card
import Mathlib.Data.List.Nodup
import Mathlib.Logic.Function.Basic

/-!
# Free lists in memory

Blocks of one size lie next to each other in an array. Those not in use form a list whose links are
kept in the blocks themselves: the first word of a block is the address of the next block, and 0
ends the list. The words outside the listed blocks do not matter, so that a program may write
whatever it likes into the blocks it has been given.

A list enumerates the blocks in one of the places a block can be in if it has each of them once.
-/

namespace Poseidon.FreeList

open Function (update update_self update_of_ne)

/-! ### Chains -/

/-- Following the first words from the pointer passes these blocks and comes to null. -/
def Chain (memory : Nat → Nat) : Nat → List Nat → Prop
  | pointer, [] => pointer = 0
  | pointer, address :: rest =>
      pointer = address ∧ address ≠ 0 ∧ Chain memory (memory address) rest

section Chain

variable {memory other : Nat → Nat} {pointer : Nat} {entries : List Nat}

variable (hchain : Chain memory pointer entries)

include hchain

theorem Chain.eq_zero_iff : pointer = 0 ↔ entries = [] := by
  cases entries with
  | nil => exact iff_of_true hchain rfl
  | cons address rest =>
      refine iff_of_false ?_ (List.cons_ne_nil _ _)
      rw [hchain.1]
      exact hchain.2.1

/-- A chain depends on the first words of its own blocks only. -/
theorem Chain.congr (hsame : ∀ address ∈ entries, other address = memory address) :
    Chain other pointer entries := by
  induction entries generalizing pointer with
  | nil => exact hchain
  | cons address rest ih =>
      rw [List.forall_mem_cons] at hsame
      refine ⟨hchain.1, hchain.2.1, ?_⟩
      rw [hsame.1]
      exact ih hchain.2.2 hsame.2

/-- `block->next = head; head = block`. -/
theorem Chain.push {address : Nat} (hnull : address ≠ 0) (hfresh : address ∉ entries) :
    Chain (update memory address pointer) address (address :: entries) := by
  refine ⟨rfl, hnull, ?_⟩
  rw [update_self]
  refine hchain.congr fun known hknown => update_of_ne ?_ _ _
  rintro rfl
  exact hfresh hknown

end Chain

/-! ### Blocks of an array -/

def blocks (start size total : Nat) : List Nat :=
  (List.range total).map fun i => start + i * size

theorem mem_blocks {start size total address : Nat} :
    address ∈ blocks start size total ↔ ∃ i < total, start + i * size = address := by
  simp only [blocks, List.mem_map, List.mem_range]

@[simp]
theorem length_blocks (start size total : Nat) : (blocks start size total).length = total := by
  rw [blocks, List.length_map, List.length_range]

theorem nodup_blocks {start size total : Nat} (hsize : 0 < size) :
    (blocks start size total).Nodup := by
  refine List.nodup_range.map fun i j hij => ?_
  exact Nat.eq_of_mul_eq_mul_right hsize (Nat.add_left_cancel hij)

theorem le_of_mem_blocks {start size total address : Nat}
    (hmem : address ∈ blocks start size total) : start ≤ address := by
  obtain ⟨i, -, rfl⟩ := mem_blocks.mp hmem
  exact Nat.le_add_right _ _

theorem add_size_le_of_mem_blocks {start size total address : Nat}
    (hmem : address ∈ blocks start size total) : address + size ≤ start + size * total := by
  obtain ⟨i, hi, rfl⟩ := mem_blocks.mp hmem
  calc start + i * size + size = start + size * (i + 1) := by
        rw [Nat.add_assoc, Nat.mul_add, Nat.mul_one, Nat.mul_comm]
    _ ≤ start + size * total := Nat.add_le_add_left (Nat.mul_le_mul_left size hi) start

theorem add_size_le_or_of_mem_blocks {start size total first second : Nat}
    (hfirst : first ∈ blocks start size total) (hsecond : second ∈ blocks start size total)
    (hne : first ≠ second) : first + size ≤ second ∨ second + size ≤ first := by
  obtain ⟨i, -, rfl⟩ := mem_blocks.mp hfirst
  obtain ⟨j, -, rfl⟩ := mem_blocks.mp hsecond
  have hindex : i ≠ j := fun heq => hne (heq ▸ rfl)
  have hstep : ∀ {a b : Nat}, a < b → start + a * size + size ≤ start + b * size := by
    intro a b hab
    calc start + a * size + size = start + (a + 1) * size := by rw [Nat.add_mul]; omega
      _ ≤ start + b * size := Nat.add_le_add_left (Nat.mul_le_mul_right size hab) start
  rcases Nat.lt_or_gt_of_ne hindex with hlt | hgt
  · exact Or.inl (hstep hlt)
  · exact Or.inr (hstep hgt)

/-! ### Linking all blocks -/

/-- The first words after `count` rounds of the loop that links each block to the next one. -/
def link (memory : Nat → Nat) (start size : Nat) : Nat → Nat → Nat
  | 0 => memory
  | count + 1 => update (link memory start size count) (start + count * size)
      (start + (count + 1) * size)

variable {memory : Nat → Nat}

theorem link_block {start size : Nat} (hsize : 0 < size) (count i : Nat) :
    link memory start size count (start + i * size) =
      if i < count then start + (i + 1) * size else memory (start + i * size) := by
  induction count with
  | zero => rfl
  | succ count ih =>
      rw [link]
      by_cases hi : i = count
      · subst hi
        rw [update_self, if_pos (Nat.lt_succ_self i)]
      · have hother : start + i * size ≠ start + count * size := fun heq =>
          hi (Nat.eq_of_mul_eq_mul_right hsize (Nat.add_left_cancel heq))
        rw [update_of_ne hother, ih]
        simp only [Nat.lt_succ_iff, Nat.lt_iff_le_and_ne, hi, ne_eq, not_false_eq_true, and_true]

/-- All blocks are linked in their order, and the last one is given null. -/
def linkAll (memory : Nat → Nat) (start size total : Nat) : Nat → Nat :=
  update (link memory start size (total - 1)) (start + (total - 1) * size) 0

theorem linkAll_of_not_mem {start size total address : Nat} (htotal : 0 < total)
    (hother : address ∉ blocks start size total) :
    linkAll memory start size total address = memory address := by
  have hblock : ∀ i < total, address ≠ start + i * size := by
    rintro i hi rfl
    exact hother (mem_blocks.mpr ⟨i, hi, rfl⟩)
  have hlink : ∀ count ≤ total, link memory start size count address = memory address := by
    intro count
    induction count with
    | zero => exact fun _ => rfl
    | succ count ih =>
        intro hcount
        rw [link, update_of_ne (hblock count hcount), ih (Nat.le_of_succ_le hcount)]
  rw [linkAll, update_of_ne (hblock _ (by omega)), hlink _ (by omega)]

theorem chain_linkAll {start size total : Nat} (hstart : 0 < start) (hsize : 0 < size)
    (htotal : 0 < total) :
    Chain (linkAll memory start size total) start (blocks start size total) := by
  -- by induction over the number of blocks behind the one with index `i`
  have hfrom : ∀ behind i, i + behind + 1 = total →
      Chain (linkAll memory start size total) (start + i * size)
        ((List.range' i (behind + 1)).map fun i => start + i * size) := by
    intro behind
    induction behind with
    | zero =>
        intro i hi
        obtain rfl : total = i + 1 := by omega
        refine ⟨rfl, Nat.ne_of_gt (Nat.add_pos_left hstart _), ?_⟩
        rw [linkAll, Nat.add_sub_cancel, update_self]
        rfl
    | succ behind ih =>
        intro i hi
        refine ⟨rfl, Nat.ne_of_gt (Nat.add_pos_left hstart _), ?_⟩
        have hother : start + i * size ≠ start + (total - 1) * size := fun heq => by
          have := Nat.eq_of_mul_eq_mul_right hsize (Nat.add_left_cancel heq)
          omega
        rw [linkAll, update_of_ne hother, link_block hsize, if_pos (by omega), ← linkAll]
        exact ih (i + 1) (by omega)
  have hall := hfrom (total - 1) 0 (by omega)
  rw [Nat.zero_mul, Nat.add_zero, Nat.sub_add_cancel htotal, ← List.range_eq_range'] at hall
  exact hall

/-! ### Enumerations -/

/-- The list has each element of the predicate once. -/
structure Enumerates {α : Type*} (entries : List α) (p : α → Prop) : Prop where
  nodup : entries.Nodup
  mem_iff : ∀ a, a ∈ entries ↔ p a

namespace Enumerates

variable {α : Type*} {entries : List α} {p q : α → Prop} {a : α}

theorem congr (henum : Enumerates entries p) (hiff : ∀ a, p a ↔ q a) : Enumerates entries q :=
  ⟨henum.nodup, fun a => (henum.mem_iff a).trans (hiff a)⟩

theorem push (henum : Enumerates entries p) (hfresh : ¬ p a) :
    Enumerates (a :: entries) fun b => b = a ∨ p b := by
  refine ⟨List.nodup_cons.mpr ⟨fun hmem => hfresh ((henum.mem_iff a).mp hmem), henum.nodup⟩, ?_⟩
  intro b
  rw [List.mem_cons, henum.mem_iff]

theorem pop (henum : Enumerates (a :: entries) p) :
    Enumerates entries fun b => b ≠ a ∧ p b := by
  obtain ⟨hnotMem, hnodup⟩ := List.nodup_cons.mp henum.nodup
  refine ⟨hnodup, fun b => ?_⟩
  rw [← henum.mem_iff, List.mem_cons]
  constructor
  · intro hmem
    exact ⟨fun heq => hnotMem (heq ▸ hmem), Or.inr hmem⟩
  · rintro ⟨hne, heq | hmem⟩
    · exact absurd heq hne
    · exact hmem

/-! A function gives each element its place; a list enumerates those of a set in one place. -/

section Places

variable {β : Type*} [DecidableEq α] {place : α → β} {within : α → Prop} {here there : β}

theorem update_of_ne (henum : Enumerates entries fun b => within b ∧ place b = here)
    (hbefore : within a → place a ≠ here) (hafter : within a → there ≠ here) :
    Enumerates entries fun b => within b ∧ update place a there b = here := by
  refine henum.congr fun b => and_congr_right fun hb => ?_
  by_cases hba : b = a
  · subst hba
    rw [update_self]
    exact iff_of_false (hbefore hb) (hafter hb)
  · rw [Function.update_of_ne hba]

theorem update_push (henum : Enumerates entries fun b => within b ∧ place b = here)
    (ha : within a) (hbefore : place a ≠ here) :
    Enumerates (a :: entries) fun b => within b ∧ update place a here b = here := by
  refine (henum.push fun hboth => hbefore hboth.2).congr fun b => ?_
  by_cases hba : b = a
  · subst hba
    rw [update_self]
    exact iff_of_true (Or.inl rfl) ⟨ha, rfl⟩
  · rw [Function.update_of_ne hba]
    exact or_iff_right hba

theorem update_pop (henum : Enumerates (a :: entries) fun b => within b ∧ place b = here)
    (hafter : there ≠ here) :
    Enumerates entries fun b => within b ∧ update place a there b = here := by
  refine henum.pop.congr fun b => ?_
  by_cases hba : b = a
  · subst hba
    rw [update_self]
    exact iff_of_false (fun hboth => hboth.1 rfl) (fun hboth => hafter hboth.2)
  · rw [Function.update_of_ne hba]
    exact and_iff_right hba

end Places

theorem length_eq_card [DecidableEq α] [DecidablePred p] (henum : Enumerates entries p)
    {candidates : Finset α} (hmem : ∀ a, p a → a ∈ candidates) :
    entries.length = (candidates.filter p).card := by
  rw [← List.toFinset_card_of_nodup henum.nodup]
  congr 1
  ext a
  rw [List.mem_toFinset, henum.mem_iff, Finset.mem_filter]
  exact ⟨fun hp => ⟨hmem a hp, hp⟩, And.right⟩

end Enumerates

end Poseidon.FreeList
