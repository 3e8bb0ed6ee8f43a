import Mathlib.Data.List.AList
import Mathlib.Data.List.Nodup

/-!
# Doubly linked lists in memory

The cells of a list lie in a heap and point to their neighbours. A list is well linked if following
the next pointers from its first cell and the previous pointers from its last one passes the same
entries, in opposite orders. A segment is a part of such a list between two pointers; it is cut and
joined at its ends by writing one pointer there.
-/

namespace Poseidon.Links

variable {α : Type*}

structure Cell (α : Type*) where
  value : α
  next : Option Nat
  previous : Option Nat
deriving DecidableEq, Repr

abbrev Heap (α : Type*) := AList fun _ : Nat => Cell α

namespace Heap

/-- `pointer->next = target`; there is no result if nothing is allocated there. -/
def setNext (heap : Heap α) (pointer target : Option Nat) : Option (Heap α) :=
  pointer.bind fun address =>
    (heap.lookup address).map fun cell => heap.insert address { cell with next := target }

/-- `pointer->previous = target`. -/
def setPrevious (heap : Heap α) (pointer target : Option Nat) : Option (Heap α) :=
  pointer.bind fun address =>
    (heap.lookup address).map fun cell => heap.insert address { cell with previous := target }

/-- `if (pointer != NULL) pointer->next = target`. -/
def setNextIf (heap : Heap α) (pointer target : Option Nat) : Option (Heap α) :=
  if pointer.isSome then heap.setNext pointer target else some heap

/-- `if (pointer != NULL) pointer->previous = target`. -/
def setPreviousIf (heap : Heap α) (pointer target : Option Nat) : Option (Heap α) :=
  if pointer.isSome then heap.setPrevious pointer target else some heap

theorem ne_of_lookup_erase {heap : Heap α} {known freed : Nat} {cell : Cell α}
    (hcell : (heap.erase freed).lookup known = some cell) : known ≠ freed := by
  rintro rfl
  rw [AList.lookup_erase] at hcell
  cases hcell

end Heap

/-! ### Following pointers -/

/-- Following a link from the pointer passes these entries and comes to null. -/
def Walk (link : Cell α → Option Nat) (heap : Heap α) : Option Nat → List (Nat × α) → Prop
  | pointer, [] => pointer = none
  | pointer, (address, value) :: entries =>
      pointer = some address ∧ ∃ cell, heap.lookup address = some cell ∧ cell.value = value ∧
        Walk link heap (link cell) entries

/-- The address of the first entry, or what follows where there is none. -/
def headOr (entries : List (Nat × α)) (after : Option Nat) : Option Nat :=
  (entries.head?.map Prod.fst).or after

def lastOr (entries : List (Nat × α)) (before : Option Nat) : Option Nat :=
  (entries.getLast?.map Prod.fst).or before

@[simp]
theorem headOr_nil (after : Option Nat) : headOr ([] : List (Nat × α)) after = after := rfl

@[simp]
theorem headOr_cons (entry : Nat × α) (entries : List (Nat × α)) (after : Option Nat) :
    headOr (entry :: entries) after = some entry.1 := rfl

@[simp]
theorem lastOr_nil (before : Option Nat) : lastOr ([] : List (Nat × α)) before = before := rfl

@[simp]
theorem lastOr_concat (entries : List (Nat × α)) (entry : Nat × α) (before : Option Nat) :
    lastOr (entries ++ [entry]) before = some entry.1 := by
  rw [lastOr, List.getLast?_concat]
  rfl

theorem lastOr_cons (entry : Nat × α) (entries : List (Nat × α)) (before : Option Nat) :
    lastOr (entry :: entries) before = lastOr entries (some entry.1) := by
  unfold lastOr
  rw [List.getLast?_cons]
  cases entries.getLast? <;> rfl

theorem headOr_append (front back : List (Nat × α)) (after : Option Nat) :
    headOr (front ++ back) after = headOr front (headOr back after) := by
  cases front <;> rfl

theorem headOr_reverse (entries : List (Nat × α)) (before : Option Nat) :
    headOr entries.reverse before = lastOr entries before := by
  rw [headOr, lastOr, List.head?_reverse]

section Walk

variable {link : Cell α → Option Nat} {heap : Heap α}

variable {pointer : Option Nat}

theorem Walk.pointer_eq {entries : List (Nat × α)} (hwalk : Walk link heap pointer entries) :
    pointer = headOr entries none := by
  cases entries with
  | nil => exact hwalk
  | cons entry entries => exact hwalk.1

theorem Walk.unique {entries others : List (Nat × α)} (hwalk : Walk link heap pointer entries)
    (hother : Walk link heap pointer others) : entries = others := by
  induction entries generalizing pointer others with
  | nil =>
      cases others with
      | nil => rfl
      | cons entry others =>
          have hnull : pointer = none := hwalk
          cases hnull.symm.trans hother.1
  | cons entry entries ih =>
      cases others with
      | nil =>
          have hnull : pointer = none := hother
          cases hnull.symm.trans hwalk.1
      | cons other others =>
          obtain ⟨hpointer, cell, hcell, hvalue, hrest⟩ := hwalk
          obtain ⟨hpointer', cell', hcell', hvalue', hrest'⟩ := hother
          have haddress : entry.1 = other.1 := Option.some.inj (hpointer.symm.trans hpointer')
          rw [← haddress, hcell] at hcell'
          obtain rfl := Option.some.inj hcell'
          rw [ih hrest hrest', Prod.ext haddress (hvalue.symm.trans hvalue')]

theorem Walk.suffix {front back : List (Nat × α)} (hwalk : Walk link heap pointer (front ++ back)) :
    Walk link heap (headOr back none) back := by
  induction front generalizing pointer with
  | nil => exact hwalk.pointer_eq ▸ hwalk
  | cons entry front ih =>
      obtain ⟨-, cell, -, -, hrest⟩ := hwalk
      exact ih hrest

/-- No address is passed twice: the walk would go round for ever. -/
theorem Walk.nodup {entries : List (Nat × α)} (hwalk : Walk link heap pointer entries) :
    (entries.map Prod.fst).Nodup := by
  induction entries generalizing pointer with
  | nil => exact List.nodup_nil
  | cons entry entries ih =>
      have hwhole := hwalk
      obtain ⟨hpointer, cell, -, -, hrest⟩ := hwalk
      refine List.nodup_cons.mpr ⟨fun hmem => ?_, ih hrest⟩
      obtain ⟨again, hagain, haddress⟩ := List.mem_map.mp hmem
      obtain ⟨front, back, rfl⟩ := List.append_of_mem hagain
      have hback := hrest.suffix
      rw [headOr_cons, haddress, ← hpointer] at hback
      have hlength := congrArg List.length (hwhole.unique hback)
      simp only [List.length_cons, List.length_append] at hlength
      omega

end Walk

/-! ### Segments -/

/-- The entries are linked to one another, the first one back to `before` and the last one on to
`after`. -/
def Segment (heap : Heap α) : Option Nat → List (Nat × α) → Option Nat → Prop
  | _, [], _ => True
  | before, (address, value) :: entries, after =>
      heap.lookup address = some ⟨value, headOr entries after, before⟩ ∧
        Segment heap (some address) entries after

section Segment

variable {heap other : Heap α} {before after : Option Nat} {entries front back : List (Nat × α)}
  {address : Nat} {value : α}

theorem segment_append :
    Segment heap before (front ++ back) after ↔
      Segment heap before front (headOr back after) ∧
        Segment heap (lastOr front before) back after := by
  induction front generalizing before with
  | nil => exact ⟨fun hback => ⟨trivial, hback⟩, And.right⟩
  | cons entry front ih =>
      rw [List.cons_append, Segment, Segment, ih, headOr_append, lastOr_cons, and_assoc]

theorem Segment.congr (hsegment : Segment heap before entries after)
    (hsame : ∀ address ∈ entries.map Prod.fst, other.lookup address = heap.lookup address) :
    Segment other before entries after := by
  induction entries generalizing before with
  | nil => trivial
  | cons entry entries ih =>
      rw [List.map_cons, List.forall_mem_cons] at hsame
      exact ⟨hsame.1.trans hsegment.1, ih hsegment.2 hsame.2⟩

theorem Segment.walk_next (hsegment : Segment heap before entries none) :
    Walk Cell.next heap (headOr entries none) entries := by
  induction entries generalizing before with
  | nil => rfl
  | cons entry entries ih => exact ⟨rfl, _, hsegment.1, rfl, ih hsegment.2⟩

theorem Segment.walk_previous (hsegment : Segment heap before entries after)
    {rest : List (Nat × α)} (hrest : Walk Cell.previous heap before rest) :
    Walk Cell.previous heap (lastOr entries before) (entries.reverse ++ rest) := by
  induction entries generalizing before rest with
  | nil => exact hrest
  | cons entry entries ih =>
      rw [lastOr_cons, List.reverse_cons, List.append_assoc, List.singleton_append]
      exact ih hsegment.2 ⟨rfl, _, hsegment.1, rfl, hrest⟩

theorem segment_of_walks {rest : List (Nat × α)} {first last : Option Nat}
    (hforward : Walk Cell.next heap first entries)
    (hback : Walk Cell.previous heap last (entries.reverse ++ rest)) :
    Segment heap (headOr rest none) entries none := by
  induction entries generalizing first rest with
  | nil => trivial
  | cons entry entries ih =>
      obtain ⟨address, value⟩ := entry
      rw [List.reverse_cons, List.append_assoc, List.singleton_append] at hback
      obtain ⟨-, cell, hcell, rfl, hnext⟩ := hforward
      obtain ⟨-, same, hsame, -, hprevious⟩ := hback.suffix
      rw [hcell] at hsame
      obtain rfl := Option.some.inj hsame
      refine ⟨?_, ih hnext hback⟩
      rw [hcell, ← hnext.pointer_eq, ← hprevious.pointer_eq]

/-- A list of these entries with its first and its last pointer. -/
structure Linked (heap : Heap α) (first last : Option Nat) (entries : List (Nat × α)) : Prop where
  first_eq : first = headOr entries none
  last_eq : last = lastOr entries none
  segment : Segment heap none entries none

/-- **Links.** A list is well linked exactly if the two walks pass its entries. -/
theorem linked_iff_walks {first last : Option Nat} :
    Linked heap first last entries ↔
      Walk Cell.next heap first entries ∧ Walk Cell.previous heap last entries.reverse := by
  constructor
  · rintro ⟨rfl, rfl, hsegment⟩
    have hnull : Walk Cell.previous heap none ([] : List (Nat × α)) := rfl
    have hback := hsegment.walk_previous hnull
    rw [List.append_nil] at hback
    exact ⟨hsegment.walk_next, hback⟩
  · rintro ⟨hforward, hback⟩
    refine ⟨hforward.pointer_eq, ?_, ?_⟩
    · rw [hback.pointer_eq, headOr_reverse]
    · rw [← List.append_nil entries.reverse] at hback
      exact segment_of_walks hforward hback

theorem Linked.nodup {first last : Option Nat} (hlinked : Linked heap first last entries) :
    (entries.map Prod.fst).Nodup :=
  (linked_iff_walks.mp hlinked).1.nodup

variable (hsegment : Segment heap before entries after)

include hsegment

theorem Segment.lookup_of_mem {entry : Nat × α} (hentry : entry ∈ entries) :
    ∃ cell, heap.lookup entry.1 = some cell ∧ cell.value = entry.2 := by
  induction entries generalizing before with
  | nil => exact absurd hentry List.not_mem_nil
  | cons head entries ih =>
      rcases List.mem_cons.mp hentry with rfl | hmem
      · exact ⟨_, hsegment.1, rfl⟩
      · exact ih hsegment.2 hmem

/-! ### Writing pointers -/

theorem Segment.setNextIf (hnodup : (entries.map Prod.fst).Nodup) (target : Option Nat) :
    ∃ written, heap.setNextIf (lastOr entries none) target = some written ∧
      Segment written before entries target ∧
      ∀ address ∉ entries.map Prod.fst, written.lookup address = heap.lookup address := by
  rcases List.eq_nil_or_concat entries with rfl | ⟨front, ⟨address, value⟩, rfl⟩
  · exact ⟨heap, rfl, trivial, fun _ _ => rfl⟩
  · rw [List.concat_eq_append] at hsegment hnodup ⊢
    rw [segment_append] at hsegment
    obtain ⟨hfront, hcell, -⟩ := hsegment
    have hwrite : heap.setNextIf (lastOr (front ++ [(address, value)]) none) target =
        some (heap.insert address ⟨value, target, lastOr front before⟩) := by
      rw [lastOr_concat, Heap.setNextIf, if_pos Option.isSome_some, Heap.setNext,
        Option.bind_some, hcell]
      rfl
    rw [List.map_append, List.map_singleton] at hnodup
    have hother : address ∉ front.map Prod.fst := by
      intro hmem
      exact (List.disjoint_of_nodup_append hnodup) hmem List.mem_cons_self
    refine ⟨_, hwrite, segment_append.mpr ⟨hfront.congr fun known hknown => ?_, ?_, trivial⟩, ?_⟩
    · exact AList.lookup_insert_ne fun heq => hother (heq ▸ hknown)
    · exact AList.lookup_insert heap
    · intro known hknown
      rw [List.map_append, List.mem_append, not_or] at hknown
      exact AList.lookup_insert_ne fun heq => hknown.2 (heq ▸ List.mem_cons_self)

theorem Segment.setPreviousIf (hnodup : (entries.map Prod.fst).Nodup) (target : Option Nat) :
    ∃ written, heap.setPreviousIf (headOr entries none) target = some written ∧
      Segment written target entries after ∧
      ∀ address ∉ entries.map Prod.fst, written.lookup address = heap.lookup address := by
  cases entries with
  | nil => exact ⟨heap, rfl, trivial, fun _ _ => rfl⟩
  | cons entry entries =>
      obtain ⟨address, value⟩ := entry
      obtain ⟨hcell, hrest⟩ := hsegment
      have hwrite : heap.setPreviousIf (headOr ((address, value) :: entries) none) target =
          some (heap.insert address ⟨value, headOr entries after, target⟩) := by
        rw [headOr_cons, Heap.setPreviousIf, if_pos Option.isSome_some, Heap.setPrevious,
          Option.bind_some, hcell]
        rfl
      have hother : address ∉ entries.map Prod.fst := (List.nodup_cons.mp hnodup).1
      refine ⟨_, hwrite, ⟨AList.lookup_insert heap, hrest.congr fun known hknown => ?_⟩, ?_⟩
      · exact AList.lookup_insert_ne fun heq => hother (heq ▸ hknown)
      · intro known hknown
        exact AList.lookup_insert_ne fun heq => hknown (heq ▸ List.mem_cons_self)

end Segment

namespace Linked

variable {heap : Heap α} {first last : Option Nat} {entries front back : List (Nat × α)}
  {address : Nat} {value : α}

theorem empty_iff (hlinked : Linked heap first last entries) :
    last = none ∧ first = none ↔ entries = [] := by
  rw [hlinked.last_eq, hlinked.first_eq]
  cases entries with
  | nil => exact iff_of_true ⟨rfl, rfl⟩ rfl
  | cons entry entries =>
      exact iff_of_false (fun hnull => Option.some_ne_none _ hnull.2) (List.cons_ne_nil _ _)

/-- A new cell behind the last one. -/
theorem append (hlinked : Linked heap first last entries) (hfree : heap.lookup address = none)
    (value : α) :
    ∃ written, Heap.setNextIf (heap.insert address ⟨value, none, last⟩) last (some address) =
        some written ∧
      Linked written (headOr entries (some address)) (some address)
        (entries ++ [(address, value)]) := by
  have hfresh : address ∉ entries.map Prod.fst := by
    intro hmem
    obtain ⟨entry, hentry, rfl⟩ := List.mem_map.mp hmem
    obtain ⟨cell, hcell, -⟩ := hlinked.segment.lookup_of_mem hentry
    cases hfree.symm.trans hcell
  have hkept : Segment (heap.insert address ⟨value, none, last⟩) none entries none :=
    hlinked.segment.congr fun known hknown =>
      AList.lookup_insert_ne fun heq => hfresh (heq ▸ hknown)
  obtain ⟨written, hwrite, hsegment, hsame⟩ := hkept.setNextIf hlinked.nodup (some address)
  rw [← hlinked.last_eq] at hwrite
  refine ⟨written, hwrite, ?_, ?_, ?_⟩
  · rw [headOr_append]
    rfl
  · rw [lastOr_concat]
  · refine segment_append.mpr ⟨hsegment, ?_, trivial⟩
    rw [hsame address hfresh, AList.lookup_insert, ← hlinked.last_eq]
    rfl

/-- A cell is taken out: its neighbours are linked to one another. -/
theorem unlink (hlinked : Linked heap first last (front ++ (address, value) :: back)) :
    heap.lookup address = some ⟨value, headOr back none, lastOr front none⟩ ∧
      ∃ written joined, heap.setNextIf (lastOr front none) (headOr back none) = some written ∧
        written.setPreviousIf (headOr back none) (lastOr front none) = some joined ∧
        Linked (joined.erase address) (headOr (front ++ back) none) (lastOr (front ++ back) none)
          (front ++ back) := by
  have hnodup := hlinked.nodup
  rw [List.map_append, List.map_cons] at hnodup
  obtain ⟨hfrontNodup, hrestNodup, hdisjoint⟩ := List.nodup_append'.mp hnodup
  obtain ⟨hnotBack, hbackNodup⟩ := List.nodup_cons.mp hrestNodup
  have hnotFront : address ∉ front.map Prod.fst :=
    fun hmem => hdisjoint hmem List.mem_cons_self
  have happart : ∀ known ∈ back.map Prod.fst, known ∉ front.map Prod.fst :=
    fun known hknown hmem => hdisjoint hmem (List.mem_cons_of_mem _ hknown)
  obtain ⟨hfront, hcell, hback⟩ := segment_append.mp hlinked.segment
  obtain ⟨written, hwrite, hfront', hsame⟩ := hfront.setNextIf hfrontNodup (headOr back none)
  have hback' : Segment written (some address) back none :=
    hback.congr fun known hknown => hsame known (happart known hknown)
  obtain ⟨joined, hjoin, hback'', hsame'⟩ := hback'.setPreviousIf hbackNodup (lastOr front none)
  refine ⟨hcell, written, joined, hwrite, hjoin, rfl, rfl, segment_append.mpr ⟨?_, ?_⟩⟩
  · refine hfront'.congr fun known hknown => ?_
    have hother : known ≠ address := fun heq => hnotFront (heq ▸ hknown)
    rw [AList.lookup_erase_ne hother]
    exact hsame' known fun hmem => happart known hmem hknown
  · refine hback''.congr fun known hknown => ?_
    exact AList.lookup_erase_ne fun heq => hnotBack (heq ▸ hknown)

end Linked

end Poseidon.Links
