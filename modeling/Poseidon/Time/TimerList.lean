import Poseidon.Lib.Links
import Poseidon.Time.Wheel

/-!
# The timers of a slot in memory

`timer_list_t` is a doubly linked list with a pointer to its first and one to its last node. Its
functions are sequences of reads and writes of pointers; one that goes through null or to a node
that was freed has no result here. `timer_list_remove_by_id` takes the case of a node with two
neighbours for that of the last node as well, and the case of the first node for that of the only
one.
-/

namespace Poseidon

open Links

/-- `timer_list_t` with its nodes. -/
structure TimerList where
  first : Option Nat
  last : Option Nat
  nodes : Heap Timer

namespace TimerList

def create : TimerList :=
  ⟨none, none, ∅⟩

def isEmpty (list : TimerList) : Bool :=
  list.last.isNone && list.first.isNone

/-- `timer_list_enqueue`, with the address of the new node. -/
def enqueue (list : TimerList) (address : Nat) (timer : Timer) : Option TimerList :=
  if list.isEmpty then
    some ⟨some address, some address, list.nodes.insert address ⟨timer, none, none⟩⟩
  else do
    let nodes := list.nodes.insert address ⟨timer, none, list.last⟩
    let nodes ← Heap.setNext nodes list.last (some address)
    return ⟨list.first, some address, nodes⟩

/-- `timer_list_dequeue`, with the timer it returns. -/
def dequeue (list : TimerList) : Option (Option Timer × TimerList) :=
  if list.isEmpty then some (none, list)
  else do
    let address ← list.first
    let node ← list.nodes.lookup address
    let nodes ← Heap.setPreviousIf list.nodes node.next none
    let last := if list.last = some address then none else list.last
    return (some node.value, ⟨node.next, last, nodes.erase address⟩)

/-- The first test of `timer_list_remove_by_id`, for a node between two others. -/
def joinNeighbours (nodes : Heap Timer) (previous next : Option Nat) : Option (Heap Timer) :=
  if previous.isSome && next.isSome then do
    let nodes ← Heap.setNext nodes previous next
    Heap.setPrevious nodes next previous
  else some nodes

/-- What `timer_list_remove_by_id` does with the node it has found. -/
def takeById (list : TimerList) (previous : Option Nat) (address : Nat) (node : Cell Timer) :
    Option (Option Timer × TimerList) := do
  let nodes ← joinNeighbours list.nodes previous node.next
  -- the second test is no alternative to the first
  if previous.isSome then do
    let nodes ← Heap.setNext nodes previous none
    return (some node.value, { list with nodes := nodes.erase address })
  else return (some node.value, ⟨none, none, nodes.erase address⟩)

/-- The loop of `timer_list_remove_by_id`. With more steps than nodes it goes round for ever. -/
def removeLoop (list : TimerList) (timerId : Nat) :
    Nat → Option Nat → Option Nat → Option (Option Timer × TimerList)
  | 0, _, _ => none
  | _ + 1, _, none => some (none, list)
  | fuel + 1, previous, some address => do
      let node ← list.nodes.lookup address
      if node.value.timerId = timerId then list.takeById previous address node
      else removeLoop list timerId fuel (some address) node.next

def removeById (list : TimerList) (timerId : Nat) : Option (Option Timer × TimerList) :=
  if list.isEmpty then some (none, list)
  else list.removeLoop timerId (list.nodes.keys.length + 1) none list.first

/-- `timer_list_remove`, with the timer it returns. -/
def remove (list : TimerList) (address : Nat) : Option (Option Timer × TimerList) :=
  if list.isEmpty then some (none, list)
  else do
    let node ← list.nodes.lookup address
    let last := if list.last = some address then node.previous else list.last
    let first := if list.first = some address then node.next else list.first
    let nodes ← Heap.setNextIf list.nodes node.previous node.next
    let nodes ← Heap.setPreviousIf nodes node.next node.previous
    return (some node.value, ⟨first, last, nodes.erase address⟩)

/-! ### Lists and sequences -/

/-- The list consists of these nodes with their timers. -/
def Represents (list : TimerList) (entries : List (Nat × Timer)) : Prop :=
  Linked list.nodes list.first list.last entries

theorem represents_create : create.Represents [] :=
  ⟨rfl, rfl, trivial⟩

namespace Represents

variable {list : TimerList} {entries front back : List (Nat × Timer)} {address : Nat}
  {timer : Timer}

theorem isEmpty_iff (hlist : list.Represents entries) : list.isEmpty = true ↔ entries = [] := by
  rw [← hlist.empty_iff, isEmpty, Bool.and_eq_true, Option.isNone_iff_eq_none,
    Option.isNone_iff_eq_none]

theorem enqueue (hlist : list.Represents entries) (hfree : list.nodes.lookup address = none)
    (timer : Timer) :
    ∃ after, list.enqueue address timer = some after ∧
      after.Represents (entries ++ [(address, timer)]) := by
  obtain ⟨written, hwrite, hlinked⟩ := hlist.append hfree timer
  unfold TimerList.enqueue
  by_cases hempty : entries = []
  · obtain ⟨hlast, -⟩ := hlist.empty_iff.mpr hempty
    rw [if_pos (hlist.isEmpty_iff.mpr hempty)]
    rw [hlast, Heap.setNextIf, if_neg (by decide)] at hwrite
    obtain rfl := Option.some.inj hwrite
    rw [hempty] at hlinked ⊢
    exact ⟨_, rfl, hlinked⟩
  · obtain ⟨entry, rest, rfl⟩ := List.exists_cons_of_ne_nil hempty
    have hsome : list.last.isSome := by
      rw [hlist.last_eq, lastOr_cons]
      unfold lastOr
      cases rest.getLast? <;> rfl
    rw [if_neg fun hyes => hempty (hlist.isEmpty_iff.mp hyes)]
    rw [Heap.setNextIf, if_pos hsome] at hwrite
    dsimp only
    rw [hwrite]
    refine ⟨_, rfl, ?_, hlinked.last_eq, hlinked.segment⟩
    exact hlist.first_eq

section

variable (hlist : list.Represents (front ++ (address, timer) :: back))

include hlist

theorem ends_unlinked :
    (if list.first = some address then headOr back none else list.first) =
        headOr (front ++ back) none ∧
      (if list.last = some address then lastOr front none else list.last) =
        lastOr (front ++ back) none := by
  have hnodup := hlist.nodup
  rw [List.map_append, List.map_cons] at hnodup
  obtain ⟨-, hrest, hdisjoint⟩ := List.nodup_append'.mp hnodup
  constructor
  · rw [hlist.first_eq]
    cases front with
    | nil => exact if_pos rfl
    | cons entry front =>
        refine if_neg fun heq => ?_
        have hsame : entry.1 = address := Option.some.inj heq
        exact hdisjoint List.mem_cons_self (hsame ▸ List.mem_cons_self)
  · rw [hlist.last_eq]
    rcases List.eq_nil_or_concat back with rfl | ⟨init, entry, rfl⟩
    · rw [lastOr_concat, if_pos rfl, List.append_nil]
    · rw [List.concat_eq_append, ← List.cons_append, ← List.append_assoc, ← List.append_assoc,
        lastOr_concat, lastOr_concat]
      refine if_neg fun heq => ?_
      have hsame : entry.1 = address := Option.some.inj heq
      rw [List.concat_eq_append, List.map_append] at hrest
      exact (List.nodup_cons.mp hrest).1
        (List.mem_append_right _ (hsame ▸ List.mem_cons_self))

theorem not_isEmpty : ¬list.isEmpty = true := by
  rw [hlist.isEmpty_iff, List.append_eq_nil_iff]
  exact fun hnil => List.cons_ne_nil _ _ hnil.2

theorem remove :
    ∃ after, list.remove address = some (some timer, after) ∧ after.Represents (front ++ back) := by
  obtain ⟨hnode, written, joined, hwrite, hjoin, hlinked⟩ := hlist.unlink
  obtain ⟨hfirst, hlast⟩ := hlist.ends_unlinked
  unfold TimerList.remove
  rw [if_neg hlist.not_isEmpty, hnode]
  simp only [Option.bind_eq_bind, Option.bind_some, hwrite, hjoin, hfirst, hlast]
  exact ⟨_, rfl, hlinked⟩

end

theorem dequeue (hlist : list.Represents entries) :
    ∃ after, list.dequeue = some (entries.head?.map Prod.snd, after) ∧
      after.Represents entries.tail := by
  unfold TimerList.dequeue
  cases entries with
  | nil =>
      rw [if_pos (hlist.isEmpty_iff.mpr rfl)]
      exact ⟨list, rfl, hlist⟩
  | cons entry entries =>
      obtain ⟨address, timer⟩ := entry
      have hlist' : list.Represents ([] ++ (address, timer) :: entries) := hlist
      obtain ⟨hnode, written, joined, hwrite, hjoin, hlinked⟩ := hlist'.unlink
      obtain ⟨-, hlast⟩ := hlist'.ends_unlinked
      -- the first node has no predecessor to be written
      obtain rfl : list.nodes = written := Option.some.inj hwrite
      have hfirst : list.first = some address := hlist.first_eq
      rw [if_neg hlist'.not_isEmpty, hfirst, Option.bind_eq_bind, Option.bind_some, hnode]
      simp only [Option.bind_eq_bind, Option.bind_some, lastOr_nil] at hjoin hlast ⊢
      rw [hjoin, hlast]
      exact ⟨_, rfl, hlinked⟩

/-! ### Removal by id -/

theorem removeLoop_append {before previous : Option Nat} {timerId : Nat}
    (hfront : Segment list.nodes before front (headOr back none))
    (hother : ∀ entry ∈ front, entry.2.timerId ≠ timerId) (fuel : Nat) :
    list.removeLoop timerId (fuel + front.length) previous (headOr (front ++ back) none) =
      list.removeLoop timerId fuel (lastOr front previous) (headOr back none) := by
  induction front generalizing before previous with
  | nil => rfl
  | cons entry front ih =>
      rw [List.forall_mem_cons] at hother
      rw [List.length_cons, ← Nat.add_assoc, List.cons_append, headOr_cons, removeLoop, hfront.1,
        lastOr_cons, ← ih hfront.2 hother.2, headOr_append, Option.bind_eq_bind, Option.bind_some,
        if_neg hother.1]

theorem length_le_keys (hlist : list.Represents entries) :
    entries.length ≤ list.nodes.keys.length := by
  rw [← List.length_map Prod.fst]
  refine (hlist.nodup.subperm fun address haddress => ?_).length_le
  obtain ⟨entry, hentry, rfl⟩ := List.mem_map.mp haddress
  obtain ⟨cell, hcell, -⟩ := hlist.segment.lookup_of_mem hentry
  rw [← AList.mem_keys, ← AList.lookup_isSome, hcell]
  rfl

theorem removeById_of_absent (hlist : list.Represents entries) {timerId : Nat}
    (habsent : ∀ entry ∈ entries, entry.2.timerId ≠ timerId) :
    list.removeById timerId = some (none, list) := by
  unfold removeById
  split_ifs
  · rfl
  · obtain ⟨fuel, hfuel⟩ := Nat.exists_eq_add_of_le hlist.length_le_keys
    have hloop := @removeLoop_append list entries [] none none timerId hlist.segment habsent
      (fuel + 1)
    rw [List.append_nil, ← hlist.first_eq] at hloop
    rw [hfuel, Nat.add_comm entries.length, Nat.add_right_comm, hloop]
    rfl

variable (hlist : list.Represents (front ++ (address, timer) :: back))

include hlist

theorem removeById_of_found (hother : ∀ entry ∈ front, entry.2.timerId ≠ timer.timerId) :
    list.removeById timer.timerId =
      list.takeById (lastOr front none) address
        ⟨timer, headOr back none, lastOr front none⟩ := by
  obtain ⟨hfront, hnode, -⟩ := segment_append.mp hlist.segment
  obtain ⟨fuel, hfuel⟩ := Nat.exists_eq_add_of_le hlist.length_le_keys
  have hsum : list.nodes.keys.length + 1 = fuel + back.length + 1 + 1 + front.length := by
    rw [hfuel, List.length_append, List.length_cons]
    omega
  rw [removeById, if_neg hlist.not_isEmpty, hsum, hlist.first_eq,
    removeLoop_append hfront hother, headOr_cons, removeLoop, hnode, Option.bind_eq_bind,
    Option.bind_some, if_pos rfl]

/-- Behind the first test the node before the one found is still there. -/
theorem exists_takeById {previous : Nat} {earlier : Timer}
    (hprevious : (previous, earlier) ∈ front) (hlast : lastOr front none = some previous) :
    ∃ (nodes : Heap Timer) (cell : Cell Timer), nodes.lookup previous = some cell ∧
      list.takeById (some previous) address ⟨timer, headOr back none, some previous⟩ =
        some (some timer, { list with
          nodes := (nodes.insert previous { cell with next := none }).erase address }) := by
  obtain ⟨nodes, cell, hcell, htest⟩ : ∃ (nodes : Heap Timer) (cell : Cell Timer),
      nodes.lookup previous = some cell ∧
        joinNeighbours list.nodes (some previous) (headOr back none) = some nodes := by
    rw [joinNeighbours, Option.isSome_some, Bool.true_and]
    by_cases hmore : (headOr back none).isSome = true
    · obtain ⟨-, written, joined, hwrite, hjoin, hlinked⟩ := hlist.unlink
      rw [hlast, Heap.setNextIf, if_pos Option.isSome_some] at hwrite
      rw [hlast, Heap.setPreviousIf, if_pos hmore] at hjoin
      obtain ⟨cell, hcell, -⟩ := hlinked.segment.lookup_of_mem (List.mem_append_left back hprevious)
      rw [AList.lookup_erase_ne (Heap.ne_of_lookup_erase hcell)] at hcell
      refine ⟨joined, cell, hcell, ?_⟩
      rw [if_pos hmore, hwrite]
      exact hjoin
    · obtain ⟨cell, hcell, -⟩ :=
        hlist.segment.lookup_of_mem (List.mem_append_left ((address, timer) :: back) hprevious)
      exact ⟨list.nodes, cell, hcell, if_neg hmore⟩
  refine ⟨nodes, cell, hcell, ?_⟩
  unfold takeById
  dsimp only
  rw [htest, Option.bind_eq_bind, Option.bind_some, if_pos Option.isSome_some, Heap.setNext,
    Option.bind_some, hcell]
  rfl

/-- **Removal by id.** The timer is returned; what is left of the list is that of the other timers
only if there are none. -/
theorem removeById_iff (hother : ∀ entry ∈ front, entry.2.timerId ≠ timer.timerId) :
    ∃ after, list.removeById timer.timerId = some (some timer, after) ∧
      (after.Represents (front ++ back) ↔ front = [] ∧ back = []) := by
  rw [hlist.removeById_of_found hother]
  rcases List.eq_nil_or_concat front with rfl | ⟨init, ⟨previous, earlier⟩, rfl⟩
  · refine ⟨⟨none, none, list.nodes.erase address⟩, rfl, ?_⟩
    rw [List.nil_append, eq_self_iff_true, true_and]
    constructor
    · intro hafter
      exact hafter.empty_iff.mp ⟨rfl, rfl⟩
    · rintro rfl
      exact ⟨rfl, rfl, trivial⟩
  · rw [List.concat_eq_append] at hlist ⊢
    have hprevious : (previous, earlier) ∈ init ++ [(previous, earlier)] :=
      List.mem_append_right _ List.mem_cons_self
    have hlast : lastOr (init ++ [(previous, earlier)]) none = some previous := lastOr_concat _ _ _
    obtain ⟨nodes, cell, -, htake⟩ := hlist.exists_takeById hprevious hlast
    rw [hlast]
    refine ⟨_, htake, iff_of_false (fun hafter => ?_) fun hnil => ?_⟩
    · obtain ⟨same, hsame, -⟩ :=
        hafter.segment.lookup_of_mem (List.mem_append_left back hprevious)
      have hne := Heap.ne_of_lookup_erase hsame
      cases back with
      | nil =>
          -- the pointer to the last node still leads to the freed one
          have hstale : list.last = some previous := by
            have hnew := hafter.last_eq
            rwa [List.append_nil, hlast] at hnew
          rw [hlist.last_eq, lastOr_concat] at hstale
          exact hne (Option.some.inj hstale).symm
      | cons entry back =>
          -- the node before it has lost its successor
          obtain ⟨hfront, -⟩ := segment_append.mp hafter.segment
          obtain ⟨-, hcut, -⟩ := segment_append.mp hfront
          rw [AList.lookup_erase_ne hne, AList.lookup_insert] at hcut
          cases congrArg Cell.next (Option.some.inj hcut)
    · exact List.append_ne_nil_of_right_ne_nil _ (List.cons_ne_nil _ _) hnil.1

end Represents

end TimerList

/-! ### Sequences of calls -/

/-- A call, with the address that the allocator gives to a new node. -/
inductive TimerListOp where
  | enqueue (address : Nat) (timer : Timer)
  | dequeue
  | remove (address : Nat)
  | removeById (timerId : Nat)
deriving DecidableEq, Repr

namespace TimerListOp

def perform (list : TimerList) : TimerListOp → Option (Option Timer × TimerList)
  | .enqueue address timer => (list.enqueue address timer).map (none, ·)
  | .dequeue => list.dequeue
  | .remove address => list.remove address
  | .removeById timerId => list.removeById timerId

/-- What a call means for the sequence of the timers with their nodes. -/
def onSequence (entries : List (Nat × Timer)) :
    TimerListOp → Option Timer × List (Nat × Timer)
  | .enqueue address timer => (none, entries ++ [(address, timer)])
  | .dequeue => (entries.head?.map Prod.snd, entries.tail)
  | .remove address =>
      ((entries.find? (·.1 = address)).map Prod.snd, entries.eraseP (·.1 = address))
  | .removeById timerId =>
      ((entries.find? (·.2.timerId = timerId)).map Prod.snd,
        entries.eraseP (·.2.timerId = timerId))

end TimerListOp

/-- A list in memory, unless a call had no result, beside the sequence it is to hold; and the timer
that the last call returned beside the one that it was to take out. -/
structure TimerListRun where
  memory : Option TimerList
  entries : List (Nat × Timer)
  returned : Option Timer
  taken : Option Timer

namespace TimerListRun

def start : TimerListRun :=
  ⟨some TimerList.create, [], none, none⟩

def step (s : TimerListRun) (op : TimerListOp) : TimerListRun :=
  let result := s.memory.bind op.perform
  { memory := result.map Prod.snd
    entries := (op.onSequence s.entries).2
    returned := result.bind Prod.fst
    taken := (op.onSequence s.entries).1 }

/-- The links in both directions pass the nodes of the sequence, and the call has returned the timer
it was to take out. -/
def Agrees (s : TimerListRun) : Prop :=
  s.returned = s.taken ∧ ∃ list, s.memory = some list ∧
    Walk Cell.next list.nodes list.first s.entries ∧
    Walk Cell.previous list.nodes list.last s.entries.reverse

/-- New nodes are allocated where there is none, and only nodes of the list are removed. -/
def Allowed (s : TimerListRun) : TimerListOp → Prop
  | .enqueue address _ => (s.memory.bind fun list => list.nodes.lookup address) = none
  | .remove address => address ∈ s.entries.map Prod.fst
  | .dequeue | .removeById _ => True

/-- A timer is removed by its id only if it is the only one. -/
def Spares (s : TimerListRun) : TimerListOp → Prop
  | .removeById timerId =>
      (∀ entry ∈ s.entries, entry.2.timerId ≠ timerId) ∨ s.entries.length = 1
  | .enqueue _ _ | .dequeue | .remove _ => True

instance (s : TimerListRun) : DecidablePred s.Allowed
  | .enqueue _ _ => inferInstanceAs (Decidable (_ = none))
  | .remove _ => inferInstanceAs (Decidable (_ ∈ _))
  | .dequeue | .removeById _ => isTrue trivial

instance (s : TimerListRun) : DecidablePred s.Spares
  | .removeById _ => inferInstanceAs (Decidable (_ ∨ _))
  | .enqueue _ _ | .dequeue | .remove _ => isTrue trivial

variable {s : TimerListRun}

theorem agrees_iff :
    s.Agrees ↔ s.returned = s.taken ∧ ∃ list, s.memory = some list ∧ list.Represents s.entries := by
  unfold Agrees
  simp only [← linked_iff_walks, TimerList.Represents]

theorem agrees_start : start.Agrees :=
  agrees_iff.mpr ⟨rfl, TimerList.create, rfl, TimerList.represents_create⟩

theorem agrees_step_of_perform (op : TimerListOp) {list after : TimerList} {timer : Option Timer}
    (hmemory : s.memory = some list) (hperform : op.perform list = some (timer, after)) :
    (s.step op).Agrees ↔ timer = (op.onSequence s.entries).1 ∧
      after.Represents (op.onSequence s.entries).2 := by
  have hresult : s.memory.bind op.perform = some (timer, after) := by
    rw [hmemory, Option.bind_some, hperform]
  rw [agrees_iff]
  unfold step
  dsimp only
  rw [hresult]
  simp only [Option.bind_some, Option.map_some, Option.some.injEq, exists_eq_left']

theorem exists_first {entries : List (Nat × Timer)} {kind : Nat × Timer → Bool}
    (hkind : ∃ entry ∈ entries, kind entry = true) :
    ∃ front entry back, entries = front ++ entry :: back ∧
      (∀ other ∈ front, kind other = false) ∧ kind entry = true ∧
      entries.find? kind = some entry ∧ entries.eraseP kind = front ++ back := by
  obtain ⟨found, hmem, hfound⟩ := hkind
  obtain ⟨entry, front, back, hfront, hentry, rfl, herase⟩ := List.exists_of_eraseP hmem hfound
  simp only [Bool.not_eq_true] at hfront
  refine ⟨front, entry, back, rfl, hfront, hentry, ?_, herase⟩
  exact List.find?_eq_some_iff_append.mpr ⟨hentry, front, back, rfl, fun other hother => by
    rw [hfront other hother]
    rfl⟩

theorem agrees_step_of_first (op : TimerListOp) {kind : Nat × Timer → Bool} {entry : Nat × Timer}
    {others : List (Nat × Timer)} {list after : TimerList} (hmemory : s.memory = some list)
    (hsequence : op.onSequence s.entries =
      ((s.entries.find? kind).map Prod.snd, s.entries.eraseP kind))
    (hfind : s.entries.find? kind = some entry) (herase : s.entries.eraseP kind = others)
    (hperform : op.perform list = some (some entry.2, after)) :
    (s.step op).Agrees ↔ after.Represents others := by
  rw [agrees_step_of_perform op hmemory hperform, hsequence, hfind, herase]
  exact and_iff_right rfl

theorem agrees_step_iff {op : TimerListOp} (hallowed : s.Allowed op) (hs : s.Agrees) :
    (s.step op).Agrees ↔ s.Spares op := by
  obtain ⟨-, list, hmemory, hlist⟩ := agrees_iff.mp hs
  cases op with
  | enqueue address timer =>
      have hfree : list.nodes.lookup address = none := by
        rwa [Allowed, hmemory, Option.bind_some] at hallowed
      obtain ⟨after, henqueue, hafter⟩ := hlist.enqueue hfree timer
      have hperform : (TimerListOp.enqueue address timer).perform list = some (none, after) :=
        congrArg (Option.map (none, ·)) henqueue
      rw [agrees_step_of_perform _ hmemory hperform]
      exact iff_of_true ⟨rfl, hafter⟩ trivial
  | dequeue =>
      obtain ⟨after, hdequeue, hafter⟩ := hlist.dequeue
      rw [agrees_step_of_perform .dequeue hmemory hdequeue]
      exact iff_of_true ⟨rfl, hafter⟩ trivial
  | remove address =>
      obtain ⟨entry, hentry, haddress⟩ := List.mem_map.mp hallowed
      obtain ⟨front, ⟨node, timer⟩, back, hsplit, -, hnode, hfind, herase⟩ :=
        @exists_first s.entries (fun entry => decide (entry.1 = address))
          ⟨entry, hentry, decide_eq_true haddress⟩
      obtain rfl : node = address := of_decide_eq_true hnode
      rw [hsplit] at hlist
      obtain ⟨after, hremove, hafter⟩ := hlist.remove
      rw [agrees_step_of_first (.remove node) hmemory rfl hfind herase hremove]
      exact iff_of_true hafter trivial
  | removeById timerId =>
      by_cases hpresent : ∃ entry ∈ s.entries, entry.2.timerId = timerId
      · obtain ⟨entry, hentry, hid⟩ := hpresent
        obtain ⟨front, ⟨address, timer⟩, back, hsplit, hfront, htimer, hfind, herase⟩ :=
          @exists_first s.entries (fun entry => decide (entry.2.timerId = timerId))
            ⟨entry, hentry, decide_eq_true hid⟩
        obtain rfl : timer.timerId = timerId := of_decide_eq_true htimer
        rw [hsplit] at hlist
        obtain ⟨after, hremove, hafter⟩ :=
          hlist.removeById_iff fun other hother => of_decide_eq_false (hfront other hother)
        rw [agrees_step_of_first (.removeById timer.timerId) hmemory rfl hfind herase hremove,
          hafter, Spares, or_iff_right fun habsent => habsent entry hentry hid, hsplit,
          List.length_append, List.length_cons, ← List.length_eq_zero_iff,
          ← List.length_eq_zero_iff]
        omega
      · have habsent : ∀ entry ∈ s.entries, entry.2.timerId ≠ timerId :=
          fun entry hentry hid => hpresent ⟨entry, hentry, hid⟩
        have hnever : ∀ entry ∈ s.entries, ¬decide (entry.2.timerId = timerId) = true :=
          fun entry hentry hid => habsent entry hentry (of_decide_eq_true hid)
        have hreturned : ((TimerListOp.removeById timerId).onSequence s.entries).1 = none :=
          congrArg (Option.map Prod.snd) (List.find?_eq_none.mpr hnever)
        have hothers : ((TimerListOp.removeById timerId).onSequence s.entries).2 = s.entries :=
          List.eraseP_of_forall_not hnever
        rw [agrees_step_of_perform (.removeById timerId) hmemory
          (hlist.removeById_of_absent habsent), hreturned, hothers]
        exact iff_of_true ⟨rfl, hlist⟩ (Or.inl habsent)

/-- **Timer lists.** In any sequence of calls the links in both directions agree with the sequence
of timers after every call, and every call takes out the timer it is to take out, exactly if a timer
is removed by its id only when it is the only one. -/
theorem timerList_agrees_iff (ops : List TimerListOp)
    (hallowed : Runs.Meets step Allowed start ops) :
    (∀ front, front <+: ops → (Runs.run step start front).Agrees) ↔
      Runs.Meets step Spares start ops :=
  Runs.forall_front_iff_meets_of_keeps step Agrees Agrees (fun _ hs => hs)
    (fun _ _ hs hpre => (agrees_step_iff hpre hs).mpr)
    (fun _ _ hs hpre => (agrees_step_iff hpre hs).mp) agrees_start hallowed

def sampleTimer (timerId : Nat) : Timer :=
  ⟨timerId, [], 0, .user⟩

/-- Two timers are set, one is removed by its node and the other one, now alone, by its id. -/
def spareCalls : List TimerListOp :=
  [.enqueue 1 (sampleTimer 7), .enqueue 2 (sampleTimer 8), .remove 1, .removeById 8]

theorem timerList_agrees_spareCalls :
    Runs.Meets step Allowed start spareCalls ∧
      ∀ front, front <+: spareCalls → (Runs.run step start front).Agrees :=
  ⟨by decide +kernel, (timerList_agrees_iff spareCalls (by decide +kernel)).mpr (by decide +kernel)⟩

/-- Two timers are set, and the first one is removed by its id. -/
def lossyCalls : List TimerListOp :=
  [.enqueue 1 (sampleTimer 7), .enqueue 2 (sampleTimer 8), .removeById 7]

/-- The second timer is gone as well. -/
theorem lossyCalls_not_agrees :
    Runs.Meets step Allowed start lossyCalls ∧
      (Runs.run step start lossyCalls).entries = [(2, sampleTimer 8)] ∧
      (Runs.run step start lossyCalls).memory.map (·.first) = some none ∧
      ¬(Runs.run step start lossyCalls).Agrees := by
  have hentries : (Runs.run step start lossyCalls).entries = [(2, sampleTimer 8)] := by
    decide +kernel
  have hfirst : (Runs.run step start lossyCalls).memory.map (·.first) = some none := by
    decide +kernel
  refine ⟨by decide +kernel, hentries, hfirst, ?_⟩
  rintro ⟨-, list, hmemory, hforward, -⟩
  rw [hmemory, Option.map_some] at hfirst
  rw [hentries] at hforward
  cases (Option.some.inj hfirst).symm.trans hforward.1

end TimerListRun

end Poseidon
