import Mathlib.Data.List.Basic

/-!
# Compaction in place

A loop reads the entries of an array in order. An entry that is kept is written to the next free
place at the front, which never lies behind the place being read; any other entry is taken out.
Whether an entry is kept may depend on when it is read. Behind the loop the front of the array holds
the kept entries, and those taken out are the others, both in their order. The loop may also change
each entry in its place before it looks at it.
-/

namespace Poseidon

structure Compaction (α : Type*) where
  slots : List α
  write : Nat
  taken : List α

namespace Compaction

variable {α : Type*} (keep : Nat → α → Bool)

/-- One iteration, at the place `read`. -/
def step (state : Compaction α) (read : Nat) : Compaction α :=
  match state.slots[read]? with
  | none => state
  | some entry =>
      if keep read entry then
        { state with slots := state.slots.set state.write entry, write := state.write + 1 }
      else { state with taken := state.taken ++ [entry] }

def compact (table : List α) : Compaction α :=
  (List.range table.length).foldl (step keep) ⟨table, 0, []⟩

/-- What the array holds once it is cut at the next free place. -/
def kept (state : Compaction α) : List α :=
  state.slots.take state.write

/-- The entries read before `read` whose test comes out as `outcome`. -/
def tested (outcome : Bool) (table : List α) (read : Nat) : List α :=
  ((table.take read).zipIdx.filter fun entry => keep entry.2 entry.1 == outcome).map Prod.fst

theorem tested_succ (outcome : Bool) {table : List α} {read : Nat} {entry : α}
    (hentry : table[read]? = some entry) :
    tested keep outcome table (read + 1) =
      tested keep outcome table read ++ if keep read entry = outcome then [entry] else [] := by
  obtain ⟨hread, rfl⟩ := List.getElem?_eq_some_iff.mp hentry
  have hlength : (table.take read).length = read := by
    rw [List.length_take, Nat.min_eq_left (Nat.le_of_lt hread)]
  unfold tested
  rw [List.take_succ_eq_append_getElem hread, List.zipIdx_append, List.filter_append,
    List.map_append, hlength]
  congr 1
  by_cases hkeep : keep read table[read] = outcome <;> simp [hkeep]

structure Inv (table : List α) (read : Nat) (state : Compaction α) : Prop where
  write_le : state.write ≤ read
  length_slots : state.slots.length = table.length
  unread : ∀ i, read ≤ i → state.slots[i]? = table[i]?
  kept_eq : state.kept = tested keep true table read
  taken_eq : state.taken = tested keep false table read

theorem Inv.step {table : List α} {read : Nat} {state : Compaction α}
    (hinv : Inv keep table read state) (hread : read < table.length) :
    Inv keep table (read + 1) (step keep state read) := by
  have hentry : table[read]? = some table[read] := List.getElem?_eq_getElem hread
  have hwrite := hinv.write_le
  unfold Compaction.step
  rw [hinv.unread read (Nat.le_refl read), hentry]
  dsimp only
  by_cases hkeep : keep read table[read] = true
  · rw [if_pos hkeep]
    refine ⟨Nat.succ_le_succ hwrite, ?_, fun i hi => ?_, ?_, ?_⟩
    · rw [List.length_set, hinv.length_slots]
    · rw [List.getElem?_set_ne (by omega), hinv.unread i (by omega)]
    · have hfits : state.write < state.slots.length := by
        rw [hinv.length_slots]
        omega
      rw [tested_succ keep true hentry, if_pos hkeep, ← hinv.kept_eq]
      unfold kept
      dsimp only
      rw [List.take_succ_eq_append_getElem (by rw [List.length_set]; exact hfits),
        List.getElem_set_self, List.take_set_of_le (Nat.le_refl _)]
    · rw [tested_succ keep false hentry, if_neg (by simp [hkeep]), List.append_nil, hinv.taken_eq]
  · rw [if_neg hkeep]
    refine ⟨Nat.le_succ_of_le hwrite, hinv.length_slots, fun i hi => ?_, ?_, ?_⟩
    · exact hinv.unread i (by omega)
    · rw [tested_succ keep true hentry, if_neg hkeep, List.append_nil]
      exact hinv.kept_eq
    · rw [tested_succ keep false hentry, if_pos (by simpa using hkeep), hinv.taken_eq]

variable (table : List α)

theorem inv_foldl {read : Nat} (hread : read ≤ table.length) :
    Inv keep table read ((List.range read).foldl (step keep) ⟨table, 0, []⟩) := by
  induction read with
  | zero => exact ⟨Nat.le_refl 0, rfl, fun _ _ => rfl, rfl, rfl⟩
  | succ read ih =>
      rw [List.range_succ, List.foldl_append]
      exact (ih (by omega)).step keep (by omega)

theorem kept_compact :
    (compact keep table).kept =
      (table.zipIdx.filter fun entry => keep entry.2 entry.1).map Prod.fst := by
  have hkept : (compact keep table).kept = tested keep true table table.length :=
    (inv_foldl keep table (Nat.le_refl _)).kept_eq
  rw [tested, List.take_length] at hkept
  simpa using hkept

theorem taken_compact :
    (compact keep table).taken =
      (table.zipIdx.filter fun entry => !keep entry.2 entry.1).map Prod.fst := by
  have htaken : (compact keep table).taken = tested keep false table table.length :=
    (inv_foldl keep table (Nat.le_refl _)).taken_eq
  rw [tested, List.take_length] at htaken
  simpa using htaken

/-- **Compaction.** With a test that does not look at the time, the kept entries are a filter. -/
theorem kept_compact_of_const (keep : α → Bool) (table : List α) :
    (compact (fun _ => keep) table).kept = table.filter keep := by
  rw [kept_compact]
  have hcomp : (fun entry : α × Nat => keep entry.1) = keep ∘ Prod.fst := rfl
  rw [hcomp, ← List.filter_map, List.zipIdx_map_fst]

theorem kept_sublist : (compact keep table).kept.Sublist table := by
  rw [kept_compact]
  conv_rhs => rw [← List.zipIdx_map_fst 0 table]
  exact List.filter_sublist.map Prod.fst

theorem taken_sublist : (compact keep table).taken.Sublist table := by
  rw [taken_compact]
  conv_rhs => rw [← List.zipIdx_map_fst 0 table]
  exact List.filter_sublist.map Prod.fst

/-- **Partition.** Every entry is kept or taken out, and none is counted twice. -/
theorem kept_append_taken_perm :
    ((compact keep table).kept ++ (compact keep table).taken).Perm table := by
  rw [kept_compact, taken_compact, ← List.map_append]
  have hperm := (List.filter_append_perm (fun entry => keep entry.2 entry.1) table.zipIdx).map
    Prod.fst
  rwa [List.zipIdx_map_fst] at hperm

/-! ### Entries that are changed -/

section Changed

variable {α : Type*} (change : α → α) (alive : α → Bool)

/-- One iteration that changes the entry in its place before it is kept. -/
def changeStep (state : List α × Nat) (read : Nat) : List α × Nat :=
  match state.1[read]? with
  | none => state
  | some entry =>
      let slots := state.1.set read (change entry)
      if alive (change entry) then (slots.set state.2 (change entry), state.2 + 1)
      else (slots, state.2)

def compactChanged (table : List α) : List α :=
  let state := (List.range table.length).foldl (changeStep change alive) (table, 0)
  state.1.take state.2

structure ChangeInv (table : List α) (read : Nat) (state : List α × Nat) : Prop where
  write_le : state.2 ≤ read
  length_slots : state.1.length = table.length
  unread : ∀ i, read ≤ i → state.1[i]? = table[i]?
  kept_eq : state.1.take state.2 = ((table.take read).map change).filter alive

theorem ChangeInv.step {table : List α} {read : Nat} {state : List α × Nat}
    (hinv : ChangeInv change alive table read state) (hread : read < table.length) :
    ChangeInv change alive table (read + 1) (changeStep change alive state read) := by
  have hentry : table[read]? = some table[read] := List.getElem?_eq_getElem hread
  have hwrite := hinv.write_le
  have hlength := hinv.length_slots
  have hkept : ((table.take (read + 1)).map change).filter alive =
      state.1.take state.2 ++ if alive (change table[read]) then [change table[read]] else [] := by
    rw [List.take_succ_eq_append_getElem hread, List.map_append, List.filter_append,
      ← hinv.kept_eq]
    by_cases halive : alive (change table[read]) = true <;> simp [halive]
  have htake : (state.1.set read (change table[read])).take state.2 = state.1.take state.2 :=
    List.take_set_of_le hwrite
  unfold changeStep
  rw [hinv.unread read (Nat.le_refl read), hentry]
  dsimp only
  by_cases halive : alive (change table[read]) = true
  · rw [if_pos halive]
    refine ⟨Nat.succ_le_succ hwrite, ?_, fun i hi => ?_, ?_⟩
    · rw [List.length_set, List.length_set, hlength]
    · rw [List.getElem?_set_ne (by omega), List.getElem?_set_ne (by omega),
        hinv.unread i (by omega)]
    · rw [hkept, if_pos halive, List.take_succ_eq_append_getElem (by
        rw [List.length_set, List.length_set]; omega), List.getElem_set_self,
        List.take_set_of_le (Nat.le_refl _), htake]
  · rw [if_neg halive]
    refine ⟨Nat.le_succ_of_le hwrite, ?_, fun i hi => ?_, ?_⟩
    · rw [List.length_set, hlength]
    · rw [List.getElem?_set_ne (by omega), hinv.unread i (by omega)]
    · rw [hkept, if_neg halive, List.append_nil, htake]

/-- **Compaction with a change.** What remains are the changed entries that are alive. -/
theorem compactChanged_eq (table : List α) :
    compactChanged change alive table = (table.map change).filter alive := by
  have hinv : ∀ read ≤ table.length, ChangeInv change alive table read
      ((List.range read).foldl (changeStep change alive) (table, 0)) := by
    intro read hread
    induction read with
    | zero => exact ⟨Nat.le_refl 0, rfl, fun _ _ => rfl, rfl⟩
    | succ read ih =>
        rw [List.range_succ, List.foldl_append]
        exact (ih (by omega)).step change alive (by omega)
  have hkept := (hinv table.length (Nat.le_refl _)).kept_eq
  rw [List.take_length] at hkept
  exact hkept

theorem length_compactChanged_le (table : List α) :
    (compactChanged change alive table).length ≤ table.length := by
  rw [compactChanged_eq]
  calc ((table.map change).filter alive).length ≤ (table.map change).length :=
        List.length_filter_le alive _
    _ = table.length := List.length_map _

end Changed

end Compaction

end Poseidon
