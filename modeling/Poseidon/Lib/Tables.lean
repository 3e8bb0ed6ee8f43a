import Mathlib.Data.List.Nodup
import Mathlib.Order.Lattice

/-!
# Tables in arrays

Ways in which a program keeps a table in an array. An entry of an unordered table is removed by
writing the last entry over it and shortening the table; the other entries remain, in another
order. In a table looked up by a key, the first entry with a key is replaced by a new one. An
entry is changed in its place. A table that replaces only older entries holds, of all it was given,
the newest entry of each key.
-/

namespace Poseidon

def swapRemove {α : Type*} (table : List α) (index : Nat) : List α :=
  match table.getLast? with
  | none => table
  | some last => (table.set index last).dropLast

variable {α κ : Type*} {table : List α} {p : α → Bool}

theorem swapRemove_append_singleton (front : List α) (last : α) (index : Nat) :
    swapRemove (front ++ [last]) index = front.set index last := by
  unfold swapRemove
  rw [List.getLast?_append_of_ne_nil _ (List.cons_ne_nil _ _)]
  simp only [List.getLast?_singleton]
  by_cases hindex : index < front.length
  · rw [List.set_append_left _ _ hindex, List.dropLast_concat]
  · have hsingle : [last].set (index - front.length) last = [last] := by
      cases index - front.length <;> rfl
    rw [List.set_append_right _ _ (by omega), hsingle, List.dropLast_concat,
      List.set_eq_of_length_le (by omega)]

/-- **Removal.** The other entries remain, as a permutation. -/
theorem swapRemove_perm {index : Nat} (hindex : index < table.length) :
    (swapRemove table index).Perm (table.eraseIdx index) := by
  obtain ⟨front, last, rfl⟩ : ∃ front last, table = front ++ [last] := by
    refine ⟨table.dropLast, table.getLast (List.ne_nil_of_length_pos (by omega)), ?_⟩
    exact (List.dropLast_append_getLast _).symm
  rw [swapRemove_append_singleton]
  rw [List.length_append, List.length_singleton] at hindex
  by_cases hlast : index < front.length
  · rw [List.eraseIdx_append_of_lt_length hlast, List.set_eq_take_append_cons_drop, if_pos hlast,
      List.eraseIdx_eq_take_drop_succ, List.append_assoc]
    exact List.Perm.append_left _ (List.perm_append_singleton last _).symm
  · obtain rfl : index = front.length := by omega
    rw [List.set_eq_of_length_le (Nat.le_refl _),
      List.eraseIdx_append_of_length_le (Nat.le_refl _), Nat.sub_self]
    exact List.Perm.of_eq (List.append_nil front).symm

theorem length_swapRemove_le (table : List α) (index : Nat) :
    (swapRemove table index).length ≤ table.length := by
  unfold swapRemove
  cases table.getLast? with
  | none => exact Nat.le_refl _
  | some last =>
      dsimp only
      rw [List.length_dropLast, List.length_set]
      exact Nat.sub_le _ _

theorem map_swapRemove {β : Type*} (f : α → β) (table : List α) (index : Nat) :
    (swapRemove table index).map f = swapRemove (table.map f) index := by
  unfold swapRemove
  rw [List.getLast?_map]
  cases table.getLast? with
  | none => rfl
  | some last => exact (List.map_dropLast).trans (congrArg List.dropLast List.map_set)

theorem mem_of_findIdx?_beq [BEq α] [LawfulBEq α] {table : List α} {entry : α} {index : Nat}
    (hindex : table.findIdx? (· == entry) = some index) : entry ∈ table := by
  obtain ⟨hlength, hself, -⟩ := List.findIdx?_eq_some_iff_getElem.mp hindex
  rw [← beq_iff_eq.mp hself]
  exact List.getElem_mem hlength

theorem swapRemove_perm_erase [BEq α] [LawfulBEq α] {table : List α} {entry : α} {index : Nat}
    (hindex : table.findIdx? (· == entry) = some index) :
    (swapRemove table index).Perm (table.erase entry) := by
  obtain ⟨hlength, -⟩ := List.findIdx?_eq_some_iff_getElem.mp hindex
  have herase : table.erase entry = table.eraseIdx index := by
    rw [List.erase_eq_eraseIdx, List.idxOf?, hindex]
  rw [herase]
  exact swapRemove_perm hlength

/-- **Replacement.** Where the first entry with the key of `entry` is replaced by `entry`, that is
what its key finds; every other key finds what it found. -/
theorem find?_set_findIdx? [BEq κ] [LawfulBEq κ] [DecidableEq κ] (key : α → κ) {entry : α}
    {index : Nat} (hindex : table.findIdx? (fun known => key known == key entry) = some index)
    (wanted : κ) :
    (table.set index entry).find? (fun known => key known == wanted) =
      if wanted = key entry then some entry
      else table.find? (fun known => key known == wanted) := by
  induction table generalizing index with
  | nil => simp at hindex
  | cons first table ih =>
      rw [List.findIdx?_cons] at hindex
      by_cases hfirst : key first = key entry
      · have hzero : index = 0 := by simpa [hfirst] using hindex.symm
        subst hzero
        rw [List.set_cons_zero, List.find?_cons, List.find?_cons, hfirst]
        by_cases hwanted : wanted = key entry
        · simp [hwanted]
        · simp [hwanted, beq_false_of_ne (Ne.symm hwanted)]
      · rw [if_neg (by simpa using hfirst)] at hindex
        obtain ⟨rest, hrest, rfl⟩ := Option.map_eq_some_iff.mp hindex
        rw [List.set_cons_succ, List.find?_cons, List.find?_cons, ih hrest]
        by_cases hwanted : wanted = key entry
        · subst hwanted
          simp [beq_false_of_ne hfirst]
        · simp only [if_neg hwanted]

/-- **Addition.** An entry whose key finds nothing is found once it is appended. -/
theorem find?_append_singleton [BEq κ] [LawfulBEq κ] [DecidableEq κ] (key : α → κ) {entry : α}
    (hnone : table.find? (fun known => key known == key entry) = none) (wanted : κ) :
    (table ++ [entry]).find? (fun known => key known == wanted) =
      if wanted = key entry then some entry
      else table.find? (fun known => key known == wanted) := by
  rw [List.find?_append]
  by_cases hwanted : wanted = key entry
  · subst hwanted
    rw [hnone]
    simp
  · have hentry : (key entry == wanted) = false := beq_false_of_ne (Ne.symm hwanted)
    simp [hwanted, hentry]

theorem countP_modify (p : α → Bool) (change : α → α)
    (hchange : ∀ entry, p (change entry) = p entry) (table : List α) (index : Nat) :
    (table.modify index change).countP p = table.countP p := by
  induction table generalizing index with
  | nil => rw [List.modify_nil]
  | cons first table ih =>
      cases index with
      | zero => rw [List.modify_zero_cons, List.countP_cons, List.countP_cons, hchange]
      | succ index => rw [List.modify_succ_cons, List.countP_cons, List.countP_cons, ih]

theorem forall_of_countP_le {first second : α → Bool} {entries : List α}
    (himp : ∀ entry, first entry = true → second entry = true)
    (hle : entries.countP second ≤ entries.countP first) :
    ∀ entry ∈ entries, second entry = true → first entry = true := by
  have hsublist : (entries.filter first).Sublist (entries.filter second) :=
    List.monotone_filter_right entries himp
  rw [List.countP_eq_length_filter, List.countP_eq_length_filter] at hle
  have heq := hsublist.eq_of_length_le hle
  intro entry hentry hsecond
  have hmem : entry ∈ entries.filter first := by
    rw [heq]
    exact List.mem_filter.mpr ⟨hentry, hsecond⟩
  exact (List.mem_filter.mp hmem).2

/-- **Lookup.** Where the keys differ, what a key finds is the one entry that has it. -/
theorem find?_key_eq_some_iff [BEq κ] [LawfulBEq κ] (key : α → κ) (hnodup : (table.map key).Nodup)
    {wanted : κ} {entry : α} :
    table.find? (fun known => key known == wanted) = some entry ↔
      entry ∈ table ∧ key entry = wanted := by
  constructor
  · intro hfind
    exact ⟨List.mem_of_find?_eq_some hfind, by simpa using List.find?_some hfind⟩
  · rintro ⟨hmem, rfl⟩
    cases hfind : table.find? (fun known => key known == key entry) with
    | none => exact absurd (List.find?_eq_none.mp hfind entry hmem) (by simp)
    | some found =>
        have hkey : key found = key entry := by simpa using List.find?_some hfind
        rw [List.inj_on_of_nodup_map hnodup (List.mem_of_find?_eq_some hfind) hmem hkey]

theorem exists_findIdx?_of_find? {entry : α} (hfind : table.find? p = some entry) :
    ∃ index, table.findIdx? p = some index ∧ table[index]? = some entry := by
  obtain ⟨haccepted, index, hlength, rfl, hbefore⟩ := List.find?_eq_some_iff_getElem.mp hfind
  refine ⟨index, ?_, List.getElem?_eq_getElem hlength⟩
  rw [List.findIdx?_eq_some_iff_getElem]
  exact ⟨hlength, haccepted, fun i hi => by simpa using hbefore i hi⟩

theorem nodup_map_swapRemove (key : α → κ) {index : Nat} (hindex : index < table.length)
    (hnodup : (table.map key).Nodup) : ((swapRemove table index).map key).Nodup := by
  rw [((swapRemove_perm hindex).map key).nodup_iff]
  exact hnodup.sublist ((List.eraseIdx_sublist table index).map key)

/-- **Removal by key.** Where the keys differ, the first entry with a key is the only one, and the
other keys find what they found. -/
theorem find?_swapRemove [BEq κ] [LawfulBEq κ] [DecidableEq κ] (key : α → κ)
    (hnodup : (table.map key).Nodup) {removed : κ} {index : Nat}
    (hindex : table.findIdx? (fun known => key known == removed) = some index) (wanted : κ) :
    (swapRemove table index).find? (fun known => key known == wanted) =
      if wanted = removed then none else table.find? (fun known => key known == wanted) := by
  obtain ⟨hlength, hkey, -⟩ := List.findIdx?_eq_some_iff_getElem.mp hindex
  have hrest := nodup_map_swapRemove key hlength hnodup
  have hmem : ∀ entry, entry ∈ swapRemove table index ↔ entry ∈ table ∧ key entry ≠ removed := by
    intro entry
    rw [(swapRemove_perm hlength).mem_iff, List.mem_eraseIdx_iff_getElem?]
    constructor
    · rintro ⟨i, hne, hentry⟩
      refine ⟨List.mem_of_getElem? hentry, fun hsame => hne ?_⟩
      obtain ⟨hi, rfl⟩ := List.getElem?_eq_some_iff.mp hentry
      have hkeys : (table.map key)[i]? = (table.map key)[index]? := by
        rw [List.getElem?_map, List.getElem?_map, List.getElem?_eq_getElem hi,
          List.getElem?_eq_getElem hlength, Option.map_some, Option.map_some, hsame,
          eq_of_beq hkey]
      exact (List.getElem?_inj (by simpa using hi) hnodup).mp hkeys
    · rintro ⟨hentry, hne⟩
      obtain ⟨i, hi, rfl⟩ := List.mem_iff_getElem.mp hentry
      refine ⟨i, ?_, List.getElem?_eq_getElem hi⟩
      rintro rfl
      exact hne (eq_of_beq hkey)
  ext entry
  rw [find?_key_eq_some_iff key hrest, hmem]
  split_ifs with hwanted
  · subst hwanted
    refine iff_of_false ?_ (by simp)
    rintro ⟨⟨-, hne⟩, hsame⟩
    exact hne hsame
  · rw [find?_key_eq_some_iff key hnodup]
    constructor
    · rintro ⟨⟨hmem, -⟩, rfl⟩
      exact ⟨hmem, rfl⟩
    · rintro ⟨hmem, rfl⟩
      exact ⟨⟨hmem, hwanted⟩, rfl⟩

theorem find?_filter_of_nodup [BEq κ] [LawfulBEq κ] (key : α → κ) (p : α → Bool)
    (hnodup : (table.map key).Nodup) (wanted : κ) :
    (table.filter p).find? (fun known => key known == wanted) =
      (table.find? fun known => key known == wanted).filter p := by
  have hrest : ((table.filter p).map key).Nodup := hnodup.sublist (List.filter_sublist.map key)
  ext entry
  rw [find?_key_eq_some_iff key hrest, List.mem_filter, Option.filter_eq_some_iff,
    find?_key_eq_some_iff key hnodup, and_right_comm]

theorem mem_set_iff (key : α → κ) (hnodup : (table.map key).Nodup) {index : Nat}
    {replaced entry other : α} (hindex : table[index]? = some replaced) :
    other ∈ table.set index entry ↔ other = entry ∨ other ∈ table ∧ key other ≠ key replaced := by
  obtain ⟨hlength, rfl⟩ := List.getElem?_eq_some_iff.mp hindex
  rw [List.mem_iff_getElem]
  constructor
  · rintro ⟨i, hi, rfl⟩
    rw [List.getElem_set]
    split_ifs with hsame
    · exact Or.inl rfl
    · rw [List.length_set] at hi
      refine Or.inr ⟨List.getElem_mem hi, fun hkey => hsame ?_⟩
      have hmap : (table.map key)[index]? = (table.map key)[i]? := by
        rw [List.getElem?_map, List.getElem?_map, List.getElem?_eq_getElem hlength,
          List.getElem?_eq_getElem hi, Option.map_some, Option.map_some, hkey]
      exact (List.getElem?_inj (by simpa using hlength) hnodup).mp hmap
  · rintro (rfl | ⟨hmem, hkey⟩)
    · exact ⟨index, by simpa using hlength, List.getElem_set_self _⟩
    · obtain ⟨i, hi, rfl⟩ := List.mem_iff_getElem.mp hmem
      refine ⟨i, by simpa using hi, List.getElem_set_ne ?_ _⟩
      rintro rfl
      exact hkey rfl

theorem map_set_of_key_eq (key : α → κ) {index : Nat} {replaced entry : α}
    (hindex : table[index]? = some replaced) (hkey : key entry = key replaced) :
    (table.set index entry).map key = table.map key := by
  obtain ⟨hlength, rfl⟩ := List.getElem?_eq_some_iff.mp hindex
  rw [List.map_set, hkey, ← List.map_set, List.set_getElem_self]

theorem eraseIdx_eq_eraseP {index : Nat} (hindex : table.findIdx? p = some index) :
    table.eraseIdx index = table.eraseP p := by
  rw [List.eraseP_eq_eraseIdx, hindex]

theorem countP_eraseP_add_one {entry : α} (hentry : entry ∈ table) (haccepted : p entry = true) :
    (table.eraseP p).countP p + 1 = table.countP p := by
  obtain ⟨removed, front, back, -, hremoved, rfl, hrest⟩ := List.exists_of_eraseP hentry haccepted
  rw [hrest, List.countP_append, List.countP_append, List.countP_cons_of_pos hremoved,
    Nat.add_assoc]

theorem exists_split_of_getElem? {index : Nat} {entry : α} (hentry : table[index]? = some entry) :
    ∃ front back, table = front ++ entry :: back ∧
      ∀ other, table.set index other = front ++ other :: back := by
  obtain ⟨hlength, rfl⟩ := List.getElem?_eq_some_iff.mp hentry
  refine ⟨table.take index, table.drop (index + 1), ?_, fun other => ?_⟩
  · rw [← List.drop_eq_getElem_cons hlength, List.take_append_drop]
  · rw [List.set_eq_take_append_cons_drop, if_pos hlength]

theorem forall_mem_middle {P : α → Prop} {front back : List α} {old new : α}
    (hall : ∀ entry ∈ front ++ old :: back, P entry) (hnew : P new) :
    ∀ entry ∈ front ++ new :: back, P entry := by
  simp only [List.mem_append, List.mem_cons] at hall ⊢
  rintro entry (hfront | rfl | hback)
  · exact hall entry (Or.inl hfront)
  · exact hnew
  · exact hall entry (Or.inr (Or.inr hback))

section Newest

variable {α κ τ : Type*} [LinearOrder τ] (key : α → κ) (stamp : α → τ)

/-- The entry is in the history, which has no later one of its key. -/
def Newest (history : List α) (entry : α) : Prop :=
  entry ∈ history ∧ ∀ other ∈ history, key other = key entry → stamp other ≤ stamp entry

variable {key stamp} {history : List α} {entry : α}

theorem Newest.perm {other : List α} (hperm : other.Perm history) :
    Newest key stamp other entry ↔ Newest key stamp history entry := by
  simp only [Newest, hperm.mem_iff]

theorem newest_append_of_lt {known found : α} (hknown : Newest key stamp history known)
    (hkey : key known = key entry) (hlt : stamp entry < stamp known) :
    Newest key stamp (history ++ [entry]) found ↔ Newest key stamp history found := by
  simp only [Newest, List.mem_append, List.mem_singleton]
  constructor
  · rintro ⟨hfound | rfl, hlatest⟩
    · exact ⟨hfound, fun other hother => hlatest other (Or.inl hother)⟩
    · exact absurd hlt (not_lt_of_ge (hlatest known (Or.inl hknown.1) hkey))
  · rintro ⟨hfound, hlatest⟩
    refine ⟨Or.inl hfound, ?_⟩
    rintro other (hother | rfl) hsame
    · exact hlatest other hother hsame
    · exact le_trans (le_of_lt hlt) (hlatest known hknown.1 (hkey.trans hsame))

theorem newest_append_of_gt {found : α}
    (hlater : ∀ other ∈ history, key other = key entry → stamp other < stamp entry) :
    Newest key stamp (history ++ [entry]) found ↔
      found = entry ∨ Newest key stamp history found ∧ key found ≠ key entry := by
  simp only [Newest, List.mem_append, List.mem_singleton]
  constructor
  · rintro ⟨hfound | rfl, hlatest⟩
    · refine Or.inr ⟨⟨hfound, fun other hother => hlatest other (Or.inl hother)⟩, fun hsame => ?_⟩
      have hle := hlatest entry (Or.inr rfl) hsame.symm
      exact not_lt_of_ge hle (hlater found hfound hsame)
    · exact Or.inl rfl
  · rintro (rfl | ⟨⟨hfound, hlatest⟩, hne⟩)
    · refine ⟨Or.inr rfl, ?_⟩
      rintro other (hother | rfl) hsame
      · exact le_of_lt (hlater other hother hsame)
      · exact le_refl _
    · refine ⟨Or.inl hfound, ?_⟩
      rintro other (hother | rfl) hsame
      · exact hlatest other hother hsame
      · exact absurd hsame.symm hne

end Newest

end Poseidon
