import Poseidon.Channel.Subtopic
import Poseidon.Lib.Runs

/-!
# Subscriptions with a lifetime

What the table of subtopics is for: a map from the subscribed paths to the ticks they have left.
Each call of the table does to what the paths find what the map says, as long as a new path fits its
place in an entry. A longer path is cut: it is not found again, although it was accepted.
-/

namespace Poseidon

/-! ### The map -/

/-- The ticks that are left of each path that is subscribed. -/
abbrev Lifetimes := Bytes → Option Nat

inductive SubtopicCall where
  | subscribe (path : CText) (ttl : UInt32)
  | unsubscribe (path : CText)
  | tick
deriving DecidableEq, Repr

/-- A lifetime behind a tick. -/
def aged (remaining : Nat) : Option Nat :=
  if remaining ≤ 1 then none else some (remaining - 1)

/-- What a call that succeeds does to the map. -/
def Lifetimes.after (lifetimes : Lifetimes) : SubtopicCall → Lifetimes
  | .subscribe path ttl => Function.update lifetimes path.bytes (some ttl.toNat)
  | .unsubscribe path => Function.update lifetimes path.bytes none
  | .tick => fun path => (lifetimes path).bind aged

namespace SubtopicTable

/-! ### What a path finds -/

def find (table : SubtopicTable) (path : Bytes) : Option SubtopicEntry :=
  table.entries.find? fun entry => entry.path.bytes == path

def lifetimes (table : SubtopicTable) : Lifetimes :=
  fun path => (table.find path).map (·.ttl.toNat)

def Distinct (table : SubtopicTable) : Prop :=
  (table.entries.map (·.path.bytes)).Nodup

variable (table : SubtopicTable)

theorem isSubscribed_eq (path : Bytes) :
    table.isSubscribed path = (table.lifetimes path).isSome := by
  rw [lifetimes, Option.isSome_map, find, List.isSome_find?]
  rfl

theorem find_eq_none_of_long {path : Bytes} (hlong : 512 ≤ path.length) :
    table.find path = none := by
  refine List.find?_eq_none.mpr fun entry _ hsame => ?_
  have hlength := entry.path.length_lt
  rw [eq_of_beq hsame] at hlength
  omega

theorem age_path (entry : SubtopicEntry) : (age entry).path = entry.path := by
  unfold age
  split_ifs <;> rfl

theorem lifetimes_eq_update {before after : SubtopicTable} {path : Bytes}
    {entry : Option SubtopicEntry}
    (hfind : ∀ wanted, after.find wanted = if wanted = path then entry else before.find wanted) :
    after.lifetimes = Function.update before.lifetimes path (entry.map (·.ttl.toNat)) := by
  funext wanted
  rw [lifetimes, hfind]
  by_cases hwanted : wanted = path
  · rw [if_pos hwanted, hwanted, Function.update_self]
  · rw [if_neg hwanted, Function.update_of_ne hwanted, lifetimes]

/-! ### Each call -/

theorem subscribe_cases (path : Bytes) (ttl : UInt32) :
    (∃ index entry, table.entries.findIdx? (fun known => known.path.bytes == path) = some index ∧
      table.entries[index]? = some entry ∧ entry.path.bytes = path ∧
      (table.subscribe path ttl).1 = 0 ∧
      (table.subscribe path ttl).2.entries = table.entries.set index { entry with ttl := ttl }) ∨
    (table.find path = none ∧ table.entries.length < maxSubtopicSubs ∧
      (table.subscribe path ttl).1 = 0 ∧
      (table.subscribe path ttl).2.entries = table.entries ++ [⟨CString.copy 511 path, ttl⟩]) ∨
    (table.find path = none ∧ maxSubtopicSubs ≤ table.entries.length ∧
      table.subscribe path ttl = (-1, table)) := by
  unfold subscribe
  split
  · next index hindex =>
      obtain ⟨hlength, hpath, -⟩ := List.findIdx?_eq_some_iff_getElem.mp hindex
      refine Or.inl ⟨index, table.entries[index], hindex, List.getElem?_eq_getElem hlength,
        eq_of_beq hpath, rfl, ?_⟩
      exact List.modify_eq_set_get _ hlength
  · next hindex =>
      have hfind : table.find path = none :=
        List.find?_eq_none.mpr fun entry hentry hsame => by
          exact absurd hsame (by simpa using List.findIdx?_eq_none_iff.mp hindex entry hentry)
      split_ifs with hroom
      · exact Or.inr (Or.inl ⟨hfind, hroom, rfl, rfl⟩)
      · exact Or.inr (Or.inr ⟨hfind, Nat.le_of_not_lt hroom, rfl⟩)

variable {table : SubtopicTable}

theorem find_set {after : SubtopicTable} {index : Nat} {entry : SubtopicEntry}
    (hindex : table.entries.findIdx? (fun known => known.path.bytes == entry.path.bytes) =
      some index) (hafter : after.entries = table.entries.set index entry) (wanted : Bytes) :
    after.find wanted = if wanted = entry.path.bytes then some entry else table.find wanted := by
  unfold find
  rw [hafter]
  exact find?_set_findIdx? (fun known : SubtopicEntry => known.path.bytes) hindex wanted

theorem find_append {after : SubtopicTable} {path : CString 512} {ttl : UInt32}
    (hnone : table.find path.bytes = none)
    (hafter : after.entries = table.entries ++ [⟨path, ttl⟩]) (wanted : Bytes) :
    after.find wanted = if wanted = path.bytes then some ⟨path, ttl⟩ else table.find wanted := by
  unfold find at hnone ⊢
  rw [hafter]
  exact find?_append_singleton (fun known : SubtopicEntry => known.path.bytes) hnone wanted

theorem bytes_copy_path {path : CText} (hfits : path.bytes.length < 512) :
    (CString.copy 511 path.bytes).bytes = path.bytes :=
  CString.bytes_copy (Nat.le_of_lt_succ hfits) path.zero_not_mem

/-- **Subscribing.** Where a new path fits its entry, or there is no place for it, the path finds
the new lifetime if the call succeeds. -/
theorem subscribe_refines (hdistinct : table.Distinct) (path : CText) (ttl : UInt32)
    (hfits : path.bytes.length < 512 ∨ maxSubtopicSubs ≤ table.entries.length) :
    (table.subscribe path.bytes ttl).2.Distinct ∧
      (table.subscribe path.bytes ttl).2.lifetimes =
        if (table.subscribe path.bytes ttl).1 = 0 then
          table.lifetimes.after (.subscribe path ttl) else table.lifetimes := by
  rcases table.subscribe_cases path.bytes ttl with
    ⟨index, entry, hindex, hentry, hpath, hcode, hafter⟩ | ⟨hnone, hroom, hcode, hafter⟩ |
      ⟨hnone, hfull, hrefused⟩
  · obtain ⟨bytes, hzero⟩ := path
    subst hpath
    have hkey : ({ entry with ttl := ttl } : SubtopicEntry).path.bytes = entry.path.bytes := rfl
    rw [if_pos hcode]
    constructor
    · unfold Distinct
      rw [hafter, map_set_of_key_eq (fun known : SubtopicEntry => known.path.bytes) hentry hkey]
      exact hdistinct
    · have hindex' : table.entries.findIdx? (fun known => known.path.bytes ==
          ({ entry with ttl := ttl } : SubtopicEntry).path.bytes) = some index := hindex
      exact lifetimes_eq_update (find_set hindex' hafter)
  · have hshort : path.bytes.length < 512 := by omega
    have hbytes := bytes_copy_path hshort
    have hnew : table.find (CString.copy 511 path.bytes).bytes = none := by rwa [hbytes]
    rw [if_pos hcode]
    constructor
    · unfold Distinct
      rw [hafter, List.map_append, List.map_singleton, List.nodup_append']
      refine ⟨hdistinct, List.nodup_singleton _, ?_⟩
      rw [List.disjoint_singleton]
      intro hmem
      obtain ⟨known, hknown, hsame⟩ := List.mem_map.mp hmem
      exact absurd (beq_iff_eq.mpr hsame) (List.find?_eq_none.mp hnew known hknown)
    · have hafter' := lifetimes_eq_update (find_append hnew hafter)
      rw [hbytes] at hafter'
      exact hafter'
  · rw [hrefused]
    exact ⟨hdistinct, (if_neg (show (-1 : Int) ≠ 0 by decide)).symm⟩

/-- **Unsubscribing.** The path finds nothing if the call succeeds, which it does if the path found
something. -/
theorem unsubscribe_refines (hdistinct : table.Distinct) (path : CText) :
    (table.unsubscribe path.bytes).2.Distinct ∧
      (table.unsubscribe path.bytes).2.lifetimes =
        if (table.unsubscribe path.bytes).1 = 0 then
          table.lifetimes.after (.unsubscribe path) else table.lifetimes := by
  unfold unsubscribe
  split
  · next index hindex =>
      obtain ⟨hlength, -⟩ := List.findIdx?_eq_some_iff_getElem.mp hindex
      refine ⟨nodup_map_swapRemove _ hlength hdistinct, ?_⟩
      have hfind : ∀ wanted, find ⟨swapRemove table.entries index,
          Nat.le_trans (length_swapRemove_le _ _) table.length_le⟩ wanted =
            if wanted = path.bytes then none else table.find wanted :=
        find?_swapRemove (fun known : SubtopicEntry => known.path.bytes) hdistinct hindex
      rw [if_pos rfl]
      exact lifetimes_eq_update hfind
  · exact ⟨hdistinct, (if_neg (show (-1 : Int) ≠ 0 by decide)).symm⟩

/-! ### A tick -/

theorem entries_tick (table : SubtopicTable) :
    table.tick.entries = (table.entries.map age).filter fun entry => entry.ttl > 0 :=
  Compaction.compactChanged_eq _ _ _

theorem map_path_map_age (entries : List SubtopicEntry) :
    (entries.map age).map (·.path.bytes) = entries.map (·.path.bytes) := by
  rw [List.map_map]
  exact List.map_congr_left fun entry _ => by rw [Function.comp_apply, age_path]

theorem filter_age (entry : SubtopicEntry) :
    ((some (age entry)).filter fun known => known.ttl > 0).map (·.ttl.toNat) =
      aged entry.ttl.toNat := by
  unfold age aged
  by_cases hzero : entry.ttl > 0
  · have hpos : 0 < entry.ttl.toNat := UInt32.lt_iff_toNat_lt.mp hzero
    have hless : (entry.ttl - 1).toNat = entry.ttl.toNat - 1 :=
      UInt32.toNat_sub_of_le _ _ (UInt32.le_iff_toNat_le.mpr hpos)
    have hleft : entry.ttl - 1 > 0 ↔ 1 < entry.ttl.toNat := by
      rw [gt_iff_lt, UInt32.lt_iff_toNat_lt, hless, UInt32.toNat_zero]
      omega
    rw [if_pos hzero, Option.filter_some]
    by_cases hlong : 1 < entry.ttl.toNat
    · rw [if_pos (decide_eq_true (hleft.mpr hlong)), if_neg (by omega), Option.map_some, hless]
    · rw [if_neg (by simpa [hleft] using hlong), if_pos (by omega), Option.map_none]
  · have hnone : entry.ttl.toNat = 0 := by
      rw [gt_iff_lt, UInt32.lt_iff_toNat_lt, UInt32.toNat_zero] at hzero
      omega
    rw [if_neg hzero, Option.filter_some, if_neg (by simpa using hzero), if_pos (by omega),
      Option.map_none]

theorem tick_refines (hdistinct : table.Distinct) :
    table.tick.Distinct ∧ table.tick.lifetimes = table.lifetimes.after .tick := by
  have hmap : ((table.entries.map age).map (·.path.bytes)).Nodup := by
    rw [map_path_map_age]
    exact hdistinct
  constructor
  · unfold Distinct
    rw [entries_tick]
    exact hmap.sublist (List.filter_sublist.map _)
  · funext wanted
    have hsame : ((fun known : SubtopicEntry => known.path.bytes == wanted) ∘ age) =
        fun known => known.path.bytes == wanted := by
      funext known
      rw [Function.comp_apply, age_path]
    rw [lifetimes, find, entries_tick,
      find?_filter_of_nodup (fun known : SubtopicEntry => known.path.bytes) _ hmap, List.find?_map,
      hsame]
    change _ =
      (Option.map _ (table.entries.find? fun known => known.path.bytes == wanted)).bind aged
    cases table.entries.find? fun known => known.path.bytes == wanted with
    | none => rfl
    | some entry => exact filter_age entry

/-! ### Every call -/

def perform (table : SubtopicTable) : SubtopicCall → Int × SubtopicTable
  | .subscribe path ttl => table.subscribe path.bytes ttl
  | .unsubscribe path => table.unsubscribe path.bytes
  | .tick => (0, table.tick)

/-- A path that is subscribed fits the place for it, or there is no place. -/
def Fits (table : SubtopicTable) : SubtopicCall → Prop
  | .subscribe path _ => path.bytes.length < 512 ∨ maxSubtopicSubs ≤ table.entries.length
  | .unsubscribe _ => True
  | .tick => True

theorem perform_refines (hdistinct : table.Distinct) {call : SubtopicCall}
    (hfits : table.Fits call) :
    (table.perform call).2.Distinct ∧
      (table.perform call).2.lifetimes =
        if (table.perform call).1 = 0 then table.lifetimes.after call else table.lifetimes := by
  cases call with
  | subscribe path ttl => exact subscribe_refines hdistinct path ttl hfits
  | unsubscribe path => exact unsubscribe_refines hdistinct path
  | tick => exact tick_refines hdistinct

theorem subscribe_of_not_fits {call : SubtopicCall} (hfits : ¬table.Fits call) :
    ∃ path ttl, call = .subscribe path ttl ∧ (table.perform call).1 = 0 ∧
      (table.perform call).2.isSubscribed path.bytes = false := by
  cases call with
  | subscribe path ttl =>
      obtain ⟨hlong, hroom⟩ := not_or.mp hfits
      refine ⟨path, ttl, rfl, ?_, ?_⟩
      · rcases table.subscribe_cases path.bytes ttl with
          ⟨-, -, -, -, -, hcode, -⟩ | ⟨-, -, hcode, -⟩ | ⟨-, hfull, -⟩
        · exact hcode
        · exact hcode
        · exact absurd hfull hroom
      · rw [isSubscribed_eq, lifetimes, find_eq_none_of_long _ (Nat.le_of_not_lt hlong)]
        rfl
  | unsubscribe path => exact absurd trivial hfits
  | tick => exact absurd trivial hfits

end SubtopicTable

/-! ### Runs -/

structure SubtopicHistory where
  table : SubtopicTable
  map : Lifetimes

namespace SubtopicHistory

def start : SubtopicHistory :=
  ⟨SubtopicTable.create, fun _ => none⟩

def step (s : SubtopicHistory) (call : SubtopicCall) : SubtopicHistory :=
  let result := s.table.perform call
  ⟨result.2, if result.1 = 0 then s.map.after call else s.map⟩

/-- The paths that are subscribed are those of the map. -/
def Agrees (s : SubtopicHistory) : Prop :=
  ∀ path : CText, s.table.isSubscribed path.bytes = (s.map path.bytes).isSome

def Refines (s : SubtopicHistory) : Prop :=
  s.table.Distinct ∧ s.table.lifetimes = s.map

variable {s : SubtopicHistory}

theorem Refines.agrees (hs : s.Refines) : s.Agrees := by
  intro path
  rw [SubtopicTable.isSubscribed_eq, hs.2]

theorem refines_start : start.Refines :=
  ⟨List.nodup_nil, rfl⟩

theorem Refines.step (hs : s.Refines) {call : SubtopicCall} (hfits : s.table.Fits call) :
    (s.step call).Refines := by
  obtain ⟨hdistinct, hmap⟩ := hs
  obtain ⟨hdistinct', hlifetimes⟩ := SubtopicTable.perform_refines hdistinct hfits
  refine ⟨hdistinct', ?_⟩
  rw [hmap] at hlifetimes
  exact hlifetimes

theorem fits_of_agrees_step {call : SubtopicCall} (hagrees : (s.step call).Agrees) :
    s.table.Fits call := by
  by_contra hfits
  obtain ⟨path, ttl, rfl, hcode, habsent⟩ := SubtopicTable.subscribe_of_not_fits hfits
  have hsame := hagrees path
  rw [step, habsent, if_pos hcode] at hsame
  dsimp only [Lifetimes.after] at hsame
  rw [Function.update_self] at hsame
  cases hsame

/-! ### How long a path is subscribed -/

def left (ttl ticks : Nat) : Option Nat :=
  if ticks < ttl then some (ttl - ticks) else none

theorem left_bind_aged (ttl ticks : Nat) : (left ttl ticks).bind aged = left ttl (ticks + 1) := by
  unfold left
  by_cases hleft : ticks < ttl
  · rw [if_pos hleft, Option.bind_some, aged]
    split_ifs with hlast hnext
    · omega
    · rfl
    · rw [Nat.sub_sub]
    · omega
  · rw [if_neg hleft, if_neg (by omega), Option.bind_none]

def Concerns (path : CText) : SubtopicCall → Prop
  | .subscribe other _ => other = path
  | .unsubscribe other => other = path
  | .tick => False

theorem map_step_of_after_eq {call : SubtopicCall} {path : Bytes}
    (hsame : s.map.after call path = s.map path) : (s.step call).map path = s.map path := by
  unfold step
  dsimp only
  split_ifs
  · exact hsame
  · rfl

theorem map_step_of_not_concerns (s : SubtopicHistory) {path : CText} {call : SubtopicCall}
    (hother : ¬Concerns path call) {ttl ticks : Nat} (hmap : s.map path.bytes = left ttl ticks) :
    (s.step call).map path.bytes = left ttl (ticks + [call].count .tick) := by
  have hne : ∀ other : CText, other ≠ path → path.bytes ≠ other.bytes := by
    intro other hne hbytes
    exact hne (CText.ext hbytes.symm)
  cases call with
  | subscribe other lifetime =>
      have hsame : s.map.after (.subscribe other lifetime) path.bytes = s.map path.bytes :=
        Function.update_of_ne (hne other hother) _ _
      exact (map_step_of_after_eq hsame).trans hmap
  | unsubscribe other =>
      have hsame : s.map.after (.unsubscribe other) path.bytes = s.map path.bytes :=
        Function.update_of_ne (hne other hother) _ _
      exact (map_step_of_after_eq hsame).trans hmap
  | tick =>
      change (s.map path.bytes).bind aged = _
      rw [hmap, left_bind_aged]
      rfl

theorem map_run_of_not_concerns {path : CText} {calls : List SubtopicCall}
    (hothers : ∀ call ∈ calls, ¬Concerns path call) {ttl ticks : Nat}
    (hmap : s.map path.bytes = left ttl ticks) :
    (Runs.run step s calls).map path.bytes = left ttl (ticks + calls.count .tick) := by
  induction calls generalizing s ticks with
  | nil => exact hmap
  | cons call calls ih =>
      have hnext := map_step_of_not_concerns s (hothers call List.mem_cons_self) hmap
      have hlater : ∀ other ∈ calls, ¬Concerns path other :=
        fun other hother => hothers other (List.mem_cons_of_mem _ hother)
      rw [Runs.run_cons, ih hlater hnext, Nat.add_assoc, ← List.count_append,
        List.singleton_append]

/-- **Lifetimes.** At every point of a run the subscribed paths are those of the map, exactly if
each path that is subscribed fits the place for it or finds the table full. In such a run, a path
whose subscription succeeded, and that no later call concerns, is subscribed until as many ticks as
its lifetime have passed. -/
theorem subtopicTable_lifetimes_iff (calls : List SubtopicCall) :
    ((∀ front, front <+: calls → (Runs.run step start front).Agrees) ↔
      Runs.Meets step (fun s call => s.table.Fits call) start calls) ∧
    (Runs.Meets step (fun s call => s.table.Fits call) start calls →
      ∀ front path ttl back, calls = front ++ .subscribe path ttl :: back → 0 < ttl →
        ((Runs.run step start front).table.subscribe path.bytes ttl).1 = 0 →
        (∀ call ∈ back, ¬Concerns path call) →
        ((Runs.run step start calls).table.isSubscribed path.bytes = true ↔
          back.count .tick < ttl.toNat)) := by
  have hiff : (∀ front, front <+: calls → (Runs.run step start front).Agrees) ↔
      Runs.Meets step (fun s call => s.table.Fits call) start calls :=
    Runs.forall_front_iff_meets_of_keeps step Refines Agrees (fun _ hs => hs.agrees)
      (fun _ _ hs _ hfits => hs.step hfits) (fun _ _ _ _ hagrees => fits_of_agrees_step hagrees)
      refines_start (@Runs.meets_of_forall _ _ step _ (fun _ _ => True) _ fun _ _ _ => trivial)
  refine ⟨hiff, ?_⟩
  intro hmeets front path ttl back hcalls httl hcode hothers
  have hsubscribed := hiff.mpr hmeets calls (List.prefix_refl calls) path
  have hpos : 0 < ttl.toNat := UInt32.lt_iff_toNat_lt.mp httl
  have hfirst : ((Runs.run step start front).step (.subscribe path ttl)).map path.bytes =
      left ttl.toNat 0 := by
    have hperform : ((Runs.run step start front).table.perform (.subscribe path ttl)).1 = 0 := hcode
    rw [left, if_pos hpos, Nat.sub_zero, step, if_pos hperform]
    exact Function.update_self _ _ _
  have hmap := map_run_of_not_concerns hothers hfirst
  rw [← Runs.run_cons, ← Runs.run_append, ← hcalls, Nat.zero_add] at hmap
  rw [hsubscribed, hmap, left]
  split_ifs with hleft
  · exact iff_of_true rfl hleft
  · exact iff_of_false Bool.false_ne_true hleft

/-- A path of 512 characters is accepted, and is not subscribed. -/
theorem subtopicTable_cuts_path :
    (0 : UInt8) ∉ List.replicate 512 (97 : UInt8) ∧
      (SubtopicTable.create.subscribe (List.replicate 512 97) 300).1 = 0 ∧
      (SubtopicTable.create.subscribe (List.replicate 512 97) 300).2.isSubscribed
        (List.replicate 512 97) = false := by
  decide +kernel

end SubtopicHistory

end Poseidon
