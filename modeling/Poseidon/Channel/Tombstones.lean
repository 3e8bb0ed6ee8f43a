import Mathlib.Data.List.Dedup
import Mathlib.Data.List.Induction
import Poseidon.Channel.Convergence
import Poseidon.Lib.Compaction

/-!
# Tombstones

The manager keeps the tombstones of topics in an array of 64 places. A tombstone replaces the one of
its topic if that is older, and takes a new place if there is none. So the array is a map from
topics to the newest tombstone that was added, in an order that depends on that of the calls. The
expiry reads the array once and moves what it keeps to the front.
-/

namespace Poseidon

/-- The tombstone was added, and none of its topic with a later timestamp. -/
def Tombstone.NewestIn (calls : List Tombstone) (tombstone : Tombstone) : Prop :=
  Newest Tombstone.topicId (fun added => added.timestampUs.toNat) calls tombstone

namespace Manager

variable {crypto : Crypto}

/-- What `poseidon_channel_manager_add_tombstone` can do. -/
inductive AddsTombstone (manager : Manager crypto) (tombstone : Tombstone) :
    List Tombstone → Prop where
  | known (other : Tombstone) (hother : other ∈ manager.tombstones)
      (htopic : other.topicId = tombstone.topicId)
      (hle : tombstone.timestampUs ≤ other.timestampUs) :
      AddsTombstone manager tombstone manager.tombstones
  | newer (index : Nat) (older : Tombstone) (hindex : manager.tombstones[index]? = some older)
      (htopic : older.topicId = tombstone.topicId)
      (hlt : older.timestampUs < tombstone.timestampUs) :
      AddsTombstone manager tombstone (manager.tombstones.set index tombstone)
  | first (htopic : tombstone.topicId ∉ manager.tombstones.map Tombstone.topicId)
      (hroom : manager.tombstones.length < maxTombstones) :
      AddsTombstone manager tombstone (manager.tombstones ++ [tombstone])
  | full (htopic : tombstone.topicId ∉ manager.tombstones.map Tombstone.topicId)
      (hroom : maxTombstones ≤ manager.tombstones.length) :
      AddsTombstone manager tombstone manager.tombstones

theorem addsTombstone_addTombstone (manager : Manager crypto) (tombstone : Tombstone) :
    manager.AddsTombstone tombstone (manager.addTombstone tombstone).tombstones := by
  have habsent : manager.findTombstone tombstone.topicId = none →
      tombstone.topicId ∉ manager.tombstones.map Tombstone.topicId := by
    intro hnone hmem
    obtain ⟨other, hother, htopic⟩ := List.mem_map.mp hmem
    exact List.find?_eq_none.mp hnone other hother (by simpa using htopic)
  cases hfind : manager.findTombstone tombstone.topicId with
  | none =>
      have hindex : (manager.tombstones.findIdx? fun known =>
          known.topicId == tombstone.topicId) = none := by
        rw [List.findIdx?_eq_none_iff]
        intro other hother
        simpa using List.find?_eq_none.mp hfind other hother
      by_cases hroom : manager.tombstones.length < maxTombstones
      · have hstores : manager.stores tombstone = true := by simp [stores, hfind, hroom]
        simp only [addTombstone, hstores, if_true, hindex]
        exact .first (habsent hfind) hroom
      · have hstores : manager.stores tombstone = false := by simp [stores, hfind, hroom]
        simp only [addTombstone, hstores, Bool.false_eq_true, if_false]
        exact .full (habsent hfind) (Nat.le_of_not_lt hroom)
  | some known =>
      have htopic : known.topicId = tombstone.topicId := by simpa using List.find?_some hfind
      by_cases hlt : known.timestampUs < tombstone.timestampUs
      · have hstores : manager.stores tombstone = true := by simp [stores, hfind, hlt]
        obtain ⟨index, hindex, hknown⟩ := exists_findIdx?_of_find? hfind
        simp only [addTombstone, hstores, if_true, hindex]
        exact .newer index known hknown htopic hlt
      · have hstores : manager.stores tombstone = false := by simp [stores, hfind, hlt]
        simp only [addTombstone, hstores, Bool.false_eq_true, if_false]
        exact .known known (List.mem_of_find?_eq_some hfind) htopic (UInt64.not_lt.mp hlt)

/-- The table has the newest tombstone of every topic, and nothing else. -/
structure HoldsNewest (calls table : List Tombstone) : Prop where
  nodup : (table.map Tombstone.topicId).Nodup
  mem_iff : ∀ tombstone, tombstone ∈ table ↔ tombstone.NewestIn calls
  topics : ∀ topic, topic ∈ table.map Tombstone.topicId ↔ topic ∈ calls.map Tombstone.topicId

section Adding

variable {manager : Manager crypto} {calls table : List Tombstone} {tombstone : Tombstone}

section

variable (hholds : HoldsNewest calls table)

include hholds

/-- A topic the table does not have leaves a place for it, as long as the calls have no more than
64 topics. -/
theorem HoldsNewest.length_lt
    (hfew : ((calls ++ [tombstone]).map Tombstone.topicId).dedup.length ≤ maxTombstones)
    (htopic : tombstone.topicId ∉ table.map Tombstone.topicId) : table.length < maxTombstones := by
  have hnodup : (tombstone.topicId :: table.map Tombstone.topicId).Nodup :=
    List.nodup_cons.mpr ⟨htopic, hholds.nodup⟩
  have hsubset : tombstone.topicId :: table.map Tombstone.topicId ⊆
      ((calls ++ [tombstone]).map Tombstone.topicId).dedup := by
    intro topic hmem
    rw [List.mem_dedup, List.map_append, List.mem_append, List.map_singleton, List.mem_singleton]
    rcases List.mem_cons.mp hmem with rfl | hmem
    · exact Or.inr rfl
    · exact Or.inl ((hholds.topics topic).mp hmem)
  have hlength := (List.subperm_of_subset hnodup hsubset).length_le
  rw [List.length_cons, List.length_map] at hlength
  omega

theorem HoldsNewest.topics_known (hmem : tombstone.topicId ∈ table.map Tombstone.topicId)
    (topic : Bytes) :
    topic ∈ table.map Tombstone.topicId ↔ topic ∈ (calls ++ [tombstone]).map Tombstone.topicId := by
  rw [List.map_append, List.mem_append, List.map_singleton, List.mem_singleton, ← hholds.topics]
  refine ⟨Or.inl, ?_⟩
  rintro (htopic | rfl)
  · exact htopic
  · exact hmem

theorem HoldsNewest.keep {other : Tombstone} (hother : other ∈ table)
    (htopic : other.topicId = tombstone.topicId) (hlt : tombstone.timestampUs < other.timestampUs) :
    HoldsNewest (calls ++ [tombstone]) table := by
  have hnewest := (hholds.mem_iff other).mp hother
  refine ⟨hholds.nodup, fun found => ?_, hholds.topics_known ?_⟩
  · rw [hholds.mem_iff]
    exact (newest_append_of_lt hnewest htopic (UInt64.lt_iff_toNat_lt.mp hlt)).symm
  · exact htopic ▸ List.mem_map_of_mem hother

theorem HoldsNewest.replace {index : Nat} {older : Tombstone}
    (hindex : table[index]? = some older) (htopic : older.topicId = tombstone.topicId)
    (hlt : older.timestampUs < tombstone.timestampUs) :
    HoldsNewest (calls ++ [tombstone]) (table.set index tombstone) := by
  have hmem : older ∈ table := List.mem_of_getElem? hindex
  have hlater : ∀ other ∈ calls, other.topicId = tombstone.topicId →
      other.timestampUs.toNat < tombstone.timestampUs.toNat := by
    intro other hother hsame
    have hle := ((hholds.mem_iff older).mp hmem).2 other hother (hsame.trans htopic.symm)
    exact hle.trans_lt (UInt64.lt_iff_toNat_lt.mp hlt)
  have htopics := map_set_of_key_eq Tombstone.topicId hindex htopic.symm
  refine ⟨htopics ▸ hholds.nodup, fun found => ?_, ?_⟩
  · rw [mem_set_iff Tombstone.topicId hholds.nodup hindex, hholds.mem_iff, htopic]
    exact (newest_append_of_gt hlater).symm
  · rw [htopics]
    exact hholds.topics_known (htopic ▸ List.mem_map_of_mem hmem)

theorem HoldsNewest.append (htopic : tombstone.topicId ∉ table.map Tombstone.topicId) :
    HoldsNewest (calls ++ [tombstone]) (table ++ [tombstone]) := by
  have hlater : ∀ other ∈ calls, other.topicId = tombstone.topicId →
      other.timestampUs.toNat < tombstone.timestampUs.toNat := by
    intro other hother hsame
    exact absurd ((hholds.topics _).mpr (hsame ▸ List.mem_map_of_mem hother)) htopic
  refine ⟨?_, fun found => ?_, fun topic => ?_⟩
  · rw [List.map_append, List.map_singleton, ← List.concat_eq_append, List.nodup_concat]
    exact ⟨htopic, hholds.nodup⟩
  · have hother : found ∈ table → found.topicId ≠ tombstone.topicId := by
      intro hfound hsame
      exact htopic (hsame ▸ List.mem_map_of_mem hfound)
    calc found ∈ table ++ [tombstone]
        ↔ found = tombstone ∨ found ∈ table := by
          rw [List.mem_append, List.mem_singleton, or_comm]
      _ ↔ found = tombstone ∨ found ∈ table ∧ found.topicId ≠ tombstone.topicId := by
          rw [and_iff_left_of_imp hother]
      _ ↔ found.NewestIn (calls ++ [tombstone]) := by
          rw [hholds.mem_iff]
          exact (newest_append_of_gt hlater).symm
  · rw [List.map_append, List.map_append, List.mem_append, List.mem_append, hholds.topics]

end

theorem HoldsNewest.addTombstone (hholds : HoldsNewest calls manager.tombstones)
    (hfew : ((calls ++ [tombstone]).map Tombstone.topicId).dedup.length ≤ maxTombstones)
    (hdistinct : ∀ other ∈ calls, other.topicId = tombstone.topicId →
      other.timestampUs ≠ tombstone.timestampUs) :
    HoldsNewest (calls ++ [tombstone]) (manager.addTombstone tombstone).tombstones := by
  have hadds := manager.addsTombstone_addTombstone tombstone
  generalize (manager.addTombstone tombstone).tombstones = next at hadds
  cases hadds with
  | known other hother htopic hle =>
      have hne := hdistinct other ((hholds.mem_iff other).mp hother).1 htopic
      exact hholds.keep hother htopic (UInt64.lt_of_le_of_ne hle hne.symm)
  | newer index older hindex htopic hlt => exact hholds.replace hindex htopic hlt
  | first htopic hroom => exact hholds.append htopic
  | full htopic hroom => exact absurd (hholds.length_lt hfew htopic) (Nat.not_lt.mpr hroom)

theorem holdsNewest_run (hempty : manager.tombstones = [])
    (hfew : (calls.map Tombstone.topicId).dedup.length ≤ maxTombstones)
    (hdistinct : calls.Pairwise fun earlier later =>
      earlier.topicId = later.topicId → earlier.timestampUs ≠ later.timestampUs) :
    HoldsNewest calls (Runs.run Manager.addTombstone manager calls).tombstones := by
  induction calls using List.reverseRecOn with
  | nil =>
      rw [Runs.run_nil, hempty]
      exact ⟨List.nodup_nil, fun _ => by simp [Tombstone.NewestIn, Newest], fun _ => Iff.rfl⟩
  | append_singleton calls tombstone ih =>
      rw [List.pairwise_append] at hdistinct
      have hfront : (calls.map Tombstone.topicId).dedup.length ≤ maxTombstones := by
        refine le_trans (List.subperm_of_subset (List.nodup_dedup _) ?_).length_le hfew
        intro topic htopic
        rw [List.mem_dedup] at htopic ⊢
        exact List.map_subset _ (List.subset_append_left _ _) htopic
      rw [Runs.run_append, Runs.run_cons, Runs.run_nil]
      refine (ih hfront hdistinct.1).addTombstone hfew fun other hother => ?_
      exact hdistinct.2.2 other hother tombstone (List.mem_singleton_self _)

end Adding

/-- The loop of `poseidon_channel_manager_expire_tombstones` over the array. -/
def expireLoop (manager : Manager crypto) (now : ClockReading) : Compaction Tombstone :=
  Compaction.compact (fun _ tombstone => now.monotonicUs < tombstone.expiresAtUs)
    manager.tombstones

theorem kept_expireLoop (manager : Manager crypto) (now : ClockReading) :
    (manager.expireLoop now).kept = (manager.expireTombstones now).tombstones :=
  Compaction.kept_compact_of_const _ _

theorem not_mem_expireTombstones_iff {manager : Manager crypto} {now : ClockReading}
    {tombstone : Tombstone} (hmem : tombstone ∈ manager.tombstones) :
    tombstone ∉ (manager.expireTombstones now).tombstones ↔
      tombstone.expiresAtUs ≤ now.monotonicUs := by
  rw [expireTombstones, List.mem_filter, decide_eq_true_eq, ← UInt64.not_lt]
  exact not_congr (and_iff_right hmem)

theorem HoldsNewest.findTombstone_eq_some_iff {manager : Manager crypto} {calls : List Tombstone}
    (hholds : HoldsNewest calls manager.tombstones) {topic : Bytes} {tombstone : Tombstone} :
    manager.findTombstone topic = some tombstone ↔
      tombstone.NewestIn calls ∧ tombstone.topicId = topic := by
  rw [findTombstone, find?_key_eq_some_iff Tombstone.topicId hholds.nodup, hholds.mem_iff]

/-- **Tombstones.** Whatever tombstones of at most 64 topics are added to an empty table, in any
order and with distinct timestamps for each topic: the table has one entry for every topic, and a
topic finds the newest of its tombstones. In another order the calls leave the same entries, and
every topic finds the same. The expiry then removes the entries whose time has come and leaves the
others in their order. -/
theorem tombstones_newest (manager : Manager crypto) (hempty : manager.tombstones = [])
    (calls : List Tombstone)
    (hfew : (calls.map Tombstone.topicId).dedup.length ≤ 64)
    (hdistinct : calls.Pairwise fun earlier later =>
      earlier.topicId = later.topicId → earlier.timestampUs ≠ later.timestampUs) :
    let after := Runs.run addTombstone manager calls
    (∀ topic ∈ calls.map Tombstone.topicId,
        (after.tombstones.map Tombstone.topicId).count topic = 1) ∧
      (∀ known ∈ after.tombstones, known.topicId ∈ calls.map Tombstone.topicId) ∧
      (∀ topic tombstone, after.findTombstone topic = some tombstone ↔
        (tombstone ∈ calls ∧ tombstone.topicId = topic ∧ ∀ other ∈ calls, other.topicId = topic →
          other.timestampUs ≤ tombstone.timestampUs)) ∧
      (∀ reordered : List Tombstone, reordered.Perm calls →
        (Runs.run addTombstone manager reordered).tombstones.Perm after.tombstones ∧
          ∀ topic, (Runs.run addTombstone manager reordered).findTombstone topic =
            after.findTombstone topic) ∧
      ∀ now, (after.expireLoop now).kept = (after.expireTombstones now).tombstones ∧
        (after.expireTombstones now).tombstones.Sublist after.tombstones ∧
        ∀ tombstone ∈ after.tombstones,
          (tombstone ∉ (after.expireTombstones now).tombstones ↔
            tombstone.expiresAtUs ≤ now.monotonicUs) := by
  intro after
  have hholds : HoldsNewest calls after.tombstones := holdsNewest_run hempty hfew hdistinct
  refine ⟨fun topic htopic => ?_, fun known hknown => ?_, fun topic tombstone => ?_,
    fun reordered hperm => ?_, fun now => ?_⟩
  · exact List.count_eq_one_of_mem hholds.nodup ((hholds.topics topic).mpr htopic)
  · exact (hholds.topics _).mp (List.mem_map_of_mem hknown)
  · rw [hholds.findTombstone_eq_some_iff]
    constructor
    · rintro ⟨⟨hmem, hlatest⟩, rfl⟩
      exact ⟨hmem, rfl, fun other hother hsame =>
        UInt64.le_iff_toNat_le.mpr (hlatest other hother hsame)⟩
    · rintro ⟨hmem, rfl, hlatest⟩
      exact ⟨⟨hmem, fun other hother hsame =>
        UInt64.le_iff_toNat_le.mp (hlatest other hother hsame)⟩, rfl⟩
  · have hsymm : ∀ earlier later : Tombstone,
        (earlier.topicId = later.topicId → earlier.timestampUs ≠ later.timestampUs) →
          later.topicId = earlier.topicId → later.timestampUs ≠ earlier.timestampUs :=
      fun _ _ hne hsame => (hne hsame.symm).symm
    have hother : HoldsNewest reordered
        (Runs.run Manager.addTombstone manager reordered).tombstones := by
      refine holdsNewest_run hempty ?_ ((hperm.pairwise_iff @hsymm).mpr hdistinct)
      rw [(hperm.map _).dedup.length_eq]
      exact hfew
    have hnewest : ∀ tombstone : Tombstone,
        tombstone.NewestIn reordered ↔ tombstone.NewestIn calls := fun _ => Newest.perm hperm
    refine ⟨?_, fun topic => Option.ext fun tombstone => ?_⟩
    · rw [List.perm_ext_iff_of_nodup hother.nodup.of_map hholds.nodup.of_map]
      intro tombstone
      rw [hother.mem_iff, hholds.mem_iff, hnewest]
    · rw [hother.findTombstone_eq_some_iff, hholds.findTombstone_eq_some_iff, hnewest]
  · exact ⟨after.kept_expireLoop now, List.filter_sublist,
      fun tombstone hmem => not_mem_expireTombstones_iff hmem⟩

def olderTombstone : Tombstone :=
  tombstoneOf olderChange.notice ⟨0, 0⟩

def newerTombstone : Tombstone :=
  tombstoneOf newerChange.notice ⟨5, 5⟩

/-- The newer of two tombstones of a topic is found, although it came first. -/
theorem tombstones_newest_outOfOrder :
    ∃ manager, withChannel = some manager ∧ manager.tombstones = [] ∧
      (Runs.run addTombstone manager [newerTombstone, olderTombstone]).findTombstone
        (topicOf [1]).bytes = some newerTombstone := by
  have hany : (withChannel.any fun manager => decide (manager.tombstones = [])) = true := by
    decide +kernel
  obtain ⟨manager, hmanager, hempty⟩ := (Option.any_eq_true _ _).mp hany
  have hempty := of_decide_eq_true hempty
  refine ⟨manager, hmanager, hempty, ?_⟩
  have hnewest := tombstones_newest manager hempty [newerTombstone, olderTombstone]
    (by decide +kernel) (by decide +kernel)
  exact (hnewest.2.2.1 _ _).mpr (by decide +kernel)

end Manager

end Poseidon
