import Poseidon.Bloom.AttenuatedBloomFilter
import Poseidon.Bloom.WellFormed

/-!
# What merging keeps and what it takes in

Merging two elastic filters joins their bits, if they have the same size; otherwise the destination
stays as it was. An attenuated merge does this at every level but the first, each against the
source's level below it, so nothing a level contains is ever lost by merging. Whether the source's
items arrive depends on the sizes.
-/

namespace Poseidon

namespace ElasticBloomFilter

theorem mem_foldl_insertFingerprint {own other : List Nat} {fp : Nat} :
    fp ∈ other.foldl insertFingerprint own ↔ fp ∈ own ∨ fp ∈ other := by
  induction other generalizing own with
  | nil => simp
  | cons first other ih =>
      rw [List.foldl_cons, ih, mem_insertFingerprint, List.mem_cons]
      tauto

theorem isEmpty_foldl_insertFingerprint (own other : List Nat) :
    (other.foldl insertFingerprint own).isEmpty = (own.isEmpty && other.isEmpty) := by
  rw [Bool.eq_iff_iff, Bool.and_eq_true]
  simp only [List.isEmpty_iff, List.eq_nil_iff_forall_not_mem, mem_foldl_insertFingerprint]
  constructor
  · intro hnone
    exact ⟨fun fp hfp => hnone fp (.inl hfp), fun fp hfp => hnone fp (.inr hfp)⟩
  · rintro ⟨hown, hother⟩ fp (hfp | hfp)
    · exact hown fp hfp
    · exact hother fp hfp

theorem isEmpty_getD_zipWith_foldl {own other : List (List Nat)}
    (hlength : own.length = other.length) (i : Nat) :
    ((List.zipWith (fun own other => other.foldl insertFingerprint own) own other).getD i
      []).isEmpty = ((own.getD i []).isEmpty && (other.getD i []).isEmpty) := by
  simp only [List.getD_eq_getElem?_getD, List.getElem?_zipWith]
  by_cases hi : i < own.length
  · have hj : i < other.length := hlength ▸ hi
    rw [List.getElem?_eq_getElem hi, List.getElem?_eq_getElem hj]
    exact isEmpty_foldl_insertFingerprint _ _
  · rw [List.getElem?_eq_none (by omega), List.getElem?_eq_none (by omega)]
    rfl

theorem WellFormed.merge {dest src merged : ElasticBloomFilter} (hdest : dest.WellFormed)
    (hsrc : src.WellFormed) (hmerge : dest.merge src = some merged) : merged.WellFormed := by
  unfold ElasticBloomFilter.merge at hmerge
  split_ifs at hmerge with hshape
  obtain rfl := Option.some.inj hmerge
  have hsize : dest.size = src.size := by
    by_contra hne
    exact hshape (.inl hne)
  have hlength : dest.buckets.length = src.buckets.length := by
    rw [hdest.length_buckets, hsrc.length_buckets, hsize]
  refine ⟨hdest.size_pos, hdest.bucketCount_eq, ?_, ?_⟩
  · rw [List.length_zipWith, ← hlength, Nat.min_self]
    exact hdest.length_buckets
  · intro i
    change (dest.bits.or src.bits).get i = !(List.getD _ i []).isEmpty
    rw [Bitset.get_or, isEmpty_getD_zipWith_foldl hlength, hdest.get_bits, hsrc.get_bits,
      Bool.not_and]
    rfl

variable (H : HashFn)

/-- The filters have the same size, and between them every bit of the item. -/
def TakesIn (dest src : ElasticBloomFilter) (data : Bytes) : Prop :=
  dest.size = src.size ∧ dest.bucketCount = src.bucketCount ∧
    ∀ pair ∈ dest.hashPairs H data, (dest.bits.get pair.2 || src.bits.get pair.2) = true

instance (dest src : ElasticBloomFilter) (data : Bytes) : Decidable (dest.TakesIn H src data) :=
  inferInstanceAs (Decidable (_ ∧ _ ∧ _))

/-- Filters that place every item at the same bits. -/
structure SameShape (dest src : ElasticBloomFilter) : Prop where
  size : dest.size = src.size
  bucketCount : dest.bucketCount = src.bucketCount
  hashCount : dest.hashCount = src.hashCount
  seedA : dest.seedA = src.seedA
  seedB : dest.seedB = src.seedB

instance (dest src : ElasticBloomFilter) : Decidable (dest.SameShape src) :=
  decidable_of_iff (dest.size = src.size ∧ dest.bucketCount = src.bucketCount ∧
      dest.hashCount = src.hashCount ∧ dest.seedA = src.seedA ∧ dest.seedB = src.seedB)
    ⟨fun ⟨h1, h2, h3, h4, h5⟩ => ⟨h1, h2, h3, h4, h5⟩,
      fun ⟨h1, h2, h3, h4, h5⟩ => ⟨h1, h2, h3, h4, h5⟩⟩

theorem SameShape.snd_mem_hashPairs {dest src : ElasticBloomFilter}
    (hshape : dest.SameShape src) {data : Bytes} {pair : Nat × Nat}
    (hpair : pair ∈ dest.hashPairs H data) :
    ∃ other ∈ src.hashPairs H data, other.2 = pair.2 := by
  obtain ⟨i, hi, rfl⟩ := List.mem_map.mp hpair
  rw [hshape.hashCount] at hi
  refine ⟨_, List.mem_map.mpr ⟨i, hi, rfl⟩, ?_⟩
  simp only [computeHashPair, hash, hshape.size, hshape.seedA, hshape.seedB]

theorem SameShape.takesIn {dest src : ElasticBloomFilter} (hshape : dest.SameShape src)
    {data : Bytes} (hcontains : src.contains H data = true) : dest.TakesIn H src data := by
  refine ⟨hshape.size, hshape.bucketCount, ?_⟩
  intro pair hpair
  obtain ⟨other, hother, heq⟩ := hshape.snd_mem_hashPairs H hpair
  have hbit := List.all_eq_true.mp hcontains other hother
  rw [heq] at hbit
  rw [hbit, Bool.or_true]

end ElasticBloomFilter

namespace AttenuatedBloomFilter

open ElasticBloomFilter

variable (H : HashFn)

theorem contains_mergeLevel (dest src : ElasticBloomFilter) (data : Bytes) :
    (mergeLevel dest src).contains H data = true ↔
      dest.contains H data = true ∨ dest.TakesIn H src data := by
  unfold mergeLevel ElasticBloomFilter.merge TakesIn
  split_ifs with hshape
  · simp only [Option.getD_none]
    constructor
    · exact Or.inl
    · rintro (hcontains | ⟨hsize, hcount, -⟩)
      · exact hcontains
      · exact (hshape.elim (fun hne => hne hsize) (fun hne => hne hcount)).elim
  · have hshape := not_or.mp hshape
    have hboth : ∀ pairs : List (Nat × Nat),
        (pairs.all fun pair => (dest.bits.or src.bits).get pair.2) = true ↔
          ∀ pair ∈ pairs, (dest.bits.get pair.2 || src.bits.get pair.2) = true := by
      intro pairs
      simp only [List.all_eq_true, Bitset.get_or]
    simp only [Option.getD_some]
    constructor
    · intro hcontains
      exact .inr ⟨not_not.mp hshape.1, not_not.mp hshape.2, (hboth _).mp hcontains⟩
    · rintro (hcontains | ⟨-, -, hbits⟩)
      · refine (hboth _).mpr fun pair hpair => ?_
        rw [List.all_eq_true.mp hcontains pair hpair, Bool.true_or]
      · exact (hboth _).mpr hbits

theorem getElem?_mergeUpper (upper rest : List ElasticBloomFilter) (i : Nat) :
    (mergeUpper upper rest)[i]? = upper[i]?.map fun dest =>
      match rest[i]? with
      | none => dest
      | some src => mergeLevel dest src := by
  induction upper generalizing rest i with
  | nil => simp [mergeUpper]
  | cons dest upper ih =>
      cases rest with
      | nil => simp [mergeUpper]
      | cons src rest =>
          cases i with
          | zero => rfl
          | succ i => exact ih rest i

theorem getElem?_levels_merge_zero (dest src : AttenuatedBloomFilter) :
    (dest.merge src).levels[0]? = dest.levels[0]? := by
  obtain ⟨levels⟩ := dest
  cases levels <;> rfl

theorem getElem?_levels_merge_succ (dest src : AttenuatedBloomFilter) (i : Nat) :
    (dest.merge src).levels[i + 1]? = dest.levels[i + 1]?.map fun level =>
      match src.levels[i]? with
      | none => level
      | some other => mergeLevel level other := by
  obtain ⟨levels⟩ := dest
  cases levels with
  | nil => rfl
  | cons own upper => exact getElem?_mergeUpper upper src.levels i

@[simp]
theorem levelCount_merge (dest src : AttenuatedBloomFilter) :
    (dest.merge src).levelCount = dest.levelCount := by
  have hlength : ∀ upper rest : List ElasticBloomFilter,
      (mergeUpper upper rest).length = upper.length := by
    intro upper
    induction upper with
    | nil => intro rest; cases rest <;> rfl
    | cons level upper ih =>
        intro rest
        cases rest with
        | nil => rfl
        | cons other rest => exact congrArg Nat.succ (ih rest)
  obtain ⟨levels⟩ := dest
  cases levels with
  | nil => rfl
  | cons own upper => exact congrArg Nat.succ (hlength upper src.levels)

/-! ### Reporting a topic -/

def ReportsWithin (filter : AttenuatedBloomFilter) (topic : Bytes) (hops : Nat) : Prop :=
  ∃ hop ≤ hops, filter.check H topic = some hop

variable {filter : AttenuatedBloomFilter}

theorem reportsWithin_iff {topic : Bytes} {hops : Nat} :
    filter.ReportsWithin H topic hops ↔
      ∃ hop ≤ hops, ∃ level, filter.levels[hop]? = some level ∧
        level.contains H topic = true := by
  unfold ReportsWithin check
  constructor
  · rintro ⟨hop, hle, hcheck⟩
    obtain ⟨hlt, hcontains, -⟩ := List.findIdx?_eq_some_iff_getElem.mp hcheck
    exact ⟨hop, hle, _, List.getElem?_eq_getElem hlt, hcontains⟩
  · rintro ⟨hop, hle, level, hlevel, hcontains⟩
    obtain ⟨hlt, rfl⟩ := List.getElem?_eq_some_iff.mp hlevel
    cases hfound : filter.levels.findIdx? (·.contains H topic) with
    | none =>
        have hnone := List.findIdx?_eq_none_iff.mp hfound _ (List.getElem_mem hlt)
        rw [hcontains] at hnone
        contradiction
    | some first =>
        refine ⟨first, ?_, rfl⟩
        obtain ⟨_, _, hfirst⟩ := List.findIdx?_eq_some_iff_getElem.mp hfound
        by_contra hlater
        exact hfirst hop (by omega) hcontains

/-- Behind a merge a topic is reported within `hops + 1` hops exactly if it was before, or if one
of the levels in question takes it in from the level below it of the source. -/
theorem reportsWithin_merge_iff (dest src : AttenuatedBloomFilter) (topic : Bytes) (hops : Nat) :
    (dest.merge src).ReportsWithin H topic (hops + 1) ↔
      dest.ReportsWithin H topic (hops + 1) ∨
        ∃ i ≤ hops, ∃ level other, dest.levels[i + 1]? = some level ∧
          src.levels[i]? = some other ∧ level.TakesIn H other topic := by
  rw [reportsWithin_iff, reportsWithin_iff]
  constructor
  · rintro ⟨hop, hle, level, hlevel, hcontains⟩
    cases hop with
    | zero =>
        rw [getElem?_levels_merge_zero] at hlevel
        exact .inl ⟨0, hle, level, hlevel, hcontains⟩
    | succ i =>
        rw [getElem?_levels_merge_succ, Option.map_eq_some_iff] at hlevel
        obtain ⟨own, hown, rfl⟩ := hlevel
        cases hother : src.levels[i]? with
        | none =>
            rw [hother] at hcontains
            exact .inl ⟨i + 1, hle, own, hown, hcontains⟩
        | some other =>
            rw [hother] at hcontains
            obtain hcontains | htakes := (contains_mergeLevel H own other topic).mp hcontains
            · exact .inl ⟨i + 1, hle, own, hown, hcontains⟩
            · exact .inr ⟨i, by omega, own, other, hown, hother, htakes⟩
  · rintro (⟨hop, hle, level, hlevel, hcontains⟩ | ⟨i, hle, level, other, hlevel, hother, htakes⟩)
    · cases hop with
      | zero => exact ⟨0, hle, level, by rw [getElem?_levels_merge_zero, hlevel], hcontains⟩
      | succ i =>
          refine ⟨i + 1, hle, _, by rw [getElem?_levels_merge_succ, hlevel]; rfl, ?_⟩
          cases src.levels[i]? with
          | none => exact hcontains
          | some other => exact (contains_mergeLevel H level other topic).mpr (.inl hcontains)
    · refine ⟨i + 1, by omega, mergeLevel level other, ?_, ?_⟩
      · rw [getElem?_levels_merge_succ, hlevel, hother]
        rfl
      · exact (contains_mergeLevel H level other topic).mpr (.inr htakes)

/-! ### Well-formed levels -/

def WellFormed (filter : AttenuatedBloomFilter) : Prop :=
  ∀ level ∈ filter.levels, level.WellFormed

theorem wellFormed_mergeLevel {dest src : ElasticBloomFilter} (hdest : dest.WellFormed)
    (hsrc : 0 < src.size → src.WellFormed) : (mergeLevel dest src).WellFormed := by
  unfold mergeLevel
  cases hmerge : dest.merge src with
  | none => exact hdest
  | some merged =>
      have hsize : dest.size = src.size := by
        by_contra hne
        simp [ElasticBloomFilter.merge, hne] at hmerge
      exact hdest.merge (hsrc (hsize ▸ hdest.size_pos)) hmerge

theorem WellFormed.merge {dest src : AttenuatedBloomFilter} (hdest : dest.WellFormed)
    (hsrc : ∀ level ∈ src.levels, 0 < level.size → level.WellFormed) :
    (dest.merge src).WellFormed := by
  intro level hlevel
  obtain ⟨i, hget⟩ := List.mem_iff_getElem?.mp hlevel
  cases i with
  | zero =>
      rw [getElem?_levels_merge_zero] at hget
      exact hdest level (List.mem_of_getElem? hget)
  | succ i =>
      rw [getElem?_levels_merge_succ, Option.map_eq_some_iff] at hget
      obtain ⟨own, hown, rfl⟩ := hget
      have hwf := hdest own (List.mem_of_getElem? hown)
      cases hother : src.levels[i]? with
      | none => exact hwf
      | some other => exact wellFormed_mergeLevel hwf (hsrc other (List.mem_of_getElem? hother))

theorem WellFormed.modify_zero (hwf : filter.WellFormed)
    {change : ElasticBloomFilter → ElasticBloomFilter}
    (hchange : ∀ level, level.WellFormed → (change level).WellFormed) :
    WellFormed ⟨filter.levels.modify 0 change⟩ := by
  obtain ⟨levels⟩ := filter
  cases levels with
  | nil => exact hwf
  | cons own upper =>
      intro level hlevel
      obtain rfl | hupper := List.mem_cons.mp hlevel
      · exact hchange own (hwf own List.mem_cons_self)
      · exact hwf level (List.mem_cons_of_mem own hupper)

theorem WellFormed.subscribe (hwf : filter.WellFormed) (topic : Bytes) :
    (filter.subscribe H topic).WellFormed :=
  hwf.modify_zero fun _ hlevel => hlevel.add H topic

theorem WellFormed.unsubscribe (hwf : filter.WellFormed) (topic : Bytes) :
    (filter.unsubscribe H topic).WellFormed :=
  hwf.modify_zero fun _ hlevel => hlevel.remove H topic

theorem WellFormed.create {size : Nat} (hsize : 0 < size) (levels hashCount : Nat) (omega : Rat)
    (fpBits : Nat) : (create levels size hashCount omega fpBits).WellFormed := by
  intro level hlevel
  rw [List.eq_of_mem_replicate hlevel]
  exact ElasticBloomFilter.WellFormed.create hsize hashCount omega fpBits

/-! ### What the operations on level 0 leave alone -/

/-- The levels above level 0 are the same, and so is their number. -/
structure SameUpper (before after : AttenuatedBloomFilter) : Prop where
  levelCount : after.levelCount = before.levelCount
  levels : ∀ i, after.levels[i + 1]? = before.levels[i + 1]?

theorem SameUpper.refl (filter : AttenuatedBloomFilter) : SameUpper filter filter :=
  ⟨rfl, fun _ => rfl⟩

theorem SameUpper.trans {before middle after : AttenuatedBloomFilter}
    (hfirst : SameUpper before middle) (hsecond : SameUpper middle after) :
    SameUpper before after :=
  ⟨hsecond.levelCount.trans hfirst.levelCount,
    fun i => (hsecond.levels i).trans (hfirst.levels i)⟩

theorem sameUpper_modify_zero (filter : AttenuatedBloomFilter)
    (change : ElasticBloomFilter → ElasticBloomFilter) :
    SameUpper filter ⟨filter.levels.modify 0 change⟩ := by
  refine ⟨List.length_modify _ _ _, fun i => ?_⟩
  obtain ⟨levels⟩ := filter
  cases levels <;> rfl

theorem sameUpper_subscribe (filter : AttenuatedBloomFilter) (topic : Bytes) :
    SameUpper filter (filter.subscribe H topic) :=
  sameUpper_modify_zero filter _

theorem sameUpper_unsubscribe (filter : AttenuatedBloomFilter) (topic : Bytes) :
    SameUpper filter (filter.unsubscribe H topic) :=
  sameUpper_modify_zero filter _

end AttenuatedBloomFilter

end Poseidon
