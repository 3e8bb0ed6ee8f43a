import Mathlib.Algebra.BigOperators.Intervals
import Mathlib.Data.List.GetD
import Poseidon.Bloom.Recorded

/-!
# The entries of an elastic filter

What a filter holds, without the order in which its buckets hold it: the multiset of its entries,
each a fingerprint with the index of its bucket. Adding puts in the entries that are missing,
removing takes out one copy of each, expanding and compressing rename every entry.
-/

namespace Poseidon.ElasticBloomFilter

def bucketEntries (bucket : List Nat) (j : Nat) : Multiset (Nat × Nat) :=
  (bucket : Multiset Nat).map fun fp => (fp, j)

def entries (filter : ElasticBloomFilter) : Multiset (Nat × Nat) :=
  ∑ j ∈ Finset.range filter.buckets.length, bucketEntries (filter.bucket j) j

theorem snd_of_mem_bucketEntries {bucket : List Nat} {j : Nat} {pair : Nat × Nat}
    (hpair : pair ∈ bucketEntries bucket j) : pair.2 = j := by
  obtain ⟨fp, -, rfl⟩ := Multiset.mem_map.mp hpair
  rfl

theorem count_bucketEntries (bucket : List Nat) (pair : Nat × Nat) :
    (bucketEntries bucket pair.2).count pair = bucket.count pair.1 := by
  have hinjective : Function.Injective fun fp : Nat => (fp, pair.2) := by
    intro fp other heq
    exact (Prod.mk.inj heq).1
  calc (bucketEntries bucket pair.2).count pair
      = (bucket : Multiset Nat).count pair.1 :=
        Multiset.count_map_eq_count' _ _ hinjective pair.1
    _ = bucket.count pair.1 := Multiset.coe_count _ _

theorem count_entries (filter : ElasticBloomFilter) (pair : Nat × Nat) :
    filter.entries.count pair = (filter.bucket pair.2).count pair.1 := by
  have hother : ∀ j ∈ Finset.range filter.buckets.length, j ≠ pair.2 →
      (bucketEntries (filter.bucket j) j).count pair = 0 := by
    intro j _ hne
    apply Multiset.count_eq_zero.mpr
    intro hmem
    exact hne (snd_of_mem_bucketEntries hmem).symm
  have houtside : pair.2 ∉ Finset.range filter.buckets.length →
      (bucketEntries (filter.bucket pair.2) pair.2).count pair = 0 := by
    intro hout
    rw [bucket_eq_nil (by simpa using hout)]
    exact Multiset.count_zero pair
  rw [entries, Multiset.count_sum', Finset.sum_eq_single pair.2 hother houtside,
    count_bucketEntries]

variable {filter : ElasticBloomFilter}

theorem mem_entries {pair : Nat × Nat} : pair ∈ filter.entries ↔ pair.1 ∈ filter.bucket pair.2 := by
  rw [← Multiset.count_pos, count_entries, List.count_pos_iff]

theorem entries_eq_zero_iff : filter.entries = 0 ↔ ∀ bucket ∈ filter.buckets, bucket = [] := by
  constructor
  · intro hzero bucket hbucket
    obtain ⟨j, hj, rfl⟩ := List.mem_iff_getElem.mp hbucket
    apply List.eq_nil_iff_forall_not_mem.mpr
    intro fp hfp
    have hget : filter.bucket j = filter.buckets[j] := List.getD_eq_getElem _ _ hj
    have hmem : (fp, j) ∈ filter.entries := mem_entries.mpr (hget ▸ hfp)
    rw [hzero] at hmem
    exact Multiset.notMem_zero _ hmem
  · intro hempty
    apply Multiset.eq_zero_of_forall_notMem
    intro pair hpair
    have hmem := mem_entries.mp hpair
    by_cases hj : pair.2 < filter.buckets.length
    · have hget : filter.bucket pair.2 = filter.buckets[pair.2] := List.getD_eq_getElem _ _ hj
      rw [hget, hempty _ (List.getElem_mem hj)] at hmem
      exact List.not_mem_nil hmem
    · rw [bucket_eq_nil (not_lt.mp hj)] at hmem
      exact List.not_mem_nil hmem

/-- No bit is set and every bucket is empty. -/
def Emptied (filter : ElasticBloomFilter) : Prop :=
  (∀ i, filter.bits.get i = false) ∧ ∀ bucket ∈ filter.buckets, bucket = []

theorem WellFormed.emptied_iff (hwf : filter.WellFormed) : filter.Emptied ↔ filter.entries = 0 := by
  rw [Emptied, ← entries_eq_zero_iff]
  refine ⟨And.right, fun hzero => ⟨fun i => ?_, hzero⟩⟩
  have hempty : filter.bucket i = [] := by
    apply List.eq_nil_iff_forall_not_mem.mpr
    intro fp hfp
    have hmem : (fp, i) ∈ filter.entries := mem_entries.mpr hfp
    rw [hzero] at hmem
    exact Multiset.notMem_zero _ hmem
  rw [hwf.get_bits, hempty]
  rfl

theorem entries_create (size hashCount : Nat) (omega : Rat) (fpBits : Nat) :
    (create size hashCount omega fpBits).entries = 0 :=
  entries_eq_zero_iff.mpr fun _ hbucket => List.eq_of_mem_replicate hbucket

/-! ### Adding and removing -/

theorem entries_insertPair {pair : Nat × Nat} (hpair : pair.2 < filter.buckets.length) :
    (filter.insertPair pair).entries =
      if pair ∈ filter.entries then filter.entries else pair ::ₘ filter.entries := by
  ext other
  rw [count_entries, bucket_insertPair hpair]
  by_cases hj : other.2 = pair.2
  · rw [if_pos hj, insertFingerprint]
    by_cases hmem : pair ∈ filter.entries
    · rw [if_pos hmem, if_pos (List.contains_iff_mem.mpr (mem_entries.mp hmem)), count_entries, hj]
    · have hcontains : ¬(filter.bucket pair.2).contains pair.1 = true :=
        fun hcontains => hmem (mem_entries.mpr (List.contains_iff_mem.mp hcontains))
      have hfp : other = pair ↔ pair.1 = other.1 :=
        ⟨fun heq => heq ▸ rfl, fun heq => Prod.ext heq.symm hj⟩
      rw [if_neg hmem, if_neg hcontains, Multiset.count_cons, count_entries, List.count_cons, hj]
      simp [hfp]
  · have hne : other ≠ pair := fun heq => hj (heq ▸ rfl)
    rw [if_neg hj, ← count_entries]
    split_ifs
    · rfl
    · rw [Multiset.count_cons_of_ne hne]

theorem entries_erasePair {pair : Nat × Nat} (hpair : pair.2 < filter.buckets.length) :
    (filter.erasePair pair).entries = filter.entries.erase pair := by
  ext other
  rw [count_entries, bucket_erasePair hpair]
  by_cases hj : other.2 = pair.2
  · rw [if_pos hj, List.count_erase]
    by_cases hfp : pair.1 = other.1
    · obtain rfl : other = pair := Prod.ext hfp.symm hj
      rw [Multiset.count_erase_self, count_entries]
      simp
    · have hne : other ≠ pair := fun heq => hfp (heq ▸ rfl)
      rw [Multiset.count_erase_of_ne hne, count_entries, hj]
      simp [hfp]
  · have hne : other ≠ pair := fun heq => hj (heq ▸ rfl)
    rw [if_neg hj, Multiset.count_erase_of_ne hne, count_entries]

theorem entries_le_foldl_insertPair {pairs : List (Nat × Nat)}
    (hpairs : ∀ pair ∈ pairs, pair.2 < filter.buckets.length) :
    filter.entries ≤ (pairs.foldl insertPair filter).entries := by
  induction pairs generalizing filter with
  | nil => exact le_refl _
  | cons pair pairs ih =>
      have hfirst : filter.entries ≤ (filter.insertPair pair).entries := by
        rw [entries_insertPair (hpairs pair List.mem_cons_self)]
        split_ifs
        · exact le_refl _
        · exact Multiset.le_cons_self _ _
      refine hfirst.trans (ih fun other hother => ?_)
      rw [(sameParameters_insertPair filter pair).length]
      exact hpairs other (List.mem_cons_of_mem pair hother)

theorem entries_foldl_erasePair {pairs : List (Nat × Nat)}
    (hpairs : ∀ pair ∈ pairs, pair.2 < filter.buckets.length) :
    (pairs.foldl erasePair filter).entries = filter.entries - (pairs : Multiset (Nat × Nat)) := by
  induction pairs generalizing filter with
  | nil => exact (tsub_zero _).symm
  | cons pair pairs ih =>
      have hrest : ∀ other ∈ pairs, other.2 < (filter.erasePair pair).buckets.length := by
        intro other hother
        rw [(sameParameters_erasePair filter pair).length]
        exact hpairs other (List.mem_cons_of_mem pair hother)
      rw [List.foldl_cons, ih hrest, entries_erasePair (hpairs pair List.mem_cons_self),
        ← Multiset.cons_coe, Multiset.sub_cons]

/-! ### Expanding and compressing -/

/-- Where an entry goes in an expansion of `n` buckets. -/
def spread (n : Nat) (pair : Nat × Nat) : Nat × Nat :=
  (pair.1 / 2, if pair.1 % 2 = 0 then pair.2 else pair.2 + n)

/-- Where an entry of one of the first `2 * half` buckets goes in a compression to `half`. -/
def fold (half : Nat) (pair : Nat × Nat) : Nat × Nat :=
  if pair.2 < half then (pair.1 * 2 % 2 ^ 32, pair.2)
  else ((pair.1 * 2 + 1) % 2 ^ 32, pair.2 - half)

theorem map_bucketEntries (f : Nat × Nat → Nat × Nat) (bucket : List Nat) (j : Nat) :
    (bucketEntries bucket j).map f = (bucket : Multiset Nat).map fun fp => f (fp, j) :=
  Multiset.map_map _ _ _

theorem bucketEntries_foldl_split (n j : Nat) (bucket : List Nat) (lists : List Nat × List Nat) :
    let split := bucket.foldl (fun lists fp =>
      if fp % 2 = 0 then (fp / 2 :: lists.1, lists.2) else (lists.1, fp / 2 :: lists.2)) lists
    bucketEntries split.1 j + bucketEntries split.2 (j + n) =
      bucketEntries lists.1 j + bucketEntries lists.2 (j + n) +
        (bucketEntries bucket j).map (spread n) := by
  induction bucket generalizing lists with
  | nil => exact (add_zero _).symm
  | cons fp bucket ih =>
      have hcons : (bucketEntries (fp :: bucket) j).map (spread n) =
          spread n (fp, j) ::ₘ (bucketEntries bucket j).map (spread n) := by
        rw [map_bucketEntries, map_bucketEntries, ← Multiset.cons_coe, Multiset.map_cons]
      have hfirst : ∀ entry (entries : List Nat) j', bucketEntries (entry :: entries) j' =
          (entry, j') ::ₘ bucketEntries entries j' := by
        intro entry entries j'
        rw [bucketEntries, ← Multiset.cons_coe, Multiset.map_cons, bucketEntries]
      rw [hcons, List.foldl_cons]
      by_cases heven : fp % 2 = 0
      · have hspread : spread n (fp, j) = (fp / 2, j) := by rw [spread, if_pos heven]
        rw [if_pos heven, hspread]
        refine (ih _).trans ?_
        rw [hfirst, Multiset.cons_add, Multiset.cons_add, Multiset.add_cons]
      · have hspread : spread n (fp, j) = (fp / 2, j + n) := by rw [spread, if_neg heven]
        rw [if_neg heven, hspread]
        refine (ih _).trans ?_
        rw [hfirst, Multiset.add_cons, Multiset.cons_add, Multiset.add_cons]

theorem bucketEntries_splitBucket (n j : Nat) (bucket : List Nat) :
    bucketEntries (splitBucket bucket).1 j + bucketEntries (splitBucket bucket).2 (j + n) =
      (bucketEntries bucket j).map (spread n) := by
  refine (bucketEntries_foldl_split n j bucket ([], [])).trans ?_
  exact zero_add _

theorem length_buckets_expand (filter : ElasticBloomFilter) :
    filter.expand.buckets.length = filter.buckets.length + filter.buckets.length := by
  change ((filter.buckets.map splitBucket).map Prod.fst ++
    (filter.buckets.map splitBucket).map Prod.snd).length = _
  simp only [List.length_append, List.length_map]

theorem entries_expand (filter : ElasticBloomFilter) :
    filter.expand.entries = filter.entries.map (spread filter.buckets.length) := by
  have hmap := map_sum (Multiset.mapAddMonoidHom (spread filter.buckets.length))
    (fun j => bucketEntries (filter.bucket j) j) (Finset.range filter.buckets.length)
  calc filter.expand.entries
      = ∑ j ∈ Finset.range filter.buckets.length, bucketEntries (filter.expand.bucket j) j +
          ∑ j ∈ Finset.range filter.buckets.length, bucketEntries
            (filter.expand.bucket (filter.buckets.length + j)) (filter.buckets.length + j) := by
        rw [entries, length_buckets_expand, Finset.sum_range_add]
    _ = ∑ j ∈ Finset.range filter.buckets.length,
          (bucketEntries (filter.bucket j) j).map (spread filter.buckets.length) := by
        rw [← Finset.sum_add_distrib]
        apply Finset.sum_congr rfl
        intro j hj
        have hlt := Finset.mem_range.mp hj
        rw [Nat.add_comm filter.buckets.length j, bucket_expand_low hlt, bucket_expand_high hlt,
          bucketEntries_splitBucket]
    _ = filter.entries.map (spread filter.buckets.length) := hmap.symm

theorem bucketEntries_joinBuckets {half j : Nat} (hj : j < half) (first second : List Nat) :
    bucketEntries (joinBuckets first second) j =
      (bucketEntries first j).map (fold half) +
        (bucketEntries second (half + j)).map (fold half) := by
  have hlow : ∀ fp, fold half (fp, j) = (fp * 2 % 2 ^ 32, j) := fun fp => if_pos hj
  have hhigh : ∀ fp, fold half (fp, half + j) = ((fp * 2 + 1) % 2 ^ 32, j) := by
    intro fp
    rw [fold, if_neg (by omega), Nat.add_sub_cancel_left]
  rw [map_bucketEntries, map_bucketEntries, bucketEntries, joinBuckets, ← Multiset.coe_add,
    Multiset.map_add, Multiset.coe_reverse, Multiset.coe_reverse, ← Multiset.map_coe,
    ← Multiset.map_coe, Multiset.map_map, Multiset.map_map]
  simp only [hlow, hhigh, Function.comp_def]

theorem entries_compress (hwf : filter.WellFormed) (hbig : ¬filter.bucketCount < 2) :
    filter.compress.entries =
      (filter.entries.filter fun pair => pair.2 < filter.bucketCount / 2 * 2).map
        (fold (filter.bucketCount / 2)) := by
  generalize hhalf : filter.bucketCount / 2 = half
  obtain ⟨rest, hrest⟩ : ∃ rest, filter.buckets.length = half + half + rest := by
    refine ⟨filter.buckets.length - (half + half), ?_⟩
    rw [hwf.length_buckets, ← hwf.bucketCount_eq]
    omega
  have hlength : filter.compress.buckets.length = half := by
    have hsize : filter.compress.size = half := by
      rw [compress, if_neg hbig]
      change filter.size / 2 = half
      rw [← hwf.bucketCount_eq, hhalf]
    rw [hwf.compress.length_buckets, hsize]
  have hkeep : ∀ (start count : Nat), start + count ≤ half * 2 →
      (∑ j ∈ Finset.range count, bucketEntries (filter.bucket (start + j)) (start + j)).filter
          (fun pair => pair.2 < half * 2) =
        ∑ j ∈ Finset.range count, bucketEntries (filter.bucket (start + j)) (start + j) := by
    intro start count hle
    apply Multiset.filter_eq_self.mpr
    intro pair hpair
    obtain ⟨j, hj, hmem⟩ := Multiset.mem_sum.mp hpair
    have hlt := Finset.mem_range.mp hj
    rw [snd_of_mem_bucketEntries hmem]
    omega
  have hdrop : (∑ j ∈ Finset.range rest, bucketEntries (filter.bucket (half + half + j))
      (half + half + j)).filter (fun pair => pair.2 < half * 2) = 0 := by
    apply Multiset.filter_eq_nil.mpr
    intro pair hpair
    obtain ⟨j, -, hmem⟩ := Multiset.mem_sum.mp hpair
    rw [snd_of_mem_bucketEntries hmem]
    omega
  have hlow := hkeep 0 half (by omega)
  have hhigh := hkeep half half (by omega)
  simp only [Nat.zero_add] at hlow
  rw [entries, entries, hlength, hrest, Finset.sum_range_add, Finset.sum_range_add,
    Multiset.filter_add, Multiset.filter_add, hlow, hhigh, hdrop, add_zero,
    ← Finset.sum_add_distrib, ← Multiset.coe_mapAddMonoidHom, map_sum]
  apply Finset.sum_congr rfl
  intro j hj
  have hlt := Finset.mem_range.mp hj
  rw [bucket_compress hwf hbig (by rw [hhalf]; exact hlt), hhalf, Nat.add_comm j half,
    bucketEntries_joinBuckets hlt, ← Multiset.map_add]
  rfl

end Poseidon.ElasticBloomFilter
