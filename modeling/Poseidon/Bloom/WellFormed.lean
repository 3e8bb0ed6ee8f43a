import Poseidon.Bloom.ElasticBloomFilter

/-!
# Bits and buckets agree

In every elastic filter the code builds there is one bucket for each bit, and a bit is set exactly
when its bucket is non-empty. Creation, insertion, removal, both resizes and merging keep this.
-/

namespace Poseidon.ElasticBloomFilter

structure WellFormed (filter : ElasticBloomFilter) : Prop where
  size_pos : 0 < filter.size
  bucketCount_eq : filter.bucketCount = filter.size
  length_buckets : filter.buckets.length = filter.size
  get_bits : ∀ i, filter.bits.get i = !(filter.bucket i).isEmpty

theorem getD_modify {buckets : List (List Nat)} {i : Nat} (hi : i < buckets.length) (j : Nat)
    (change : List Nat → List Nat) :
    (buckets.modify i change).getD j [] =
      if j = i then change (buckets.getD i []) else buckets.getD j [] := by
  by_cases heq : j = i
  · subst heq
    simp [List.getD_eq_getElem?_getD, List.getElem?_eq_getElem hi]
  · simp [List.getD_eq_getElem?_getD, heq, Ne.symm heq]

theorem insertFingerprint_ne_nil (bucket : List Nat) (fp : Nat) :
    (insertFingerprint bucket fp).isEmpty = false := by
  unfold insertFingerprint
  split_ifs with hcontains
  · cases bucket with
    | nil => simp at hcontains
    | cons head tail => rfl
  · rfl

theorem mem_insertFingerprint {bucket : List Nat} {fp other : Nat} :
    other ∈ insertFingerprint bucket fp ↔ other = fp ∨ other ∈ bucket := by
  unfold insertFingerprint
  split_ifs with hcontains
  · constructor
    · exact Or.inr
    · rintro (rfl | hmem)
      · exact List.contains_iff_mem.mp hcontains
      · exact hmem
  · exact List.mem_cons

variable {filter : ElasticBloomFilter}

theorem bucket_insertPair {pair : Nat × Nat} (hpair : pair.2 < filter.buckets.length) (j : Nat) :
    (filter.insertPair pair).bucket j =
      if j = pair.2 then insertFingerprint (filter.bucket pair.2) pair.1 else filter.bucket j :=
  getD_modify hpair j _

theorem bucket_erasePair {pair : Nat × Nat} (hpair : pair.2 < filter.buckets.length) (j : Nat) :
    (filter.erasePair pair).bucket j =
      if j = pair.2 then (filter.bucket pair.2).erase pair.1 else filter.bucket j :=
  getD_modify hpair j _

theorem WellFormed.insertPair (hwf : filter.WellFormed) {pair : Nat × Nat}
    (hpair : pair.2 < filter.size) : (filter.insertPair pair).WellFormed := by
  have hlength : pair.2 < filter.buckets.length := hwf.length_buckets ▸ hpair
  refine ⟨hwf.size_pos, hwf.bucketCount_eq, ?_, ?_⟩
  · simpa [ElasticBloomFilter.insertPair] using hwf.length_buckets
  · intro i
    have hbits : (filter.insertPair pair).bits.get i =
        if i = pair.2 then true else filter.bits.get i :=
      Bitset.get_set filter.bits pair.2 i true
    rw [hbits, bucket_insertPair hlength]
    split_ifs with heq
    · rw [insertFingerprint_ne_nil, Bool.not_false]
    · exact hwf.get_bits i

theorem WellFormed.erasePair (hwf : filter.WellFormed) {pair : Nat × Nat}
    (hpair : pair.2 < filter.size) : (filter.erasePair pair).WellFormed := by
  have hlength : pair.2 < filter.buckets.length := hwf.length_buckets ▸ hpair
  have hself : (filter.erasePair pair).bucket pair.2 = (filter.bucket pair.2).erase pair.1 := by
    rw [bucket_erasePair hlength, if_pos rfl]
  refine ⟨hwf.size_pos, hwf.bucketCount_eq, ?_, ?_⟩
  · simpa [ElasticBloomFilter.erasePair] using hwf.length_buckets
  · intro i
    have hbits : (filter.erasePair pair).bits =
        if ((filter.bucket pair.2).erase pair.1).isEmpty then filter.bits.set pair.2 false
        else filter.bits := by
      rw [← hself]
      rfl
    rw [hbits, bucket_erasePair hlength]
    by_cases heq : i = pair.2
    · rw [if_pos heq, heq]
      split_ifs with hempty
      · rw [Bitset.get_set, if_pos rfl, hempty, Bool.not_true]
      · have hne : (filter.bucket pair.2).isEmpty = false := by
          rw [List.isEmpty_eq_false_iff]
          intro hnil
          rw [hnil] at hempty
          exact hempty rfl
        rw [hwf.get_bits, hne, Bool.eq_false_of_not_eq_true hempty]
    · rw [if_neg heq]
      split_ifs with hempty
      · rw [Bitset.get_set, if_neg heq, hwf.get_bits]
      · exact hwf.get_bits i

theorem foldl_pairs {P : ElasticBloomFilter → Prop}
    {change : ElasticBloomFilter → Nat × Nat → ElasticBloomFilter}
    (hsize : ∀ filter pair, (change filter pair).size = filter.size)
    (hchange : ∀ filter pair, P filter → pair.2 < filter.size → P (change filter pair))
    {pairs : List (Nat × Nat)} (hfilter : P filter)
    (hpairs : ∀ pair ∈ pairs, pair.2 < filter.size) : P (pairs.foldl change filter) := by
  induction pairs generalizing filter with
  | nil => exact hfilter
  | cons pair pairs ih =>
      apply ih
      · exact hchange filter pair hfilter (hpairs pair List.mem_cons_self)
      · intro other hother
        rw [hsize]
        exact hpairs other (List.mem_cons_of_mem pair hother)

/-! ### Rebuilding the bits -/

theorem get_foldl_rebuild (entries : List (List Nat × Nat)) (bits : Bitset) (j : Nat) :
    (entries.foldl (fun bits entry => if entry.1.isEmpty then bits else bits.set entry.2 true)
      bits).get j =
      (bits.get j || entries.any fun entry => entry.2 == j && !entry.1.isEmpty) := by
  induction entries generalizing bits with
  | nil => simp
  | cons entry entries ih =>
      rw [List.foldl_cons, ih, List.any_cons]
      cases hempty : entry.1.isEmpty with
      | true => simp
      | false =>
          rw [if_neg Bool.false_ne_true, Bitset.get_set]
          by_cases heq : j = entry.2
          · simp [heq]
          · have hne : (entry.2 == j) = false := beq_false_of_ne (Ne.symm heq)
            simp [heq, hne]

theorem any_zipIdx_eq (buckets : List (List Nat)) (j : Nat) :
    (buckets.zipIdx.any fun entry => entry.2 == j && !entry.1.isEmpty) =
      !(buckets.getD j []).isEmpty := by
  rw [Bool.eq_iff_iff, List.any_eq_true]
  constructor
  · rintro ⟨⟨bucket, i⟩, hmem, hentry⟩
    simp only [Bool.and_eq_true, beq_iff_eq] at hentry
    obtain ⟨rfl, hbucket⟩ := hentry
    rw [List.getD_eq_getElem?_getD, List.mk_mem_zipIdx_iff_getElem?.mp hmem]
    exact hbucket
  · intro hbucket
    cases hget : buckets[j]? with
    | none => simp [List.getD_eq_getElem?_getD, hget] at hbucket
    | some bucket =>
        refine ⟨(bucket, j), List.mk_mem_zipIdx_iff_getElem?.mpr hget, ?_⟩
        simpa [List.getD_eq_getElem?_getD, hget] using hbucket

theorem get_bits_rebuildBitset (hlength : filter.buckets.length = filter.size) (i : Nat) :
    filter.rebuildBitset.bits.get i = !(filter.bucket i).isEmpty := by
  have htake : filter.buckets.take filter.size = filter.buckets := by
    rw [← hlength, List.take_length]
  unfold ElasticBloomFilter.rebuildBitset
  rw [htake, get_foldl_rebuild, Bitset.get_create, Bool.false_or]
  exact any_zipIdx_eq filter.buckets i

theorem WellFormed.rebuildBitset (hpos : 0 < filter.size)
    (hcount : filter.bucketCount = filter.size) (hlength : filter.buckets.length = filter.size) :
    filter.rebuildBitset.WellFormed :=
  ⟨hpos, hcount, hlength, get_bits_rebuildBitset hlength⟩

theorem WellFormed.create {size : Nat} (hsize : 0 < size) (hashCount : Nat) (omega : Rat)
    (fpBits : Nat) : (create size hashCount omega fpBits).WellFormed := by
  refine ⟨hsize, rfl, List.length_replicate, ?_⟩
  intro i
  have hbucket : (ElasticBloomFilter.create size hashCount omega fpBits).bucket i = [] := by
    simp only [ElasticBloomFilter.create, bucket, List.getD_eq_getElem?_getD,
      List.getElem?_replicate]
    split_ifs <;> rfl
  rw [hbucket]
  exact Bitset.get_create _ i

theorem WellFormed.expand (hwf : filter.WellFormed) : filter.expand.WellFormed := by
  have hpos := hwf.size_pos
  have hlength := hwf.length_buckets
  have hcount := hwf.bucketCount_eq
  apply WellFormed.rebuildBitset
  · change 0 < filter.size * 2
    omega
  · change filter.bucketCount * 2 = filter.size * 2
    omega
  · simp only [List.length_append, List.length_map]
    omega

theorem WellFormed.compress (hwf : filter.WellFormed) : filter.compress.WellFormed := by
  have hlength := hwf.length_buckets
  have hcount := hwf.bucketCount_eq
  unfold ElasticBloomFilter.compress
  split_ifs with hsmall
  · exact hwf
  · apply WellFormed.rebuildBitset
    · change 0 < filter.size / 2
      omega
    · change filter.bucketCount / 2 = filter.size / 2
      omega
    · simp only [List.length_zipWith, List.length_take, List.length_drop]
      omega

/-! ### Adding and removing an item -/

section Items

variable (H : HashFn)

variable {filter : ElasticBloomFilter}

theorem snd_lt_of_mem_hashPairs (hsize : 0 < filter.size) {data : Bytes} {pair : Nat × Nat}
    (hpair : pair ∈ filter.hashPairs H data) : pair.2 < filter.size := by
  obtain ⟨i, -, rfl⟩ := List.mem_map.mp hpair
  exact Nat.mod_lt _ hsize

variable (hwf : filter.WellFormed)

include hwf

theorem WellFormed.of_count (count : Nat) : { filter with count := count }.WellFormed :=
  ⟨hwf.size_pos, hwf.bucketCount_eq, hwf.length_buckets, hwf.get_bits⟩

theorem WellFormed.insert (data : Bytes) : (filter.insert H data).WellFormed := by
  apply WellFormed.of_count
  refine foldl_pairs ?_ ?_ hwf ?_
  · exact fun _ _ => rfl
  · exact fun _ _ hfilter hpair => hfilter.insertPair hpair
  · exact fun _ hpair => snd_lt_of_mem_hashPairs H hwf.size_pos hpair

theorem WellFormed.erase (data : Bytes) : (filter.erase H data).WellFormed := by
  apply WellFormed.of_count
  refine foldl_pairs ?_ ?_ hwf ?_
  · exact fun _ _ => rfl
  · exact fun _ _ hfilter hpair => hfilter.erasePair hpair
  · exact fun _ hpair => snd_lt_of_mem_hashPairs H hwf.size_pos hpair

theorem WellFormed.add (data : Bytes) : (filter.add H data).WellFormed := by
  unfold ElasticBloomFilter.add
  dsimp only
  split_ifs
  · exact (hwf.insert H data).expand
  · exact hwf.insert H data

theorem WellFormed.remove (data : Bytes) : (filter.remove H data).WellFormed := by
  unfold ElasticBloomFilter.remove
  dsimp only
  split_ifs
  · exact (hwf.erase H data).compress
  · exact hwf.erase H data

end Items

end Poseidon.ElasticBloomFilter
