import Poseidon.Bloom.WellFormed

/-!
# Known bits of a recorded item

Round `i` of an item hashes to `h`. Its entry in bucket `h % size` holds the lowest `b` bits of
`h / size` for some number `b` of known bits, which is `fp_bits` right after the item is added.
Expanding moves the lowest known bit into the bucket index and compressing moves it back, so one
known bit goes or comes with each resize. While every round of an item is recorded with some `b`,
the filter reports it; an item with no known bit left is lost at the next expansion.
-/

namespace Poseidon.ElasticBloomFilter

variable (H : HashFn)

def Recorded (filter : ElasticBloomFilter) (data : Bytes) (b : Nat) : Prop :=
  ∀ i < filter.hashCount, filter.hash H data i / filter.size % 2 ^ b ∈
    filter.bucket (filter.hash H data i % filter.size)

instance (filter : ElasticBloomFilter) (data : Bytes) (b : Nat) :
    Decidable (filter.Recorded H data b) :=
  inferInstanceAs (Decidable (∀ i < filter.hashCount, _))

variable {filter : ElasticBloomFilter} {data : Bytes} {b : Nat}

theorem contains_of_recorded (hwf : filter.WellFormed) (hrecorded : filter.Recorded H data b) :
    filter.contains H data = true := by
  unfold contains
  rw [List.all_eq_true]
  intro pair hpair
  obtain ⟨i, hi, rfl⟩ := List.mem_map.mp hpair
  have hmem := hrecorded i (List.mem_range.mp hi)
  change filter.bits.get (filter.hash H data i % filter.size) = true
  rw [hwf.get_bits]
  cases hbucket : filter.bucket (filter.hash H data i % filter.size) with
  | nil =>
      rw [hbucket] at hmem
      exact absurd hmem List.not_mem_nil
  | cons head tail => rfl

/-! ### The parameters an operation on buckets leaves alone -/

structure SameParameters (filter after : ElasticBloomFilter) : Prop where
  size : after.size = filter.size
  hashCount : after.hashCount = filter.hashCount
  seedA : after.seedA = filter.seedA
  seedB : after.seedB = filter.seedB
  fpBits : after.fpBits = filter.fpBits
  omega : after.omega = filter.omega
  length : after.buckets.length = filter.buckets.length

theorem SameParameters.hash {after : ElasticBloomFilter} (hsame : SameParameters filter after)
    (data : Bytes) (i : Nat) : after.hash H data i = filter.hash H data i := by
  simp only [ElasticBloomFilter.hash, hsame.seedA, hsame.seedB]

theorem SameParameters.trans {middle after : ElasticBloomFilter}
    (hfirst : SameParameters filter middle) (hsecond : SameParameters middle after) :
    SameParameters filter after :=
  ⟨hsecond.size.trans hfirst.size, hsecond.hashCount.trans hfirst.hashCount,
    hsecond.seedA.trans hfirst.seedA, hsecond.seedB.trans hfirst.seedB,
    hsecond.fpBits.trans hfirst.fpBits, hsecond.omega.trans hfirst.omega,
    hsecond.length.trans hfirst.length⟩

theorem sameParameters_foldl {change : ElasticBloomFilter → Nat × Nat → ElasticBloomFilter}
    (hchange : ∀ filter pair, SameParameters filter (change filter pair))
    (pairs : List (Nat × Nat)) (filter : ElasticBloomFilter) :
    SameParameters filter (pairs.foldl change filter) := by
  induction pairs generalizing filter with
  | nil => exact ⟨rfl, rfl, rfl, rfl, rfl, rfl, rfl⟩
  | cons pair pairs ih => exact (hchange filter pair).trans (ih (change filter pair))

theorem sameParameters_insertPair (filter : ElasticBloomFilter) (pair : Nat × Nat) :
    SameParameters filter (filter.insertPair pair) :=
  ⟨rfl, rfl, rfl, rfl, rfl, rfl, List.length_modify _ _ _⟩

theorem sameParameters_erasePair (filter : ElasticBloomFilter) (pair : Nat × Nat) :
    SameParameters filter (filter.erasePair pair) :=
  ⟨rfl, rfl, rfl, rfl, rfl, rfl, List.length_modify _ _ _⟩

theorem sameParameters_insert (filter : ElasticBloomFilter) (data : Bytes) :
    SameParameters filter (filter.insert H data) := by
  have hfold := sameParameters_foldl sameParameters_insertPair (filter.hashPairs H data) filter
  exact ⟨hfold.size, hfold.hashCount, hfold.seedA, hfold.seedB, hfold.fpBits, hfold.omega,
    hfold.length⟩

theorem sameParameters_erase (filter : ElasticBloomFilter) (data : Bytes) :
    SameParameters filter (filter.erase H data) := by
  have hfold := sameParameters_foldl sameParameters_erasePair (filter.hashPairs H data) filter
  exact ⟨hfold.size, hfold.hashCount, hfold.seedA, hfold.seedB, hfold.fpBits, hfold.omega,
    hfold.length⟩

theorem Recorded.of_sameParameters {after : ElasticBloomFilter}
    (hsame : SameParameters filter after) (hrecorded : filter.Recorded H data b)
    (hmem : ∀ i < filter.hashCount, ∀ entry ∈ filter.bucket (filter.hash H data i % filter.size),
      entry = filter.hash H data i / filter.size % 2 ^ b →
      entry ∈ after.bucket (filter.hash H data i % filter.size)) : after.Recorded H data b := by
  intro i hi
  rw [hsame.hashCount] at hi
  rw [hsame.hash, hsame.size]
  exact hmem i hi _ (hrecorded i hi) rfl

/-! ### Adding -/

theorem mem_bucket_foldl_insertPair {pairs : List (Nat × Nat)}
    (hpairs : ∀ pair ∈ pairs, pair.2 < filter.buckets.length) {entry j : Nat}
    (hentry : entry ∈ filter.bucket j ∨ (entry, j) ∈ pairs) :
    entry ∈ (pairs.foldl ElasticBloomFilter.insertPair filter).bucket j := by
  induction pairs generalizing filter with
  | nil => exact hentry.resolve_right List.not_mem_nil
  | cons pair pairs ih =>
      have hpair := hpairs pair List.mem_cons_self
      apply ih
      · intro other hother
        rw [(sameParameters_insertPair filter pair).length]
        exact hpairs other (List.mem_cons_of_mem pair hother)
      · rw [bucket_insertPair hpair]
        rcases hentry with hold | hnew
        · left
          split_ifs with heq
          · rw [mem_insertFingerprint]
            exact Or.inr (heq ▸ hold)
          · exact hold
        · rcases List.mem_cons.mp hnew with rfl | htail
          · left
            rw [if_pos rfl, mem_insertFingerprint]
            exact Or.inl rfl
          · exact Or.inr htail

theorem WellFormed.forall_hashPairs (hwf : filter.WellFormed) (data : Bytes) :
    ∀ pair ∈ filter.hashPairs H data, pair.2 < filter.buckets.length := by
  intro pair hpair
  rw [hwf.length_buckets]
  exact snd_lt_of_mem_hashPairs H hwf.size_pos hpair

theorem Recorded.insert (hwf : filter.WellFormed) (hrecorded : filter.Recorded H data b)
    (item : Bytes) : (filter.insert H item).Recorded H data b := by
  apply hrecorded.of_sameParameters H (sameParameters_insert H filter item)
  intro i _ entry hentry _
  exact mem_bucket_foldl_insertPair (hwf.forall_hashPairs H item) (Or.inl hentry)

theorem recorded_insert_self (hwf : filter.WellFormed) (hbits : filter.fpBits ≤ 32) (item : Bytes) :
    (filter.insert H item).Recorded H item filter.fpBits := by
  have hsame := sameParameters_insert H filter item
  intro i hi
  rw [hsame.hashCount] at hi
  rw [hsame.hash, hsame.size]
  apply mem_bucket_foldl_insertPair (hwf.forall_hashPairs H item)
  right
  have hfp : filter.hash H item i / filter.size % 2 ^ filter.fpBits % 2 ^ 32 =
      filter.hash H item i / filter.size % 2 ^ filter.fpBits :=
    Nat.mod_mod_of_dvd' (Nat.pow_dvd_pow 2 hbits)
  exact List.mem_map.mpr ⟨i, List.mem_range.mpr hi, by rw [computeHashPair, hfp]⟩

/-! ### Removing -/

theorem mem_bucket_foldl_erasePair {pairs : List (Nat × Nat)}
    (hpairs : ∀ pair ∈ pairs, pair.2 < filter.buckets.length) {entry j : Nat}
    (hentry : entry ∈ filter.bucket j) (hother : (entry, j) ∉ pairs) :
    entry ∈ (pairs.foldl ElasticBloomFilter.erasePair filter).bucket j := by
  induction pairs generalizing filter with
  | nil => exact hentry
  | cons pair pairs ih =>
      have hpair := hpairs pair List.mem_cons_self
      have hne : (entry, j) ≠ pair := fun heq => hother (heq ▸ List.mem_cons_self)
      apply ih
      · intro next hnext
        rw [(sameParameters_erasePair filter pair).length]
        exact hpairs next (List.mem_cons_of_mem pair hnext)
      · rw [bucket_erasePair hpair]
        split_ifs with heq
        · apply (List.mem_erase_of_ne _).mpr (heq ▸ hentry)
          intro hfp
          exact hne (Prod.ext hfp heq)
        · exact hentry
      · exact fun htail => hother (List.mem_cons_of_mem pair htail)

/-- No entry recorded for `data` with `b` known bits is one that removing `item` takes away. -/
def Spares (filter : ElasticBloomFilter) (item data : Bytes) (b : Nat) : Prop :=
  ∀ i < filter.hashCount, (filter.hash H data i / filter.size % 2 ^ b,
    filter.hash H data i % filter.size) ∉ filter.hashPairs H item

instance (filter : ElasticBloomFilter) (item data : Bytes) (b : Nat) :
    Decidable (filter.Spares H item data b) :=
  inferInstanceAs (Decidable (∀ i < filter.hashCount, _))

theorem Recorded.erase (hwf : filter.WellFormed) {item : Bytes}
    (hrecorded : filter.Recorded H data b) (hspares : filter.Spares H item data b) :
    (filter.erase H item).Recorded H data b := by
  apply hrecorded.of_sameParameters H (sameParameters_erase H filter item)
  intro i hi entry hentry heq
  apply mem_bucket_foldl_erasePair (hwf.forall_hashPairs H item) hentry
  rw [heq]
  exact hspares i hi

/-! ### Expanding -/

theorem mem_foldl_split {entries : List Nat} {lists : List Nat × List Nat} {fp : Nat} :
    let split := entries.foldl (fun lists fp =>
      if fp % 2 = 0 then (fp / 2 :: lists.1, lists.2) else (lists.1, fp / 2 :: lists.2)) lists
    (fp ∈ lists.1 → fp ∈ split.1) ∧ (fp ∈ lists.2 → fp ∈ split.2) := by
  induction entries generalizing lists with
  | nil => exact ⟨id, id⟩
  | cons entry entries ih =>
      rw [List.foldl_cons]
      split_ifs with heven
      · exact ⟨fun hmem => ih.1 (List.mem_cons_of_mem _ hmem), fun hmem => ih.2 hmem⟩
      · exact ⟨fun hmem => ih.1 hmem, fun hmem => ih.2 (List.mem_cons_of_mem _ hmem)⟩

theorem mem_foldl_split_of_mem {entries : List Nat} (lists : List Nat × List Nat) {fp : Nat}
    (hfp : fp ∈ entries) :
    let split := entries.foldl (fun lists fp =>
      if fp % 2 = 0 then (fp / 2 :: lists.1, lists.2) else (lists.1, fp / 2 :: lists.2)) lists
    (fp % 2 = 0 → fp / 2 ∈ split.1) ∧ (fp % 2 = 1 → fp / 2 ∈ split.2) := by
  induction entries generalizing lists with
  | nil => exact absurd hfp List.not_mem_nil
  | cons entry entries ih =>
      rw [List.foldl_cons]
      rcases List.mem_cons.mp hfp with rfl | htail
      · constructor
        · intro heven
          rw [if_pos heven]
          exact mem_foldl_split.1 List.mem_cons_self
        · intro hodd
          rw [if_neg (by omega)]
          exact mem_foldl_split.2 List.mem_cons_self
      · exact ih _ htail

theorem bucket_expand_low {j : Nat} (hj : j < filter.buckets.length) :
    filter.expand.bucket j = (splitBucket (filter.bucket j)).1 := by
  change ((filter.buckets.map splitBucket).map Prod.fst ++
    (filter.buckets.map splitBucket).map Prod.snd).getD j [] = _
  rw [List.getD_eq_getElem?_getD, List.getElem?_append_left (by simpa using hj)]
  simp [bucket, List.getD_eq_getElem?_getD, List.getElem?_eq_getElem hj]

theorem bucket_expand_high {j : Nat} (hj : j < filter.buckets.length) :
    filter.expand.bucket (j + filter.buckets.length) = (splitBucket (filter.bucket j)).2 := by
  change ((filter.buckets.map splitBucket).map Prod.fst ++
    (filter.buckets.map splitBucket).map Prod.snd).getD (j + filter.buckets.length) [] = _
  rw [List.getD_eq_getElem?_getD, List.getElem?_append_right (by simp)]
  simp [bucket, List.getD_eq_getElem?_getD, List.getElem?_eq_getElem hj]

theorem Recorded.expand (hwf : filter.WellFormed) (hrecorded : filter.Recorded H data (b + 1)) :
    filter.expand.Recorded H data b := by
  intro i hi
  have hmem := hrecorded i hi
  change filter.hash H data i / (filter.size * 2) % 2 ^ b ∈
    filter.expand.bucket (filter.hash H data i % (filter.size * 2))
  generalize filter.hash H data i = h at hmem
  have hlt : h % filter.size < filter.buckets.length := by
    rw [hwf.length_buckets]
    exact Nat.mod_lt h hwf.size_pos
  have hbit : h / filter.size % 2 ^ (b + 1) % 2 = h / filter.size % 2 :=
    Nat.mod_mod_of_dvd _ (Dvd.intro_left (2 ^ b) rfl)
  have hentry : h / filter.size % 2 ^ (b + 1) / 2 = h / (filter.size * 2) % 2 ^ b := by
    rw [Nat.pow_succ', Nat.mod_mul, Nat.add_mul_div_left _ _ (by norm_num),
      Nat.div_eq_of_lt (Nat.mod_lt _ (by norm_num)), Nat.zero_add, Nat.div_div_eq_div_mul]
  have hsplit := mem_foldl_split_of_mem ([], []) hmem
  rw [hbit, hentry] at hsplit
  rw [Nat.mod_mul]
  rcases Nat.mod_two_eq_zero_or_one (h / filter.size) with heven | hodd
  · rw [heven, Nat.mul_zero, Nat.add_zero, bucket_expand_low hlt]
    exact hsplit.1 heven
  · rw [hodd, Nat.mul_one]
    nth_rewrite 2 [← hwf.length_buckets]
    rw [bucket_expand_high hlt]
    exact hsplit.2 hodd

/-! ### Compressing -/

theorem mod_two_pow_mod_two_pow (value a b : Nat) :
    value % 2 ^ a % 2 ^ b = value % 2 ^ min a b := by
  rcases Nat.le_total a b with hle | hle
  · rw [Nat.min_eq_left hle, Nat.mod_mod_of_dvd' (Nat.pow_dvd_pow 2 hle)]
  · rw [Nat.min_eq_right hle, Nat.mod_mod_of_dvd _ (Nat.pow_dvd_pow 2 hle)]

theorem bucket_compress (hwf : filter.WellFormed) (hbig : ¬filter.bucketCount < 2) {j : Nat}
    (hj : j < filter.bucketCount / 2) :
    filter.compress.bucket j =
      joinBuckets (filter.bucket j) (filter.bucket (j + filter.bucketCount / 2)) := by
  have hlow : j < filter.buckets.length := by
    rw [hwf.length_buckets, ← hwf.bucketCount_eq]
    omega
  have hhigh : j + filter.bucketCount / 2 < filter.buckets.length := by
    rw [hwf.length_buckets, ← hwf.bucketCount_eq]
    omega
  have hbuckets : filter.compress.buckets = List.zipWith joinBuckets
      (filter.buckets.take (filter.bucketCount / 2))
      ((filter.buckets.drop (filter.bucketCount / 2)).take (filter.bucketCount / 2)) := by
    unfold ElasticBloomFilter.compress
    rw [if_neg hbig]
    rfl
  simp only [bucket, hbuckets, List.getD_eq_getElem?_getD, List.getElem?_zipWith,
    List.getElem?_take, List.getElem?_drop, if_pos hj, Nat.add_comm (filter.bucketCount / 2) j,
    List.getElem?_eq_getElem hlow, List.getElem?_eq_getElem hhigh, Option.getD_some]

theorem Recorded.compress (hwf : filter.WellFormed) {half : Nat} (hsize : filter.size = half * 2)
    (hrecorded : filter.Recorded H data b) : filter.compress.Recorded H data (min (b + 1) 32) := by
  have hpos : 0 < half := by
    have := hwf.size_pos
    omega
  have hbig : ¬filter.bucketCount < 2 := by
    rw [hwf.bucketCount_eq]
    omega
  have hparameters : filter.compress.hashCount = filter.hashCount ∧
      filter.compress.size = half ∧
      ∀ i, filter.compress.hash H data i = filter.hash H data i := by
    unfold ElasticBloomFilter.compress
    rw [if_neg hbig]
    refine ⟨rfl, ?_, fun i => rfl⟩
    change filter.size / 2 = half
    omega
  intro i hi
  rw [hparameters.1] at hi
  have hmem := hrecorded i hi
  rw [hparameters.2.1, hparameters.2.2]
  generalize filter.hash H data i = h at hmem
  have hjoined : h / half % 2 ^ min (b + 1) 32 =
      (h / (half * 2) % 2 ^ b * 2 + h / half % 2) % 2 ^ 32 := by
    calc
      h / half % 2 ^ min (b + 1) 32 = h / half % (2 * 2 ^ b) % 2 ^ 32 := by
        rw [← Nat.pow_succ', mod_two_pow_mod_two_pow]
      _ = (h / half % 2 + 2 * (h / half / 2 % 2 ^ b)) % 2 ^ 32 := by rw [Nat.mod_mul]
      _ = (h / (half * 2) % 2 ^ b * 2 + h / half % 2) % 2 ^ 32 := by
        rw [Nat.div_div_eq_div_mul, Nat.add_comm, Nat.mul_comm 2]
  have hhalf : filter.bucketCount / 2 = half := by
    rw [hwf.bucketCount_eq, hsize, Nat.mul_div_cancel _ Nat.two_pos]
  rw [hjoined, bucket_compress hwf hbig (by rw [hhalf]; exact Nat.mod_lt h hpos), hhalf]
  rw [hsize, Nat.mod_mul] at hmem
  unfold joinBuckets
  rw [List.mem_append, List.mem_reverse, List.mem_reverse, List.mem_map, List.mem_map]
  rcases Nat.mod_two_eq_zero_or_one (h / half) with heven | hodd
  · rw [heven, Nat.mul_zero, Nat.add_zero] at hmem
    rw [heven, Nat.add_zero]
    exact Or.inl ⟨_, hmem, rfl⟩
  · rw [hodd, Nat.mul_one] at hmem
    rw [hodd]
    exact Or.inr ⟨_, hmem, rfl⟩

/-! ### Tracked items

A filter tracks items if it records each with some number of known bits. An addition keeps what
it tracks unless it expands a filter with an item out of known bits, a removal unless it takes an
entry that another item is recorded by. -/

structure Tracks (filter : ElasticBloomFilter) (items : List Bytes) : Prop where
  wellFormed : filter.WellFormed
  size_eq : ∃ k, filter.size = 2 ^ k
  recorded : ∀ item ∈ items, ∃ b, filter.Recorded H item b

def KeepsAdding (filter : ElasticBloomFilter) (items : List Bytes) (added : Bytes) : Prop :=
  (filter.insert H added).ratio > (filter.insert H added).omega →
    ∀ item ∈ items, ∃ b ∈ List.range 33, 1 ≤ b ∧ filter.Recorded H item b

instance (filter : ElasticBloomFilter) (items : List Bytes) (added : Bytes) :
    Decidable (filter.KeepsAdding H items added) :=
  inferInstanceAs (Decidable (_ → _))

def KeepsRemoving (filter : ElasticBloomFilter) (items : List Bytes) (removed : Bytes) : Prop :=
  ∀ item ∈ items, ∃ b ∈ List.range 33,
    filter.Recorded H item b ∧ filter.Spares H removed item b

instance (filter : ElasticBloomFilter) (items : List Bytes) (removed : Bytes) :
    Decidable (filter.KeepsRemoving H items removed) :=
  inferInstanceAs (Decidable (∀ item ∈ items, _))

theorem Tracks.contains {items : List Bytes} (htracks : filter.Tracks H items) {item : Bytes}
    (hitem : item ∈ items) : filter.contains H item = true := by
  obtain ⟨b, hrecorded⟩ := htracks.recorded item hitem
  exact contains_of_recorded H htracks.wellFormed hrecorded

theorem Tracks.mono {items fewer : List Bytes} (htracks : filter.Tracks H items)
    (hsubset : fewer ⊆ items) : filter.Tracks H fewer :=
  ⟨htracks.wellFormed, htracks.size_eq, fun item hitem => htracks.recorded item (hsubset hitem)⟩

theorem Tracks.add {items : List Bytes} {added : Bytes} (htracks : filter.Tracks H items)
    (hbits : 1 ≤ filter.fpBits ∧ filter.fpBits ≤ 32) (hkeeps : filter.KeepsAdding H items added) :
    (filter.add H added).Tracks H (items ++ [added]) := by
  have hwf := htracks.wellFormed
  have hself := recorded_insert_self H hwf hbits.2 added
  obtain ⟨k, hsize⟩ := htracks.size_eq
  have hinserted : (filter.insert H added).size = 2 ^ k := by
    rw [(sameParameters_insert H filter added).size, hsize]
  refine ⟨hwf.add H added, ?_, ?_⟩
  · unfold ElasticBloomFilter.add
    dsimp only
    split_ifs
    · refine ⟨k + 1, ?_⟩
      change (filter.insert H added).size * 2 = 2 ^ (k + 1)
      rw [hinserted, Nat.pow_succ]
    · exact ⟨k, hinserted⟩
  · intro item hitem
    unfold ElasticBloomFilter.add
    dsimp only
    split_ifs with hexpand
    · rcases List.mem_append.mp hitem with hold | hnew
      · obtain ⟨b, -, hpos, hrecorded⟩ := hkeeps hexpand item hold
        obtain ⟨b, rfl⟩ := Nat.exists_eq_add_of_le' hpos
        exact ⟨b, (hrecorded.insert H hwf added).expand H (hwf.insert H added)⟩
      · obtain rfl := List.mem_singleton.mp hnew
        obtain ⟨b, hb⟩ := Nat.exists_eq_add_of_le' hbits.1
        rw [hb] at hself
        exact ⟨b, hself.expand H (hwf.insert H item)⟩
    · rcases List.mem_append.mp hitem with hold | hnew
      · obtain ⟨b, hrecorded⟩ := htracks.recorded item hold
        exact ⟨b, hrecorded.insert H hwf added⟩
      · obtain rfl := List.mem_singleton.mp hnew
        exact ⟨_, hself⟩

theorem Tracks.compress {items : List Bytes} (htracks : filter.Tracks H items) :
    filter.compress.Tracks H items := by
  have hwf := htracks.wellFormed
  obtain ⟨k, hsize⟩ := htracks.size_eq
  cases k with
  | zero =>
      have hsame : filter.compress = filter := by
        unfold ElasticBloomFilter.compress
        rw [if_pos (by rw [hwf.bucketCount_eq, hsize]; norm_num)]
      rw [hsame]
      exact htracks
  | succ k =>
      have hhalf : filter.size = 2 ^ k * 2 := by rw [hsize, Nat.pow_succ]
      refine ⟨hwf.compress, ⟨k, ?_⟩, ?_⟩
      · have hbig : ¬filter.bucketCount < 2 := by
          have := Nat.one_le_two_pow (n := k)
          rw [hwf.bucketCount_eq]
          omega
        unfold ElasticBloomFilter.compress
        rw [if_neg hbig]
        change filter.size / 2 = 2 ^ k
        omega
      · intro item hitem
        obtain ⟨b, hrecorded⟩ := htracks.recorded item hitem
        exact ⟨_, hrecorded.compress H hwf hhalf⟩

theorem Tracks.remove {items : List Bytes} {removed : Bytes} (htracks : filter.Tracks H items)
    (hkeeps : filter.KeepsRemoving H items removed) : (filter.remove H removed).Tracks H items := by
  have hwf := htracks.wellFormed
  obtain ⟨k, hsize⟩ := htracks.size_eq
  have herased : (filter.erase H removed).size = 2 ^ k := by
    rw [(sameParameters_erase H filter removed).size, hsize]
  have hrecorded : ∀ item ∈ items, ∃ b, (filter.erase H removed).Recorded H item b := by
    intro item hitem
    obtain ⟨b, -, hitem, hspares⟩ := hkeeps item hitem
    exact ⟨b, hitem.erase H hwf hspares⟩
  have herase : (filter.erase H removed).Tracks H items :=
    ⟨hwf.erase H removed, ⟨k, herased⟩, hrecorded⟩
  unfold ElasticBloomFilter.remove
  dsimp only
  split_ifs
  · exact herase.compress H
  · exact herase

end Poseidon.ElasticBloomFilter
