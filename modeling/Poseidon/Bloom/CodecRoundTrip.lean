import Poseidon.Bloom.Codec
import Poseidon.Bloom.Merge
import Poseidon.Cbor.RoundTrip

/-!
# Filters survive their encoding

What a receiver decodes from an encoded filter contains the same items. Whatever it decodes, from
any item, has bits and buckets that agree.
-/

namespace Poseidon

open Cbor

namespace ElasticBloomFilter

/-! ### What the decoder accepts -/

variable {filter : ElasticBloomFilter}

theorem decodeBucket_eq_some [Memory] {next : ElasticBloomFilter} {item : Item}
    (hdecode : filter.decodeBucket item = some next) :
    next = { filter with buckets := next.buckets } ∧
      next.buckets.length = filter.buckets.length := by
  unfold decodeBucket at hdecode
  split at hdecode
  · split_ifs at hdecode
    obtain rfl := Option.some.inj hdecode
    exact ⟨rfl, List.length_modify _ _ _⟩
  · contradiction

theorem foldlM_decodeBucket_eq_some [Memory] {items : List Item} {next : ElasticBloomFilter}
    (hdecode : items.foldlM decodeBucket filter = some next) :
    next = { filter with buckets := next.buckets } ∧
      next.buckets.length = filter.buckets.length := by
  induction items generalizing filter with
  | nil =>
      obtain rfl := Option.some.inj hdecode
      exact ⟨rfl, rfl⟩
  | cons item items ih =>
      rw [List.foldlM_cons] at hdecode
      obtain ⟨middle, hfirst, hrest⟩ := Option.bind_eq_some_iff.mp hdecode
      obtain ⟨hmiddle, hlength⟩ := decodeBucket_eq_some hfirst
      obtain ⟨hnext, hlength'⟩ := ih hrest
      refine ⟨?_, hlength'.trans hlength⟩
      rw [hnext, hmiddle]

theorem exists_of_decode [Memory] {item : Item} (hdecode : decode item = some filter) :
    ∃ filled : ElasticBloomFilter, filter = filled.rebuildBitset ∧
      filled.bucketCount = filled.size ∧ filled.buckets.length = filled.size := by
  unfold decode at hdecode
  split at hdecode
  · split at hdecode
    · contradiction
    · split_ifs at hdecode
      obtain ⟨filled, hfold, rfl⟩ := Option.map_eq_some_iff.mp hdecode
      obtain ⟨hfilled, hlength⟩ := foldlM_decodeBucket_eq_some hfold
      have hsize := congrArg size hfilled
      have hcount := congrArg bucketCount hfilled
      refine ⟨filled, rfl, ?_, ?_⟩
      · rw [hsize, hcount]
        rfl
      · rw [hlength, hsize]
        exact List.length_replicate
  · contradiction

theorem wellFormed_of_decode [Memory] {item : Item} (hdecode : decode item = some filter)
    (hpos : 0 < filter.size) : filter.WellFormed := by
  obtain ⟨filled, rfl, hcount, hlength⟩ := exists_of_decode hdecode
  exact WellFormed.rebuildBitset hpos hcount hlength

/-! ### What the encoder sends -/

structure Shaped (filter : ElasticBloomFilter) : Prop where
  bucketCount_eq : filter.bucketCount = filter.size
  length_buckets : filter.buckets.length = filter.size

theorem WellFormed.shaped (hwf : filter.WellFormed) : filter.Shaped :=
  ⟨hwf.bucketCount_eq, hwf.length_buckets⟩

/-- The numbers of the filter fit the fields they are sent in. -/
structure Encodable (filter : ElasticBloomFilter) : Prop where
  size : filter.size + 8 < 2 ^ 64
  hashCount : filter.hashCount < 2 ^ 32
  fpBits : filter.fpBits < 2 ^ 32
  bits : filter.bits.size < 2 ^ 64
  buckets : ∀ bucket ∈ filter.buckets, bucket.length + 2 < 2 ^ 64 ∧ ∀ fp ∈ bucket, fp < 2 ^ 32

instance (filter : ElasticBloomFilter) : Decidable filter.Encodable :=
  decidable_of_iff (filter.size + 8 < 2 ^ 64 ∧ filter.hashCount < 2 ^ 32 ∧
      filter.fpBits < 2 ^ 32 ∧ filter.bits.size < 2 ^ 64 ∧
      ∀ bucket ∈ filter.buckets, bucket.length + 2 < 2 ^ 64 ∧ ∀ fp ∈ bucket, fp < 2 ^ 32)
    ⟨fun ⟨h1, h2, h3, h4, h5⟩ => ⟨h1, h2, h3, h4, h5⟩,
      fun ⟨h1, h2, h3, h4, h5⟩ => ⟨h1, h2, h3, h4, h5⟩⟩

def received (filter : ElasticBloomFilter) : ElasticBloomFilter :=
  rebuildBitset { filter with omega := 1 / 2, count := 0 }

theorem WellFormed.received (hwf : filter.WellFormed) : filter.received.WellFormed :=
  WellFormed.rebuildBitset hwf.size_pos hwf.bucketCount_eq hwf.length_buckets

theorem contains_received (H : HashFn) (hwf : filter.WellFormed) (data : Bytes) :
    filter.received.contains H data = filter.contains H data := by
  have hbits : filter.received.bits.get = filter.bits.get := by
    funext i
    rw [hwf.received.get_bits, hwf.get_bits]
    rfl
  unfold contains
  rw [hbits]
  rfl

theorem map_getInt_map_uint [Memory] {fps : List Nat} (hfps : ∀ fp ∈ fps, fp < 2 ^ 32) :
    (fps.map (Item.uint .w32)).map (fun fp => fp.getInt % 2 ^ 32) = fps := by
  have hid : ∀ fp ∈ fps, (Item.uint .w32 fp).getInt % 2 ^ 32 = id fp :=
    fun fp hfp => Nat.mod_eq_of_lt (hfps fp hfp)
  rw [List.map_map]
  exact (List.map_congr_left hid).trans (List.map_id fps)

def setBuckets (filter : ElasticBloomFilter) (buckets : List (List Nat)) : ElasticBloomFilter :=
  { filter with buckets := buckets }

theorem decodeBucket_encodeBucket [Memory] {front rest : List (List Nat)} {bucket : List Nat}
    (hindex : front.length < filter.bucketCount) (hcount : filter.bucketCount < 2 ^ 64)
    (hlength : bucket.length < 2 ^ 64) (hfps : ∀ fp ∈ bucket, fp < 2 ^ 32) :
    (filter.setBuckets (front ++ [] :: rest)).decodeBucket (encodeBucket (bucket, front.length)) =
      some (filter.setBuckets (front ++ bucket :: rest)) := by
  have hget : (Item.uint .w64 front.length).getUint64 = front.length :=
    Item.getUint64_uint (hindex.trans hcount)
  have hfpCount : (Item.uint .w64 bucket.length).getUint64 = bucket.length :=
    Item.getUint64_uint hlength
  have haccepted : ¬((bucket.map (Item.uint .w32)).length ≠ bucket.length ∨
      front.length ≥ filter.bucketCount) := by
    rw [List.length_map]
    omega
  have hmodify : (front ++ [] :: rest).modify front.length (bucket ++ ·) =
      front ++ bucket :: rest := by
    rw [List.modify_eq_set_getElem?]
    simp
  simp only [encodeBucket, decodeBucket, setBuckets, hget, hfpCount, if_neg haccepted,
    map_getInt_map_uint hfps, hmodify]

theorem foldlM_decodeBucket_encodeBucket [Memory] (hsize : filter.bucketCount < 2 ^ 64)
    (front buckets : List (List Nat))
    (hcount : filter.bucketCount = front.length + buckets.length)
    (hfits : ∀ bucket ∈ buckets, bucket.length + 2 < 2 ^ 64 ∧ ∀ fp ∈ bucket, fp < 2 ^ 32) :
    (((buckets.zipIdx front.length).filter fun entry => !entry.1.isEmpty).map
      encodeBucket).foldlM decodeBucket
        (filter.setBuckets (front ++ List.replicate buckets.length [])) =
      some (filter.setBuckets (front ++ buckets)) := by
  induction buckets generalizing front with
  | nil => rfl
  | cons bucket buckets ih =>
      rw [List.length_cons] at hcount
      have hrest := ih (front ++ [bucket])
        (by rw [List.length_append, List.length_singleton]; omega)
        (fun other hother => hfits other (List.mem_cons_of_mem _ hother))
      simp only [List.length_append, List.length_singleton, List.append_assoc,
        List.singleton_append] at hrest
      rw [List.zipIdx_cons, List.length_cons, List.replicate_succ]
      by_cases hempty : bucket = []
      · subst hempty
        rw [List.filter_cons_of_neg (by simp)]
        exact hrest
      · obtain ⟨hlength, hfps⟩ := hfits bucket List.mem_cons_self
        have hindex : front.length < filter.bucketCount := by omega
        rw [List.filter_cons_of_pos (by simpa using hempty), List.map_cons, List.foldlM_cons,
          decodeBucket_encodeBucket hindex hsize (by omega) hfps]
        exact hrest

theorem length_filter_zipIdx (filter : ElasticBloomFilter) :
    (filter.buckets.zipIdx.filter fun entry => !entry.1.isEmpty).length = filter.occupied := by
  unfold occupied
  conv_rhs => rw [← List.zipIdx_map_fst 0 filter.buckets, List.countP_map]
  exact List.countP_eq_length_filter.symm

theorem decode_encode [Memory] (hshaped : filter.Shaped) (hfits : filter.Encodable) :
    decode filter.encode = some filter.received := by
  have hlength := hshaped.length_buckets
  have hsize : filter.size < 2 ^ 64 := lt_of_le_of_lt (Nat.le_add_right _ _) hfits.size
  have hoccupied : filter.occupied < 2 ^ 64 := by
    apply lt_of_le_of_lt List.countP_le_length
    rw [hlength]
    exact hsize
  have hcount : filter.bucketCount = filter.buckets.length := by
    rw [hshaped.bucketCount_eq, hlength]
  let sent : ElasticBloomFilter := { filter with omega := 1 / 2, count := 0 }
  have hfold : ((filter.buckets.zipIdx.filter fun entry => !entry.1.isEmpty).map
      encodeBucket).foldlM decodeBucket
        (sent.setBuckets (List.replicate filter.buckets.length [])) = some sent := by
    refine foldlM_decodeBucket_encodeBucket ?_ [] filter.buckets ?_ hfits.buckets
    · exact lt_of_eq_of_lt hshaped.bucketCount_eq hsize
    · exact hcount.trans (Nat.zero_add _).symm
  have hfresh : ∀ bits, { create filter.size filter.hashCount (1 / 2) filter.fpBits with
      seedA := filter.seedA, seedB := filter.seedB, bits := bits } =
        { sent.setBuckets (List.replicate filter.buckets.length []) with bits := bits } := by
    intro bits
    simp only [create, setBuckets, sent, hlength, hshaped.bucketCount_eq]
  have hbits : (Item.uint .w64 filter.bits.size).getUint64 = filter.bits.data.length :=
    Item.getUint64_uint hfits.bits
  unfold encode decode
  simp only [List.cons_append, List.nil_append, Item.bytestringData, Item.getInt,
    List.length_map, length_filter_zipIdx, Item.getUint64_uint hsize,
    Item.getUint64_uint hoccupied, Nat.mod_eq_of_lt hfits.hashCount,
    Nat.mod_eq_of_lt hfits.fpBits, hbits, ne_eq, not_true_eq_false, if_false,
    Item.ofNat_getUint64]
  rw [hfresh ⟨filter.bits.data⟩]
  exact congrArg (Option.map rebuildBitset) hfold

theorem fits_encodeBucket {room : Nat} (hroom : 0 < room) {entry : List Nat × Nat}
    (hindex : entry.2 < 2 ^ 64) (hlength : entry.1.length + 2 < 2 ^ 64)
    (hfps : ∀ fp ∈ entry.1, fp < 2 ^ 32) : Item.Fits room (encodeBucket entry) := by
  refine ⟨hroom, by simpa using hlength, hindex, lt_of_le_of_lt (Nat.le_add_right _ _) hlength, ?_⟩
  rw [fitsAll_iff]
  intro item hitem
  obtain ⟨fp, hfp, rfl⟩ := List.mem_map.mp hitem
  exact hfps fp hfp

theorem fits_encode (hshaped : filter.Shaped) (hfits : filter.Encodable) {room : Nat}
    (hroom : 2 ≤ room) : Item.Fits room filter.encode := by
  have hsize := hfits.size
  have hlength := hshaped.length_buckets
  have hoccupied : filter.occupied ≤ filter.buckets.length := List.countP_le_length
  refine ⟨by omega, ?_, ?_⟩
  · simp only [List.length_append, List.length_map, length_filter_zipIdx, List.length_cons,
      List.length_nil]
    omega
  · rw [fitsAll_iff]
    intro item hitem
    obtain hfixed | hbucket := List.mem_append.mp hitem
    · simp only [List.mem_cons, List.not_mem_nil, or_false] at hfixed
      obtain rfl | rfl | rfl | rfl | rfl | rfl | rfl | rfl := hfixed
      · exact lt_of_le_of_lt (Nat.le_add_right _ _) hsize
      · exact hfits.hashCount
      · exact hfits.fpBits
      · exact filter.seedA.toNat_lt
      · exact filter.seedB.toNat_lt
      · exact hfits.bits
      · exact hfits.bits
      · change filter.occupied < 2 ^ 64
        omega
    · obtain ⟨⟨bucket, i⟩, hentry, rfl⟩ := List.mem_map.mp hbucket
      have hget := List.mk_mem_zipIdx_iff_getElem?.mp (List.mem_filter.mp hentry).1
      obtain ⟨hi, rfl⟩ := List.getElem?_eq_some_iff.mp hget
      obtain ⟨hcount, hfps⟩ := hfits.buckets _ (List.getElem_mem hi)
      exact fits_encodeBucket (by omega) (show i < 2 ^ 64 by omega) hcount hfps

end ElasticBloomFilter

namespace AttenuatedBloomFilter

structure Encodable (filter : AttenuatedBloomFilter) : Prop where
  levelCount : filter.levelCount < 2 ^ 32
  levels : ∀ level ∈ filter.levels, level.Encodable

instance (filter : AttenuatedBloomFilter) : Decidable filter.Encodable :=
  decidable_of_iff (filter.levelCount < 2 ^ 32 ∧ ∀ level ∈ filter.levels, level.Encodable)
    ⟨fun ⟨hcount, hlevels⟩ => ⟨hcount, hlevels⟩, fun ⟨hcount, hlevels⟩ => ⟨hcount, hlevels⟩⟩

def received (filter : AttenuatedBloomFilter) : AttenuatedBloomFilter :=
  ⟨filter.levels.map ElasticBloomFilter.received⟩

theorem mapM_decode_encode [Memory] {levels : List ElasticBloomFilter}
    (hshaped : ∀ level ∈ levels, level.Shaped) (hfits : ∀ level ∈ levels, level.Encodable) :
    (levels.map ElasticBloomFilter.encode).mapM ElasticBloomFilter.decode =
      some (levels.map ElasticBloomFilter.received) := by
  induction levels with
  | nil => rfl
  | cons level levels ih =>
      have hrest := ih (fun other hother => hshaped other (List.mem_cons_of_mem _ hother))
        (fun other hother => hfits other (List.mem_cons_of_mem _ hother))
      rw [List.map_cons, List.mapM_cons, hrest,
        ElasticBloomFilter.decode_encode (hshaped level List.mem_cons_self)
          (hfits level List.mem_cons_self)]
      rfl

variable {filter : AttenuatedBloomFilter}

theorem decode_encode [Memory] (hshaped : ∀ level ∈ filter.levels, level.Shaped)
    (hfits : filter.Encodable) : decode filter.encode = some filter.received := by
  have hcount : (filter.levels.map ElasticBloomFilter.encode).length =
      filter.levelCount % 2 ^ 32 := by
    rw [List.length_map, Nat.mod_eq_of_lt hfits.levelCount]
    rfl
  simp only [encode, decode, Item.getInt, ne_eq, hcount, not_true_eq_false, if_false,
    mapM_decode_encode hshaped hfits.levels]
  rfl

theorem fits_encode (hshaped : ∀ level ∈ filter.levels, level.Shaped) (hfits : filter.Encodable)
    {room : Nat} (hroom : 4 ≤ room) : Item.Fits room filter.encode := by
  have hcount : filter.levels.length < 2 ^ 32 := hfits.levelCount
  refine ⟨by omega, by simp, hcount, ⟨by omega, ?_, ?_⟩, trivial⟩
  · rw [List.length_map]
    omega
  · rw [fitsAll_iff]
    intro item hitem
    obtain ⟨level, hlevel, rfl⟩ := List.mem_map.mp hitem
    exact ElasticBloomFilter.fits_encode (hshaped level hlevel) (hfits.levels level hlevel)
      (by omega)

theorem mapM_cons_eq_some {α β : Type*} {f : α → Option β} {item : α} {items : List α}
    {values : List β} (hmap : (item :: items).mapM f = some values) :
    ∃ first others, f item = some first ∧ items.mapM f = some others ∧
      values = first :: others := by
  rw [List.mapM_cons] at hmap
  obtain ⟨first, hfirst, hrest⟩ := Option.bind_eq_some_iff.mp hmap
  obtain ⟨others, hothers, heq⟩ := Option.bind_eq_some_iff.mp hrest
  exact ⟨first, others, hfirst, hothers, (Option.some.inj heq).symm⟩

theorem exists_of_mem_mapM {α β : Type*} {f : α → Option β} {items : List α} {values : List β}
    (hmap : items.mapM f = some values) {value : β} (hvalue : value ∈ values) :
    ∃ item ∈ items, f item = some value := by
  induction items generalizing values with
  | nil =>
      obtain rfl := Option.some.inj hmap
      exact absurd hvalue List.not_mem_nil
  | cons item items ih =>
      obtain ⟨first, others, hfirst, hothers, rfl⟩ := mapM_cons_eq_some hmap
      obtain rfl | hmem := List.mem_cons.mp hvalue
      · exact ⟨item, List.mem_cons_self, hfirst⟩
      · obtain ⟨other, hother, hget⟩ := ih hothers hmem
        exact ⟨other, List.mem_cons_of_mem _ hother, hget⟩

theorem wellFormed_of_decode [Memory] {item : Item} (hdecode : decode item = some filter)
    {level : ElasticBloomFilter} (hlevel : level ∈ filter.levels) (hpos : 0 < level.size) :
    level.WellFormed := by
  unfold decode at hdecode
  split at hdecode
  · split_ifs at hdecode
    obtain ⟨levels, hlevels, rfl⟩ := Option.map_eq_some_iff.mp hdecode
    obtain ⟨item, -, hitem⟩ := exists_of_mem_mapM hlevels hlevel
    exact ElasticBloomFilter.wellFormed_of_decode hitem hpos
  · contradiction

end AttenuatedBloomFilter

end Poseidon
