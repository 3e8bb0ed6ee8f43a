import Poseidon.Bloom.CodecRoundTrip
import Poseidon.Bloom.Resizing

/-!
# The representation of an elastic filter

Beside the agreement of bits and buckets, the operations keep the byte array of the bits at its
exact length: no write lies past the bits of the filter, so the array never grows, and what is
rebuilt or united has the length of the size. The bits behind the last bucket are never set.

Whether an addition or a removal resizes the filter depends on a comparison of two `float`s. Here
the outcome of the comparison is left open, so nothing depends on how they are rounded.
-/

namespace Poseidon.ElasticBloomFilter

open Cbor

/-- `elastic_bloom_filter_bucket_insert`; `none` stands for the `-1` of an index past the
buckets. -/
def bucketInsert (filter : ElasticBloomFilter) (bucketIdx : Nat) (fingerprint : UInt32) :
    Option ElasticBloomFilter :=
  if bucketIdx ≥ filter.bucketCount then none
  else some (filter.insertPair (fingerprint.toNat, bucketIdx))

/-- One bucket for each bit, the bytes the bits need and no more, a bit set exactly where the bucket
is not empty, and no bit set behind the last bucket. -/
structure Represented (filter : ElasticBloomFilter) : Prop where
  bucketCount_eq : filter.bucketCount = filter.size
  length_buckets : filter.buckets.length = filter.size
  size_bits : filter.bits.size = (filter.size + 7) / 8
  get_bits : ∀ i < filter.size, filter.bits.get i = true ↔ filter.bucket i ≠ []
  padding : ∀ i, filter.size ≤ i → i < 8 * filter.bits.size → filter.bits.get i = false

structure Exact (filter : ElasticBloomFilter) : Prop extends WellFormed filter where
  size_bits : filter.bits.size = BloomFilter.byteSize filter.size

theorem byteSize_eq (size : Nat) : BloomFilter.byteSize size = (size + 7) / 8 := by
  unfold BloomFilter.byteSize
  split_ifs <;> omega

variable {filter : ElasticBloomFilter}

theorem Exact.represented (hexact : filter.Exact) : filter.Represented := by
  refine ⟨hexact.bucketCount_eq, hexact.length_buckets, ?_, fun i _ => ?_, fun i hi _ => ?_⟩
  · rw [hexact.size_bits, byteSize_eq]
  · rw [hexact.get_bits, Bool.not_eq_true', List.isEmpty_eq_false_iff]
  · rw [hexact.get_bits, bucket_eq_nil (hexact.length_buckets.trans_le hi)]
    rfl

theorem size_foldl_rebuild {entries : List (List Nat × Nat)} {bits : Bitset}
    (hentries : ∀ entry ∈ entries, entry.2 / 8 < bits.size) :
    (entries.foldl (fun bits entry => if entry.1.isEmpty then bits else bits.set entry.2 true)
      bits).size = bits.size := by
  induction entries generalizing bits with
  | nil => rfl
  | cons entry entries ih =>
      have hrest : ∀ other ∈ entries, other.2 / 8 < bits.size :=
        fun other hother => hentries other (List.mem_cons_of_mem entry hother)
      rw [List.foldl_cons]
      split_ifs with hempty
      · exact ih hrest
      · have hset := Bitset.size_set (hentries entry List.mem_cons_self) true
        rw [ih (by rwa [hset]), hset]

theorem size_bits_rebuildBitset (filter : ElasticBloomFilter) :
    filter.rebuildBitset.bits.size = BloomFilter.byteSize filter.size := by
  refine (size_foldl_rebuild fun entry hentry => ?_).trans (Bitset.size_create _)
  have hlt := List.snd_lt_of_mem_zipIdx hentry
  rw [List.length_take] at hlt
  rw [Bitset.size_create]
  apply BloomFilter.div_lt_byteSize
  omega

/-! ### The operations -/

theorem Exact.rebuildBitset (hpos : 0 < filter.size) (hcount : filter.bucketCount = filter.size)
    (hlength : filter.buckets.length = filter.size) : filter.rebuildBitset.Exact :=
  ⟨WellFormed.rebuildBitset hpos hcount hlength, filter.size_bits_rebuildBitset⟩

theorem Exact.create {size : Nat} (hsize : 0 < size) (hashCount : Nat) (omega : Rat)
    (fpBits : Nat) : (create size hashCount omega fpBits).Exact :=
  ⟨WellFormed.create hsize hashCount omega fpBits, Bitset.size_create _⟩

theorem exact_of_decode [Memory] {item : Item} (hdecode : decode item = some filter)
    (hpos : 0 < filter.size) : filter.Exact := by
  obtain ⟨filled, rfl, hcount, hlength⟩ := exists_of_decode hdecode
  exact Exact.rebuildBitset hpos hcount hlength

section Exactness

variable {filter : ElasticBloomFilter} (hexact : filter.Exact)

include hexact

theorem Exact.size_set_bits {i : Nat} (hi : i < filter.size) (value : Bool) :
    (filter.bits.set i value).size = BloomFilter.byteSize filter.size := by
  have hfits : i / 8 < filter.bits.size := by
    rw [hexact.size_bits]
    exact BloomFilter.div_lt_byteSize hi
  rw [Bitset.size_set hfits, hexact.size_bits]

theorem Exact.insertPair {pair : Nat × Nat} (hpair : pair.2 < filter.size) :
    (filter.insertPair pair).Exact :=
  ⟨hexact.toWellFormed.insertPair hpair, hexact.size_set_bits hpair true⟩

theorem Exact.erasePair {pair : Nat × Nat} (hpair : pair.2 < filter.size) :
    (filter.erasePair pair).Exact := by
  refine ⟨hexact.toWellFormed.erasePair hpair, ?_⟩
  simp only [ElasticBloomFilter.erasePair]
  split_ifs
  · exact hexact.size_set_bits hpair false
  · exact hexact.size_bits

theorem Exact.insert (H : HashFn) (data : Bytes) : (filter.insert H data).Exact := by
  have hfold : ((filter.hashPairs H data).foldl ElasticBloomFilter.insertPair filter).Exact := by
    refine foldl_pairs ?_ ?_ hexact ?_
    · exact fun _ _ => rfl
    · exact fun _ _ hfilter hpair => hfilter.insertPair hpair
    · exact fun _ hpair => snd_lt_of_mem_hashPairs H hexact.size_pos hpair
  exact ⟨hfold.toWellFormed.of_count _, hfold.size_bits⟩

theorem Exact.erase (H : HashFn) (data : Bytes) : (filter.erase H data).Exact := by
  have hfold : ((filter.hashPairs H data).foldl ElasticBloomFilter.erasePair filter).Exact := by
    refine foldl_pairs ?_ ?_ hexact ?_
    · exact fun _ _ => rfl
    · exact fun _ _ hfilter hpair => hfilter.erasePair hpair
    · exact fun _ hpair => snd_lt_of_mem_hashPairs H hexact.size_pos hpair
  exact ⟨hfold.toWellFormed.of_count _, hfold.size_bits⟩

theorem Exact.expand : filter.expand.Exact :=
  ⟨hexact.toWellFormed.expand, size_bits_rebuildBitset _⟩

theorem Exact.compress : filter.compress.Exact := by
  refine ⟨hexact.toWellFormed.compress, ?_⟩
  unfold ElasticBloomFilter.compress
  split_ifs
  · exact hexact.size_bits
  · exact size_bits_rebuildBitset _

theorem Exact.bucketInsert {bucketIdx : Nat} {fingerprint : UInt32} {next : ElasticBloomFilter}
    (hinsert : filter.bucketInsert bucketIdx fingerprint = some next) : next.Exact := by
  unfold ElasticBloomFilter.bucketInsert at hinsert
  split_ifs at hinsert with hindex
  obtain rfl := Option.some.inj hinsert
  rw [hexact.bucketCount_eq, ge_iff_le, Nat.not_le] at hindex
  exact hexact.insertPair hindex

theorem Exact.merge {src merged : ElasticBloomFilter} (hsrc : src.Exact)
    (hmerge : filter.merge src = some merged) : merged.Exact := by
  refine ⟨hexact.toWellFormed.merge hsrc.toWellFormed hmerge, ?_⟩
  unfold ElasticBloomFilter.merge at hmerge
  split_ifs at hmerge with hshape
  obtain rfl := Option.some.inj hmerge
  have hsize : filter.size = src.size := not_not.mp (not_or.mp hshape).1
  have hbits : filter.bits.size = src.bits.size := by
    rw [hexact.size_bits, hsrc.size_bits, hsize]
  exact (Bitset.size_or hbits).trans hexact.size_bits

end Exactness

/-! ### The filters the operations build -/

section Built

variable [Memory] (H : HashFn)

/-- The filters of at least one bit and at most 32 fingerprint bits that the operations build. -/
inductive Built : ElasticBloomFilter → Prop where
  | create {size hashCount fpBits : Nat} {omega : Rat} (hsize : 1 ≤ size) (hfpBits : fpBits ≤ 32) :
      Built (create size hashCount omega fpBits)
  | decode {item : Item} {filter : ElasticBloomFilter} (hdecode : decode item = some filter)
      (hsize : 1 ≤ filter.size) (hfpBits : filter.fpBits ≤ 32) : Built filter
  | add {filter : ElasticBloomFilter} (hfilter : Built filter) (data : Bytes) (above : Bool) :
      Built (filter.addGiven H data above)
  | remove {filter : ElasticBloomFilter} (hfilter : Built filter) (data : Bytes) (below : Bool) :
      Built (filter.removeGiven H data below)
  | expand {filter : ElasticBloomFilter} (hfilter : Built filter) : Built filter.expand
  | compress {filter : ElasticBloomFilter} (hfilter : Built filter) : Built filter.compress
  | bucketInsert {filter next : ElasticBloomFilter} (hfilter : Built filter) {bucketIdx : Nat}
      {fingerprint : UInt32} (hinsert : filter.bucketInsert bucketIdx fingerprint = some next) :
      Built next
  | merge {dest src merged : ElasticBloomFilter} (hdest : Built dest) (hsrc : Built src)
      (hmerge : dest.merge src = some merged) : Built merged

variable {H}

variable {filter : ElasticBloomFilter}

theorem Built.exact (hbuilt : Built H filter) : filter.Exact := by
  induction hbuilt with
  | create hsize hfpBits => exact Exact.create hsize _ _ _
  | decode hdecode hsize hfpBits => exact exact_of_decode hdecode hsize
  | add hfilter data above ih =>
      cases above with
      | false => exact ih.insert H data
      | true => exact (ih.insert H data).expand
  | remove hfilter data below ih =>
      cases below with
      | false => exact ih.erase H data
      | true => exact (ih.erase H data).compress
  | expand hfilter ih => exact ih.expand
  | compress hfilter ih => exact ih.compress
  | bucketInsert hfilter hinsert ih => exact ih.bucketInsert hinsert
  | merge hdest hsrc hmerge ihdest ihsrc => exact ihdest.merge ihsrc hmerge

/-- `add` and `remove` settle the comparison in exact arithmetic. -/
theorem Built.add_exactly (hbuilt : Built H filter) (data : Bytes) :
    Built H (filter.add H data) := by
  have hadd := hbuilt.add data
    (decide ((filter.insert H data).ratio > (filter.insert H data).omega))
  simp only [addGiven, decide_eq_true_eq] at hadd
  exact hadd

theorem Built.remove_exactly (hbuilt : Built H filter) (data : Bytes) :
    Built H (filter.remove H data) := by
  have hremove := hbuilt.remove data
    (decide ((filter.erase H data).ratio < (filter.erase H data).omega / 4))
  simp only [removeGiven, decide_eq_true_eq] at hremove
  exact hremove

/-- **Representation.** Every filter of at least one bit and at most 32 fingerprint bits that is
created or decoded, and then changed by any additions, removals, resizes, insertions into buckets
and merges with such filters, is represented as it should be. -/
theorem represented_of_built (H : HashFn) {filter : ElasticBloomFilter} (hbuilt : Built H filter) :
    filter.Represented :=
  hbuilt.exact.represented

end Built

/-- A filter of five bits that gets one item, loses another it never had, and is halved. -/
def halvedFilter : ElasticBloomFilter :=
  (((create 5 2 (1 / 2) 8).add mixHash [7]).remove mixHash [8]).compress

theorem represented_halvedFilter :
    Built mixHash halvedFilter ∧ halvedFilter.size = 2 ∧ halvedFilter.Represented := by
  have hcreate : Built mixHash (create 5 2 (1 / 2) 8) := .create (by decide) (by decide)
  have hbuilt : Built mixHash halvedFilter :=
    ((hcreate.add_exactly [7]).remove_exactly [8]).compress
  exact ⟨hbuilt, by decide +kernel, represented_of_built mixHash hbuilt⟩

end Poseidon.ElasticBloomFilter
