import Mathlib.Data.Rat.Defs
import Poseidon.Bloom.BloomFilter

/-!
# The elastic Bloom filter

`elastic_bloom_filter_t` keeps, beside each bit, a bucket of fingerprints. Round `i` of an item
hashes to `h`; the bit and bucket are `h % size` and the fingerprint is `h / size`, cut to
`fp_bits` bits. The filter doubles by moving the lowest fingerprint bit into the bucket index and
halves by moving it back, so it resizes without the items themselves.

An entry therefore records a *number of known bits* of `h / size` that changes with every resize:
expanding uses one up, compressing gains one. `Recorded` says that an item's entries are in place
with `b` known bits; it is what keeps the item reported, and what the operations preserve.
-/

namespace Poseidon

/-- The fields of `elastic_bloom_filter_t`. Fingerprints are `uint32_t` values; `omega` is the
value of the `float` threshold. -/
structure ElasticBloomFilter where
  bits : Bitset
  size : Nat
  bucketCount : Nat
  buckets : List (List Nat)
  hashCount : Nat
  seedA : UInt64
  seedB : UInt64
  omega : Rat
  fpBits : Nat
  count : Nat
deriving DecidableEq, Repr

namespace ElasticBloomFilter

/-- `elastic_bloom_filter_create`: as many buckets as bits, all empty. -/
def create (size hashCount : Nat) (omega : Rat) (fpBits : Nat) : ElasticBloomFilter where
  bits := Bitset.create (BloomFilter.byteSize size)
  size := size
  bucketCount := size
  buckets := List.replicate size []
  hashCount := hashCount
  seedA := 1
  seedB := 2
  omega := omega
  fpBits := fpBits
  count := 0

def bucket (filter : ElasticBloomFilter) (i : Nat) : List Nat :=
  filter.buckets.getD i []

theorem bucket_eq_nil {filter : ElasticBloomFilter} {i : Nat}
    (hi : filter.buckets.length ≤ i) : filter.bucket i = [] := by
  rw [bucket, List.getD_eq_getElem?_getD, List.getElem?_eq_none hi]
  rfl

/-- `bucket_insert` behind the `bucket_contains` test that every caller makes. -/
def insertFingerprint (bucket : List Nat) (fp : Nat) : List Nat :=
  if bucket.contains fp then bucket else fp :: bucket

/-- `rebuild_bitset`: bit `i` is set iff bucket `i` is non-empty. -/
def rebuildBitset (filter : ElasticBloomFilter) : ElasticBloomFilter :=
  { filter with
    bits := (filter.buckets.take filter.size).zipIdx.foldl
      (fun bits entry => if entry.1.isEmpty then bits else bits.set entry.2 true)
      (Bitset.create (BloomFilter.byteSize filter.size)) }

def occupied (filter : ElasticBloomFilter) : Nat :=
  filter.buckets.countP fun bucket => !bucket.isEmpty

/-- `elastic_bloom_filter_ratio`. The source divides two `float`s, which is exact for the
power-of-two bucket counts the filters of this code base have. -/
def ratio (filter : ElasticBloomFilter) : Rat :=
  if filter.bucketCount = 0 then 0 else filter.occupied / filter.bucketCount

/-- The two lists a bucket splits into: entries with an even fingerprint stay, the others move.
Both lists are built by prepending. -/
def splitBucket (bucket : List Nat) : List Nat × List Nat :=
  bucket.foldl
    (fun lists fp =>
      if fp % 2 = 0 then (fp / 2 :: lists.1, lists.2) else (lists.1, fp / 2 :: lists.2))
    ([], [])

def expand (filter : ElasticBloomFilter) : ElasticBloomFilter :=
  let halves := filter.buckets.map splitBucket
  rebuildBitset
    { filter with
      buckets := halves.map Prod.fst ++ halves.map Prod.snd
      bucketCount := filter.bucketCount * 2
      size := filter.size * 2 }

/-- The merged bucket of a compression: the second half's entries are prepended first, shifted
in 32 bits with a trailing one, then the first half's with a trailing zero. -/
def joinBuckets (first second : List Nat) : List Nat :=
  (first.map fun fp => fp * 2 % 2 ^ 32).reverse ++
    (second.map fun fp => (fp * 2 + 1) % 2 ^ 32).reverse

def compress (filter : ElasticBloomFilter) : ElasticBloomFilter :=
  if filter.bucketCount < 2 then filter
  else
    let half := filter.bucketCount / 2
    rebuildBitset
      { filter with
        buckets := List.zipWith joinBuckets (filter.buckets.take half)
          ((filter.buckets.drop half).take half)
        bucketCount := half
        size := filter.size / 2 }

variable (H : HashFn)

def hash (filter : ElasticBloomFilter) (data : Bytes) (i : Nat) : Nat :=
  (H data (filter.seedA + UInt64.ofNat i * filter.seedB)).toNat

/-- `compute_hash_pair`: the fingerprint and the bucket index of round `i`. -/
def computeHashPair (filter : ElasticBloomFilter) (data : Bytes) (i : Nat) : Nat × Nat :=
  let h := filter.hash H data i
  (h / filter.size % 2 ^ filter.fpBits % 2 ^ 32, h % filter.size)

def hashPairs (filter : ElasticBloomFilter) (data : Bytes) : List (Nat × Nat) :=
  (List.range filter.hashCount).map (filter.computeHashPair H data)

/-- One round of `elastic_bloom_filter_add`. -/
def insertPair (filter : ElasticBloomFilter) (pair : Nat × Nat) : ElasticBloomFilter :=
  { filter with
    bits := filter.bits.set pair.2 true
    buckets := filter.buckets.modify pair.2 (insertFingerprint · pair.1) }

def insert (filter : ElasticBloomFilter) (data : Bytes) : ElasticBloomFilter :=
  { (filter.hashPairs H data).foldl insertPair filter with count := filter.count + 1 }

def add (filter : ElasticBloomFilter) (data : Bytes) : ElasticBloomFilter :=
  let inserted := filter.insert H data
  if inserted.ratio > inserted.omega then inserted.expand else inserted

def contains (filter : ElasticBloomFilter) (data : Bytes) : Bool :=
  (filter.hashPairs H data).all fun pair => filter.bits.get pair.2

/-- One round of `elastic_bloom_filter_remove`: the first equal fingerprint goes, and the bit
with it when the bucket is left empty. -/
def erasePair (filter : ElasticBloomFilter) (pair : Nat × Nat) : ElasticBloomFilter :=
  let buckets := filter.buckets.modify pair.2 (List.erase · pair.1)
  { filter with
    buckets := buckets
    bits := if (buckets.getD pair.2 []).isEmpty then filter.bits.set pair.2 false
      else filter.bits }

def erase (filter : ElasticBloomFilter) (data : Bytes) : ElasticBloomFilter :=
  { (filter.hashPairs H data).foldl erasePair filter with count := filter.count - 1 }

def remove (filter : ElasticBloomFilter) (data : Bytes) : ElasticBloomFilter :=
  let erased := filter.erase H data
  if erased.ratio < erased.omega / 4 then erased.compress else erased

/-- `elastic_bloom_filter_merge`; `none` stands for the `-2` of filters of different size, which
leaves the destination as it was. -/
def merge (dest src : ElasticBloomFilter) : Option ElasticBloomFilter :=
  if dest.size ≠ src.size ∨ dest.bucketCount ≠ src.bucketCount then none
  else some
    { dest with
      bits := dest.bits.or src.bits
      buckets := List.zipWith (fun own other => other.foldl insertFingerprint own)
        dest.buckets src.buckets
      count := dest.count + src.count }

end ElasticBloomFilter

end Poseidon
