import Mathlib.Data.List.Forall2
import Poseidon.Bloom.Representation

/-!
# What the encoding of a filter carries

The encoding leaves out `omega`, `count` and the empty buckets, and the decoder rebuilds the bits
from the buckets. For a filter that is represented as the operations represent it, nothing else is
lost: the bytes of the rebuilt bits are those that were sent, because the bits behind the last
bucket are zero, and the buckets have their fingerprints in their order.
-/

namespace Poseidon

open Cbor

namespace ElasticBloomFilter

variable {filter : ElasticBloomFilter}

theorem Represented.shaped (hrepresented : filter.Represented) : filter.Shaped :=
  ⟨hrepresented.bucketCount_eq, hrepresented.length_buckets⟩

theorem Represented.get_bits_eq (hrepresented : filter.Represented) (i : Nat) :
    filter.bits.get i = !(filter.bucket i).isEmpty := by
  by_cases hi : i < filter.size
  · rw [Bool.eq_iff_iff, hrepresented.get_bits i hi, Bool.not_eq_true', List.isEmpty_eq_false_iff]
  · have hpast := Nat.le_of_not_lt hi
    rw [bucket_eq_nil (hrepresented.length_buckets.trans_le hpast)]
    by_cases hinside : i < 8 * filter.bits.size
    · exact hrepresented.padding i hpast hinside
    · rw [Bitset.get, if_pos (by omega)]
      rfl

theorem Represented.received_eq (hrepresented : filter.Represented) :
    filter.received = { filter with omega := 1 / 2, count := 0 } := by
  have hbits : filter.received.bits = filter.bits := by
    refine Bitset.ext_get ?_ fun i => ?_
    · rw [hrepresented.size_bits, ← byteSize_eq]
      exact size_bits_rebuildBitset _
    · rw [hrepresented.get_bits_eq]
      exact get_bits_rebuildBitset hrepresented.length_buckets i
  rw [← hbits]
  rfl

/-- Filters that agree in all that is transmitted. -/
structure SameContents (sent decoded : ElasticBloomFilter) : Prop where
  size : decoded.size = sent.size
  hashCount : decoded.hashCount = sent.hashCount
  fpBits : decoded.fpBits = sent.fpBits
  seedA : decoded.seedA = sent.seedA
  seedB : decoded.seedB = sent.seedB
  bits : decoded.bits = sent.bits
  bucketCount : decoded.bucketCount = sent.bucketCount
  buckets : decoded.buckets = sent.buckets

theorem Represented.sameContents_received (hrepresented : filter.Represented) :
    filter.SameContents filter.received := by
  rw [hrepresented.received_eq]
  exact ⟨rfl, rfl, rfl, rfl, rfl, rfl, rfl, rfl⟩

theorem SameContents.contains_eq {sent decoded : ElasticBloomFilter}
    (hsame : sent.SameContents decoded) (H : HashFn) (data : Bytes) :
    decoded.contains H data = sent.contains H data := by
  have hpairs : decoded.hashPairs H data = sent.hashPairs H data := by
    unfold hashPairs computeHashPair hash
    rw [hsame.size, hsame.hashCount, hsame.fpBits, hsame.seedA, hsame.seedB]
  unfold contains
  rw [hpairs, hsame.bits]

end ElasticBloomFilter

namespace AttenuatedBloomFilter

/-- The filter was sent and decoded level by level. -/
def SameContents (sent decoded : AttenuatedBloomFilter) : Prop :=
  List.Forall₂ ElasticBloomFilter.SameContents sent.levels decoded.levels

theorem SameContents.check_eq {sent decoded : AttenuatedBloomFilter}
    (hsame : sent.SameContents decoded) (H : HashFn) (data : Bytes) :
    decoded.check H data = sent.check H data := by
  obtain ⟨levels⟩ := sent
  obtain ⟨decodedLevels⟩ := decoded
  unfold check
  unfold SameContents at hsame
  dsimp only at hsame ⊢
  induction hsame with
  | nil => rfl
  | cons hlevel hlevels ih =>
      rw [List.findIdx?_cons, List.findIdx?_cons, hlevel.contains_eq, ih]

theorem sameContents_received {filter : AttenuatedBloomFilter}
    (hrepresented : ∀ level ∈ filter.levels, level.Represented) :
    filter.SameContents filter.received := by
  unfold SameContents received
  rw [List.forall₂_map_right_iff, List.forall₂_same]
  exact fun level hlevel => (hrepresented level hlevel).sameContents_received

end AttenuatedBloomFilter

/-- **The codec of filters.** For every elastic filter that is represented as it should be, and for
every attenuated filter of such levels, what is decoded from the loaded bytes has the same size,
rounds, fingerprint width, seeds, bits and, bucket by bucket, the same fingerprints in the same
order. So every lookup has the same answer. -/
theorem filterCodec_lossless [Memory] (H : HashFn) :
    (∀ filter : ElasticBloomFilter, filter.Represented → filter.Encodable →
      ∃ decoded, (load (serialize filter.encode)).bind ElasticBloomFilter.decode = some decoded ∧
        filter.SameContents decoded ∧
          ∀ data, decoded.contains H data = filter.contains H data) ∧
      ∀ filter : AttenuatedBloomFilter, (∀ level ∈ filter.levels, level.Represented) →
        filter.Encodable →
        ∃ decoded, (load (serialize filter.encode)).bind AttenuatedBloomFilter.decode =
            some decoded ∧ filter.SameContents decoded ∧
          ∀ data, decoded.check H data = filter.check H data := by
  constructor
  · intro filter hrepresented hfits
    have hload := load_serialize
      (ElasticBloomFilter.fits_encode hrepresented.shaped hfits (by decide))
    have hsame := hrepresented.sameContents_received
    refine ⟨filter.received, ?_, hsame, hsame.contains_eq H⟩
    rw [hload, Option.bind_some, ElasticBloomFilter.decode_encode hrepresented.shaped hfits]
  · intro filter hrepresented hfits
    have hshaped : ∀ level ∈ filter.levels, level.Shaped :=
      fun level hlevel => (hrepresented level hlevel).shaped
    have hload := load_serialize (AttenuatedBloomFilter.fits_encode hshaped hfits (by decide))
    have hsame := AttenuatedBloomFilter.sameContents_received hrepresented
    refine ⟨filter.received, ?_, hsame, hsame.check_eq H⟩
    rw [hload, Option.bind_some, AttenuatedBloomFilter.decode_encode hshaped hfits]

def twoLevels : AttenuatedBloomFilter :=
  ⟨[.create 3 2 (1 / 2) 8, (ElasticBloomFilter.create 12 2 (1 / 2) 8).insert
    ElasticBloomFilter.mixHash [7]]⟩

theorem filterCodec_lossless_twoLevels :
    (∀ level ∈ twoLevels.levels, level.Represented) ∧ twoLevels.Encodable ∧
      ∃ decoded, (load (serialize twoLevels.encode)).bind AttenuatedBloomFilter.decode =
          some decoded ∧ twoLevels.SameContents decoded ∧
        ∀ data, decoded.check ElasticBloomFilter.mixHash data =
          twoLevels.check ElasticBloomFilter.mixHash data := by
  have hrepresented : ∀ level ∈ twoLevels.levels, level.Represented := by
    intro level hlevel
    simp only [twoLevels, List.mem_cons, List.not_mem_nil, or_false] at hlevel
    obtain rfl | rfl := hlevel
    · exact (ElasticBloomFilter.Exact.create (by decide) _ _ _).represented
    · exact ((ElasticBloomFilter.Exact.create (by decide) _ _ _).insert _ _).represented
  have hfits : twoLevels.Encodable := by decide +kernel
  exact ⟨hrepresented, hfits,
    (filterCodec_lossless ElasticBloomFilter.mixHash).2 twoLevels hrepresented hfits⟩

end Poseidon
