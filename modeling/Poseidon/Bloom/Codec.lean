import Poseidon.Bloom.AttenuatedBloomFilter
import Poseidon.Cbor.Load

/-!
# Filters as CBOR items

An elastic filter is encoded as eight fixed fields followed by one array per non-empty bucket, an
attenuated filter as its level count and the array of its levels. `omega` and `count` are not
transmitted, and the decoder rebuilds the bits from the buckets, whatever bits were sent.
-/

namespace Poseidon

open Cbor

namespace ElasticBloomFilter

/-- `[bucket_index, num_fps, fp1, fp2, ...]`. -/
def encodeBucket (entry : List Nat × Nat) : Item :=
  .array (.uint .w64 entry.2 :: .uint .w64 entry.1.length :: entry.1.map (.uint .w32))

def encode (filter : ElasticBloomFilter) : Item :=
  .array ([.uint .w64 filter.size, .uint .w32 filter.hashCount, .uint .w32 filter.fpBits,
      .uint .w64 filter.seedA.toNat, .uint .w64 filter.seedB.toNat,
      .uint .w64 filter.bits.size, .bytestring filter.bits.data,
      .uint .w64 filter.occupied] ++
    (filter.buckets.zipIdx.filter fun entry => !entry.1.isEmpty).map encodeBucket)

-- the source pushes the fingerprints in reverse, so that they end up in the order sent
def decodeBucket [Memory] (filter : ElasticBloomFilter) : Item → Option ElasticBloomFilter
  | .array (index :: fpCount :: fps) =>
      if fps.length ≠ fpCount.getUint64 ∨ index.getUint64 ≥ filter.bucketCount then none
      else some
        { filter with
          buckets := filter.buckets.modify index.getUint64
            ((fps.map fun fp => fp.getInt % 2 ^ 32) ++ ·) }
  | _ => none

def decode [Memory] : Item → Option ElasticBloomFilter
  | .array (size :: hashCount :: fpBits :: seedA :: seedB :: bitsetByteLen :: bits ::
      numOccupied :: bucketItems) =>
      match bits.bytestringData with
      | none => none
      | some data =>
          if data.length ≠ bitsetByteLen.getUint64 then none
          else if bucketItems.length ≠ numOccupied.getUint64 then none
          else
            let fresh := create size.getUint64 (hashCount.getInt % 2 ^ 32) (1 / 2)
              (fpBits.getInt % 2 ^ 32)
            let seeded := { fresh with
              seedA := UInt64.ofNat seedA.getUint64
              seedB := UInt64.ofNat seedB.getUint64
              bits := ⟨data⟩ }
            (bucketItems.foldlM decodeBucket seeded).map rebuildBitset
  | _ => none

end ElasticBloomFilter

namespace AttenuatedBloomFilter

def encode (filter : AttenuatedBloomFilter) : Item :=
  .array [.uint .w32 filter.levelCount, .array (filter.levels.map ElasticBloomFilter.encode)]

def decode [Memory] : Item → Option AttenuatedBloomFilter
  | .array [levelCount, .array levelItems] =>
      if levelItems.length ≠ levelCount.getInt % 2 ^ 32 then none
      else (levelItems.mapM ElasticBloomFilter.decode).map (⟨·⟩)
  | _ => none

end AttenuatedBloomFilter

end Poseidon
