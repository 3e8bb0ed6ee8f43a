import Poseidon.Bloom.ElasticBloomFilter

/-!
# The attenuated Bloom filter

`attenuated_bloom_filter_t` is a list of elastic filters. Level 0 holds the node's own
subscriptions; level `n` holds what is `n` hops away. Merging a neighbour's filter shifts it by
one level.
-/

namespace Poseidon

/-- `attenuated_bloom_filter_t`: its levels, whose number is `level_count`. -/
structure AttenuatedBloomFilter where
  levels : List ElasticBloomFilter
deriving DecidableEq, Repr

namespace AttenuatedBloomFilter

def create (levels size hashCount : Nat) (omega : Rat) (fpBits : Nat) : AttenuatedBloomFilter :=
  ⟨List.replicate levels (ElasticBloomFilter.create size hashCount omega fpBits)⟩

def levelCount (filter : AttenuatedBloomFilter) : Nat :=
  filter.levels.length

def getLevel (filter : AttenuatedBloomFilter) (level : Nat) : Option ElasticBloomFilter :=
  filter.levels[level]?

variable (H : HashFn)

/-- `attenuated_bloom_filter_subscribe` writes `levels[0]`. A filter without levels has no such
entry; nothing is written there. -/
def subscribe (filter : AttenuatedBloomFilter) (topic : Bytes) : AttenuatedBloomFilter :=
  ⟨filter.levels.modify 0 (·.add H topic)⟩

def unsubscribe (filter : AttenuatedBloomFilter) (topic : Bytes) : AttenuatedBloomFilter :=
  ⟨filter.levels.modify 0 (·.remove H topic)⟩

/-- `attenuated_bloom_filter_check`: the first level that contains the topic. -/
def check (filter : AttenuatedBloomFilter) (topic : Bytes) : Option Nat :=
  filter.levels.findIdx? (·.contains H topic)

/-- The result of `elastic_bloom_filter_merge` on one level. Its return code is ignored, so
filters of different size leave the destination level as it was. -/
def mergeLevel (dest src : ElasticBloomFilter) : ElasticBloomFilter :=
  (dest.merge src).getD dest

/-- The levels above level 0 after merging: level `i + 1` takes in level `i` of the source, for
as long as both have one. -/
def mergeUpper : List ElasticBloomFilter → List ElasticBloomFilter → List ElasticBloomFilter
  | dest :: upper, src :: rest => mergeLevel dest src :: mergeUpper upper rest
  | upper, _ => upper

/-- `attenuated_bloom_filter_merge`. -/
def merge (dest src : AttenuatedBloomFilter) : AttenuatedBloomFilter :=
  match dest.levels with
  | [] => dest
  | own :: upper => ⟨own :: mergeUpper upper src.levels⟩

end AttenuatedBloomFilter

end Poseidon
