import Mathlib.Data.Set.Card
import Poseidon.Lib.Compaction
import Poseidon.Lib.Runs
import Poseidon.Lib.Search
import Poseidon.Lib.Tables
import Poseidon.Meridian.Protocol
import Poseidon.Util.Timeval

/-!
# The latency cache

`meridian_latency_cache_t` keeps the latency last measured for a node, under its address and port,
with the time of the measurement. A measurement of a node that is present is written over the old
one; a new node is appended, or takes the place of the entry with the oldest time. What it is for is
said by `MapStep`: a map with a bound on its size, in which the least recently updated key gives
way. The cache is shown to be such a map.
-/

namespace Poseidon

open Function (update update_self update_of_ne)

/-- `meridian_measure_entry_t`. -/
@[ext]
structure MeasureEntry where
  node : MeridianNode
  latencyUs : UInt32
  timestamp : Timeval
deriving DecidableEq, Repr

/-- `meridian_latency_cache_t`; the entries are the first `count` of the array. -/
structure LatencyCache where
  entries : List MeasureEntry
  capacity : Nat
deriving DecidableEq, Repr

/-- `MERIDIAN_PROBE_CACHE_SIZE`. -/
def probeCacheSize : Nat := 1024

/-- `MERIDIAN_PROBE_CACHE_TIMEOUT_US`. -/
def probeCacheTimeoutUs : Nat := 5 * 1000 * 1000

/-- The calls on a cache with the readings of the clock they make. An insertion makes the second
reading only where it has to replace an entry. -/
inductive CacheCall where
  | insert (node : MeridianNode) (latencyUs : UInt32) (now later : Timeval)
  | evictExpired (now : Timeval)
deriving DecidableEq, Repr

def CacheCall.readings : CacheCall → List Timeval
  | .insert _ _ now later => [now, later]
  | .evictExpired now => [now]

def CacheCall.node : CacheCall → Option MeridianNode
  | .insert node _ _ _ => some node
  | .evictExpired _ => none

namespace LatencyCache

def create (capacity : Nat) : LatencyCache :=
  ⟨[], if capacity = 0 then probeCacheSize else capacity⟩

/-- The search for the oldest entry, which starts from a reading of the clock. -/
def oldestIdx (cache : LatencyCache) (now : Timeval) : Nat :=
  (Search.scanLeast (fun i => (cache.entries[i]?.map MeasureEntry.timestamp).getD now) (0, now)
    (List.range cache.entries.length)).1

def insert (cache : LatencyCache) (node : MeridianNode) (latencyUs : UInt32)
    (now later : Timeval) : LatencyCache :=
  match cache.entries.findIdx? fun entry => entry.node == node with
  | some index => { cache with entries := cache.entries.set index ⟨node, latencyUs, now⟩ }
  | none =>
      if cache.entries.length < cache.capacity then
        { cache with entries := cache.entries ++ [⟨node, latencyUs, now⟩] }
      else { cache with
        entries := cache.entries.set (cache.oldestIdx now) ⟨node, latencyUs, later⟩ }

def get (cache : LatencyCache) (node : MeridianNode) : Option UInt32 :=
  (cache.entries.find? fun entry => entry.node == node).map MeasureEntry.latencyUs

def keeps (now : Timeval) (entry : MeasureEntry) : Bool :=
  let age := now.sub entry.timestamp
  age.1 * 1000000 + age.2 < probeCacheTimeoutUs

def evictExpired (cache : LatencyCache) (now : Timeval) : LatencyCache :=
  { cache with entries := (Compaction.compact (fun _ => keeps now) cache.entries).kept }

def step (cache : LatencyCache) : CacheCall → LatencyCache
  | .insert node latencyUs now later => cache.insert node latencyUs now later
  | .evictExpired now => cache.evictExpired now

end LatencyCache

/-! ### Bounded maps -/

/-- What the cache knows of each node: a latency and the time it was measured. -/
abbrev LatencyMap := MeridianNode → Option (UInt32 × Timeval)

namespace LatencyMap

noncomputable def size (map : LatencyMap) : Nat :=
  Set.ncard {node | map node ≠ none}

end LatencyMap

/-- A call on a map that holds at most `capacity` nodes. -/
inductive MapStep (capacity : Nat) (map : LatencyMap) : CacheCall → LatencyMap → Prop where
  | update {node : MeridianNode} {latencyUs : UInt32} {now later : Timeval}
      (hroom : map node ≠ none ∨ map.size < capacity) :
      MapStep capacity map (.insert node latencyUs now later)
        (update map node (some (latencyUs, now)))
  | replace {node oldest : MeridianNode} {latencyUs : UInt32} {now later : Timeval}
      {known : UInt32 × Timeval} (habsent : map node = none) (hfull : map.size = capacity)
      (hknown : map oldest = some known)
      (holdest : ∀ other found, map other = some found → known.2 ≤ found.2) :
      MapStep capacity map (.insert node latencyUs now later)
        (update (update map oldest none) node (some (latencyUs, later)))
  | evict {now : Timeval} :
      MapStep capacity map (.evictExpired now)
        fun node => (map node).filter fun known => now.us - known.2.us < probeCacheTimeoutUs

namespace LatencyCache

def toMap (cache : LatencyCache) : LatencyMap := fun node =>
  (cache.entries.find? fun entry => entry.node == node).map fun entry =>
    (entry.latencyUs, entry.timestamp)

structure WellFormed (cache : LatencyCache) : Prop where
  nodup : (cache.entries.map MeasureEntry.node).Nodup
  length_le : cache.entries.length ≤ cache.capacity
  capacity_pos : 0 < cache.capacity

section Map

variable {cache : LatencyCache}

theorem toMap_eq_some_iff (hnodup : (cache.entries.map MeasureEntry.node).Nodup)
    {node : MeridianNode} {known : UInt32 × Timeval} :
    cache.toMap node = some known ↔ ⟨node, known.1, known.2⟩ ∈ cache.entries := by
  unfold toMap
  rw [Option.map_eq_some_iff]
  constructor
  · rintro ⟨entry, hfind, rfl⟩
    obtain ⟨hmem, rfl⟩ := (find?_key_eq_some_iff MeasureEntry.node hnodup).mp hfind
    exact hmem
  · intro hmem
    exact ⟨_, (find?_key_eq_some_iff MeasureEntry.node hnodup).mpr ⟨hmem, rfl⟩, rfl⟩

theorem toMap_eq_none_iff {node : MeridianNode} :
    cache.toMap node = none ↔ node ∉ cache.entries.map MeasureEntry.node := by
  simp [toMap, List.find?_eq_none]

theorem get_eq_toMap (cache : LatencyCache) (node : MeridianNode) :
    cache.get node = (cache.toMap node).map Prod.fst := by
  unfold get toMap
  rw [Option.map_map]
  rfl

theorem size_toMap (hnodup : (cache.entries.map MeasureEntry.node).Nodup) :
    cache.toMap.size = cache.entries.length := by
  have hset : {node | cache.toMap node ≠ none} =
      ((cache.entries.map MeasureEntry.node).toFinset : Set MeridianNode) := by
    ext node
    simp [toMap_eq_none_iff]
  rw [LatencyMap.size, hset, Set.ncard_coe_finset, List.toFinset_card_of_nodup hnodup,
    List.length_map]

end Map

theorem toMap_ext {cache : LatencyCache} (hnodup : (cache.entries.map MeasureEntry.node).Nodup)
    {map : LatencyMap}
    (hmap : ∀ node known, map node = some known ↔ ⟨node, known.1, known.2⟩ ∈ cache.entries) :
    cache.toMap = map := by
  funext node
  apply Option.ext
  intro known
  rw [toMap_eq_some_iff hnodup, hmap]

/-! ### Insertion -/

section Insert

variable {cache : LatencyCache} {node : MeridianNode} {latencyUs : UInt32} {now later : Timeval}

inductive Inserts (cache : LatencyCache) (node : MeridianNode) (latencyUs : UInt32)
    (now later : Timeval) : List MeasureEntry → Prop where
  | update {index : Nat} {old : MeasureEntry} (hold : cache.entries[index]? = some old)
      (hnode : old.node = node) :
      Inserts cache node latencyUs now later
        (cache.entries.set index ⟨node, latencyUs, now⟩)
  | append (hnew : node ∉ cache.entries.map MeasureEntry.node)
      (hroom : cache.entries.length < cache.capacity) :
      Inserts cache node latencyUs now later (cache.entries ++ [⟨node, latencyUs, now⟩])
  | replace (hnew : node ∉ cache.entries.map MeasureEntry.node)
      (hfull : cache.capacity ≤ cache.entries.length) :
      Inserts cache node latencyUs now later
        (cache.entries.set (cache.oldestIdx now) ⟨node, latencyUs, later⟩)

theorem inserts_insert (cache : LatencyCache) (node : MeridianNode) (latencyUs : UInt32)
    (now later : Timeval) :
    cache.Inserts node latencyUs now later (cache.insert node latencyUs now later).entries := by
  unfold insert
  cases hindex : cache.entries.findIdx? fun entry => entry.node == node with
  | some index =>
      obtain ⟨hlength, hnode, -⟩ := List.findIdx?_eq_some_iff_getElem.mp hindex
      exact .update (List.getElem?_eq_getElem hlength) (beq_iff_eq.mp hnode)
  | none =>
      have hnew : node ∉ cache.entries.map MeasureEntry.node := by
        intro hmem
        obtain ⟨entry, hentry, rfl⟩ := List.mem_map.mp hmem
        have hne := List.findIdx?_eq_none_iff.mp hindex entry hentry
        simp at hne
      dsimp only
      split_ifs with hroom
      · exact .append hnew hroom
      · exact .replace hnew (Nat.le_of_not_lt hroom)

@[simp]
theorem capacity_insert : (cache.insert node latencyUs now later).capacity = cache.capacity := by
  unfold insert
  split
  · rfl
  · split_ifs <;> rfl

theorem exists_oldest (hpos : 0 < cache.entries.length)
    (hpast : ∀ entry ∈ cache.entries, entry.timestamp ≤ now) :
    ∃ oldest, cache.entries[cache.oldestIdx now]? = some oldest ∧
      ∀ entry ∈ cache.entries, oldest.timestamp ≤ entry.timestamp := by
  let key := fun i : Nat => (cache.entries[i]?.map MeasureEntry.timestamp).getD now
  have hleast : ∀ entry ∈ cache.entries,
      (Search.scanLeast key (0, now) (List.range cache.entries.length)).2 ≤ entry.timestamp := by
    intro entry hentry
    obtain ⟨i, hi⟩ := List.mem_iff_getElem?.mp hentry
    have hlt := (List.getElem?_eq_some_iff.mp hi).1
    have hle := @Search.scanLeast_le _ _ key (0, now) _ i (List.mem_range.mpr hlt)
    simpa only [key, hi, Option.map_some, Option.getD_some] using hle
  obtain hscan | ⟨i, hi, hscan, -⟩ :=
    Search.scanLeast_cases key (0, now) (List.range cache.entries.length)
  · -- every entry was written at the very time of the search, so the first one is an oldest
    refine ⟨cache.entries[0], ?_, fun entry hentry => ?_⟩
    · have hidx : cache.oldestIdx now = 0 := congrArg Prod.fst hscan
      rw [hidx, List.getElem?_eq_getElem hpos]
    · have hle := hleast entry hentry
      rw [hscan] at hle
      exact (hpast _ (List.getElem_mem hpos)).trans hle
  · have hlt : i < cache.entries.length := List.mem_range.mp hi
    have hidx : cache.oldestIdx now = i := congrArg Prod.fst hscan
    have hkey : key i = cache.entries[i].timestamp := by
      simp only [key, List.getElem?_eq_getElem hlt, Option.map_some, Option.getD_some]
    refine ⟨cache.entries[i], by rw [hidx, List.getElem?_eq_getElem hlt], fun entry hentry => ?_⟩
    have hle := hleast entry hentry
    rwa [hscan, hkey] at hle

theorem WellFormed.insert (hcache : cache.WellFormed) (node : MeridianNode) (latencyUs : UInt32)
    (now later : Timeval) : (cache.insert node latencyUs now later).WellFormed := by
  have hlength := hcache.length_le
  suffices hentries : ∀ entries, cache.Inserts node latencyUs now later entries →
      (entries.map MeasureEntry.node).Nodup ∧ entries.length ≤ cache.capacity by
    obtain ⟨hnodup, hfits⟩ := hentries _ (inserts_insert cache node latencyUs now later)
    refine ⟨hnodup, ?_, ?_⟩
    · rwa [capacity_insert]
    · rw [capacity_insert]
      exact hcache.capacity_pos
  intro entries hinserts
  cases hinserts with
  | update hold hnode =>
      refine ⟨?_, by rwa [List.length_set]⟩
      rw [map_set_of_key_eq MeasureEntry.node hold hnode.symm]
      exact hcache.nodup
  | append hnew hroom =>
      refine ⟨?_, by rw [List.length_append]; exact hroom⟩
      rw [List.map_append, List.nodup_append]
      refine ⟨hcache.nodup, List.nodup_singleton _, ?_⟩
      rintro other hother _ hsingle rfl
      rw [List.map_singleton, List.mem_singleton] at hsingle
      rw [hsingle] at hother
      exact hnew hother
  | replace hnew hfull =>
      refine ⟨?_, by rwa [List.length_set]⟩
      rw [List.map_set]
      exact hcache.nodup.set hnew

theorem toMap_eq_update {next : LatencyCache} {gone : MeridianNode} {known : UInt32 × Timeval}
    (hnodup : (cache.entries.map MeasureEntry.node).Nodup)
    (hnext : (next.entries.map MeasureEntry.node).Nodup)
    (hnode : node = gone ∨ node ∉ cache.entries.map MeasureEntry.node)
    (hmem : ∀ other, other ∈ next.entries ↔
      other = ⟨node, known.1, known.2⟩ ∨ other ∈ cache.entries ∧ other.node ≠ gone) :
    next.toMap = update (update cache.toMap gone none) node (some known) := by
  apply toMap_ext hnext
  intro other found
  rw [hmem]
  by_cases hother : other = node
  · subst hother
    rw [update_self, Option.some_inj]
    constructor
    · rintro rfl
      exact Or.inl rfl
    · rintro (heq | ⟨hmember, hne⟩)
      · simp only [MeasureEntry.mk.injEq, true_and] at heq
        exact (Prod.ext heq.1 heq.2).symm
      · obtain hgone | hnew := hnode
        · exact absurd hgone hne
        · exact absurd (List.mem_map_of_mem hmember) hnew
  · rw [update_of_ne hother]
    have hentry : (⟨other, found.1, found.2⟩ : MeasureEntry) ≠ ⟨node, known.1, known.2⟩ :=
      fun heq => hother (congrArg MeasureEntry.node heq)
    by_cases hgone : other = gone
    · subst hgone
      simp [update_self, hentry]
    · rw [update_of_ne hgone, toMap_eq_some_iff hnodup]
      simp [hentry, hgone]

/-- **Insertion** is a step of the map. -/
theorem WellFormed.mapStep_insert (hcache : cache.WellFormed)
    (hpast : ∀ entry ∈ cache.entries, entry.timestamp ≤ now) :
    MapStep cache.capacity cache.toMap (.insert node latencyUs now later)
      (cache.insert node latencyUs now later).toMap := by
  have hnodup := hcache.nodup
  have hnext := (hcache.insert node latencyUs now later).nodup
  have hsize := size_toMap hnodup
  have hinserts := inserts_insert cache node latencyUs now later
  generalize hentries : (cache.insert node latencyUs now later).entries = entries at hinserts
  cases hinserts with
  | update hold hnode =>
      have hmap : (cache.insert node latencyUs now later).toMap =
          update (update cache.toMap node none) node (some (latencyUs, now)) := by
        refine toMap_eq_update hnodup hnext (Or.inl rfl) fun other => ?_
        rw [hentries, mem_set_iff MeasureEntry.node hnodup hold, hnode]
      rw [hmap, Function.update_idem]
      exact .update (Or.inl fun hnone => toMap_eq_none_iff.mp hnone
        (List.mem_map.mpr ⟨_, List.mem_of_getElem? hold, hnode⟩))
  | append hnew hroom =>
      have hmap : (cache.insert node latencyUs now later).toMap =
          update (update cache.toMap node none) node (some (latencyUs, now)) := by
        refine toMap_eq_update hnodup hnext (Or.inl rfl) fun other => ?_
        rw [hentries, List.mem_append, List.mem_singleton, or_comm]
        refine or_congr_right ⟨fun hmem => ⟨hmem, ?_⟩, And.left⟩
        rintro rfl
        exact hnew (List.mem_map_of_mem hmem)
      rw [hmap, Function.update_idem]
      exact .update (Or.inr (hsize.trans_lt hroom))
  | replace hnew hfull =>
      have hpos : 0 < cache.entries.length := hcache.capacity_pos.trans_le hfull
      obtain ⟨oldest, hoccupied, holdest⟩ := exists_oldest hpos hpast
      have hmap : (cache.insert node latencyUs now later).toMap =
          update (update cache.toMap oldest.node none) node
            (some (latencyUs, later)) := by
        refine toMap_eq_update hnodup hnext (Or.inr hnew) fun other => ?_
        rw [hentries, mem_set_iff MeasureEntry.node hnodup hoccupied]
      have hknown : cache.toMap oldest.node = some (oldest.latencyUs, oldest.timestamp) :=
        (toMap_eq_some_iff hnodup).mpr (List.mem_of_getElem? hoccupied)
      rw [hmap]
      refine .replace (toMap_eq_none_iff.mpr hnew)
        (hsize.trans (Nat.le_antisymm hcache.length_le hfull)) hknown ?_
      intro other found hfound
      exact holdest _ ((toMap_eq_some_iff hnodup).mp hfound)

end Insert

/-! ### Expiry -/

variable {cache : LatencyCache} {now : Timeval}

theorem keeps_iff {entry : MeasureEntry} (hpast : entry.timestamp ≤ now) :
    keeps now entry = true ↔ now.us - entry.timestamp.us < probeCacheTimeoutUs := by
  have hle := Timeval.us_le_us_iff.mpr hpast
  simp only [keeps, Timeval.sub_us, decide_eq_true_eq]
  omega

theorem entries_evictExpired (cache : LatencyCache) (now : Timeval) :
    (cache.evictExpired now).entries = cache.entries.filter (keeps now) :=
  Compaction.kept_compact_of_const (keeps now) cache.entries

theorem WellFormed.evictExpired (hcache : cache.WellFormed) (now : Timeval) :
    (cache.evictExpired now).WellFormed := by
  refine ⟨?_, ?_, hcache.capacity_pos⟩
  · rw [entries_evictExpired]
    exact (List.filter_sublist.map MeasureEntry.node).nodup hcache.nodup
  · rw [entries_evictExpired]
    exact (List.length_filter_le _ _).trans hcache.length_le

/-- **Expiry** is a step of the map. -/
theorem WellFormed.mapStep_evictExpired (hcache : cache.WellFormed)
    (hpast : ∀ entry ∈ cache.entries, entry.timestamp ≤ now) :
    MapStep cache.capacity cache.toMap (.evictExpired now) (cache.evictExpired now).toMap := by
  have hmap : (cache.evictExpired now).toMap = fun node => (cache.toMap node).filter
      fun known => now.us - known.2.us < probeCacheTimeoutUs := by
    apply toMap_ext (hcache.evictExpired now).nodup
    intro node known
    rw [Option.filter_eq_some_iff, toMap_eq_some_iff hcache.nodup, entries_evictExpired,
      List.mem_filter]
    refine and_congr_right fun hmem => ?_
    rw [keeps_iff (hpast _ hmem), decide_eq_true_eq]
  rw [hmap]
  exact .evict

/-! ### Runs -/

/-- The entry is what the last insertion of its node left: its latency, and a reading of the clock
that this insertion made. -/
def Recorded (calls : List CacheCall) (entry : MeasureEntry) : Prop :=
  ∃ front back now later,
    calls = front ++ .insert entry.node entry.latencyUs now later :: back ∧
      (entry.timestamp = now ∨ entry.timestamp = later) ∧
      ∀ call ∈ back, call.node ≠ some entry.node

theorem Recorded.append {calls : List CacheCall} {entry : MeasureEntry}
    (hrecorded : Recorded calls entry) {call : CacheCall} (hcall : call.node ≠ some entry.node) :
    Recorded (calls ++ [call]) entry := by
  obtain ⟨front, back, now, later, rfl, htime, hback⟩ := hrecorded
  refine ⟨front, back ++ [call], now, later, by simp, htime, fun other hother => ?_⟩
  obtain hold | hnew := List.mem_append.mp hother
  · exact hback other hold
  · rw [List.mem_singleton.mp hnew]
    exact hcall

theorem Recorded.timestamp_mem {calls : List CacheCall} {entry : MeasureEntry}
    (hrecorded : Recorded calls entry) : entry.timestamp ∈ calls.flatMap CacheCall.readings := by
  obtain ⟨front, back, now, later, rfl, htime, -⟩ := hrecorded
  rw [List.flatMap_append, List.flatMap_cons]
  apply List.mem_append_right
  apply List.mem_append_left
  obtain htime | htime := htime <;> simp [CacheCall.readings, htime]

theorem mem_insert {node : MeridianNode} {latencyUs : UInt32} {later : Timeval}
    (hcache : cache.WellFormed) {entry : MeasureEntry}
    (hentry : entry ∈ (cache.insert node latencyUs now later).entries) :
    entry.node = node ∧ entry.latencyUs = latencyUs ∧
        (entry.timestamp = now ∨ entry.timestamp = later) ∨
      entry ∈ cache.entries ∧ entry.node ≠ node := by
  have hinserts := inserts_insert cache node latencyUs now later
  generalize (cache.insert node latencyUs now later).entries = entries at hinserts hentry
  cases hinserts with
  | update hold hnode =>
      rw [mem_set_iff MeasureEntry.node hcache.nodup hold, hnode] at hentry
      obtain rfl | hother := hentry
      · exact Or.inl ⟨rfl, rfl, Or.inl rfl⟩
      · exact Or.inr hother
  | append hnew hroom =>
      obtain hmem | hlast := List.mem_append.mp hentry
      · refine Or.inr ⟨hmem, ?_⟩
        rintro rfl
        exact hnew (List.mem_map_of_mem hmem)
      · obtain rfl := List.mem_singleton.mp hlast
        exact Or.inl ⟨rfl, rfl, Or.inl rfl⟩
  | replace hnew hfull =>
      obtain hmem | rfl := List.mem_or_eq_of_mem_set hentry
      · refine Or.inr ⟨hmem, ?_⟩
        rintro rfl
        exact hnew (List.mem_map_of_mem hmem)
      · exact Or.inl ⟨rfl, rfl, Or.inr rfl⟩

structure Behind (calls : List CacheCall) (cache : LatencyCache) : Prop where
  wellFormed : cache.WellFormed
  recorded : ∀ entry ∈ cache.entries, Recorded calls entry

theorem Behind.step {calls : List CacheCall} (hcache : Behind calls cache) (call : CacheCall) :
    Behind (calls ++ [call]) (cache.step call) := by
  cases call with
  | insert node latencyUs now later =>
      refine ⟨hcache.wellFormed.insert node latencyUs now later, fun entry hentry => ?_⟩
      obtain ⟨rfl, rfl, htime⟩ | ⟨hmem, hne⟩ := mem_insert hcache.wellFormed hentry
      · exact ⟨calls, [], now, later, rfl, htime, fun _ hcall => by simp at hcall⟩
      · refine (hcache.recorded entry hmem).append fun hsame => ?_
        exact hne (Option.some.inj hsame).symm
  | evictExpired now =>
      refine ⟨hcache.wellFormed.evictExpired now, fun entry hentry => ?_⟩
      have hmem : entry ∈ cache.entries := by
        rw [LatencyCache.step, entries_evictExpired] at hentry
        exact List.mem_of_mem_filter hentry
      exact (hcache.recorded entry hmem).append (by simp [CacheCall.node])

theorem behind_run {capacity : Nat} (hcapacity : 1 ≤ capacity) (calls : List CacheCall) :
    Behind calls (Runs.run step (create capacity) calls) := by
  induction calls using List.reverseRecOn with
  | nil =>
      refine ⟨⟨List.nodup_nil, Nat.zero_le _, ?_⟩, fun _ hentry => by simp [create] at hentry⟩
      rw [Runs.run_nil, create, if_neg (by omega)]
      exact hcapacity
  | append_singleton calls call ih =>
      rw [Runs.run_append]
      exact ih.step call

@[simp]
theorem capacity_step (cache : LatencyCache) (call : CacheCall) :
    (cache.step call).capacity = cache.capacity := by
  cases call with
  | insert => exact capacity_insert
  | evictExpired => rfl

theorem capacity_run {capacity : Nat} (hcapacity : 1 ≤ capacity) (calls : List CacheCall) :
    (Runs.run step (create capacity) calls).capacity = capacity := by
  refine Runs.invariant step (fun cache => cache.capacity = capacity) ?_ ?_
  · intro cache call hcache
    rw [capacity_step, hcache]
  · exact if_neg (by omega)

theorem Behind.past {calls : List CacheCall} (hcache : Behind calls cache) {call : CacheCall}
    (hnow : now ∈ call.readings)
    (hclock : ((calls ++ [call]).flatMap CacheCall.readings).Pairwise (· ≤ ·)) :
    ∀ entry ∈ cache.entries, entry.timestamp ≤ now := by
  intro entry hentry
  rw [List.flatMap_append, List.flatMap_singleton, List.pairwise_append] at hclock
  exact hclock.2.2 _ (hcache.recorded entry hentry).timestamp_mem _ hnow

/-- **The latency cache.** Behind any calls on a cache of capacity at least one, the nodes of the
entries differ, there are no more entries than the capacity, and `get` returns for every node
present the latency of its last insertion, under a time read during it. As long as the clock does
not go back, the next call is a step of a bounded map: an insertion of a new node into a full cache
replaces one entry, of least time, and an expiry removes exactly the entries whose age has reached
the timeout. -/
theorem latencyCache_refines (capacity : Nat) (hcapacity : 1 ≤ capacity) (calls : List CacheCall) :
    let cache := Runs.run step (create capacity) calls
    (cache.entries.map MeasureEntry.node).Nodup ∧
      cache.entries.length ≤ capacity ∧
      (∀ entry ∈ cache.entries,
        cache.get entry.node = some entry.latencyUs ∧ Recorded calls entry) ∧
      ∀ call, ((calls ++ [call]).flatMap CacheCall.readings).Pairwise (· ≤ ·) →
        MapStep capacity cache.toMap call (cache.step call).toMap := by
  intro cache
  have hbehind : Behind calls cache := behind_run hcapacity calls
  have hcap : cache.capacity = capacity := capacity_run hcapacity calls
  have hwf := hbehind.wellFormed
  refine ⟨hwf.nodup, hwf.length_le.trans_eq hcap, fun entry hentry => ?_, fun call hclock => ?_⟩
  · refine ⟨?_, hbehind.recorded entry hentry⟩
    have hknown : cache.toMap entry.node = some (entry.latencyUs, entry.timestamp) :=
      (toMap_eq_some_iff hwf.nodup).mpr hentry
    rw [get_eq_toMap, hknown]
    rfl
  · rw [← hcap]
    cases call with
    | insert node latencyUs now later =>
        exact hwf.mapStep_insert (hbehind.past (by simp [CacheCall.readings]) hclock)
    | evictExpired now =>
        exact hwf.mapStep_evictExpired (hbehind.past (by simp [CacheCall.readings]) hclock)

/-- Two nodes in a cache of capacity one: the second takes the place of the first. -/
theorem latencyCache_refines_one :
    1 ≤ 1 ∧
      let calls := [CacheCall.insert ⟨1, 10⟩ 500 (.ofMillis 1) (.ofMillis 1)]
      let cache := Runs.run step (create 1) calls
      cache.entries.length = 1 ∧
        MapStep 1 cache.toMap (.insert ⟨2, 20⟩ 300 (.ofMillis 2) (.ofMillis 3))
          (cache.insert ⟨2, 20⟩ 300 (.ofMillis 2) (.ofMillis 3)).toMap := by
  refine ⟨Nat.le_refl 1, by decide +kernel, ?_⟩
  exact (latencyCache_refines 1 (Nat.le_refl 1)
    [CacheCall.insert ⟨1, 10⟩ 500 (.ofMillis 1) (.ofMillis 1)]).2.2.2
      (.insert ⟨2, 20⟩ 300 (.ofMillis 2) (.ofMillis 3)) (by decide +kernel)

end LatencyCache

end Poseidon
