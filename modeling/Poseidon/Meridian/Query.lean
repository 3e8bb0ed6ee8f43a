import Poseidon.Lib.Compaction
import Poseidon.Lib.Runs
import Poseidon.Lib.Search
import Poseidon.Lib.Tables
import Poseidon.Meridian.Protocol
import Poseidon.Util.Timeval

/-!
# Queries

A `meridian_query_t` has a deadline, up to 256 targets and a latency for each. The latencies are an
array that begins with zeros, and nothing else tells a target that was measured from one that was
not. The table of queries expires them in two passes, a first that counts and a second that
partitions, each with a clock reading of its own for every query.
-/

namespace Poseidon

/-- `MERIDIAN_QUERY_MAX_TARGETS`. -/
def maxQueryTargets : Nat := 256

structure Query where
  queryId : UInt64
  startTime : Timeval
  timeout : Timeval
  targets : List MeridianNode
  latencies : List UInt32
  numMeasured : Nat
deriving DecidableEq, Repr

namespace Query

def create (queryId : UInt64) (timeoutMs : UInt32) (now : Timeval) : Query where
  queryId := queryId
  startTime := now
  timeout := .ofMillis timeoutMs
  targets := []
  latencies := List.replicate maxQueryTargets 0
  numMeasured := 0

/-! ### Targets -/

def addTarget (query : Query) (node : MeridianNode) : Query :=
  if query.targets.length ≥ maxQueryTargets then query
  else { query with targets := query.targets ++ [node] }

def setLatency (query : Query) (targetIdx : Nat) (latency : UInt32) : Query :=
  if targetIdx ≥ query.targets.length then query
  else { query with
    latencies := query.latencies.set targetIdx latency
    numMeasured := query.numMeasured + 1 }

def latency (query : Query) (targetIdx : Nat) : UInt32 :=
  query.latencies.getD targetIdx 0

/-- The loop of `meridian_query_get_closest`, which starts at the first target: the index and the
latency it ends with. -/
def closest (query : Query) : Nat × Nat :=
  Search.scanLeast (fun i => (query.latency i).toNat) (0, (query.latency 0).toNat)
    (List.range' 1 (query.targets.length - 1))

def getClosest (query : Query) : Option MeridianNode :=
  if query.targets.length = 0 then none else query.targets[query.closest.1]?

variable {query : Query}

theorem mem_range_targets {i : Nat} :
    i ∈ List.range' 1 (query.targets.length - 1) ↔ 0 < i ∧ i < query.targets.length := by
  rw [List.mem_range'_1]
  omega

theorem closest_cases (query : Query) :
    query.closest = (0, (query.latency 0).toNat) ∨
      ∃ i < query.targets.length, query.closest = (i, (query.latency i).toNat) ∧
        (query.latency i).toNat < (query.latency 0).toNat := by
  obtain hscan | ⟨i, hi, hscan, hlt⟩ := Search.scanLeast_cases
    (fun i => (query.latency i).toNat) (0, (query.latency 0).toNat)
    (List.range' 1 (query.targets.length - 1))
  · exact Or.inl hscan
  · exact Or.inr ⟨i, (mem_range_targets.mp hi).2, hscan, hlt⟩

theorem closest_snd (query : Query) : query.closest.2 = (query.latency query.closest.1).toNat := by
  obtain hclosest | ⟨i, -, hclosest, -⟩ := query.closest_cases
  · rw [hclosest]
  · rw [hclosest]

theorem closest_lt_length (htargets : 0 < query.targets.length) :
    query.closest.1 < query.targets.length := by
  obtain hclosest | ⟨i, hi, hclosest, -⟩ := query.closest_cases
  · rw [hclosest]
    exact htargets
  · rw [hclosest]
    exact hi

theorem closest_le {i : Nat} (hi : i < query.targets.length) :
    query.latency query.closest.1 ≤ query.latency i := by
  rw [UInt32.le_iff_toNat_le, ← closest_snd]
  rcases Nat.eq_zero_or_pos i with rfl | hpos
  · exact Search.scanLeast_le_start _ _ _
  · exact Search.scanLeast_le (fun i => (query.latency i).toNat)
      (mem_range_targets.mpr ⟨hpos, hi⟩)

theorem closest_lt (htargets : 0 < query.targets.length) {i : Nat} (hi : i < query.closest.1) :
    query.latency query.closest.1 < query.latency i := by
  have hlength := closest_lt_length htargets
  rw [UInt32.lt_iff_toNat_lt, ← closest_snd]
  rcases Nat.eq_zero_or_pos i with rfl | hpos
  · obtain hclosest | ⟨j, -, hclosest, hlt⟩ := query.closest_cases
    · exact absurd (congrArg Prod.fst hclosest) (Nat.ne_of_gt hi)
    · rw [hclosest]
      exact hlt
  · refine Search.scanLeast_lt (fun i => (query.latency i).toNat) List.pairwise_lt_range' ?_
      (mem_range_targets.mpr ⟨hpos, hi.trans hlength⟩) hi
    intro j hj
    exact (mem_range_targets.mp hj).1

theorem addTarget_cases (query : Query) (node : MeridianNode) :
    query.addTarget node = query ∨
      query.targets.length < maxQueryTargets ∧
        query.addTarget node = { query with targets := query.targets ++ [node] } := by
  unfold addTarget
  split_ifs with hfull
  · exact Or.inl rfl
  · exact Or.inr ⟨Nat.lt_of_not_le hfull, rfl⟩

theorem latency_setLatency {targetIdx : Nat} (htarget : targetIdx < query.targets.length)
    (hlatency : targetIdx < query.latencies.length) (latency : UInt32) (i : Nat) :
    (query.setLatency targetIdx latency).latency i =
      if i = targetIdx then latency else query.latency i := by
  simp only [setLatency, if_neg (Nat.not_le_of_lt htarget), Query.latency,
    List.getD_eq_getElem?_getD]
  split_ifs with hi
  · rw [hi, List.getElem?_set_self hlatency, Option.getD_some]
  · rw [List.getElem?_set_ne (Ne.symm hi)]

inductive TargetCall where
  | addTarget (node : MeridianNode)
  | setLatency (targetIdx : Nat) (latency : UInt32)
deriving DecidableEq, Repr

end Query

/-- A query and, beside it, the latency that was last set for each target. The query itself does
not record which targets were measured. -/
structure MeasuredQuery where
  query : Query
  latest : Nat → Option UInt32

namespace MeasuredQuery

open Query

def start (query : Query) : MeasuredQuery :=
  ⟨query, fun _ => none⟩

def step (state : MeasuredQuery) : TargetCall → MeasuredQuery
  | .addTarget node => { state with query := state.query.addTarget node }
  | .setLatency targetIdx latency =>
      { query := state.query.setLatency targetIdx latency
        latest := if targetIdx ≥ state.query.targets.length then state.latest
          else Function.update state.latest targetIdx (some latency) }

/-- The array holds what was last set, and zero for a target that was not measured. -/
structure Faithful (state : MeasuredQuery) : Prop where
  length_latencies : state.query.latencies.length = maxQueryTargets
  length_targets : state.query.targets.length ≤ maxQueryTargets
  lt_of_latest : ∀ {i latency}, state.latest i = some latency → i < state.query.targets.length
  latency_eq : ∀ i, state.query.latency i = (state.latest i).getD 0

theorem faithful_start (queryId : UInt64) (timeoutMs : UInt32) (now : Timeval) :
    (start (Query.create queryId timeoutMs now)).Faithful := by
  refine ⟨List.length_replicate, Nat.zero_le _, fun hlatest => ?_, fun i => ?_⟩
  · cases hlatest
  · simp only [start, Query.create, Query.latency, List.getD_eq_getElem?_getD,
      List.getElem?_replicate, Option.getD_none]
    split_ifs <;> rfl

variable {state : MeasuredQuery}

theorem Faithful.step (hstate : state.Faithful) (call : TargetCall) :
    (state.step call).Faithful := by
  cases call with
  | addTarget node =>
      obtain hsame | ⟨hroom, hadded⟩ := state.query.addTarget_cases node
      · simp only [MeasuredQuery.step, hsame]
        exact hstate
      · simp only [MeasuredQuery.step, hadded]
        refine ⟨hstate.length_latencies, ?_, fun hlatest => ?_, hstate.latency_eq⟩
        · rw [List.length_append]
          exact hroom
        · rw [List.length_append]
          exact Nat.lt_add_right 1 (hstate.lt_of_latest hlatest)
  | setLatency targetIdx latency =>
      by_cases hrefused : targetIdx ≥ state.query.targets.length
      · simp only [MeasuredQuery.step, Query.setLatency, if_pos hrefused]
        exact hstate
      · have hlength := hstate.length_latencies
        have htargets := hstate.length_targets
        have hread := Query.latency_setLatency (Nat.lt_of_not_le hrefused)
          (by omega : targetIdx < state.query.latencies.length) latency
        simp only [MeasuredQuery.step, if_neg hrefused]
        simp only [Query.setLatency, if_neg hrefused] at hread ⊢
        refine ⟨by rw [List.length_set, hlength], htargets, fun {i found} hlatest => ?_,
          fun i => ?_⟩
        · dsimp only at hlatest
          by_cases hi : i = targetIdx
          · rw [hi]
            exact Nat.lt_of_not_le hrefused
          · rw [Function.update_of_ne hi] at hlatest
            exact hstate.lt_of_latest hlatest
        · dsimp only
          rw [hread]
          by_cases hi : i = targetIdx
          · rw [if_pos hi, hi, Function.update_self, Option.getD_some]
          · rw [if_neg hi, Function.update_of_ne hi, hstate.latency_eq]

theorem faithful_run (queryId : UInt64) (timeoutMs : UInt32) (now : Timeval)
    (calls : List TargetCall) :
    (Runs.run step (start (Query.create queryId timeoutMs now)) calls).Faithful :=
  Runs.invariant step Faithful (fun _ call hstate => hstate.step call)
    (faithful_start queryId timeoutMs now)

/-- The target was measured, and no measured target has a lower latency. -/
def LeastMeasured (state : MeasuredQuery) (index : Nat) : Prop :=
  ∃ latency, state.latest index = some latency ∧
    ∀ other found, state.latest other = some found → latency ≤ found

/-- `meridian_query_get_closest` returns a measured target of least latency. -/
def ReturnsMeasured (state : MeasuredQuery) : Prop :=
  ∃ index node, state.LeastMeasured index ∧ state.query.targets[index]? = some node ∧
    state.query.getClosest = some node

structure FirstZero (state : MeasuredQuery) (index : Nat) : Prop where
  lt_length : index < state.query.targets.length
  latency_eq : state.query.latency index = 0
  latency_ne : ∀ i < index, state.query.latency i ≠ 0

theorem Faithful.leastMeasured_closest (hstate : state.Faithful) {latency : UInt32}
    (hlatest : state.latest state.query.closest.1 = some latency) :
    state.LeastMeasured state.query.closest.1 := by
  refine ⟨latency, hlatest, fun other found hfound => ?_⟩
  have hle := closest_le (hstate.lt_of_latest hfound)
  rwa [hstate.latency_eq, hstate.latency_eq, hlatest, hfound] at hle

theorem getClosest_eq {query : Query} (htargets : 0 < query.targets.length) :
    query.getClosest = query.targets[query.closest.1]? := by
  rw [getClosest, if_neg (Nat.ne_of_gt htargets)]

theorem Faithful.firstZero_closest (hstate : state.Faithful) {i : Nat}
    (hi : i < state.query.targets.length) (hnone : state.latest i = none) :
    state.FirstZero state.query.closest.1 := by
  have htargets : 0 < state.query.targets.length := Nat.zero_lt_of_lt hi
  have hzero : state.query.latency i = 0 := by
    rw [hstate.latency_eq, hnone]
    rfl
  have hle := closest_le hi
  rw [hzero, UInt32.le_zero_iff] at hle
  refine ⟨closest_lt_length htargets, hle, fun j hj hjzero => ?_⟩
  have hlt := closest_lt htargets hj
  rw [hjzero] at hlt
  exact UInt32.not_lt_zero hlt

theorem FirstZero.eq_closest {index : Nat} (hzero : state.FirstZero index) :
    index = state.query.closest.1 := by
  have htargets : 0 < state.query.targets.length := Nat.zero_lt_of_lt hzero.lt_length
  have hle := closest_le hzero.lt_length
  rw [hzero.latency_eq, UInt32.le_zero_iff] at hle
  rcases Nat.lt_trichotomy index state.query.closest.1 with hlt | heq | hgt
  · have hless := closest_lt htargets hlt
    rw [hzero.latency_eq] at hless
    exact absurd hless UInt32.not_lt_zero
  · exact heq
  · exact absurd hle (hzero.latency_ne _ hgt)

def bothMeasured : List TargetCall :=
  [.addTarget ⟨1, 10⟩, .addTarget ⟨2, 20⟩, .setLatency 0 9, .setLatency 1 4]

end MeasuredQuery

/-! ### Expiry -/

namespace Query

def isExpired (query : Query) (now : Timeval) : Bool :=
  query.startTime.add query.timeout < now

theorem isExpired_mono {query : Query} {now later : Timeval} (hle : now ≤ later)
    (hexpired : query.isExpired now = true) : query.isExpired later = true := by
  simp only [isExpired, decide_eq_true_eq] at hexpired ⊢
  exact hexpired.trans_le hle

end Query

/-- What a call of `meridian_query_table_tick` leaves: the places it allocated for the expired
queries, the queries it wrote there, whether or not they fit, and the queries of the table. -/
structure Ticked where
  allocated : Nat
  expired : List Query
  queries : List Query
deriving DecidableEq, Repr

/-- `meridian_query_table_tick`, where `clock n` is the reading `n` of the call. The place that
`CONSUME` empties is not read again. -/
def tickQueries (clock : Nat → Timeval) (queries : List Query) : Ticked :=
  let count := queries.zipIdx.countP fun entry => entry.1.isExpired (clock entry.2)
  if count = 0 then ⟨0, [], queries⟩
  else
    let partitioned := Compaction.compact
      (fun i query => !query.isExpired (clock (queries.length + i))) queries
    ⟨count, partitioned.taken, partitioned.kept⟩

/-- The output fits its array; every query is in the table or in the output and never in both; and
both have the order of the table. -/
structure Ticked.Partitions (ticked : Ticked) (queries : List Query) : Prop where
  fits : ticked.expired.length ≤ ticked.allocated
  mem_or_mem : ∀ query ∈ queries, query ∈ ticked.queries ∨ query ∈ ticked.expired
  not_mem_both : ∀ query ∈ queries, ¬(query ∈ ticked.queries ∧ query ∈ ticked.expired)
  perm : (ticked.queries ++ ticked.expired).Perm queries
  queries_sublist : ticked.queries.Sublist queries
  expired_sublist : ticked.expired.Sublist queries

/-- Every query that has expired at its second reading had expired at its first. -/
def Foreseen (clock : Nat → Timeval) (queries : List Query) : Prop :=
  ∀ entry ∈ queries.zipIdx, entry.1.isExpired (clock (queries.length + entry.2)) = true →
    entry.1.isExpired (clock entry.2) = true

instance (clock : Nat → Timeval) (queries : List Query) : Decidable (Foreseen clock queries) :=
  inferInstanceAs (Decidable (∀ entry ∈ queries.zipIdx,
    entry.1.isExpired (clock (queries.length + entry.2)) = true →
      entry.1.isExpired (clock entry.2) = true))

section Tick

variable {clock : Nat → Timeval} {queries : List Query}

theorem length_taken_compact (keep : Nat → Query → Bool) :
    (Compaction.compact keep queries).taken.length =
      queries.zipIdx.countP fun entry => !keep entry.2 entry.1 := by
  rw [Compaction.taken_compact, List.length_map, List.countP_eq_length_filter]

/-- Two places of the same query are not separated, if every expiry was foreseen: the second
readings of both lie between their first and later ones. -/
theorem not_mem_both_of_foreseen (hclock : Monotone clock) (hforeseen : Foreseen clock queries)
    {query : Query} :
    ¬(query ∈ (Compaction.compact
        (fun i query => !query.isExpired (clock (queries.length + i))) queries).kept ∧
      query ∈ (Compaction.compact
        (fun i query => !query.isExpired (clock (queries.length + i))) queries).taken) := by
  rw [Compaction.kept_compact, Compaction.taken_compact]
  rintro ⟨hkept, htaken⟩
  obtain ⟨⟨_, i⟩, hi, rfl⟩ := List.mem_map.mp hkept
  obtain ⟨⟨_, j⟩, hj, rfl⟩ := List.mem_map.mp htaken
  obtain ⟨hmemj, hexpired⟩ := List.mem_filter.mp hj
  obtain ⟨-, hfresh⟩ := List.mem_filter.mp hi
  have hjlt : j < queries.length :=
    (List.getElem?_eq_some_iff.mp (List.mk_mem_zipIdx_iff_getElem?.mp hmemj)).1
  have hfirst := hforeseen _ hmemj (by simpa using hexpired)
  have hlater := Query.isExpired_mono (hclock (show j ≤ queries.length + i by omega)) hfirst
  rw [hlater] at hfresh
  exact absurd hfresh (by simp)

end Tick

/-- **Expiry of queries.** For every table and every clock that never goes back, the call partitions
the table within the room it allocated exactly if no query had expired at its first reading, or
every query that has expired at its second reading had expired at its first. -/
theorem tickQueries_partitions_iff (clock : Nat → Timeval) (hclock : Monotone clock)
    (queries : List Query) :
    (tickQueries clock queries).Partitions queries ↔
      (∀ entry ∈ queries.zipIdx, entry.1.isExpired (clock entry.2) = false) ∨
        Foreseen clock queries := by
  have hcount : queries.zipIdx.countP (fun entry => entry.1.isExpired (clock entry.2)) = 0 ↔
      ∀ entry ∈ queries.zipIdx, entry.1.isExpired (clock entry.2) = false := by
    simp only [List.countP_eq_zero, Bool.not_eq_true]
  by_cases hnone : ∀ entry ∈ queries.zipIdx, entry.1.isExpired (clock entry.2) = false
  · refine iff_of_true ?_ (Or.inl hnone)
    simp only [tickQueries, if_pos (hcount.mpr hnone)]
    exact ⟨Nat.le_refl 0, fun _ hquery => Or.inl hquery, fun _ _ hboth => by simp at hboth,
      by simp, List.Sublist.refl _, List.nil_sublist _⟩
  · rw [or_iff_right hnone]
    simp only [tickQueries, if_neg (mt hcount.mp hnone)]
    constructor
    · intro hpartitions
      have hfits := hpartitions.fits
      simp only [length_taken_compact, Bool.not_not] at hfits
      refine forall_of_countP_le (fun entry hfirst => ?_) hfits
      exact Query.isExpired_mono (hclock (Nat.le_add_left _ _)) hfirst
    · intro hforeseen
      have hperm := Compaction.kept_append_taken_perm
        (fun i query => !query.isExpired (clock (queries.length + i))) queries
      refine ⟨?_, fun query hquery => ?_, fun _ _ => not_mem_both_of_foreseen hclock hforeseen,
        hperm, Compaction.kept_sublist _ _, Compaction.taken_sublist _ _⟩
      · simp only [length_taken_compact, Bool.not_not]
        exact List.countP_mono_left hforeseen
      · exact List.mem_append.mp (hperm.mem_iff.mpr hquery)

def Query.expiringAfter (ms : UInt32) : Query :=
  Query.create ms.toUInt64 ms (.ofMillis 0)

/-- A clock that shows `first` for the readings before `reading` and `second` from then on. -/
def twoPhaseClock (first second : Timeval) (reading n : Nat) : Timeval :=
  if n < reading then first else second

theorem monotone_twoPhaseClock {first second : Timeval} (hle : first ≤ second) (reading : Nat) :
    Monotone (twoPhaseClock first second reading) := by
  intro n m hnm
  unfold twoPhaseClock
  split_ifs with hn hm
  · exact le_refl _
  · exact hle
  · omega
  · exact le_refl _

/-- Of two queries one has expired when the call begins. -/
theorem tickQueries_partitions_one :
    Monotone (twoPhaseClock (.ofMillis 150) (.ofMillis 160) 2) ∧
      (tickQueries (twoPhaseClock (.ofMillis 150) (.ofMillis 160) 2)
        [.expiringAfter 100, .expiringAfter 200]).Partitions
          [.expiringAfter 100, .expiringAfter 200] := by
  have hclock := monotone_twoPhaseClock
    (show Timeval.ofMillis 150 ≤ Timeval.ofMillis 160 by decide) 2
  exact ⟨hclock, (tickQueries_partitions_iff _ hclock _).mpr (Or.inr (by decide))⟩

/-- The second query expires between the passes: two queries are written to one place. -/
theorem tickQueries_overflow :
    Monotone (twoPhaseClock (.ofMillis 150) (.ofMillis 250) 2) ∧
      (tickQueries (twoPhaseClock (.ofMillis 150) (.ofMillis 250) 2)
        [.expiringAfter 100, .expiringAfter 200]).allocated = 1 ∧
      (tickQueries (twoPhaseClock (.ofMillis 150) (.ofMillis 250) 2)
        [.expiringAfter 100, .expiringAfter 200]).expired =
          [.expiringAfter 100, .expiringAfter 200] ∧
      ¬(tickQueries (twoPhaseClock (.ofMillis 150) (.ofMillis 250) 2)
        [.expiringAfter 100, .expiringAfter 200]).Partitions
          [.expiringAfter 100, .expiringAfter 200] := by
  refine ⟨monotone_twoPhaseClock (by decide) 2, by decide +kernel, by decide +kernel, ?_⟩
  intro hpartitions
  exact absurd hpartitions.fits (by decide +kernel)

end Poseidon
