import Mathlib.Data.List.Perm.Basic
import Mathlib.Logic.Function.Iterate
import Poseidon.Lib.Runs
import Poseidon.Lib.Tables
import Poseidon.Meridian.Protocol

/-!
# The ring set

Meridian sorts the nodes it knows into rings by their latency. A ring has a primary list and a
secondary one that takes the nodes for which the primary has no room. An insertion does not look for
the node in the rings, an erasure removes the first entry that identifies the node, and the periodic
management promotes from the secondary list of a ring only where the primary is full, which is where
a promotion is refused.

`meridian_ring_set_get_ring` computes the ring of a latency with logarithms. It is a parameter here:
no result depends on which function it is.
-/

namespace Poseidon

/-- The fields of `meridian_node_t` the rings read: the id as the bytes of its hash, and whether the
flag for rendezvous points is set. -/
structure RingNode extends MeridianNode where
  id : Bytes
  rendezvous : Bool
deriving DecidableEq, Repr

namespace RingNode

/-- `poseidon_node_id_is_null`. -/
def idIsNull (node : RingNode) : Bool :=
  node.id.all (· == 0)

/-- `node_identity_match`: by id where both nodes have one, else by address. -/
def identityMatch (a b : RingNode) : Bool :=
  if !a.idIsNull && !b.idIsNull then a.id == b.id else a.addr == b.addr && a.port == b.port

theorem identityMatch_comm (a b : RingNode) : a.identityMatch b = b.identityMatch a := by
  simp only [identityMatch, Bool.and_comm (!a.idIsNull), BEq.comm (a := a.id),
    BEq.comm (a := a.addr), BEq.comm (a := a.port)]

end RingNode

open RingNode

/-- `meridian_ring_t`. -/
structure LatencyRing where
  primary : List RingNode
  secondary : List RingNode
  frozen : Bool
deriving DecidableEq, Repr

/-- `MERIDIAN_MAX_RINGS`. -/
def RingSet.maxRings : Nat := 10

structure RingSet where
  primaryRingSize : UInt32
  secondaryRingSize : UInt32
  rings : List LatencyRing
deriving DecidableEq, Repr

namespace LatencyRing

def entries (ring : LatencyRing) : List RingNode :=
  ring.primary ++ ring.secondary

/-- `meridian_ring_set_insert` at its ring. The sizes are compared as `int`. -/
def insert (ring : LatencyRing) (primarySize secondarySize : UInt32) (node : RingNode) :
    Option LatencyRing :=
  if ring.frozen then none
  else if (ring.primary.length : Int) < primarySize.toInt32.toInt then
    some { ring with primary := ring.primary ++ [node] }
  else if (ring.secondary.length : Int) < secondarySize.toInt32.toInt then
    some { ring with secondary := ring.secondary ++ [node] }
  else none

/-- `meridian_ring_set_erase` at one ring; `none` if no entry of it identifies the node. -/
def erase (ring : LatencyRing) (node : RingNode) : Option LatencyRing :=
  match ring.primary.findIdx? (·.identityMatch node) with
  | some index => some { ring with primary := ring.primary.eraseIdx index }
  | none =>
      (ring.secondary.findIdx? (·.identityMatch node)).map fun index =>
        { ring with secondary := ring.secondary.eraseIdx index }

/-- `meridian_ring_set_promote_secondary`. Here the size is compared as `uint32_t`. -/
def promoteSecondary (ring : LatencyRing) (primarySize : UInt32) : Option LatencyRing :=
  match ring.secondary with
  | [] => none
  | node :: rest =>
      if ring.primary.length ≥ primarySize.toNat then none
      else some { ring with primary := ring.primary ++ [node], secondary := rest }

def eligibleForReplacement (ring : LatencyRing) (primarySize : UInt32) : Bool :=
  !ring.frozen && decide ((ring.primary.length : Int) = primarySize.toInt32.toInt) &&
    !ring.secondary.isEmpty &&
    decide (primarySize.toInt32.toInt < ring.entries.countP fun node => !node.rendezvous)

end LatencyRing

namespace RingSet

def create (primarySize secondarySize : UInt32) : RingSet :=
  ⟨primarySize, secondarySize, List.replicate maxRings ⟨[], [], false⟩⟩

/-- The entries of all rings, in the order in which `meridian_ring_set_erase` reads them. -/
def entries (set : RingSet) : List RingNode :=
  set.rings.flatMap LatencyRing.entries

def updateRing (set : RingSet) (ringNum : Nat) (change : LatencyRing → Option LatencyRing) :
    Option RingSet :=
  (set.rings[ringNum]?.bind change).map fun ring =>
    { set with rings := set.rings.set ringNum ring }

section Operations

variable (ringOf : UInt32 → Nat)

def insert (set : RingSet) (node : RingNode) (latencyUs : UInt32) : Option RingSet :=
  set.updateRing (ringOf latencyUs) (·.insert set.primaryRingSize set.secondaryRingSize node)

/-- `gossip_completed_cb`, which ignores what the insertions return. -/
def gossipCompleted (set : RingSet) (peers : List RingNode) : RingSet :=
  peers.foldl (fun set peer => (set.insert ringOf peer 0).getD set) set

end Operations

def eraseFirst (node : RingNode) : List LatencyRing → Option (List LatencyRing)
  | [] => none
  | ring :: rings =>
      match ring.erase node with
      | some erased => some (erased :: rings)
      | none => (eraseFirst node rings).map (ring :: ·)

def erase (set : RingSet) (node : RingNode) : Option RingSet :=
  (eraseFirst node set.rings).map fun rings => { set with rings := rings }

def promoteSecondary (set : RingSet) (ringNum : Nat) : Option RingSet :=
  set.updateRing ringNum (·.promoteSecondary set.primaryRingSize)

def setFrozen (set : RingSet) (ringNum : Nat) (frozen : Bool) : RingSet :=
  (set.updateRing ringNum fun ring => some { ring with frozen := frozen }).getD set

def eligibleForReplacement (set : RingSet) (ringNum : Nat) : Bool :=
  match set.rings[ringNum]? with
  | none => false
  | some ring => ring.eligibleForReplacement set.primaryRingSize

/-- `meridian_protocol_ring_management`. -/
def ringManagement (set : RingSet) : RingSet :=
  (List.range maxRings).foldl
    (fun set ringNum =>
      if set.eligibleForReplacement ringNum then (set.promoteSecondary ringNum).getD set else set)
    set

/-- The calls that change a ring set. A call that fails leaves it as it is. -/
inductive Call where
  | gossipCompleted (peers : List RingNode)
  | insert (node : RingNode) (latencyUs : UInt32)
  | erase (node : RingNode)
  | promoteSecondary (ringNum : Nat)
  | freeze (ringNum : Nat)
  | unfreeze (ringNum : Nat)
deriving DecidableEq, Repr

def step (ringOf : UInt32 → Nat) (set : RingSet) : Call → RingSet
  | .gossipCompleted peers => set.gossipCompleted ringOf peers
  | .insert node latencyUs => (set.insert ringOf node latencyUs).getD set
  | .erase node => (set.erase node).getD set
  | .promoteSecondary ringNum => (set.promoteSecondary ringNum).getD set
  | .freeze ringNum => set.setFrozen ringNum true
  | .unfreeze ringNum => set.setFrozen ringNum false

end RingSet

/-! ### What the calls do to the entries -/

namespace LatencyRing

variable {ring next : LatencyRing} {node : RingNode}

theorem entries_insert_perm {primarySize secondarySize : UInt32}
    (hinsert : ring.insert primarySize secondarySize node = some next) :
    next.entries.Perm (node :: ring.entries) := by
  unfold insert at hinsert
  split_ifs at hinsert with hfrozen hprimary hsecondary
  · obtain rfl := Option.some.inj hinsert
    simp only [entries, List.append_assoc, List.singleton_append]
    exact List.perm_middle
  · obtain rfl := Option.some.inj hinsert
    simp only [entries, ← List.append_assoc]
    exact List.perm_append_singleton node _

theorem entries_promoteSecondary {primarySize : UInt32}
    (hpromote : ring.promoteSecondary primarySize = some next) : next.entries = ring.entries := by
  unfold promoteSecondary at hpromote
  split at hpromote
  · cases hpromote
  · rename_i promoted rest hsecondary
    split_ifs at hpromote
    obtain rfl := Option.some.inj hpromote
    simp only [entries, hsecondary, List.append_assoc, List.singleton_append]

theorem entries_erase (ring : LatencyRing) (node : RingNode) :
    (∃ erased, ring.erase node = some erased ∧ (∃ entry ∈ ring.entries, entry.identityMatch node) ∧
      erased.entries = ring.entries.eraseP (·.identityMatch node)) ∨
    ring.erase node = none ∧ ∀ entry ∈ ring.entries, entry.identityMatch node = false := by
  unfold erase
  cases hprimary : ring.primary.findIdx? (·.identityMatch node) with
  | some index =>
      obtain ⟨hlength, hmatch, -⟩ := List.findIdx?_eq_some_iff_getElem.mp hprimary
      have hmem : ring.primary[index] ∈ ring.primary := List.getElem_mem hlength
      refine Or.inl ⟨_, rfl, ⟨_, List.mem_append_left _ hmem, hmatch⟩, ?_⟩
      rw [entries, entries, eraseIdx_eq_eraseP hprimary]
      have herase := List.eraseP_append_left (p := fun entry => identityMatch entry node) hmatch
        ring.secondary hmem
      exact herase.symm
  | none =>
      have hnone := List.findIdx?_eq_none_iff.mp hprimary
      cases hsecondary : ring.secondary.findIdx? (·.identityMatch node) with
      | some index =>
          obtain ⟨hlength, hmatch, -⟩ := List.findIdx?_eq_some_iff_getElem.mp hsecondary
          have hmem : ring.secondary[index] ∈ ring.secondary := List.getElem_mem hlength
          refine Or.inl ⟨_, rfl, ⟨_, List.mem_append_right _ hmem, hmatch⟩, ?_⟩
          rw [entries, entries, List.eraseP_append_right _ (by simpa using hnone),
            ← eraseIdx_eq_eraseP hsecondary]
      | none =>
          refine Or.inr ⟨rfl, fun entry hentry => ?_⟩
          obtain hmem | hmem := List.mem_append.mp hentry
          · exact hnone entry hmem
          · exact List.findIdx?_eq_none_iff.mp hsecondary entry hmem

end LatencyRing

namespace RingSet

variable {set next : RingSet}

theorem entries_set_perm {rings : List LatencyRing} {ringNum : Nat} {old ring : LatencyRing}
    (hold : rings[ringNum]? = some old) :
    ∃ rest, (rings.flatMap LatencyRing.entries).Perm (old.entries ++ rest) ∧
      ((rings.set ringNum ring).flatMap LatencyRing.entries).Perm (ring.entries ++ rest) := by
  obtain ⟨front, back, hsplit, hset⟩ := exists_split_of_getElem? hold
  refine ⟨front.flatMap LatencyRing.entries ++ back.flatMap LatencyRing.entries, ?_, ?_⟩
  · rw [hsplit, List.flatMap_append, List.flatMap_cons]
    exact List.perm_append_comm_assoc _ _ _
  · rw [hset, List.flatMap_append, List.flatMap_cons]
    exact List.perm_append_comm_assoc _ _ _

theorem exists_of_updateRing {ringNum : Nat} {change : LatencyRing → Option LatencyRing}
    (hupdate : set.updateRing ringNum change = some next) :
    ∃ old ring, set.rings[ringNum]? = some old ∧ change old = some ring ∧
      next = { set with rings := set.rings.set ringNum ring } := by
  obtain ⟨ring, hring, rfl⟩ := Option.map_eq_some_iff.mp hupdate
  obtain ⟨old, hold, hchange⟩ := Option.bind_eq_some_iff.mp hring
  exact ⟨old, ring, hold, hchange, rfl⟩

theorem entries_insert {ringOf : UInt32 → Nat} {node : RingNode} {latencyUs : UInt32}
    (hinsert : set.insert ringOf node latencyUs = some next) :
    next.entries.Perm (node :: set.entries) := by
  obtain ⟨old, ring, hold, hring, rfl⟩ := exists_of_updateRing hinsert
  obtain ⟨rest, hbefore, hafter⟩ := @entries_set_perm set.rings _ old ring hold
  calc
    (set.rings.set (ringOf latencyUs) ring).flatMap LatencyRing.entries
    _ |>.Perm (ring.entries ++ rest) := hafter
    _ |>.Perm (node :: old.entries ++ rest) :=
      (LatencyRing.entries_insert_perm hring).append_right rest
    _ |>.Perm (node :: set.entries) := (hbefore.symm).cons node

theorem entries_promoteSecondary {ringNum : Nat}
    (hpromote : set.promoteSecondary ringNum = some next) : next.entries.Perm set.entries := by
  obtain ⟨old, ring, hold, hring, rfl⟩ := exists_of_updateRing hpromote
  obtain ⟨rest, hbefore, hafter⟩ := @entries_set_perm set.rings _ old ring hold
  rw [LatencyRing.entries_promoteSecondary hring] at hafter
  exact hafter.trans hbefore.symm

theorem entries_setFrozen (set : RingSet) (ringNum : Nat) (frozen : Bool) :
    (set.setFrozen ringNum frozen).entries.Perm set.entries := by
  unfold setFrozen
  cases hupdate : set.updateRing ringNum fun ring => some { ring with frozen := frozen } with
  | none => exact List.Perm.refl _
  | some next =>
      obtain ⟨old, ring, hold, hring, rfl⟩ := exists_of_updateRing hupdate
      obtain ⟨rest, hbefore, hafter⟩ := @entries_set_perm set.rings _ old ring hold
      obtain rfl := Option.some.inj hring
      exact hafter.trans hbefore.symm

/-- **Erasure** removes the first entry that identifies the node, and fails if there is none. -/
theorem entries_eraseFirst (node : RingNode) (rings : List LatencyRing) :
    (∃ erased, eraseFirst node rings = some erased ∧
      (∃ entry ∈ rings.flatMap LatencyRing.entries, entry.identityMatch node) ∧
      erased.flatMap LatencyRing.entries =
        (rings.flatMap LatencyRing.entries).eraseP (·.identityMatch node)) ∨
    eraseFirst node rings = none ∧
      ∀ entry ∈ rings.flatMap LatencyRing.entries, entry.identityMatch node = false := by
  induction rings with
  | nil => exact Or.inr ⟨rfl, by simp⟩
  | cons ring rings ih =>
      rw [List.flatMap_cons]
      obtain ⟨erased, hring, ⟨entry, hentry, hmatch⟩, herased⟩ | ⟨hring, hnone⟩ :=
        ring.entries_erase node
      · refine Or.inl ⟨erased :: rings, by rw [eraseFirst, hring], ?_, ?_⟩
        · exact ⟨entry, List.mem_append_left _ hentry, hmatch⟩
        · rw [List.flatMap_cons, herased]
          exact (List.eraseP_append_left (p := fun entry => identityMatch entry node) hmatch _
            hentry).symm
      · obtain ⟨rest, hrest, ⟨entry, hentry, hmatch⟩, herased⟩ | ⟨hrest, hnoneRest⟩ := ih
        · refine Or.inl ⟨ring :: rest, by rw [eraseFirst, hring, hrest]; rfl, ?_, ?_⟩
          · exact ⟨entry, List.mem_append_right _ hentry, hmatch⟩
          · rw [List.flatMap_cons, herased, List.eraseP_append_right _ (by simpa using hnone)]
        · refine Or.inr ⟨by rw [eraseFirst, hring, hrest]; rfl, fun entry hentry => ?_⟩
          obtain hmem | hmem := List.mem_append.mp hentry
          · exact hnone entry hmem
          · exact hnoneRest entry hmem

theorem entries_erase {node : RingNode} (herase : set.erase node = some next) :
    (∃ entry ∈ set.entries, entry.identityMatch node) ∧
      next.entries = set.entries.eraseP (·.identityMatch node) := by
  obtain ⟨rings, hrings, rfl⟩ := Option.map_eq_some_iff.mp herase
  obtain ⟨erased, herased, hmatch, hentries⟩ | ⟨hnone, -⟩ := entries_eraseFirst node set.rings
  · rw [herased] at hrings
    obtain rfl := Option.some.inj hrings
    exact ⟨hmatch, hentries⟩
  · rw [hnone] at hrings
    cases hrings

/-! ### One entry for each node -/

def Distinct (set : RingSet) : Prop :=
  set.entries.Pairwise fun a b => a.identityMatch b = false

theorem pairwise_iff_of_perm {left right : List RingNode} (hperm : left.Perm right) :
    (left.Pairwise fun a b => a.identityMatch b = false) ↔
      right.Pairwise fun a b => a.identityMatch b = false :=
  hperm.pairwise_iff fun {a b} hmatch => by rwa [identityMatch_comm]

section Freshness

variable (ringOf : UInt32 → Nat)

/-- An insertion that is accepted is of a node that no entry identifies. -/
def FreshInsert (set : RingSet) (node : RingNode) (latencyUs : UInt32) : Prop :=
  (set.insert ringOf node latencyUs).isSome = true →
    ∀ entry ∈ set.entries, entry.identityMatch node = false

theorem distinct_insert_iff (set : RingSet) (node : RingNode) (latencyUs : UInt32) :
    ((set.insert ringOf node latencyUs).getD set).Distinct ↔
      set.Distinct ∧ set.FreshInsert ringOf node latencyUs := by
  unfold FreshInsert
  cases hinsert : set.insert ringOf node latencyUs with
  | none => simp
  | some next =>
      rw [Option.getD_some, Distinct, pairwise_iff_of_perm (entries_insert hinsert),
        List.pairwise_cons, and_comm, Distinct]
      refine and_congr_right fun _ => ?_
      simp only [Option.isSome_some, forall_const, identityMatch_comm node]

/-- The insertions a call makes are of nodes that no entry identifies then. -/
def Fresh (set : RingSet) : Call → Prop
  | .gossipCompleted peers =>
      Runs.Meets (fun set peer => (set.insert ringOf peer 0).getD set)
        (fun set peer => set.FreshInsert ringOf peer 0) set peers
  | .insert node latencyUs => set.FreshInsert ringOf node latencyUs
  | _ => True

theorem distinct_step_iff (set : RingSet) (call : Call) (hset : set.Distinct) :
    (set.step ringOf call).Distinct ↔ set.Fresh ringOf call := by
  cases call with
  | gossipCompleted peers =>
      refine (Runs.invariant_iff_meets _ Distinct ?_).trans (and_iff_right hset)
      exact fun set peer => distinct_insert_iff ringOf set peer 0
  | insert node latencyUs =>
      exact (distinct_insert_iff ringOf set node latencyUs).trans (and_iff_right hset)
  | erase node =>
      refine iff_of_true ?_ trivial
      simp only [step]
      cases herase : set.erase node with
      | none => exact hset
      | some next =>
          rw [Option.getD_some, Distinct, (entries_erase herase).2]
          exact List.Pairwise.sublist List.eraseP_sublist hset
  | promoteSecondary ringNum =>
      refine iff_of_true ?_ trivial
      simp only [step]
      cases hpromote : set.promoteSecondary ringNum with
      | none => exact hset
      | some next => exact (pairwise_iff_of_perm (entries_promoteSecondary hpromote)).mpr hset
  | freeze ringNum =>
      exact iff_of_true ((pairwise_iff_of_perm (set.entries_setFrozen ringNum true)).mpr hset)
        trivial
  | unfreeze ringNum =>
      exact iff_of_true ((pairwise_iff_of_perm (set.entries_setFrozen ringNum false)).mpr hset)
        trivial

theorem entries_create (primarySize secondarySize : UInt32) :
    (create primarySize secondarySize).entries = [] := rfl

theorem forall_not_match_erase_iff {set erased : RingSet} {node : RingNode}
    (herase : set.erase node = some erased) :
    (∀ entry ∈ erased.entries, entry.identityMatch node = false) ↔
      set.entries.countP (·.identityMatch node) = 1 := by
  obtain ⟨⟨entry, hentry, hmatch⟩, hentries⟩ := entries_erase herase
  have hcount : erased.entries.countP (·.identityMatch node) + 1 =
      set.entries.countP (·.identityMatch node) := by
    rw [hentries]
    exact countP_eraseP_add_one (p := fun entry => identityMatch entry node) hentry hmatch
  have hzero : (∀ entry ∈ erased.entries, entry.identityMatch node = false) ↔
      erased.entries.countP (·.identityMatch node) = 0 := by
    simp only [List.countP_eq_zero, Bool.not_eq_true]
  rw [hzero]
  omega

/-- **One entry for each node.** At every point of a run no two entries identify the same node,
exactly if every insertion the run accepts is of a node that no entry identified. Behind any run, a
successful erasure of a node leaves no entry that identifies it exactly if one entry did before. -/
theorem ringSet_distinct_iff (primarySize secondarySize : UInt32) (calls : List Call) :
    ((∀ front, front <+: calls →
        (Runs.run (step ringOf) (create primarySize secondarySize) front).Distinct) ↔
      Runs.Meets (step ringOf) (Fresh ringOf) (create primarySize secondarySize) calls) ∧
    ∀ node erased,
      (Runs.run (step ringOf) (create primarySize secondarySize) calls).erase node =
          some erased →
        ((∀ entry ∈ erased.entries, entry.identityMatch node = false) ↔
          (Runs.run (step ringOf) (create primarySize secondarySize) calls).entries.countP
            (·.identityMatch node) = 1) := by
  refine ⟨?_, fun node erased herase => forall_not_match_erase_iff herase⟩
  refine Runs.forall_front_iff_meets (step ringOf) (fun _ => True) Distinct
    (fun _ _ _ => trivial) (fun set call _ hset => distinct_step_iff ringOf set call hset)
    trivial ?_
  rw [Distinct, entries_create]
  exact List.Pairwise.nil

end Freshness

def twoRings (latencyUs : UInt32) : Nat :=
  if latencyUs ≤ 1 then 0 else 1

/-- A node measured twice has two entries, and erasing it leaves one. Where the entries of two ids
share an address, erasing a node of that address without an id leaves one too. -/
theorem ringSet_duplicates :
    let node : RingNode := ⟨⟨1, 10⟩, List.replicate 32 1, false⟩
    let other : RingNode := ⟨⟨1, 10⟩, List.replicate 32 2, false⟩
    let unnamed : RingNode := ⟨⟨1, 10⟩, List.replicate 32 0, false⟩
    let twice := Runs.run (step twoRings) (create 8 4) [.insert node 1, .insert node 2]
    let shared := Runs.run (step twoRings) (create 8 4) [.insert node 1, .insert other 1]
    ¬twice.Distinct ∧ (∃ erased, twice.erase node = some erased ∧ node ∈ erased.entries) ∧
      shared.Distinct ∧ ∃ erased, shared.erase unnamed = some erased ∧ other ∈ erased.entries ∧
        other.identityMatch unnamed = true := by
  intro node other unnamed twice shared
  have htwice : twice.entries = [node, node] := by decide +kernel
  have hshared : shared.entries = [node, other] := by decide +kernel
  refine ⟨?_, ?_, ?_, ?_⟩
  · rw [Distinct, htwice]
    decide
  · cases herase : twice.erase node with
    | none => exact absurd herase (by decide +kernel)
    | some erased =>
        refine ⟨erased, rfl, ?_⟩
        rw [(entries_erase herase).2, htwice]
        decide
  · rw [Distinct, hshared]
    decide
  · cases herase : shared.erase unnamed with
    | none => exact absurd herase (by decide +kernel)
    | some erased =>
        refine ⟨erased, rfl, ?_, by decide⟩
        rw [(entries_erase herase).2, hshared]
        decide

/-! ### Ring management -/

theorem toNat_eq_of_toInt_eq {size : UInt32} {length : Nat}
    (hlength : (length : Int) = size.toInt32.toInt) : size.toNat = length := by
  have hint : size.toInt32.toInt =
      if 2 * size.toNat < 2 ^ 32 then (size.toNat : Int) else (size.toNat : Int) - 2 ^ 32 :=
    BitVec.toInt_eq_toNat_cond size.toBitVec
  have hlt := size.toNat_lt
  rw [hint] at hlength
  split_ifs at hlength <;> omega

theorem promoteSecondary_eq_none {ring : LatencyRing} {primarySize : UInt32}
    (heligible : ring.eligibleForReplacement primarySize = true) :
    ring.promoteSecondary primarySize = none := by
  simp only [LatencyRing.eligibleForReplacement, Bool.and_eq_true, decide_eq_true_eq] at heligible
  have hfull := toNat_eq_of_toInt_eq heligible.1.1.2
  unfold LatencyRing.promoteSecondary
  split
  · rfl
  · exact if_pos hfull.le

/-- **Ring management** changes nothing. -/
theorem ringManagement_eq (set : RingSet) : set.ringManagement = set := by
  have hstep : ∀ ringNum, (if set.eligibleForReplacement ringNum then
      (set.promoteSecondary ringNum).getD set else set) = set := by
    intro ringNum
    split_ifs with heligible
    · unfold eligibleForReplacement at heligible
      unfold promoteSecondary updateRing
      cases hring : set.rings[ringNum]? with
      | none => rfl
      | some ring =>
          rw [hring] at heligible
          rw [Option.bind_some, promoteSecondary_eq_none heligible]
          rfl
    · rfl
  exact List.foldl_fixed' hstep _

/-- No ring that is not frozen has room in its primary list and a node in its secondary one. -/
def Refilled (set : RingSet) : Prop :=
  ∀ ring ∈ set.rings, ¬(ring.frozen = false ∧
    ring.primary.length < set.primaryRingSize.toNat ∧ ring.secondary ≠ [])

instance (set : RingSet) : Decidable set.Refilled :=
  inferInstanceAs (Decidable (∀ ring ∈ set.rings, ¬(ring.frozen = false ∧
    ring.primary.length < set.primaryRingSize.toNat ∧ ring.secondary ≠ [])))

/-- **Refilling.** In every reachable state, repeating the ring management never loses or duplicates
a node, and it comes to fill the primary lists exactly if there was nothing to fill. -/
theorem ringManagement_refills_iff (ringOf : UInt32 → Nat) (primarySize secondarySize : UInt32)
    (calls : List Call) :
    let set := Runs.run (step ringOf) (create primarySize secondarySize) calls
    ((∃ enough, ∀ n ≥ enough, (ringManagement^[n] set).Refilled) ↔ set.Refilled) ∧
      ∀ n, (ringManagement^[n] set).entries = set.entries := by
  intro set
  have hfixed : ∀ n, ringManagement^[n] set = set :=
    fun n => Function.iterate_fixed (ringManagement_eq set) n
  refine ⟨?_, fun n => congrArg entries (hfixed n)⟩
  simp only [hfixed]
  constructor
  · rintro ⟨enough, hrefilled⟩
    exact hrefilled enough (Nat.le_refl _)
  · exact fun hrefilled => ⟨0, fun _ _ => hrefilled⟩

/-- The node of a full primary list is erased, and the node that waits is never promoted. -/
theorem ringManagement_never_refills :
    let first : RingNode := ⟨⟨1, 10⟩, List.replicate 32 1, false⟩
    let second : RingNode := ⟨⟨2, 20⟩, List.replicate 32 2, false⟩
    let set := Runs.run (step twoRings) (create 1 1)
      [.insert first 1, .insert second 1, .erase first]
    set.rings[0]? = some ⟨[], [second], false⟩ ∧ ∀ n, ¬(ringManagement^[n] set).Refilled := by
  intro first second set
  refine ⟨by decide +kernel, fun n => ?_⟩
  rw [Function.iterate_fixed (ringManagement_eq set) n]
  decide +kernel

end RingSet

end Poseidon
