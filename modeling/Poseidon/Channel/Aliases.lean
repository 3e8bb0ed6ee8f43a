import Mathlib.Data.List.Induction
import Poseidon.Lib.CString
import Poseidon.Lib.Runs
import Poseidon.Lib.Tables

/-!
# Aliases of topics

A channel has a registry of names for topics. A name may be registered more than once.
`topic_alias_resolve` then gives the topic of the first entry that has it; `topic_alias_resolve_ex`
reports that the name is ambiguous. Names and topics are cut to the size of the entries, so that the
registry holds what was registered only if that was short enough.
-/

namespace Poseidon

def aliasMaxName : Nat := 64

def aliasMaxTopic : Nat := 64

def aliasMaxCandidates : Nat := 8

structure AliasEntry where
  name : CString aliasMaxName
  topic : CString aliasMaxTopic
deriving DecidableEq, Repr

/-- `topic_alias_registry_t`. -/
structure AliasRegistry where
  entries : List AliasEntry
  capacity : Nat
  length_entries : entries.length ≤ capacity
deriving DecidableEq, Repr

/-- `topic_alias_resolve_result_t`. -/
inductive AliasStatus where
  | ok
  | ambiguous
  | notFound
deriving DecidableEq, Repr

def AliasStatus.ofCount (count : Nat) : AliasStatus :=
  if count = 0 then .notFound
  else if count = 1 then .ok
  else .ambiguous

/-- `topic_alias_resolve_out_t`. -/
structure AliasResolution where
  status : AliasStatus
  topic : CString aliasMaxTopic
  candidates : List (CString aliasMaxTopic)
  numCandidates : Nat
deriving DecidableEq, Repr

namespace AliasResolution

def cleared : AliasResolution :=
  ⟨.ok, CString.copy (aliasMaxTopic - 1) [], [], 0⟩

/-- A match in the loop of `topic_alias_resolve_ex`, with the matches so far in `numCandidates`. -/
def addMatch (out : AliasResolution) (topic : CString aliasMaxTopic) : AliasResolution where
  status := out.status
  topic := if out.numCandidates = 0 then topic else out.topic
  candidates :=
    if out.numCandidates < aliasMaxCandidates then out.candidates ++ [topic] else out.candidates
  numCandidates := out.numCandidates + 1

def scan (name : Bytes) (out : AliasResolution) (entry : AliasEntry) : AliasResolution :=
  if entry.name.bytes == name then out.addMatch entry.topic else out

/-- The topic, which is valid only if the status says so. -/
def yielded (out : AliasResolution) : Option (CString aliasMaxTopic) :=
  if out.status = .ok then some out.topic else none

end AliasResolution

/-- The element of a list that has one. -/
def onlyOf {α : Type*} : List α → Option α
  | [] => none
  | [value] => some value
  | _ :: _ :: _ => none

theorem onlyOf_map {α β : Type*} (f : α → β) : ∀ values : List α,
    onlyOf (values.map f) = (onlyOf values).map f
  | [] => rfl
  | [_] => rfl
  | _ :: _ :: _ => rfl

theorem head?_eq_onlyOf_iff {α : Type*} : ∀ {values : List α},
    values.head? = onlyOf values ↔ values.length ≤ 1
  | [] => iff_of_true rfl (Nat.zero_le 1)
  | [_] => iff_of_true rfl le_rfl
  | value :: _ :: _ => iff_of_false (Option.some_ne_none value) (by simp)

namespace AliasRegistry

def create (capacity : Nat) : AliasRegistry where
  entries := []
  capacity := if capacity = 0 then 16 else capacity
  length_entries := Nat.zero_le _

/-- `topic_alias_register`; there is nothing where the registry is full. -/
def register (registry : AliasRegistry) (name topic : Bytes) : Option AliasRegistry :=
  if hroom : registry.entries.length < registry.capacity then
    some
      { entries := registry.entries ++
          [⟨CString.copy (aliasMaxName - 1) name, CString.copy (aliasMaxTopic - 1) topic⟩]
        capacity := registry.capacity
        length_entries := by
          rw [List.length_append]
          exact hroom }
  else none

/-- `topic_alias_unregister`; there is nothing where the name is not found. -/
def unregister (registry : AliasRegistry) (name : Bytes) : Option AliasRegistry :=
  (registry.entries.findIdx? fun entry => entry.name.bytes == name).map fun index =>
    { entries := swapRemove registry.entries index
      capacity := registry.capacity
      length_entries := Nat.le_trans (length_swapRemove_le _ _) registry.length_entries }

/-- `topic_alias_resolve`. -/
def resolve (registry : AliasRegistry) (name : Bytes) : Option (CString aliasMaxTopic) :=
  (registry.entries.find? fun entry => entry.name.bytes == name).map (·.topic)

/-- `topic_alias_resolve_ex`. -/
def resolveEx (registry : AliasRegistry) (name : Bytes) : AliasResolution :=
  let out := registry.entries.foldl (AliasResolution.scan name) AliasResolution.cleared
  { out with status := .ofCount out.numCandidates }

def HasRoom (registry : AliasRegistry) : Prop :=
  registry.entries.length < registry.capacity

variable (registry : AliasRegistry)

theorem isSome_register_iff (name topic : Bytes) :
    (registry.register name topic).isSome = true ↔ registry.HasRoom := by
  unfold register HasRoom
  split_ifs with hroom
  · exact iff_of_true rfl hroom
  · exact iff_of_false Bool.false_ne_true hroom

theorem resolve_register {registry registered : AliasRegistry} {topic : Bytes}
    (name : CString aliasMaxName) (hnew : registry.resolve name.bytes = none)
    (hregister : registry.register name.bytes topic = some registered) :
    registered.resolve name.bytes = some (CString.copy (aliasMaxTopic - 1) topic) := by
  have hstored : (CString.copy (aliasMaxName - 1) name.bytes).bytes = name.bytes :=
    CString.bytes_copy (Nat.le_pred_of_lt name.length_lt) name.zero_not_mem
  have hnone := Option.map_eq_none_iff.mp hnew
  unfold register at hregister
  split_ifs at hregister
  obtain rfl := Option.some.inj hregister
  unfold resolve
  rw [List.find?_append, hnone, Option.none_or, List.find?_cons_of_pos]
  · rfl
  · rw [hstored]
    exact beq_self_eq_true name.bytes

/-! ### Ambiguous names -/

def topicsOf (registry : AliasRegistry) (name : Bytes) : List (CString aliasMaxTopic) :=
  (registry.entries.filter fun entry => entry.name.bytes == name).map (·.topic)

def only (registry : AliasRegistry) (name : Bytes) : Option (CString aliasMaxTopic) :=
  onlyOf (registry.topicsOf name)

theorem resolve_eq_head? (name : Bytes) :
    registry.resolve name = (registry.topicsOf name).head? := by
  rw [resolve, topicsOf, List.head?_map, List.head?_filter]

theorem foldl_addMatch (topics : List (CString aliasMaxTopic)) :
    topics.foldl AliasResolution.addMatch .cleared =
      ⟨.ok, topics.headD (CString.copy (aliasMaxTopic - 1) []), topics.take aliasMaxCandidates,
        topics.length⟩ := by
  induction topics using List.reverseRecOn with
  | nil => rfl
  | append_singleton topics topic ih =>
      rw [List.foldl_append, ih, List.foldl_cons, List.foldl_nil, AliasResolution.addMatch,
        AliasResolution.mk.injEq, List.length_append]
      refine ⟨rfl, ?_, ?_, rfl⟩
      · cases topics <;> rfl
      · dsimp only
        split_ifs with hroom
        · rw [List.take_of_length_le hroom.le, List.take_of_length_le]
          rw [List.length_append]
          exact hroom
        · rw [List.take_append_of_le_length (not_lt.mp hroom)]

theorem resolveEx_eq (name : Bytes) :
    registry.resolveEx name =
      ⟨.ofCount (registry.topicsOf name).length,
        (registry.topicsOf name).headD (CString.copy (aliasMaxTopic - 1) []),
        (registry.topicsOf name).take aliasMaxCandidates, (registry.topicsOf name).length⟩ := by
  have hloop : registry.entries.foldl (AliasResolution.scan name) .cleared =
      (registry.topicsOf name).foldl AliasResolution.addMatch .cleared := by
    rw [topicsOf, List.foldl_map, List.foldl_filter]
    rfl
  rw [resolveEx, hloop, foldl_addMatch]

theorem yielded_resolveEx (name : Bytes) :
    (registry.resolveEx name).yielded = registry.only name := by
  rw [resolveEx_eq, only]
  rcases registry.topicsOf name with _ | ⟨topic, _ | ⟨other, rest⟩⟩ <;> rfl

end AliasRegistry

/-! ### What is registered -/

/-- `topic_alias_register` and `topic_alias_unregister`, with their strings. -/
inductive AliasCall where
  | register (name topic : Bytes)
  | unregister (name : Bytes)
deriving DecidableEq, Repr

/-- The strings to register have room in an entry. -/
def AliasCall.Fits : AliasCall → Prop
  | .register name topic => (name.length < aliasMaxName ∧ (0 : UInt8) ∉ name) ∧
      topic.length < aliasMaxTopic ∧ (0 : UInt8) ∉ topic
  | .unregister _ => True

instance : DecidablePred AliasCall.Fits
  | .register _ _ => instDecidableAnd
  | .unregister _ => instDecidableTrue

/-- A registry, and beside it the names and topics that are registered, as they were given. -/
structure AliasHistory where
  registry : AliasRegistry
  registered : List (Bytes × Bytes)

namespace AliasHistory

/-- A call that fails registers or removes nothing. As the entry, the last pair takes the place of
the one removed. -/
def step (history : AliasHistory) : AliasCall → AliasHistory
  | .register name topic =>
      match history.registry.register name topic with
      | none => history
      | some registry => ⟨registry, history.registered ++ [(name, topic)]⟩
  | .unregister name =>
      match history.registry.unregister name with
      | none => history
      | some registry =>
          ⟨registry, ((history.registered.findIdx? (·.1 == name)).map
            (swapRemove history.registered)).getD history.registered⟩

def after (capacity : Nat) (calls : List AliasCall) : AliasHistory :=
  Runs.run step ⟨.create capacity, []⟩ calls

def topicsOf (history : AliasHistory) (name : Bytes) : List Bytes :=
  (history.registered.filter (·.1 == name)).map Prod.snd

/-- The entries are the pairs, uncut. -/
def Holds (history : AliasHistory) : Prop :=
  history.registered = history.registry.entries.map fun entry =>
    (entry.name.bytes, entry.topic.bytes)

variable {history : AliasHistory}

theorem Holds.step (hholds : history.Holds) {call : AliasCall} (hfits : call.Fits) :
    (history.step call).Holds := by
  cases call with
  | register name topic =>
      obtain ⟨⟨hname, hnameZero⟩, htopic, htopicZero⟩ := hfits
      unfold AliasHistory.step AliasRegistry.register
      split_ifs
      · have hstored : (CString.copy (aliasMaxName - 1) name).bytes = name :=
          CString.bytes_copy (Nat.le_pred_of_lt hname) hnameZero
        have hmeant : (CString.copy (aliasMaxTopic - 1) topic).bytes = topic :=
          CString.bytes_copy (Nat.le_pred_of_lt htopic) htopicZero
        unfold Holds
        rw [hholds, List.map_append, List.map_singleton, hstored, hmeant]
      · exact hholds
  | unregister name =>
      have hindex : history.registered.findIdx? (·.1 == name) =
          history.registry.entries.findIdx? fun entry => entry.name.bytes == name := by
        rw [hholds, List.findIdx?_map]
        rfl
      unfold AliasHistory.step AliasRegistry.unregister
      dsimp only
      rw [hindex]
      cases history.registry.entries.findIdx? fun entry => entry.name.bytes == name with
      | none => exact hholds
      | some index =>
          unfold Holds
          exact (congrArg (swapRemove · index) hholds).trans (map_swapRemove _ _ _).symm

theorem holds_after (capacity : Nat) {calls : List AliasCall}
    (hfits : ∀ call ∈ calls, call.Fits) : (after capacity calls).Holds := by
  have hmeets : Runs.Meets AliasHistory.step (fun _ call => call.Fits) ⟨.create capacity, []⟩
      calls :=
    Runs.meets_of_forall _ fun call hcall _ => hfits call hcall
  exact Runs.invariant_of_meets AliasHistory.step Holds
    (fun _ _ hholds hfits => hholds.step hfits) rfl hmeets

theorem Holds.map_topicsOf (hholds : history.Holds) (name : Bytes) :
    (history.registry.topicsOf name).map (·.bytes) = history.topicsOf name := by
  rw [topicsOf, hholds, List.filter_map, List.map_map, AliasRegistry.topicsOf, List.map_map]
  rfl

theorem Holds.map_resolve (hholds : history.Holds) (name : Bytes) :
    (history.registry.resolve name).map (·.bytes) = (history.topicsOf name).head? := by
  rw [← hholds.map_topicsOf, List.head?_map, AliasRegistry.resolve_eq_head?]

theorem Holds.map_yielded (hholds : history.Holds) (name : Bytes) :
    (history.registry.resolveEx name).yielded.map (·.bytes) = onlyOf (history.topicsOf name) := by
  rw [← hholds.map_topicsOf, onlyOf_map, history.registry.yielded_resolveEx]
  rfl

end AliasHistory

end Poseidon
