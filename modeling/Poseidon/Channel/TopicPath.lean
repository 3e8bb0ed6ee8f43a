import Mathlib.Data.List.TakeDrop
import Poseidon.Channel.Aliases
import Poseidon.Channel.Subtopic

/-!
# Paths of topics

The first component of a path is an alias or the string of a topic id, what is behind the first
slash is a subtopic. `poseidon_resolve_path` works on a copy of the path and writes the two into
buffers of the result. A string that is no topic id leaves the id empty; the return code that says
so is not read.
-/

namespace Poseidon

def topicIdStrMax : Nat := 48

def pathCopySize : Nat := 512

def pathSubtopicSize : Nat := 256

/-- `poseidon_topic_id_t`. -/
structure TopicId where
  bytes : Bytes
  bitDepth : UInt16
  str : CString topicIdStrMax
deriving DecidableEq, Repr

namespace TopicId

def cleared : TopicId :=
  ⟨List.replicate 32 0, 0, CString.copy (topicIdStrMax - 1) []⟩

/-- `poseidon_topic_id_from_string` with its return code. -/
def fromString (string : Bytes) : Int × TopicId :=
  if string.length = 0 ∨ topicIdStrMax ≤ string.length then (-1, cleared)
  else
    (0, { cleared with
      bitDepth := if 32 ≤ string.length then 256 else 128
      str := CString.copy (topicIdStrMax - 1) string })

theorem str_fromString {string : Bytes} (hzero : (0 : UInt8) ∉ string) :
    (fromString string).2.str.bytes =
      if 0 < string.length ∧ string.length < topicIdStrMax then string else [] := by
  unfold fromString
  by_cases hfits : 0 < string.length ∧ string.length < topicIdStrMax
  · have haccepted : ¬(string.length = 0 ∨ topicIdStrMax ≤ string.length) := by omega
    rw [if_neg haccepted, if_pos hfits]
    exact CString.bytes_copy (Nat.le_pred_of_lt hfits.2) hzero
  · have hrefused : string.length = 0 ∨ topicIdStrMax ≤ string.length := by omega
    rw [if_pos hrefused, if_neg hfits]
    rfl

theorem str_fromString_eq_self_iff {string : Bytes} (hzero : (0 : UInt8) ∉ string) :
    (fromString string).2.str.bytes ≠ [] ∧ (fromString string).2.str.bytes = string ↔
      0 < string.length ∧ string.length < topicIdStrMax := by
  rw [str_fromString hzero]
  split_ifs with hfits
  · exact iff_of_true ⟨List.ne_nil_of_length_pos hfits.1, rfl⟩ hfits
  · exact iff_of_false (fun hboth => hboth.1 rfl) hfits

end TopicId

/-- `poseidon_path_resolve_result_t`. -/
structure PathResolution where
  topicId : TopicId
  subtopic : CString pathSubtopicSize
  found : Bool
  ambiguous : Bool
deriving DecidableEq, Repr

def firstComponent (path : Bytes) : Bytes :=
  path.takeWhile (· != subtopicSeparator)

/-- The path behind the first slash; nothing if there is none. -/
def behindFirst (path : Bytes) : Bytes :=
  path.drop ((firstComponent path).length + 1)

namespace AliasRegistry

/-- The topic id of the first component, and whether it was chosen among several. -/
def resolveFirst (registry : AliasRegistry) (name : Bytes) : TopicId × Bool :=
  let resolved := registry.resolveEx name
  match resolved.status with
  | .ok => ((TopicId.fromString resolved.topic.bytes).2, false)
  | .ambiguous =>
      let candidate := resolved.candidates.headD (CString.copy (aliasMaxTopic - 1) [])
      ((TopicId.fromString candidate.bytes).2, true)
  | .notFound => ((TopicId.fromString name).2, false)

/-- `poseidon_resolve_path` with its return code. -/
def resolvePath (registry : AliasRegistry) (path : Bytes) : Int × PathResolution :=
  let pathCopy := (CString.copy (pathCopySize - 1) path).bytes
  let first := registry.resolveFirst (firstComponent pathCopy)
  (0,
    { topicId := first.1
      subtopic := CString.copy (pathSubtopicSize - 1) (behindFirst pathCopy)
      found := true
      ambiguous := first.2 })

/-- The topic a name stands for: that of the only alias, or the name itself. -/
def meant (registry : AliasRegistry) (name : Bytes) : Bytes :=
  ((registry.only name).map (·.bytes)).getD name

/-! ### Long names -/

theorem topicsOf_eq_nil (registry : AliasRegistry) {name : Bytes}
    (hlong : aliasMaxName ≤ name.length) : registry.topicsOf name = [] := by
  rw [topicsOf, List.map_eq_nil_iff, List.filter_eq_nil_iff]
  intro entry _ hmatch
  have hshort := entry.name.length_lt
  rw [eq_of_beq hmatch] at hshort
  omega

variable {registry : AliasRegistry}

theorem meant_eq_self {name : Bytes} (hnone : registry.topicsOf name = []) :
    registry.meant name = name := by
  rw [meant, only, hnone]
  rfl

theorem zero_not_mem_meant {name : Bytes} (hname : (0 : UInt8) ∉ name) :
    (0 : UInt8) ∉ registry.meant name := by
  unfold meant
  cases registry.only name with
  | none => exact hname
  | some topic => exact topic.zero_not_mem

/-! ### The first component -/

theorem resolveFirst_of_unambiguous {name : Bytes} (hone : (registry.topicsOf name).length ≤ 1) :
    registry.resolveFirst name = ((TopicId.fromString (registry.meant name)).2, false) := by
  rw [resolveFirst, meant, only, resolveEx_eq]
  generalize registry.topicsOf name = topics at hone ⊢
  rcases topics with _ | ⟨topic, _ | ⟨other, rest⟩⟩
  · rfl
  · rfl
  · exact absurd hone (by simp)

theorem resolveFirst_of_ambiguous {name : Bytes} (hmany : 1 < (registry.topicsOf name).length) :
    (registry.resolveFirst name).2 = true := by
  rw [resolveFirst, resolveEx_eq]
  generalize registry.topicsOf name = topics at hmany ⊢
  rcases topics with _ | ⟨topic, _ | ⟨other, rest⟩⟩
  · exact absurd hmany (by decide)
  · exact absurd hmany (by simp)
  · rfl

theorem resolveFirst_of_long (registry : AliasRegistry) {name : Bytes}
    (hlong : aliasMaxName ≤ name.length) (hzero : (0 : UInt8) ∉ name) :
    (registry.resolveFirst name).1.str.bytes = [] ∧ (registry.resolveFirst name).2 = false := by
  have hnone := registry.topicsOf_eq_nil hlong
  have hone : (registry.topicsOf name).length ≤ 1 := by
    rw [hnone]
    exact Nat.zero_le 1
  have hrefused : ¬(0 < name.length ∧ name.length < topicIdStrMax) := fun hboth =>
    absurd (lt_of_le_of_lt hlong hboth.2) (by decide)
  rw [resolveFirst_of_unambiguous hone, meant_eq_self hnone]
  exact ⟨(TopicId.str_fromString hzero).trans (if_neg hrefused), rfl⟩

/-! ### The copy of the path -/

theorem bytes_pathCopy (path : CText) :
    (CString.copy (pathCopySize - 1) path.bytes).bytes = path.bytes.take (pathCopySize - 1) :=
  CString.bytes_copy_eq_take path.zero_not_mem _

theorem firstComponent_take (path : Bytes) (size : Nat) :
    firstComponent (path.take size) = (firstComponent path).take size :=
  List.take_takeWhile.symm

section Short

variable {path : CText} (hshort : (firstComponent path.bytes).length < aliasMaxName)

include hshort

theorem firstComponent_pathCopy :
    firstComponent (CString.copy (pathCopySize - 1) path.bytes).bytes =
      firstComponent path.bytes := by
  rw [bytes_pathCopy, firstComponent_take]
  exact List.take_of_length_le (le_trans hshort.le (by decide))

/-- Behind a short component the copy of the path has more than fits the buffer. -/
theorem subtopic_pathCopy :
    (CString.copy (pathSubtopicSize - 1)
        (behindFirst (CString.copy (pathCopySize - 1) path.bytes).bytes)).bytes =
      (behindFirst path.bytes).take (pathSubtopicSize - 1) := by
  have hzero : (0 : UInt8) ∉ behindFirst (CString.copy (pathCopySize - 1) path.bytes).bytes :=
    fun hmem => CString.zero_not_mem _ (List.mem_of_mem_drop hmem)
  have hroom : pathSubtopicSize - 1 ≤
      pathCopySize - 1 - ((firstComponent path.bytes).length + 1) := by
    have hsizes : pathSubtopicSize + aliasMaxName ≤ pathCopySize := by decide
    omega
  rw [CString.bytes_copy_eq_take hzero, behindFirst, firstComponent_pathCopy hshort,
    bytes_pathCopy, List.drop_take, List.take_take, min_eq_left hroom]
  rfl

end Short

/-! ### Faithfulness -/

/-- The id is that of the topic the first component stands for, and the subtopic is the rest. -/
def Represents (registry : AliasRegistry) (path : Bytes) (result : PathResolution) : Prop :=
  result.topicId.str.bytes ≠ [] ∧
    result.topicId.str.bytes = registry.meant (firstComponent path) ∧
    result.subtopic.bytes = behindFirst path

theorem zero_not_mem_firstComponent (path : CText) :
    (0 : UInt8) ∉ firstComponent path.bytes :=
  fun hmem => path.zero_not_mem ((List.takeWhile_sublist _).subset hmem)

theorem represents_iff_of_short (registry : AliasRegistry) {path : CText}
    (hshort : (firstComponent path.bytes).length < aliasMaxName)
    (hone : (registry.topicsOf (firstComponent path.bytes)).length ≤ 1) :
    registry.Represents path.bytes (registry.resolvePath path.bytes).2 ↔
      (0 < (registry.meant (firstComponent path.bytes)).length ∧
        (registry.meant (firstComponent path.bytes)).length < topicIdStrMax) ∧
      (behindFirst path.bytes).length < pathSubtopicSize := by
  have hid : (registry.resolvePath path.bytes).2.topicId =
      (TopicId.fromString (registry.meant (firstComponent path.bytes))).2 := by
    change (registry.resolveFirst (firstComponent _)).1 = _
    rw [firstComponent_pathCopy hshort, resolveFirst_of_unambiguous hone]
  have hsubtopic : (registry.resolvePath path.bytes).2.subtopic.bytes =
      (behindFirst path.bytes).take (pathSubtopicSize - 1) := subtopic_pathCopy hshort
  rw [Represents, hid, hsubtopic, ← and_assoc, TopicId.str_fromString_eq_self_iff
    (zero_not_mem_meant (zero_not_mem_firstComponent path)), List.take_eq_self_iff]
  exact and_congr_right fun _ => (Nat.lt_iff_le_pred (by decide)).symm

theorem not_represents_of_long (registry : AliasRegistry) {path : CText}
    (hlong : aliasMaxName ≤ (firstComponent path.bytes).length) :
    (registry.resolvePath path.bytes).2.ambiguous = false ∧
      ¬registry.Represents path.bytes (registry.resolvePath path.bytes).2 := by
  have hlength : aliasMaxName ≤
      (firstComponent (CString.copy (pathCopySize - 1) path.bytes).bytes).length := by
    rw [bytes_pathCopy, firstComponent_take, List.length_take]
    exact le_min (by decide) hlong
  have hzero : (0 : UInt8) ∉ firstComponent (CString.copy (pathCopySize - 1) path.bytes).bytes :=
    fun hmem => CString.zero_not_mem _ ((List.takeWhile_sublist _).subset hmem)
  obtain ⟨hempty, hambiguous⟩ := registry.resolveFirst_of_long hlength hzero
  exact ⟨hambiguous, fun hrepresents => hrepresents.1 hempty⟩

/-- **Path resolution.** What the path stands for is found exactly if the topic is not empty and
fits a topic id and the rest of the path fits the subtopic, unless the result says that the first
component is ambiguous. -/
theorem resolvePath_represents_iff (registry : AliasRegistry) (path : CText) :
    ((registry.resolvePath path.bytes).1 = 0 →
        (registry.resolvePath path.bytes).2.found = true →
        (registry.resolvePath path.bytes).2.ambiguous = false →
        registry.Represents path.bytes (registry.resolvePath path.bytes).2) ↔
      1 < (registry.topicsOf (firstComponent path.bytes)).length ∨
        (0 < (registry.meant (firstComponent path.bytes)).length ∧
          (registry.meant (firstComponent path.bytes)).length < topicIdStrMax) ∧
        (behindFirst path.bytes).length < pathSubtopicSize := by
  rcases lt_or_ge (firstComponent path.bytes).length aliasMaxName with hshort | hlong
  · rcases le_or_gt (registry.topicsOf (firstComponent path.bytes)).length 1 with hone | hmany
    · have hflag : (registry.resolvePath path.bytes).2.ambiguous = false := by
        change (registry.resolveFirst (firstComponent _)).2 = false
        rw [firstComponent_pathCopy hshort, resolveFirst_of_unambiguous hone]
      rw [or_iff_right (not_lt.mpr hone), ← registry.represents_iff_of_short hshort hone]
      exact ⟨fun hresult => hresult rfl rfl hflag, fun hrepresents _ _ _ => hrepresents⟩
    · have hflag : (registry.resolvePath path.bytes).2.ambiguous = true := by
        change (registry.resolveFirst (firstComponent _)).2 = true
        rw [firstComponent_pathCopy hshort, resolveFirst_of_ambiguous hmany]
      refine iff_of_true (fun _ _ hclear => ?_) (Or.inl hmany)
      cases hflag.symm.trans hclear
  · obtain ⟨hflag, hnot⟩ := registry.not_represents_of_long hlong
    have hnone := registry.topicsOf_eq_nil hlong
    refine iff_of_false (fun hresult => hnot (hresult rfl rfl hflag)) ?_
    rintro (hmany | ⟨⟨-, hfits⟩, -⟩)
    · rw [hnone] at hmany
      exact absurd hmany (by decide)
    · rw [meant_eq_self hnone] at hfits
      exact absurd (lt_of_le_of_lt hlong hfits) (by decide)

/-- The result is said to be found and not to be ambiguous, with the given strings. -/
def Finds (registry : AliasRegistry) (path str subtopic : Bytes) : Prop :=
  let result := registry.resolvePath path
  result.1 = 0 ∧ result.2.found = true ∧ result.2.ambiguous = false ∧
    result.2.topicId.str.bytes = str ∧ result.2.subtopic.bytes = subtopic

instance (registry : AliasRegistry) (path str subtopic : Bytes) :
    Decidable (registry.Finds path str subtopic) :=
  inferInstanceAs (Decidable (_ ∧ _ ∧ _ ∧ _ ∧ _))

/-- The paths `/x`, with an empty first component, and `a`, an alias of a topic of 48 bytes, have an
empty id; the subtopic of 256 bytes behind `a` is cut. -/
theorem resolvePath_not_represents :
    (create 32).Finds [47, 120] [] [120] ∧
      (((create 32).register [97] (List.replicate 48 84)).any fun registry =>
        registry.Finds [97] [] []) = true ∧
      (create 32).Finds (97 :: 47 :: List.replicate 256 98) [97] (List.replicate 255 98) := by
  decide +kernel

end AliasRegistry

end Poseidon
