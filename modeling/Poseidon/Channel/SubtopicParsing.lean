import Poseidon.Channel.Subtopic
import Poseidon.Lib.Segments

/-!
# The parts of a subtopic

`subtopic_parse` copies the segments of a path into the rows of a table, each with its final zero.
It goes on until the path ends or the table is full, and gives up at a segment that does not fit a
row. The segments behind a full table are not looked at.
-/

namespace Poseidon

open Segments

def subtopicMaxPartLen : Nat := 64

abbrev SubtopicPart := CString 64

/-- A segment becomes the next row, unless it is empty; it has to fit. -/
def addPart (parts : List SubtopicPart) (segment : Bytes) : Option (List SubtopicPart) :=
  if segment.length ≥ subtopicMaxPartLen then none
  else if segment.length > 0 then some (parts ++ [CString.copy 63 segment])
  else some parts

/-- What is done behind the loop, with the string from `start` on. -/
def addLastPart (maxParts : Int) (parts : List SubtopicPart) (start : Bytes) :
    Option (List SubtopicPart) :=
  if start ≠ [] ∧ parts.length < maxParts then addPart parts start else some parts

/-- The loop of `subtopic_parse`, with the characters from `start` to `p` and those from `p` on. -/
def parseLoop (maxParts : Int) :
    List SubtopicPart → Bytes → Bytes → Option (List SubtopicPart)
  | parts, segment, [] => addLastPart maxParts parts segment
  | parts, segment, char :: rest =>
      if parts.length < maxParts then
        if char = subtopicSeparator then
          (addPart parts segment).bind fun added => parseLoop maxParts added [] rest
        else parseLoop maxParts parts (segment ++ [char]) rest
      else addLastPart maxParts parts (segment ++ char :: rest)

/-- `subtopic_parse`: the rows it writes, whose number it returns, or none for -1. -/
def subtopicParse (path : Bytes) (maxParts : Int) : Option (List SubtopicPart) :=
  if maxParts ≤ 0 then none
  else if path.isEmpty then some []
  else parseLoop maxParts [] [] path

/-! ### Segments and rows -/

theorem addLastPart_eq (parts : List SubtopicPart) {segment : Bytes}
    (hsegment : subtopicSeparator ∉ segment) {room : Nat} :
    addLastPart (parts.length + room) parts segment =
      ((split subtopicSeparator segment).take room).foldlM addPart parts := by
  unfold addLastPart
  rw [split_of_not_mem hsegment]
  by_cases hnil : segment = []
  · rw [if_neg (fun hboth => hboth.1 hnil), if_pos hnil, List.take_nil]
    rfl
  · rw [if_neg hnil]
    cases room with
    | zero =>
        rw [if_neg (by omega)]
        rfl
    | succ room =>
        rw [if_pos ⟨hnil, by omega⟩, List.take_succ_cons, List.take_nil, List.foldlM_cons]
        exact (bind_pure _).symm

theorem length_addPart {parts added : List SubtopicPart} {segment : Bytes}
    (hadded : addPart parts segment = some added) :
    added.length = parts.length + (if segment = [] then 0 else 1) := by
  unfold addPart at hadded
  split_ifs at hadded with hlong hsome
  · obtain rfl := Option.some.inj hadded
    rw [if_neg (List.ne_nil_of_length_pos hsome), List.length_append, List.length_singleton]
  · obtain rfl := Option.some.inj hadded
    rw [if_pos (List.eq_nil_of_length_eq_zero (by omega)), Nat.add_zero]

/-- **The loop.** The segments of what is left are added one after the other, as long as there is
room. -/
theorem parseLoop_eq (parts : List SubtopicPart) {segment : Bytes}
    (hsegment : subtopicSeparator ∉ segment) (rest : Bytes) (room : Nat) :
    parseLoop (parts.length + room) parts segment rest =
      ((split subtopicSeparator (segment ++ rest)).take room).foldlM addPart parts := by
  induction rest generalizing parts segment room with
  | nil => rw [parseLoop, List.append_nil, addLastPart_eq parts hsegment]
  | cons char rest ih =>
      rw [parseLoop]
      cases room with
      | zero =>
          rw [if_neg (by omega), addLastPart, if_neg (by omega)]
          rfl
      | succ room =>
          rw [if_pos (by omega)]
          by_cases hchar : char = subtopicSeparator
          · subst hchar
            rw [if_pos rfl, split_append_cons hsegment, split_of_not_mem hsegment]
            have hnone : subtopicSeparator ∉ ([] : Bytes) := List.not_mem_nil
            by_cases hnil : segment = []
            · rw [if_pos hnil, hnil, List.nil_append]
              exact ih parts hnone (room + 1)
            · rw [if_neg hnil, List.singleton_append, List.take_succ_cons, List.foldlM_cons]
              refine Option.bind_congr fun added hadded => ?_
              have hlength := length_addPart hadded
              rw [if_neg hnil] at hlength
              have hroom : (parts.length : Int) + ((room + 1 : Nat) : Int) =
                  added.length + room := by omega
              rw [hroom]
              exact ih added hnone room
          · have hlonger : subtopicSeparator ∉ segment ++ [char] := by
              rw [List.mem_append, List.mem_singleton]
              exact fun hmem => hmem.elim hsegment fun heq => hchar heq.symm
            rw [if_neg hchar, ih parts hlonger, List.append_assoc, List.singleton_append]

theorem foldlM_addPart {segments : List Bytes} (hne : ∀ segment ∈ segments, segment ≠ [])
    (parts : List SubtopicPart) :
    segments.foldlM addPart parts =
      if ∀ segment ∈ segments, segment.length < subtopicMaxPartLen then
        some (parts ++ segments.map (CString.copy 63))
      else none := by
  induction segments generalizing parts with
  | nil =>
      rw [if_pos fun segment hsegment => absurd hsegment List.not_mem_nil, List.map_nil,
        List.append_nil]
      rfl
  | cons segment segments ih =>
      have hothers := ih fun other hother => hne other (List.mem_cons_of_mem _ hother)
      rw [List.foldlM_cons]
      by_cases hlong : segment.length ≥ subtopicMaxPartLen
      · have hnone : addPart parts segment = none := if_pos hlong
        rw [hnone, if_neg fun hall => absurd (hall segment List.mem_cons_self) (not_lt.mpr hlong)]
        rfl
      · have hsome : addPart parts segment = some (parts ++ [CString.copy 63 segment]) := by
          rw [addPart, if_neg hlong,
            if_pos (List.length_pos_of_ne_nil (hne segment List.mem_cons_self))]
        rw [hsome, Option.bind_eq_bind, Option.bind_some, hothers]
        simp only [List.forall_mem_cons, not_le.mp hlong, true_and, List.map_cons,
          List.append_assoc, List.singleton_append]

/-- The first segments of the path, as many as the table has rows. -/
def firstSegments (path : Bytes) (maxParts : Int) : List Bytes :=
  (split subtopicSeparator path).take maxParts.toNat

theorem subtopicParse_eq (path : Bytes) {maxParts : Int} (hrows : 1 ≤ maxParts) :
    subtopicParse path maxParts =
      if ∀ segment ∈ firstSegments path maxParts, segment.length < subtopicMaxPartLen then
        some ((firstSegments path maxParts).map (CString.copy 63))
      else none := by
  have hloop : parseLoop maxParts [] [] path = (firstSegments path maxParts).foldlM addPart [] := by
    have hcount : (([] : List SubtopicPart).length : Int) + maxParts.toNat = maxParts := by
      rw [List.length_nil]
      omega
    have heq := @parseLoop_eq [] [] List.not_mem_nil path maxParts.toNat
    rw [hcount] at heq
    exact heq
  have hparse : subtopicParse path maxParts = parseLoop maxParts [] [] path := by
    unfold subtopicParse
    rw [if_neg (by omega)]
    cases path with
    | nil =>
        rw [if_pos List.isEmpty_nil, parseLoop, addLastPart, if_neg fun hboth => hboth.1 rfl]
    | cons char rest => rfl
  rw [hparse, hloop, foldlM_addPart]
  · rfl
  · intro segment hsegment
    exact ne_nil_of_mem_split (List.mem_of_mem_take hsegment)

/-- **Parsing.** A path is refused exactly if one of its first segments does not fit a row.
Otherwise the rows hold its first segments in order: all of them, or as many as there are rows. -/
theorem subtopicParse_firstSegments (path : CText) (maxParts : Int) (hrows : 1 ≤ maxParts) :
    (subtopicParse path.bytes maxParts = none ∧
        ∃ segment ∈ firstSegments path.bytes maxParts, subtopicMaxPartLen ≤ segment.length) ∨
      ∃ parts, subtopicParse path.bytes maxParts = some parts ∧
        (parts.length : Int) =
          min maxParts (split subtopicSeparator path.bytes).length ∧
        parts.map (·.bytes) = firstSegments path.bytes maxParts := by
  rw [subtopicParse_eq path.bytes hrows]
  split_ifs with hfit
  · refine Or.inr ⟨_, rfl, ?_, ?_⟩
    · rw [List.length_map, firstSegments, List.length_take]
      omega
    · rw [List.map_map]
      refine (List.map_congr_left fun segment hsegment => ?_).trans (List.map_id _)
      apply CString.bytes_copy (Nat.le_of_lt_succ (hfit segment hsegment))
      intro hzero
      exact path.zero_not_mem (mem_of_mem_split (List.mem_of_mem_take hsegment) hzero)
  · simp only [not_forall, not_lt, exists_prop] at hfit
    exact Or.inl ⟨rfl, hfit⟩

/-- The path `a/b` in a table of two rows. -/
theorem subtopicParse_firstSegments_two :
    ∃ parts, subtopicParse [97, 47, 98] 2 = some parts ∧ parts.map (·.bytes) = [[97], [98]] := by
  have hsplit : firstSegments [97, 47, 98] 2 = [[97], [98]] := by decide
  rcases subtopicParse_firstSegments ⟨[97, 47, 98], by decide⟩ 2 (by decide) with hnone | hsome
  · obtain ⟨-, segment, hsegment, hlong⟩ := hnone
    rw [hsplit] at hsegment
    revert segment
    decide
  · obtain ⟨parts, hparse, -, hparts⟩ := hsome
    exact ⟨parts, hparse, hparts.trans hsplit⟩

/-- The path `a/b` has two segments, and a table of one row gets the first of them. -/
theorem subtopicParse_one_row :
    (split subtopicSeparator [97, 47, 98]).length = 2 ∧
      (subtopicParse [97, 47, 98] 1).map (·.map (·.bytes)) = some [[97]] := by
  decide

end Poseidon
