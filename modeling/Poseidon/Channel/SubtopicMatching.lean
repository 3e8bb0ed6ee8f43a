import Poseidon.Channel.Subtopic
import Poseidon.Lib.Segments

/-!
# Subtopics match by whole segments

A subscription without its trailing separators is compared with the characters at the start of the
message, and behind it the message has to end or go on with a separator. With at least one segment
in the subscription this is the prefix of the segments. A subscription of separators only is cut to
the empty string, and then the message has to begin with a separator, which it does not.
-/

namespace Poseidon

open Segments

def trimmed (subscription : Bytes) : Bytes :=
  subscription.rdropWhile (· == subtopicSeparator)

theorem take_trimLength (subscription : Bytes) {length : Nat}
    (hlength : length ≤ subscription.length) :
    subscription.take (trimLength subscription length) = trimmed (subscription.take length) ∧
      trimLength subscription length ≤ length := by
  induction length with
  | zero => exact ⟨rfl, le_rfl⟩
  | succ length ih =>
      have hlast : subscription[length]? = some subscription[length] :=
        List.getElem?_eq_getElem (by omega)
      have htake : subscription.take (length + 1) =
          subscription.take length ++ [subscription[length]] :=
        (List.take_append_getElem (by omega)).symm
      obtain ⟨hfront, hle⟩ := ih (by omega)
      by_cases hseparator : subscription[length] = subtopicSeparator
      · rw [trimLength, if_pos (by rw [hlast, hseparator]), trimmed, htake,
          List.rdropWhile_concat, if_pos (beq_iff_eq.mpr hseparator)]
        exact ⟨hfront, by omega⟩
      · rw [trimLength, if_neg (by rw [hlast, Option.some.injEq]; exact hseparator), trimmed, htake,
          List.rdropWhile_concat, if_neg (by rwa [beq_iff_eq])]
        exact ⟨rfl, le_rfl⟩

theorem take_trimLength_length (subscription : Bytes) :
    subscription.take (trimLength subscription subscription.length) = trimmed subscription := by
  rw [(take_trimLength subscription le_rfl).1, List.take_length]

theorem trimLength_eq_length (subscription : Bytes) :
    trimLength subscription subscription.length = (trimmed subscription).length := by
  have hle := (take_trimLength subscription le_rfl).2
  rw [← take_trimLength_length, List.length_take]
  omega

theorem subtopicMatches_iff (message subscription : Bytes) :
    subtopicMatches message subscription = true ↔
      subscription = [] ∨
        ∃ rest, Ends subtopicSeparator rest ∧ message = trimmed subscription ++ rest := by
  unfold subtopicMatches
  cases hempty : subscription.isEmpty with
  | true => exact iff_of_true rfl (Or.inl (List.isEmpty_iff.mp hempty))
  | false =>
      have hne : subscription ≠ [] := by
        rintro rfl
        cases hempty
      rw [if_neg Bool.false_ne_true]
      dsimp only
      rw [take_trimLength_length, trimLength_eq_length, or_iff_right hne]
      constructor
      · intro hmatches
        split_ifs at hmatches with hshort hdiffer hwhole
        · rw [Bool.not_eq_true, bne_eq_false_iff_eq] at hdiffer
          refine ⟨[], Or.inl rfl, ?_⟩
          rw [← hdiffer, List.append_nil, ← hwhole, List.take_length]
        · rw [Bool.not_eq_true, bne_eq_false_iff_eq] at hdiffer
          refine ⟨message.drop (trimmed subscription).length, Or.inr ?_, ?_⟩
          · rw [List.head?_drop]
            exact eq_of_beq hmatches
          · have happend := List.take_append_drop (trimmed subscription).length message
            rw [hdiffer] at happend
            exact happend.symm
      · rintro ⟨rest, hrest, rfl⟩
        have hlength : ¬(trimmed subscription ++ rest).length < (trimmed subscription).length := by
          rw [List.length_append]
          omega
        rw [if_neg hlength, List.take_left, bne_self_eq_false, if_neg Bool.false_ne_true]
        rcases hrest with rfl | hhead
        · rw [List.append_nil, if_pos rfl]
        · split_ifs with hwhole
          · rfl
          · rw [List.getElem?_append_right le_rfl, Nat.sub_self, ← List.head?_eq_getElem?, hhead]
            exact beq_self_eq_true _

theorem trimmed_append_replicate {path : Bytes} (hlast : path.getLast? ≠ some subtopicSeparator)
    (slashes : Nat) : trimmed (path ++ List.replicate slashes subtopicSeparator) = path := by
  unfold trimmed
  induction slashes with
  | zero =>
      rw [List.replicate_zero, List.append_nil, List.rdropWhile_eq_self_iff]
      intro hne hseparator
      apply hlast
      rw [List.getLast?_eq_some_getLast hne, eq_of_beq hseparator]
  | succ slashes ih =>
      rw [List.replicate_succ', ← List.append_assoc,
        List.rdropWhile_concat, if_pos (beq_self_eq_true _), ih]

section Paths

variable {message sub : List Bytes}
  (hmessage : ∀ segment ∈ message, IsSegment subtopicSeparator segment)
  (hsub : ∀ segment ∈ sub, IsSegment subtopicSeparator segment)

include hmessage hsub

theorem subtopicMatches_join_of_ne_nil (hne : sub ≠ []) (slashes : Nat) :
    subtopicMatches (join subtopicSeparator message)
        (join subtopicSeparator sub ++ List.replicate slashes subtopicSeparator) = true ↔
      sub <+: message := by
  have hpath : join subtopicSeparator sub ++ List.replicate slashes subtopicSeparator ≠ [] :=
    List.append_ne_nil_of_left_ne_nil (join_ne_nil hsub hne) _
  rw [subtopicMatches_iff, or_iff_right hpath, trimmed_append_replicate (getLast?_join_ne hsub),
    exists_join_eq_append_iff hmessage hsub hne]

omit hsub in
theorem subtopicMatches_replicate (slashes : Nat) :
    subtopicMatches (join subtopicSeparator message)
        (List.replicate slashes subtopicSeparator) = true ↔
      slashes = 0 ∨ message = [] := by
  have hnil : ([] : Bytes).getLast? ≠ some subtopicSeparator := by decide
  have htrimmed : trimmed (List.replicate slashes subtopicSeparator) = [] :=
    trimmed_append_replicate hnil slashes
  rw [subtopicMatches_iff, htrimmed, List.replicate_eq_nil_iff]
  refine or_congr_right ⟨?_, ?_⟩
  · rintro ⟨rest, hrest, hjoin⟩
    rw [List.nil_append] at hjoin
    subst hjoin
    by_contra hne
    obtain ⟨first, others, rfl⟩ := List.exists_cons_of_ne_nil hne
    obtain ⟨hfirst, hseparator⟩ := hmessage first List.mem_cons_self
    rcases hrest with hnil | hhead
    · exact join_ne_nil hmessage hne hnil
    · rw [join_cons, List.head?_append_of_ne_nil _ hfirst] at hhead
      exact hseparator (List.mem_of_head? hhead)
  · rintro rfl
    exact ⟨[], Or.inl rfl, rfl⟩

/-- **Matching.** A subscription with trailing separators matches a message exactly if its segments
are a prefix of those of the message, unless it consists of separators only and the message is not
empty. -/
theorem subtopicMatches_prefix_iff (slashes : Nat) :
    (subtopicMatches (join subtopicSeparator message)
          (join subtopicSeparator sub ++ List.replicate slashes subtopicSeparator) = true ↔
        sub <+: message) ↔
      sub ≠ [] ∨ slashes = 0 ∨ message = [] := by
  by_cases hne : sub = []
  · subst hne
    rw [join_nil, List.nil_append, subtopicMatches_replicate hmessage]
    simp only [List.nil_prefix, iff_true, ne_eq, not_true_eq_false, false_or]
  · exact iff_of_true (subtopicMatches_join_of_ne_nil hmessage hsub hne slashes) (Or.inl hne)

end Paths

/-- The message `a/b` and the subscription `a/`. -/
theorem subtopicMatches_prefix_trailing :
    subtopicMatches (join subtopicSeparator [[97], [98]])
        (join subtopicSeparator [[97]] ++ List.replicate 1 subtopicSeparator) = true ↔
      ([[97]] : List Bytes) <+: [[97], [98]] :=
  (subtopicMatches_prefix_iff (by decide) (by decide) 1).mpr (by decide)

/-- The message `a` and the subscription `/`, which has no segment. -/
theorem subtopicMatches_slash :
    IsSegment subtopicSeparator [97] ∧
      subtopicMatches (join subtopicSeparator [[97]])
        (join subtopicSeparator [] ++ List.replicate 1 subtopicSeparator) = false ∧
      ([] : List Bytes) <+: [[97]] := by
  decide

end Poseidon
