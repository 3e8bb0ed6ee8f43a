import Mathlib.Data.List.DropRight
import Mathlib.Data.List.Basic

/-!
# Paths of segments

A path is a list of segments with a separator between them. No segment is empty and none holds the
separator, so a path ends in no separator and determines its segments: one path continues another
behind a whole segment exactly if the segments of the one are a prefix of those of the other.
-/

namespace Poseidon.Segments

variable {α : Type*} {separator : α}

def IsSegment (separator : α) (segment : List α) : Prop :=
  segment ≠ [] ∧ separator ∉ segment

instance [DecidableEq α] (separator : α) (segment : List α) :
    Decidable (IsSegment separator segment) :=
  inferInstanceAs (Decidable (segment ≠ [] ∧ separator ∉ segment))

def join (separator : α) (segments : List (List α)) : List α :=
  [separator].intercalate segments

def tail (separator : α) (segments : List (List α)) : List α :=
  segments.flatMap (separator :: ·)

@[simp]
theorem join_nil : join separator ([] : List (List α)) = [] := rfl

@[simp]
theorem tail_nil : tail separator ([] : List (List α)) = [] := rfl

theorem tail_cons (segment : List α) (segments : List (List α)) :
    tail separator (segment :: segments) = separator :: (segment ++ tail separator segments) := rfl

theorem join_cons (segment : List α) (segments : List (List α)) :
    join separator (segment :: segments) = segment ++ tail separator segments := by
  unfold join
  induction segments generalizing segment with
  | nil => rw [List.intercalate_singleton, tail_nil, List.append_nil]
  | cons next segments ih =>
      rw [List.intercalate_cons_cons, ih next, tail_cons, List.append_assoc,
        List.singleton_append]

variable {segments : List (List α)}

theorem mem_join {segment : List α} {item : α} (hsegment : segment ∈ segments)
    (hitem : item ∈ segment) : item ∈ join separator segments := by
  cases segments with
  | nil => exact absurd hsegment List.not_mem_nil
  | cons first others =>
      rw [join_cons, List.mem_append]
      rcases List.mem_cons.mp hsegment with rfl | hother
      · exact Or.inl hitem
      · exact Or.inr (List.mem_flatMap.mpr ⟨segment, hother, List.mem_cons_of_mem _ hitem⟩)

/-- What may stand behind a whole segment. -/
def Ends (separator : α) (rest : List α) : Prop :=
  rest = [] ∨ rest.head? = some separator

theorem ends_tail (segments : List (List α)) : Ends separator (tail separator segments) := by
  cases segments with
  | nil => exact Or.inl rfl
  | cons segment segments => exact Or.inr rfl

theorem ends_tail_append {rest : List α} (hrest : Ends separator rest) :
    Ends separator (tail separator segments ++ rest) := by
  cases segments with
  | nil => exact hrest
  | cons segment segments => exact Or.inr rfl

theorem append_inj_of_ends {first second rest rest' : List α} (hfirst : separator ∉ first)
    (hsecond : separator ∉ second) (hrest : Ends separator rest) (hrest' : Ends separator rest')
    (happend : first ++ rest = second ++ rest') : first = second ∧ rest = rest' := by
  induction first generalizing second with
  | nil =>
      cases second with
      | nil => exact ⟨rfl, happend⟩
      | cons item second =>
          rw [List.nil_append] at happend
          subst happend
          rcases hrest with hnil | hhead
          · cases hnil
          · obtain rfl := Option.some.inj hhead
            exact absurd List.mem_cons_self hsecond
  | cons item first ih =>
      cases second with
      | nil =>
          rw [List.nil_append] at happend
          subst happend
          rcases hrest' with hnil | hhead
          · cases hnil
          · obtain rfl := Option.some.inj hhead
            exact absurd List.mem_cons_self hfirst
      | cons other second =>
          obtain ⟨rfl, hothers⟩ := List.cons.inj happend
          obtain ⟨rfl, hsame⟩ := ih (fun hmem => hfirst (List.mem_cons_of_mem _ hmem))
            (fun hmem => hsecond (List.mem_cons_of_mem _ hmem)) hothers
          exact ⟨rfl, hsame⟩

section

variable (hsegments : ∀ segment ∈ segments, IsSegment separator segment)

include hsegments

theorem tail_eq_append_iff {sub : List (List α)}
    (hsub : ∀ segment ∈ sub, IsSegment separator segment) {rest : List α}
    (hrest : Ends separator rest) :
    tail separator segments = tail separator sub ++ rest ↔
      ∃ others, segments = sub ++ others ∧ rest = tail separator others := by
  induction sub generalizing segments with
  | nil =>
      constructor
      · intro htail
        exact ⟨segments, rfl, htail.symm⟩
      · rintro ⟨others, rfl, rfl⟩
        rfl
  | cons first sub ih =>
      cases segments with
      | nil =>
          refine iff_of_false (fun htail => ?_) fun hothers => ?_
          · cases htail
          · obtain ⟨others, hnil, -⟩ := hothers
            cases hnil
      | cons segment segments =>
          have hothers := ih (fun item hitem => hsegments item (List.mem_cons_of_mem _ hitem))
            fun item hitem => hsub item (List.mem_cons_of_mem _ hitem)
          rw [tail_cons, tail_cons, List.cons_append, List.cons.injEq, List.append_assoc]
          constructor
          · rintro ⟨-, happend⟩
            obtain ⟨rfl, htail⟩ := append_inj_of_ends (hsegments segment List.mem_cons_self).2
              (hsub first List.mem_cons_self).2 (ends_tail segments) (ends_tail_append hrest)
              happend
            obtain ⟨others, rfl, hrest'⟩ := hothers.mp htail
            exact ⟨others, rfl, hrest'⟩
          · rintro ⟨others, hsame, hrest'⟩
            obtain ⟨rfl, hbehind⟩ := List.cons.inj hsame
            exact ⟨rfl, by rw [hothers.mpr ⟨others, hbehind, hrest'⟩]⟩

/-- **Prefix.** One path continues another behind a whole segment exactly if its segments do. -/
theorem exists_join_eq_append_iff {sub : List (List α)}
    (hsub : ∀ segment ∈ sub, IsSegment separator segment) (hne : sub ≠ []) :
    (∃ rest, Ends separator rest ∧ join separator segments = join separator sub ++ rest) ↔
      sub <+: segments := by
  obtain ⟨first, sub, rfl⟩ := List.exists_cons_of_ne_nil hne
  have hothers : ∀ segment ∈ sub, IsSegment separator segment :=
    fun item hitem => hsub item (List.mem_cons_of_mem _ hitem)
  constructor
  · rintro ⟨rest, hrest, hjoin⟩
    cases segments with
    | nil =>
        rw [join_nil, join_cons, List.append_assoc] at hjoin
        exact absurd (List.append_eq_nil_iff.mp hjoin.symm).1 (hsub first List.mem_cons_self).1
    | cons segment segments =>
        rw [join_cons, join_cons, List.append_assoc] at hjoin
        obtain ⟨rfl, htail⟩ := append_inj_of_ends (hsegments segment List.mem_cons_self).2
          (hsub first List.mem_cons_self).2 (ends_tail segments) (ends_tail_append hrest) hjoin
        obtain ⟨others, rfl, -⟩ := (tail_eq_append_iff
          (fun item hitem => hsegments item (List.mem_cons_of_mem _ hitem)) hothers hrest).mp htail
        exact List.cons_prefix_cons.mpr ⟨rfl, List.prefix_append sub others⟩
  · rintro ⟨others, rfl⟩
    refine ⟨tail separator others, ends_tail others, ?_⟩
    rw [List.cons_append, join_cons, join_cons, List.append_assoc, tail, List.flatMap_append]
    rfl

theorem join_ne_nil (hne : segments ≠ []) : join separator segments ≠ [] := by
  obtain ⟨first, segments, rfl⟩ := List.exists_cons_of_ne_nil hne
  rw [join_cons]
  intro hnil
  exact (hsegments first List.mem_cons_self).1 (List.append_eq_nil_iff.mp hnil).1

theorem getLast?_join_ne : (join separator segments).getLast? ≠ some separator := by
  induction segments with
  | nil => exact fun hlast => by cases hlast
  | cons segment segments ih =>
      have hsegment := hsegments segment List.mem_cons_self
      cases segments with
      | nil =>
          rw [join_cons, tail_nil, List.append_nil]
          exact fun hlast => hsegment.2 (List.mem_of_getLast? hlast)
      | cons next segments =>
          have hothers : ∀ item ∈ next :: segments, IsSegment separator item :=
            fun item hitem => hsegments item (List.mem_cons_of_mem _ hitem)
          have hne := join_ne_nil hothers (List.cons_ne_nil next segments)
          rw [join_cons, tail_cons, ← join_cons, List.getLast?_append_of_ne_nil _ (by simp),
            List.getLast?_cons_of_ne_nil hne]
          exact ih hothers

end

/-! ### Splitting -/

section Split

variable [DecidableEq α]

/-- What stands between the separators of any list, the empty parts left out. -/
def split (separator : α) (path : List α) : List (List α) :=
  (path.splitOn separator).filter (· ≠ [])

theorem split_of_not_mem {segment : List α} (hsegment : separator ∉ segment) :
    split separator segment = if segment = [] then [] else [segment] := by
  rw [split, List.splitOn_eq_singleton hsegment]
  by_cases hnil : segment = []
  · rw [if_pos hnil, hnil]
    rfl
  · rw [if_neg hnil]
    exact List.filter_cons_of_pos (decide_eq_true hnil)

theorem split_append_cons {segment : List α} (hsegment : separator ∉ segment) (rest : List α) :
    split separator (segment ++ separator :: rest) =
      split separator segment ++ split separator rest := by
  unfold split
  rw [List.splitOn_append_cons_self_of_not_mem hsegment, List.splitOn_eq_singleton hsegment,
    ← List.singleton_append, List.filter_append]

theorem ne_nil_of_mem_split {path segment : List α} (hsegment : segment ∈ split separator path) :
    segment ≠ [] :=
  of_decide_eq_true (List.mem_filter.mp hsegment).2

theorem mem_of_mem_split {path segment : List α} {item : α}
    (hsegment : segment ∈ split separator path) (hitem : item ∈ segment) : item ∈ path := by
  have hjoin : join separator (path.splitOn separator) = path := List.intercalate_splitOn separator
  rw [← hjoin]
  exact mem_join (List.mem_filter.mp hsegment).1 hitem

end Split

end Poseidon.Segments
