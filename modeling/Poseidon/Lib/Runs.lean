import Mathlib.Data.List.Basic

/-!
# Runs of a step function

A system is a total step function on states and labels; a label carries every choice the
environment makes (which packet arrives, what a clock shows), so a run is a list of labels.
`Meets ok` says that every label of a run is performed in a state satisfying `ok`.
-/

namespace Poseidon.Runs

variable {σ α : Type*} (step : σ → α → σ)

def run (s : σ) (labels : List α) : σ :=
  labels.foldl step s

@[simp]
theorem run_nil (s : σ) : run step s [] = s := rfl

@[simp]
theorem run_cons (s : σ) (a : α) (labels : List α) :
    run step s (a :: labels) = run step (step s a) labels := rfl

theorem run_append (s : σ) (front back : List α) :
    run step s (front ++ back) = run step (run step s front) back :=
  List.foldl_append

/-- Every label of the run is performed in a state that satisfies `ok`. -/
def Meets (ok : σ → α → Prop) : σ → List α → Prop
  | _, [] => True
  | s, a :: labels => ok s a ∧ Meets ok (step s a) labels

@[simp]
theorem meets_nil (ok : σ → α → Prop) (s : σ) : Meets step ok s [] := trivial

@[simp]
theorem meets_cons (ok : σ → α → Prop) (s : σ) (a : α) (labels : List α) :
    Meets step ok s (a :: labels) ↔ ok s a ∧ Meets step ok (step s a) labels := Iff.rfl

variable {labels : List α} {ok : σ → α → Prop} {s : σ}

theorem meets_append {front back : List α} :
    Meets step ok s (front ++ back) ↔
      Meets step ok s front ∧ Meets step ok (run step s front) back := by
  induction front generalizing s with
  | nil => simp
  | cons a front ih => simp [ih, and_assoc]

theorem Meets.imp {ok' : σ → α → Prop} (himp : ∀ s a, ok s a → ok' s a)
    (hmeets : Meets step ok s labels) : Meets step ok' s labels := by
  induction labels generalizing s with
  | nil => exact meets_nil step ok' s
  | cons a labels ih => exact ⟨himp s a hmeets.1, ih hmeets.2⟩

theorem meets_iff_forall_split :
    Meets step ok s labels ↔
      ∀ front a back, labels = front ++ a :: back → ok (run step s front) a := by
  constructor
  · rintro hmeets front a back rfl
    exact ((meets_append step).mp hmeets).2.1
  · intro hsplit
    induction labels generalizing s with
    | nil => exact meets_nil step ok s
    | cons a labels ih =>
        refine ⟨hsplit [] a labels rfl, ih fun front b back hlabels => ?_⟩
        exact hsplit (a :: front) b back (congrArg (a :: ·) hlabels)

theorem meets_of_forall (hok : ∀ a ∈ labels, ∀ s, ok s a) : Meets step ok s labels := by
  rw [meets_iff_forall_split]
  rintro front a back rfl
  exact hok a (List.mem_append_right front List.mem_cons_self) _

instance decidableMeets (ok : σ → α → Prop) [∀ s a, Decidable (ok s a)] :
    ∀ (s : σ) (labels : List α), Decidable (Meets step ok s labels)
  | _, [] => isTrue trivial
  | s, a :: labels => @instDecidableAnd _ _ _ (decidableMeets ok (step s a) labels)

/-- **Invariant rule.** What every admissible step preserves holds after every admissible run. -/
theorem invariant_of_meets {ok : σ → α → Prop} (Inv : σ → Prop)
    (hstep : ∀ s a, Inv s → ok s a → Inv (step s a)) :
    ∀ {labels : List α} {s : σ}, Inv s → Meets step ok s labels → Inv (run step s labels) := by
  intro labels
  induction labels with
  | nil =>
      intro s hinv _
      exact hinv
  | cons a labels ih =>
      intro s hinv hmeets
      exact ih (hstep s a hinv hmeets.1) hmeets.2

theorem meets_of_invariant (Inv : σ → Prop) (hstep : ∀ s a, Inv s → Inv (step s a))
    (hok : ∀ s a, Inv s → ok s a) (hinv : Inv s) : Meets step ok s labels := by
  induction labels generalizing s with
  | nil => exact meets_nil step ok s
  | cons a labels ih => exact ⟨hok s a hinv, ih (hstep s a hinv)⟩

/-- Two conditions that agree wherever an invariant holds are met by the same runs, if the one keeps
the invariant. -/
theorem meets_iff_meets_of_keeps {pre ok' : σ → α → Prop} (Inv : σ → Prop)
    (hkeeps : ∀ s a, Inv s → pre s a → ok' s a → Inv (step s a))
    (hiff : ∀ s a, Inv s → pre s a → (ok s a ↔ ok' s a)) (hinv : Inv s)
    (hpre : Meets step pre s labels) : Meets step ok s labels ↔ Meets step ok' s labels := by
  induction labels generalizing s with
  | nil => exact iff_of_true (meets_nil step ok s) (meets_nil step ok' s)
  | cons a labels ih =>
      rw [meets_cons, meets_cons, hiff s a hinv hpre.1]
      exact and_congr_right fun hok => ih (hkeeps s a hinv hpre.1 hok) hpre.2

/-- If a step leads to `Inv` exactly from `Inv` by an admissible label, so does a run. -/
theorem invariant_iff_meets (Inv : σ → Prop) (hstep : ∀ s a, Inv (step s a) ↔ Inv s ∧ ok s a) :
    Inv (run step s labels) ↔ Inv s ∧ Meets step ok s labels := by
  induction labels generalizing s with
  | nil => simp
  | cons a labels ih => rw [run_cons, ih, hstep, meets_cons, and_assoc]

/-- If, wherever the environment keeps what it promises, the admissible labels keep what implies the
invariant, and only they keep the invariant, then the invariant holds at every point of a run
exactly if the run is admissible. -/
theorem forall_front_iff_meets_of_keeps {pre : σ → α → Prop} (Strong Inv : σ → Prop)
    (hinv : ∀ s, Strong s → Inv s)
    (hkeeps : ∀ s a, Strong s → pre s a → ok s a → Strong (step s a))
    (honly : ∀ s a, Strong s → pre s a → Inv (step s a) → ok s a) (hs : Strong s)
    (hpre : Meets step pre s labels) :
    (∀ front, front <+: labels → Inv (run step s front)) ↔ Meets step ok s labels := by
  induction labels generalizing s with
  | nil =>
      refine iff_of_true (fun front hfront => ?_) (meets_nil step ok s)
      rw [List.prefix_nil.mp hfront]
      exact hinv s hs
  | cons a labels ih =>
      rw [meets_cons]
      constructor
      · intro hall
        have hok : ok s a := honly s a hs hpre.1 (hall [a] (List.prefix_append [a] labels))
        refine ⟨hok, (ih (hkeeps s a hs hpre.1 hok) hpre.2).mp fun front hfront => ?_⟩
        exact hall (a :: front) (List.cons_prefix_cons.mpr ⟨rfl, hfront⟩)
      · rintro ⟨hok, hmeets⟩ front hfront
        cases front with
        | nil => exact hinv s hs
        | cons b front =>
            obtain ⟨rfl, hrest⟩ := List.cons_prefix_cons.mp hfront
            exact (ih (hkeeps s b hs hpre.1 hok) hpre.2).mpr hmeets front hrest

/-- If, from where the invariant and a background fact hold, exactly the admissible labels keep the
invariant, then it holds at every point of a run exactly if the run is admissible. -/
theorem forall_front_iff_meets (Background Inv : σ → Prop)
    (hbackground : ∀ s a, Background s → Background (step s a))
    (hstep : ∀ s a, Background s → Inv s → (Inv (step s a) ↔ ok s a)) (hs : Background s)
    (hinv : Inv s) :
    (∀ front, front <+: labels → Inv (run step s front)) ↔ Meets step ok s labels := by
  refine forall_front_iff_meets_of_keeps step (fun s => Background s ∧ Inv s) Inv
    (fun _ hboth => hboth.2) ?_ ?_ ⟨hs, hinv⟩
    (@meets_of_forall _ _ step _ (fun _ _ => True) _ fun _ _ _ => trivial)
  · rintro s a ⟨hbefore, hinv⟩ - hok
    exact ⟨hbackground s a hbefore, (hstep s a hbefore hinv).mpr hok⟩
  · rintro s a ⟨hbefore, hinv⟩ - hnext
    exact (hstep s a hbefore hinv).mp hnext

theorem invariant (Inv : σ → Prop) (hstep : ∀ s a, Inv s → Inv (step s a)) (hinv : Inv s) :
    Inv (run step s labels) := by
  induction labels generalizing s with
  | nil => exact hinv
  | cons a labels ih => exact ih (hstep s a hinv)

end Poseidon.Runs
