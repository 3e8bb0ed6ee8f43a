import Mathlib.Order.Lattice

/-!
# Events that wait for a tick

Something is done at ticks only. When the event with a given number is due depends on the number
and on the time of the event before; it takes place at the first tick that is not before then.
-/

namespace Poseidon.Schedule

variable {τ : Type*} [LinearOrder τ] {due : Nat → τ → τ}

/-- The events from the `k`-th on, with the one before at `last`, at the marked ticks. -/
inductive Follows (due : Nat → τ → τ) : Nat → τ → List τ → List Bool → Prop
  | quiet {k : Nat} {last : τ} {ticks : List τ} (early : ∀ t ∈ ticks, t < due k last) :
      Follows due k last ticks (ticks.map fun _ => false)
  | event {k : Nat} {last t : τ} {waiting ticks : List τ} {marks : List Bool}
      (early : ∀ s ∈ waiting, s < due k last) (reached : due k last ≤ t)
      (later : Follows due (k + 1) t ticks marks) :
      Follows due k last (waiting ++ t :: ticks) (waiting.map (fun _ => false) ++ true :: marks)

namespace Follows

variable {k : Nat} {last t : τ} {ticks : List τ} {marks : List Bool}

theorem wait (hfollows : Follows due k last ticks marks) (hearly : t < due k last) :
    Follows due k last (t :: ticks) (false :: marks) := by
  cases hfollows with
  | quiet hquiet => exact .quiet (List.forall_mem_cons.mpr ⟨hearly, hquiet⟩)
  | event hwaiting hreached hlater =>
      exact .event (List.forall_mem_cons.mpr ⟨hearly, hwaiting⟩) hreached hlater

theorem fire (hreached : due k last ≤ t) (hlater : Follows due (k + 1) t ticks marks) :
    Follows due k last (t :: ticks) (true :: marks) := by
  have hnone : ∀ s ∈ ([] : List τ), s < due k last := List.forall_mem_nil _
  exact .event hnone hreached hlater

theorem head?_marks (hfollows : Follows due k last (t :: ticks) marks) :
    marks.head? = some (decide (due k last ≤ t)) := by
  generalize hall : t :: ticks = all at hfollows
  cases hfollows with
  | quiet hquiet =>
      subst hall
      have hnot : ¬due k last ≤ t := not_le.mpr (hquiet t List.mem_cons_self)
      rw [List.map_cons, List.head?_cons, decide_eq_false hnot]
  | @event _ _ _ waiting _ _ hwaiting hreached hlater =>
      cases waiting with
      | nil =>
          obtain ⟨rfl, rfl⟩ := List.cons.inj hall
          rw [List.map_nil, List.nil_append, List.head?_cons, decide_eq_true hreached]
      | cons first waiting =>
          obtain ⟨rfl, -⟩ := List.cons.inj hall
          have hnot : ¬due k last ≤ t := not_le.mpr (hwaiting t List.mem_cons_self)
          rw [List.map_cons, List.cons_append, List.head?_cons, decide_eq_false hnot]

end Follows

variable {σ α : Type*} (step : σ → α → σ × Bool)

/-- What the steps of a run say. -/
def marks : σ → List α → List Bool
  | _, [] => []
  | s, a :: labels => (step s a).2 :: marks (step s a).1 labels

/-- **Simulation.** If the states are related to the number of the next event and the time of the
last one, and a step marks the event exactly if it is due, a run follows the schedule. -/
theorem follows_marks {time : α → τ} (Rel : Nat → τ → σ → Prop)
    (hwait : ∀ k last s a, Rel k last s → time a < due k last →
      (step s a).2 = false ∧ Rel k last (step s a).1)
    (hfire : ∀ k last s a, Rel k last s → due k last ≤ time a →
      (step s a).2 = true ∧ Rel (k + 1) (time a) (step s a).1)
    {labels : List α} {k : Nat} {last : τ} {s : σ} (hrel : Rel k last s) :
    Follows due k last (labels.map time) (marks step s labels) := by
  induction labels generalizing k last s with
  | nil => exact .quiet (List.forall_mem_nil _)
  | cons a labels ih =>
      rw [List.map_cons, marks]
      rcases lt_or_ge (time a) (due k last) with hearly | hreached
      · obtain ⟨hmark, hnext⟩ := hwait k last s a hrel hearly
        rw [hmark]
        exact (ih hnext).wait hearly
      · obtain ⟨hmark, hnext⟩ := hfire k last s a hrel hreached
        rw [hmark]
        exact .fire hreached (ih hnext)

end Poseidon.Schedule
