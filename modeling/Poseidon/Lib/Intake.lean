import Mathlib.Algebra.BigOperators.Group.List.Basic
import Mathlib.Algebra.Order.BigOperators.Group.List
import Poseidon.Lib.Framing

/-!
# Receivers that drop what does not fit

What arrives at once is taken into the buffer whole, or not at all if there is no room for it. A
frame needs all of its bytes, so bytes that were dropped are missing from the frames: of a stream of
frames every one is taken exactly if nothing of it was dropped.
-/

namespace Poseidon.Framing

variable {σ ε φ ψ : Type*}

/-- A receiver with the bytes it has not used, the frames it has taken so far and the reader it uses
for what arrives. -/
structure Intake (σ ε φ : Type*) where
  receive : σ → ε → σ
  bytes : ε → Bytes
  buffer : σ → Bytes
  taken : σ → List φ
  reader : σ → ε → Reader φ
  Fits : σ → ε → Prop
  feed : ∀ s event, Fits s event →
    taken (receive s event) =
        taken s ++ ((reader s event).takeAll (buffer s ++ bytes event)).1 ∧
      buffer (receive s event) = ((reader s event).takeAll (buffer s ++ bytes event)).2
  drop : ∀ s event, ¬Fits s event →
    bytes event ≠ [] ∧ taken (receive s event) = taken s ∧ buffer (receive s event) = buffer s

/-- Every frame that the reader finds has this many bytes of the buffer. -/
def Reader.Sized (reader : Reader φ) (size : φ → Nat) : Prop :=
  ∀ buffer frame rest, reader.next buffer = some (frame, rest) →
    size frame + rest.length ≤ buffer.length

theorem Reader.Sized.takeLoop_le {reader : Reader φ} {size : φ → Nat} (hsized : reader.Sized size)
    (fuel : Nat) (buffer : Bytes) :
    ((reader.takeLoop fuel buffer).1.map size).sum + (reader.takeLoop fuel buffer).2.length ≤
      buffer.length := by
  induction fuel generalizing buffer with
  | zero => exact (Nat.zero_add _).le
  | succ fuel ih =>
      rw [Reader.takeLoop]
      split
      · exact (Nat.zero_add _).le
      · rename_i frame rest hframe
        have hfirst := hsized buffer frame rest hframe
        split_ifs
        · rw [List.map_singleton, List.sum_singleton]
          exact hfirst
        · have hrest := ih rest
          dsimp only
          rw [List.map_cons, List.sum_cons]
          omega

theorem Reader.Sized.takeAll_le {reader : Reader φ} {size : φ → Nat} (hsized : reader.Sized size)
    (buffer : Bytes) :
    ((reader.takeAll buffer).1.map size).sum + (reader.takeAll buffer).2.length ≤
      buffer.length :=
  hsized.takeLoop_le buffer.length buffer

namespace Intake

variable (intake : Intake σ ε φ)

/-- The bytes that are in the frames taken and in the buffer. -/
def used (size : φ → Nat) (s : σ) : Nat :=
  ((intake.taken s).map size).sum + (intake.buffer s).length

section Used

variable {intake} {size : φ → Nat}
  (hsized : ∀ s event, (intake.reader s event).Sized size)

include hsized

theorem used_receive_le (s : σ) (event : ε) :
    intake.used size (intake.receive s event) ≤
      intake.used size s + (intake.bytes event).length := by
  unfold used
  by_cases hfits : intake.Fits s event
  · obtain ⟨htaken, hbuffer⟩ := intake.feed s event hfits
    have hle := (hsized s event).takeAll_le (intake.buffer s ++ intake.bytes event)
    rw [List.length_append] at hle
    rw [htaken, hbuffer, List.map_append, List.sum_append]
    omega
  · obtain ⟨-, htaken, hbuffer⟩ := intake.drop s event hfits
    rw [htaken, hbuffer]
    exact Nat.le_add_right _ _

theorem used_run_le (s : σ) (events : List ε) :
    intake.used size (Runs.run intake.receive s events) ≤
      intake.used size s + (events.flatMap intake.bytes).length := by
  induction events generalizing s with
  | nil => exact Nat.le_add_right _ _
  | cons event events ih =>
      rw [Runs.run_cons, List.flatMap_cons, List.length_append]
      calc intake.used size (Runs.run intake.receive (intake.receive s event) events)
          ≤ intake.used size (intake.receive s event) + (events.flatMap intake.bytes).length :=
            ih _
        _ ≤ intake.used size s + (intake.bytes event).length +
              (events.flatMap intake.bytes).length :=
            Nat.add_le_add_right (used_receive_le hsized s event) _
        _ = _ := Nat.add_assoc _ _ _

theorem used_run_lt (s : σ) {events : List ε}
    (hdropped : ¬Runs.Meets intake.receive intake.Fits s events) :
    intake.used size (Runs.run intake.receive s events) <
      intake.used size s + (events.flatMap intake.bytes).length := by
  induction events generalizing s with
  | nil => exact absurd (Runs.meets_nil _ _ s) hdropped
  | cons event events ih =>
      rw [Runs.run_cons, List.flatMap_cons, List.length_append]
      rw [Runs.meets_cons, not_and_or] at hdropped
      have hfirst := used_receive_le hsized s event
      by_cases hfits : intake.Fits s event
      · have hlater := ih (intake.receive s event) (hdropped.resolve_left (not_not.mpr hfits))
        omega
      · obtain ⟨hne, htaken, hbuffer⟩ := intake.drop s event hfits
        have hsame : intake.used size (intake.receive s event) = intake.used size s := by
          unfold used
          rw [htaken, hbuffer]
        have hlater := used_run_le hsized (intake.receive s event) events
        have hpositive := List.length_pos_of_ne_nil hne
        omega

end Used

section Stream

variable {intake} {wire : ψ → Bytes} {content : ψ → φ} {frames : List ψ}

theorem follows_run
    (hframes : ∀ s event, ∀ frame ∈ frames,
      (intake.reader s event).Delimits (wire frame) (content frame))
    {s : σ} {received : Bytes} {ahead : List ψ}
    (hfollows : Reader.Follows wire content frames received (intake.taken s) (intake.buffer s)
      ahead) {events : List ε} (hmeets : Runs.Meets intake.receive intake.Fits s events)
    (hevents : received ++ events.flatMap intake.bytes <+: frames.flatMap wire) :
    ∃ later, Reader.Follows wire content frames (received ++ events.flatMap intake.bytes)
      (intake.taken (Runs.run intake.receive s events))
      (intake.buffer (Runs.run intake.receive s events)) later := by
  induction events generalizing s received ahead with
  | nil =>
      rw [List.flatMap_nil, List.append_nil]
      exact ⟨ahead, hfollows⟩
  | cons event events ih =>
      rw [List.flatMap_cons, ← List.append_assoc] at hevents ⊢
      obtain ⟨htaken, hbuffer⟩ := intake.feed s event hmeets.1
      obtain ⟨later, hlater⟩ :=
        hfollows.feed (hframes s event) ((List.prefix_append _ _).trans hevents)
      rw [← htaken, ← hbuffer] at hlater
      exact ih hlater hmeets.2 hevents

/-- **Nothing dropped.** From a stream of frames exactly these are taken, of those that are kept, if
and only if everything that arrived was taken into the buffer. -/
theorem kept_eq_iff {size : φ → Nat}
    (hframes : ∀ s event, ∀ frame ∈ frames,
      (intake.reader s event).Delimits (wire frame) (content frame))
    (hsized : ∀ s event, (intake.reader s event).Sized size)
    (hne : ∀ frame ∈ frames, wire frame ≠ [])
    (hwire : ∀ frame ∈ frames, (wire frame).length = size (content frame)) {keep : φ → Bool}
    (hkeep : ∀ frame ∈ frames, keep (content frame) = true) {s : σ}
    (htaken : intake.taken s = []) (hbuffer : intake.buffer s = []) {events : List ε}
    (hevents : events.flatMap intake.bytes = frames.flatMap wire) :
    (intake.taken (Runs.run intake.receive s events)).filter keep = frames.map content ↔
      Runs.Meets intake.receive intake.Fits s events := by
  constructor
  · intro hall
    by_contra hdropped
    have hlt := used_run_lt hsized s hdropped
    have hstart : intake.used size s = 0 := by
      rw [used, htaken, hbuffer]
      rfl
    have hkept : (((intake.taken (Runs.run intake.receive s events)).filter keep).map size).sum ≤
        ((intake.taken (Runs.run intake.receive s events)).map size).sum :=
      (List.filter_sublist.map size).sum_le_sum fun _ _ => Nat.zero_le _
    have htotal : (frames.flatMap wire).length = ((frames.map content).map size).sum := by
      rw [List.length_flatMap, List.map_map]
      exact congrArg List.sum (List.map_congr_left hwire)
    rw [hall] at hkept
    rw [hstart, hevents, htotal, used] at hlt
    omega
  · intro hmeets
    have hfollows : Reader.Follows wire content frames [] (intake.taken s) (intake.buffer s)
        frames := by
      rw [htaken, hbuffer]
      exact Reader.Follows.start wire content frames
    have hstream : [] ++ events.flatMap intake.bytes <+: frames.flatMap wire :=
      ⟨[], by rw [List.append_nil, List.nil_append, hevents]⟩
    obtain ⟨later, hlater⟩ := follows_run hframes hfollows hmeets hstream
    rw [List.nil_append, hevents] at hlater
    rw [hlater.taken_eq hne le_rfl]
    apply List.filter_eq_self.mpr
    intro item hitem
    obtain ⟨frame, hframe, rfl⟩ := List.mem_map.mp hitem
    exact hkeep frame hframe

end Stream

end Intake

end Poseidon.Framing
