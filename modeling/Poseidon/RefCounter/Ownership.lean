import Poseidon.RefCounter.RefCounter

/-!
# Reference counts and owners

The count is the number of references, owned or handed over, as long as nobody but a receiver takes
a pending hand-over. A release and the test of the count are two steps, so the cleanup is entered
once only if the last release does not come between another one and its test.
-/

namespace Poseidon

open Threads (Turn calls goes)

namespace RefAction

inductive Does (thread : Nat) (counter : RefCounter) :
    RefAction → RefCounter → Option RefAction → Prop where
  | enters (use : RefUse) (hentitled : counter.Entitled thread use) :
      Does thread counter (.enter use) counter (some (.loadYield use))
  | turnsAway (use : RefUse) : Does thread counter (.enter use) counter none
  | loads (use : RefUse) :
      Does thread counter (.loadYield use) counter (some (retry use counter.yield))
  | exchanges (use : RefUse) :
      Does thread counter (.exchange use counter.yield)
        ({ counter with yield := counter.yield - 1 }.settle thread use)
        (Threads.actions (after use)).head?
  | retries (use : RefUse) (expected : UInt8) :
      Does thread counter (.exchange use expected) counter (some (retry use counter.yield))
  | adds (use : RefUse) :
      Does thread counter (.add use)
        ({ counter with count := counter.count + 1 }.settle thread use) none
  | counts : Does thread counter .loadCount counter (some .subtract)
  | countsNone (hzero : ¬ 0 < counter.count.toUInt16) :
      Does thread counter .loadCount (counter.settle thread .release) (some .test)
  | subtracts :
      Does thread counter .subtract
        ({ counter with count := counter.count - 1 }.settle thread .release) (some .test)
  | tests :
      Does thread counter .test
        { counter with
          testing := counter.testing.erase thread
          cleanups := if counter.count.toUInt16 = 0 then counter.cleanups + 1
            else counter.cleanups } none
  | consumes (receiver : Nat) (howner : thread ∈ counter.owners) :
      Does thread counter (.consume receiver)
        { counter with
          yield := counter.yield + 1
          owners := counter.owners.erase thread
          handed := receiver :: counter.handed } none
  | keeps (receiver : Nat) : Does thread counter (.consume receiver) counter none

variable {thread : Nat} {counter counter' : RefCounter} {next : List RefInstr}

theorem does_of_exec {action : RefAction}
    (hexec : exec thread action counter = some (counter', next)) :
    Does thread counter action counter' (Threads.actions next).head? ∧
      (Threads.actions next).length ≤ 1 := by
  cases action with
  | enter use =>
      obtain ⟨rfl, rfl⟩ := Prod.mk.inj (Option.some.inj hexec)
      by_cases hentitled : counter.Entitled thread use
      · simp only [if_pos hentitled]
        exact ⟨.enters use hentitled, Nat.le_refl 1⟩
      · simp only [if_neg hentitled]
        exact ⟨.turnsAway use, Nat.zero_le 1⟩
  | loadYield use =>
      obtain ⟨rfl, rfl⟩ := Prod.mk.inj (Option.some.inj hexec)
      exact ⟨.loads use, Nat.le_refl 1⟩
  | exchange use expected =>
      simp only [exec] at hexec
      split_ifs at hexec with hyield
      · obtain ⟨rfl, rfl⟩ := Prod.mk.inj (Option.some.inj hexec)
        refine ⟨hyield ▸ .exchanges use, ?_⟩
        cases use <;> simp [after, Threads.actions]
      · obtain ⟨rfl, rfl⟩ := Prod.mk.inj (Option.some.inj hexec)
        exact ⟨.retries use expected, Nat.le_refl 1⟩
  | add use =>
      obtain ⟨rfl, rfl⟩ := Prod.mk.inj (Option.some.inj hexec)
      exact ⟨.adds use, Nat.zero_le 1⟩
  | loadCount =>
      simp only [exec] at hexec
      split_ifs at hexec with hcount
      · obtain ⟨rfl, rfl⟩ := Prod.mk.inj (Option.some.inj hexec)
        exact ⟨.counts, Nat.le_refl 1⟩
      · obtain ⟨rfl, rfl⟩ := Prod.mk.inj (Option.some.inj hexec)
        exact ⟨.countsNone hcount, Nat.le_refl 1⟩
  | subtract =>
      obtain ⟨rfl, rfl⟩ := Prod.mk.inj (Option.some.inj hexec)
      exact ⟨.subtracts, Nat.le_refl 1⟩
  | test =>
      obtain ⟨rfl, rfl⟩ := Prod.mk.inj (Option.some.inj hexec)
      exact ⟨.tests, Nat.zero_le 1⟩
  | consume receiver =>
      simp only [exec] at hexec
      split_ifs at hexec with howner
      · obtain ⟨rfl, rfl⟩ := Prod.mk.inj (Option.some.inj hexec)
        exact ⟨.consumes receiver howner, Nat.zero_le 1⟩
      · obtain ⟨rfl, rfl⟩ := Prod.mk.inj (Option.some.inj hexec)
        exact ⟨.keeps receiver, Nat.zero_le 1⟩

end RefAction

theorem sequential_refCode : Threads.Sequential refCode where
  program := fun _ => Nat.le_refl 1
  exec := fun _ _ _ _ _ hexec => (RefAction.does_of_exec hexec).2

namespace RefAction

/-- The reference behind a place. Only receivers take a hand-over, and only new references count
up. -/
def Justified (counter : RefCounter) (thread : Nat) : RefAction → Prop
  | .enter _ | .consume _ => True
  | .loadYield use => counter.Entitled thread use
  | .exchange use _ => use = .receive ∧ thread ∈ counter.handed
  | .add use => use = .reference ∧ thread ∈ counter.owners
  | .loadCount | .subtract => thread ∈ counter.owners
  | .test => thread ∈ counter.testing

theorem Justified.mono {thread : Nat} {counter counter' : RefCounter} {action : RefAction}
    (haction : action.Justified counter thread)
    (howners : thread ∈ counter.owners → thread ∈ counter'.owners)
    (hhanded : thread ∈ counter.handed → thread ∈ counter'.handed)
    (htesting : thread ∈ counter.testing → thread ∈ counter'.testing) :
    action.Justified counter' thread := by
  cases action with
  | enter use => trivial
  | consume receiver => trivial
  | loadYield use => cases use <;> first | exact howners haction | exact hhanded haction
  | exchange use expected => exact haction.imp_right hhanded
  | add use => exact haction.imp_right howners
  | loadCount => exact howners haction
  | subtract => exact howners haction
  | test => exact htesting haction

/-- Whether an atomic access is made in time: no reference but a receiver's and no release reads a
pending hand-over; the last release does not come between another one and its test; and the count
and the hand-overs stay within 16 and 8 bits. -/
def InTime (counter : RefCounter) : RefAction → Prop
  | .loadYield .reference | .loadYield .release => counter.yield = 0
  | .subtract => counter.count = 1 → counter.testing = []
  | .add _ => counter.count.toNat + 1 < 2 ^ 16
  | .consume _ => counter.yield.toNat + 1 < 2 ^ 8
  | _ => True

instance decidableInTime (counter : RefCounter) :
    ∀ action, Decidable (RefAction.InTime counter action)
  | .loadYield .reference => inferInstanceAs (Decidable (counter.yield = 0))
  | .loadYield .release => inferInstanceAs (Decidable (counter.yield = 0))
  | .subtract => inferInstanceAs (Decidable (counter.count = 1 → counter.testing = []))
  | .add _ => inferInstanceAs (Decidable (counter.count.toNat + 1 < 2 ^ 16))
  | .consume _ => inferInstanceAs (Decidable (counter.yield.toNat + 1 < 2 ^ 8))
  | .loadYield .receive | .enter _ | .exchange _ _ | .loadCount | .test => isTrue trivial

end RefAction

/-- The count is the number of references, and the cleanup is entered, or about to be, exactly when
it is zero. -/
structure Tally (counter : RefCounter) : Prop where
  count : counter.count.toNat = counter.owners.length + counter.handed.length
  yield : counter.yield.toNat = counter.handed.length
  bounded : counter.count.toNat < 2 ^ 16
  live : 0 < counter.count.toNat → counter.cleanups = 0
  dead : counter.count.toNat = 0 → counter.cleanups + counter.testing.length = 1

namespace Tally

variable {counter counter' : RefCounter} {thread : Nat} {action : RefAction}
  {next : Option RefAction}

variable (htally : Tally counter)

include htally

theorem toNat_toUInt16 : counter.count.toUInt16.toNat = counter.count.toNat := by
  rw [UInt64.toNat_toUInt16]
  exact Nat.mod_eq_of_lt htally.bounded

theorem count_pos (howner : thread ∈ counter.owners) : 0 < counter.count.toNat := by
  have hlength := List.length_pos_of_mem howner
  rw [htally.count]
  omega

theorem receive (hreceiver : thread ∈ counter.handed) :
    Tally ({ counter with yield := counter.yield - 1 }.settle thread .receive) := by
  have hlength := List.length_pos_of_mem hreceiver
  have herase := List.length_erase_of_mem hreceiver
  have hyield : (counter.yield - 1).toNat = counter.yield.toNat - 1 := by
    apply UInt8.toNat_sub_of_le
    rw [UInt8.le_iff_toNat_le, htally.yield]
    exact hlength
  have hcount := htally.count
  constructor
  case count =>
    simp only [RefCounter.settle, List.length_cons, herase]
    omega
  case yield =>
    simp only [RefCounter.settle, herase, hyield, htally.yield]
  case bounded => exact htally.bounded
  case live => exact htally.live
  case dead => exact htally.dead

theorem reference (howner : thread ∈ counter.owners) (hbound : counter.count.toNat + 1 < 2 ^ 16) :
    Tally ({ counter with count := counter.count + 1 }.settle thread .reference) := by
  have hadd : (counter.count + 1).toNat = counter.count.toNat + 1 := by
    rw [UInt64.toNat_add]
    exact Nat.mod_eq_of_lt (by simp; omega)
  have hlive := htally.live (htally.count_pos howner)
  have hcount := htally.count
  constructor
  case count =>
    simp only [RefCounter.settle, List.length_cons, hadd]
    omega
  case yield => exact htally.yield
  case bounded =>
    simp only [RefCounter.settle, hadd]
    exact hbound
  case live => exact fun _ => hlive
  case dead =>
    intro hzero
    simp only [RefCounter.settle, hadd] at hzero
    omega

theorem release (howner : thread ∈ counter.owners)
    (hlast : counter.count = 1 → counter.testing = []) :
    Tally ({ counter with count := counter.count - 1 }.settle thread .release) := by
  have hpos := htally.count_pos howner
  have herase := List.length_erase_of_mem howner
  have hlength := List.length_pos_of_mem howner
  have hsub : (counter.count - 1).toNat = counter.count.toNat - 1 := by
    apply UInt64.toNat_sub_of_le
    rw [UInt64.le_iff_toNat_le]
    exact hpos
  have hcount := htally.count
  have hbounded := htally.bounded
  constructor
  case count =>
    simp only [RefCounter.settle, hsub, herase]
    omega
  case yield => exact htally.yield
  case bounded =>
    simp only [RefCounter.settle, hsub]
    omega
  case live => exact fun _ => htally.live hpos
  case dead =>
    intro hzero
    simp only [RefCounter.settle, hsub] at hzero
    have hone : counter.count = 1 := by
      rw [← UInt64.toNat_inj]
      change counter.count.toNat = 1
      omega
    simp only [RefCounter.settle, htally.live hpos, hlast hone, List.length_singleton]

theorem test (htesting : thread ∈ counter.testing) :
    Tally { counter with
      testing := counter.testing.erase thread
      cleanups := if counter.count.toUInt16 = 0 then counter.cleanups + 1
        else counter.cleanups } := by
  have hzero : counter.count.toUInt16 = 0 ↔ counter.count.toNat = 0 := by
    rw [← UInt16.toNat_inj, htally.toNat_toUInt16]
    rfl
  have herase := List.length_erase_of_mem htesting
  have hlength := List.length_pos_of_mem htesting
  constructor
  case count => exact htally.count
  case yield => exact htally.yield
  case bounded => exact htally.bounded
  case live =>
    intro (hpos : 0 < counter.count.toNat)
    have hne : ¬ counter.count.toUInt16 = 0 := by
      rw [hzero]
      omega
    simp only [if_neg hne]
    exact htally.live hpos
  case dead =>
    intro (hdead : counter.count.toNat = 0)
    have hsum := htally.dead hdead
    simp only [if_pos (hzero.mpr hdead), herase]
    omega

theorem consume (howner : thread ∈ counter.owners) (receiver : Nat)
    (hbound : counter.yield.toNat + 1 < 2 ^ 8) :
    Tally { counter with
      yield := counter.yield + 1
      owners := counter.owners.erase thread
      handed := receiver :: counter.handed } := by
  have herase := List.length_erase_of_mem howner
  have hlength := List.length_pos_of_mem howner
  have hadd : (counter.yield + 1).toNat = counter.yield.toNat + 1 := by
    rw [UInt8.toNat_add]
    exact Nat.mod_eq_of_lt (by simpa using hbound)
  have hcount := htally.count
  constructor
  case count =>
    simp only [List.length_cons, herase]
    omega
  case yield => simp only [List.length_cons, hadd, htally.yield]
  case bounded => exact htally.bounded
  case live => exact htally.live
  case dead => exact htally.dead

theorem does (hjustified : action.Justified counter thread) (hintime : action.InTime counter)
    (hdoes : RefAction.Does thread counter action counter' next) : Tally counter' := by
  cases hdoes with
  | exchanges use =>
      obtain ⟨rfl, hreceiver⟩ := hjustified
      exact htally.receive hreceiver
  | adds use =>
      obtain ⟨rfl, howner⟩ := hjustified
      exact htally.reference howner hintime
  | countsNone hzero =>
      rw [UInt16.lt_iff_toNat_lt, htally.toNat_toUInt16] at hzero
      exact absurd (htally.count_pos hjustified) hzero
  | subtracts => exact htally.release hjustified hintime
  | tests => exact htally.test hjustified
  | consumes receiver howner => exact htally.consume howner receiver hintime
  | _ => exact htally

theorem retry_receive (hreceiver : thread ∈ counter.handed) :
    RefAction.retry .receive counter.yield = .exchange .receive counter.yield := by
  have hpos : 0 < counter.yield := by
    rw [UInt8.lt_iff_toNat_lt, htally.yield]
    exact List.length_pos_of_mem hreceiver
  simp only [RefAction.retry, if_pos hpos]

theorem justified_next (hjustified : action.Justified counter thread)
    (hintime : action.InTime counter) (hdoes : RefAction.Does thread counter action counter' next)
    {later : RefAction} (hlater : next = some later) : later.Justified counter' thread := by
  cases hdoes with
  | enters use hentitled =>
      obtain rfl := Option.some.inj hlater
      exact hentitled
  | loads use =>
      obtain rfl := Option.some.inj hlater
      cases use with
      | reference =>
          rw [show counter.yield = 0 from hintime]
          exact ⟨rfl, hjustified⟩
      | release =>
          rw [show counter.yield = 0 from hintime]
          exact hjustified
      | receive =>
          rw [htally.retry_receive hjustified]
          exact ⟨rfl, hjustified⟩
  | exchanges use =>
      obtain ⟨rfl, -⟩ := hjustified
      cases hlater
  | retries use expected =>
      obtain ⟨rfl, hreceiver⟩ := hjustified
      obtain rfl := Option.some.inj hlater
      rw [htally.retry_receive hreceiver]
      exact ⟨rfl, hreceiver⟩
  | counts =>
      obtain rfl := Option.some.inj hlater
      exact hjustified
  | countsNone hzero =>
      obtain rfl := Option.some.inj hlater
      exact List.mem_cons_self
  | subtracts =>
      obtain rfl := Option.some.inj hlater
      exact List.mem_cons_self
  | _ => cases hlater

end Tally

namespace RefAction.Does

variable {counter counter' : RefCounter} {thread other : Nat} {action : RefAction}
  {next : Option RefAction}

theorem justified_of_ne (hdoes : Does thread counter action counter' next) (hother : other ≠ thread)
    {place : RefAction} (hplace : place.Justified counter other) :
    place.Justified counter' other := by
  have herase : ∀ {threads : List Nat}, other ∈ threads → other ∈ threads.erase thread :=
    (List.mem_erase_of_ne hother).mpr
  have hsettle : ∀ (counter : RefCounter) use, place.Justified counter other →
      place.Justified (counter.settle thread use) other := by
    intro counter use hplace
    cases use with
    | reference => exact hplace.mono (List.mem_cons_of_mem thread) id id
    | receive => exact hplace.mono (List.mem_cons_of_mem thread) herase id
    | release => exact hplace.mono herase id (List.mem_cons_of_mem thread)
  cases hdoes with
  | exchanges use => exact hsettle _ use (hplace.mono id id id)
  | adds use => exact hsettle _ use (hplace.mono id id id)
  | countsNone => exact hsettle _ .release hplace
  | subtracts => exact hsettle _ .release (hplace.mono id id id)
  | tests => exact hplace.mono id id herase
  | consumes receiver => exact hplace.mono herase (List.mem_cons_of_mem receiver) id
  | _ => exact hplace

end RefAction.Does

namespace RefSystem

def InTime (s : RefSystem) : Turn RefCall → Prop
  | .call _ _ => True
  | .go thread => ∀ action ∈ s.place thread, action.InTime s.shared

instance decidableInTime (s : RefSystem) : ∀ turn, Decidable (InTime s turn)
  | .call _ _ => inferInstanceAs (Decidable True)
  | .go thread => inferInstanceAs (Decidable (∀ action ∈ s.place thread, action.InTime s.shared))

theorem tally_run {creator : Nat} {turns : List (Turn RefCall)}
    (hmeets : Runs.Meets (Threads.step refCode) InTime (start creator) turns) :
    Tally ((start creator).run turns).shared := by
  have hone : Threads.AtMostOne (start creator) := fun _ => Nat.zero_le 1
  have hnowhere : ∀ thread, (start creator).place thread = none := fun _ => rfl
  refine (Threads.invariant_of_jumps sequential_refCode
    (fun counter place => Tally counter ∧
      ∀ thread action, place thread = some action → action.Justified counter thread)
    ?_ hone ⟨?_, fun thread action hat => ?_⟩ hmeets).1
  · rintro s turn counter place ⟨htally, hjustified⟩ hintime hjumps
    cases hjumps with
    | stays => exact ⟨htally, hjustified⟩
    | starts thread call hnone =>
        refine ⟨htally, fun other action hother => ?_⟩
        rcases Threads.of_update_eq hother with ⟨rfl, hnext⟩ | ⟨-, hplace⟩
        · obtain rfl := Option.some.inj hnext
          cases call <;> trivial
        · exact hjustified other action hplace
    | acts thread action counter next hat hexec =>
        have hdoes := (RefAction.does_of_exec hexec).1
        have hhere := hjustified thread action hat
        have htime := hintime action hat
        refine ⟨htally.does hhere htime hdoes, fun other later hother => ?_⟩
        rcases Threads.of_update_eq hother with ⟨rfl, hnext⟩ | ⟨hthread, hplace⟩
        · exact htally.justified_next hhere htime hdoes hnext
        · exact hdoes.justified_of_ne hthread (hjustified other later hplace)
  · constructor
    case count => rfl
    case yield => rfl
    case bounded => exact Nat.one_lt_two_pow (by decide)
    case live => exact fun _ => rfl
    case dead => exact nofun
  · rw [hnowhere] at hat
    cases hat

/-- **One cleanup.** In every run in which the accesses are made in time, the cleanup branch is
entered at most once, and only when nobody owns a reference and none is handed over; and once all
references have been released and every thread that released has made its test, it has been
entered. -/
theorem cleanups_run {creator : Nat} {turns : List (Turn RefCall)}
    (hmeets : Runs.Meets (Threads.step refCode) InTime (start creator) turns) :
    ((start creator).run turns).shared.cleanups ≤ 1 ∧
      (((start creator).run turns).shared.cleanups = 1 →
        ((start creator).run turns).shared.owners = [] ∧
          ((start creator).run turns).shared.handed = []) ∧
      (((start creator).run turns).shared.owners = [] →
        ((start creator).run turns).shared.handed = [] →
        ((start creator).run turns).shared.testing = [] →
        ((start creator).run turns).shared.cleanups = 1) := by
  have htally := tally_run hmeets
  generalize ((start creator).run turns).shared = counter at htally ⊢
  have hcount := htally.count
  rcases Nat.eq_zero_or_pos counter.count.toNat with hzero | hpos
  · have hsum := htally.dead hzero
    refine ⟨by omega, fun _ => ?_, fun _ _ htesting => ?_⟩
    · exact ⟨List.eq_nil_of_length_eq_zero (by omega), List.eq_nil_of_length_eq_zero (by omega)⟩
    · rwa [htesting] at hsum
  · have hnone := htally.live hpos
    refine ⟨by omega, fun hone => absurd hone (by omega), fun howners hhanded => ?_⟩
    rw [howners, hhanded] at hcount
    exact absurd hcount (by simp; omega)

/-- The creator makes a second reference, hands it over to another thread, and that one takes it
up. -/
def shareOut : List (Turn RefCall) :=
  calls 0 (RefCall.uses .reference) 3 ++ calls 0 (RefCall.consume 1) 1 ++
    calls 1 (RefCall.uses .receive) 3

def releaseInTurn : List (Turn RefCall) :=
  shareOut ++ calls 0 (RefCall.uses .release) 5 ++ calls 1 (RefCall.uses .release) 5

/-- Both threads count down before either of them tests the count. -/
def releaseTogether : List (Turn RefCall) :=
  shareOut ++ calls 0 (RefCall.uses .release) 4 ++ calls 1 (RefCall.uses .release) 5 ++ goes 0 1

/-- The creator releases its reference while the one it has handed over is not taken up yet; then
the receiver takes it up and releases it. -/
def releaseDuringHandOver : List (Turn RefCall) :=
  calls 0 (RefCall.uses .reference) 3 ++ calls 0 (RefCall.consume 1) 1 ++
    calls 0 (RefCall.uses .release) 4 ++ calls 1 (RefCall.uses .receive) 3 ++
    calls 1 (RefCall.uses .release) 5

/-- Another reference is made while one that was handed over is not taken up yet, and all owners
release. -/
def referenceDuringHandOver : List (Turn RefCall) :=
  calls 0 (RefCall.uses .reference) 3 ++ calls 0 (RefCall.consume 1) 1 ++
    calls 0 (RefCall.uses .reference) 3 ++ calls 0 (RefCall.uses .release) 5 ++
    calls 0 (RefCall.uses .release) 5

theorem cleanups_releaseInTurn :
    ((start 0).run shareOut).shared.owners = [1, 0] ∧
      ((start 0).run releaseInTurn).shared.owners = [] ∧
      ((start 0).run releaseInTurn).shared.cleanups = 1 :=
  ⟨by decide +kernel, by decide +kernel, (cleanups_run (by decide +kernel)).2.2
    (by decide +kernel) (by decide +kernel) (by decide +kernel)⟩

/-- Two cleanups; none though every reference is released; and one while a reference is handed
over. -/
theorem not_one_cleanup :
    ((start 0).run releaseTogether).shared.cleanups = 2 ∧
      (((start 0).run releaseDuringHandOver).shared.owners = [] ∧
        ((start 0).run releaseDuringHandOver).shared.handed = [] ∧
        ((start 0).run releaseDuringHandOver).shared.testing = [] ∧
        ((start 0).run releaseDuringHandOver).shared.cleanups = 0) ∧
      ((start 0).run referenceDuringHandOver).shared.cleanups = 1 ∧
        ((start 0).run referenceDuringHandOver).shared.handed = [1] := by
  decide +kernel

end RefSystem

end Poseidon
