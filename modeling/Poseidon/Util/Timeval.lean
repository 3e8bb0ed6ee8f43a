import Mathlib.Data.Prod.Lex
import Mathlib.Tactic.Ring

/-!
# Clock readings

The `struct timeval` of `gettimeofday`, normalised as the clock and the macros `timeradd` and
`timersub` return it. `timercmp` compares seconds first and microseconds second, which on
normalised values is the order of the total number of microseconds. The sums are taken without a
bound: 64 bits hold the microseconds of some 290000 years.
-/

namespace Poseidon

@[ext]
structure Timeval where
  sec : Nat
  usec : Nat
  usec_lt : usec < 1000000
deriving DecidableEq, Repr

namespace Timeval

def key (time : Timeval) : Nat ×ₗ Nat :=
  toLex (time.sec, time.usec)

theorem key_injective : Function.Injective key := by
  intro a b hkey
  have hpair : (a.sec, a.usec) = (b.sec, b.usec) := hkey
  exact Timeval.ext (congrArg Prod.fst hpair) (congrArg Prod.snd hpair)

/-- The order of `timercmp`. -/
instance : LinearOrder Timeval :=
  LinearOrder.lift' key key_injective

theorem lt_iff {a b : Timeval} : a < b ↔ a.sec < b.sec ∨ a.sec = b.sec ∧ a.usec < b.usec :=
  Prod.Lex.toLex_lt_toLex

def us (time : Timeval) : Nat :=
  time.sec * 1000000 + time.usec

theorem us_lt_us_iff {a b : Timeval} : a.us < b.us ↔ a < b := by
  have ha := a.usec_lt
  have hb := b.usec_lt
  rw [lt_iff]
  unfold us
  omega

theorem us_le_us_iff {a b : Timeval} : a.us ≤ b.us ↔ a ≤ b := by
  rw [← not_lt, us_lt_us_iff, not_lt]

theorem carry_lt (usec : Nat) : usec % 1000000 < 1000000 :=
  Nat.mod_lt usec (by norm_num)

/-- `timeradd`. -/
def add (a b : Timeval) : Timeval :=
  ⟨a.sec + b.sec + (a.usec + b.usec) / 1000000, (a.usec + b.usec) % 1000000, carry_lt _⟩

theorem us_add (a b : Timeval) : (a.add b).us = a.us + b.us := by
  unfold add us
  dsimp only
  omega

/-- `timersub`: the seconds and microseconds between two readings. -/
def sub (a b : Timeval) : Int × Int :=
  if a.usec < b.usec then ((a.sec : Int) - b.sec - 1, (a.usec : Int) - b.usec + 1000000)
  else ((a.sec : Int) - b.sec, (a.usec : Int) - b.usec)

theorem sub_us (a b : Timeval) :
    (a.sub b).1 * 1000000 + (a.sub b).2 = (a.us : Int) - b.us := by
  unfold sub us
  split_ifs <;> push_cast <;> ring

theorem millis_lt (ms : Nat) : ms % 1000 * 1000 < 1000000 := by
  have := Nat.mod_lt ms (show 0 < 1000 by norm_num)
  omega

/-- The milliseconds of a timeout as seconds and microseconds. -/
def ofMillis (ms : UInt32) : Timeval :=
  ⟨ms.toNat / 1000, ms.toNat % 1000 * 1000, millis_lt _⟩

def ofSeconds (sec : UInt32) : Timeval :=
  ⟨sec.toNat, 0, Nat.succ_pos _⟩

theorem us_ofSeconds (sec : UInt32) : (ofSeconds sec).us = sec.toNat * 1000000 :=
  Nat.add_zero _

end Timeval

end Poseidon
