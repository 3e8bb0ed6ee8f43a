import Mathlib.Algebra.Order.Ring.Int
import Poseidon.Lib.Threads

/-!
# Reference counters

A reference counter has two atomics, the count and the number of pending hand-overs. A new reference
takes a pending hand-over if it sees one and counts up otherwise; a release does the same the other
way round, and the destroy functions then read the count in a second step. Each atomic access is one
step; between two of them any other thread may come in.
-/

namespace Poseidon

open Threads (Instr)

/-- `refcounter_t`: `count` is a `uint_fast16_t`, which has 64 bits, and `yield` a `uint_fast8_t`.
Besides, it is recorded which thread owns a reference, once for each; to whom references have been
handed over that have not been taken up; which threads have released one and not read the count yet;
and how often the cleanup branch was entered. -/
structure RefCounter where
  count : UInt64
  yield : UInt8
  owners : List Nat
  handed : List Nat
  testing : List Nat
  cleanups : Nat

/-- What a thread does with a reference: it makes another one, takes up one that was handed over to
it, or releases one. -/
inductive RefUse where
  | reference
  | receive
  | release
deriving DecidableEq, Repr

inductive RefAction where
  -- `refcounter_reference` or a destroy function is called.
  | enter (use : RefUse)
  -- `atomic_load(&refcounter->yield)`.
  | loadYield (use : RefUse)
  -- `atomic_compare_exchange_weak(&refcounter->yield, ..)`. Where it fails without reason, the
  -- thread is where it was before.
  | exchange (use : RefUse) (expected : UInt8)
  -- `atomic_fetch_add(&refcounter->count, 1)`.
  | add (use : RefUse)
  -- `atomic_load(&refcounter->count)` in `refcounter_dereference`.
  | loadCount
  -- `atomic_fetch_sub(&refcounter->count, 1)`.
  | subtract
  -- The test of `refcounter_count` in the destroy function.
  | test
  -- `refcounter_consume`.
  | consume (receiver : Nat)
deriving DecidableEq, Repr

abbrev RefInstr := Instr Empty RefAction

namespace RefCounter

/-- `refcounter_init`. -/
def init (creator : Nat) : RefCounter where
  count := 1
  yield := 0
  owners := [creator]
  handed := []
  testing := []
  cleanups := 0

/-- Only an owner makes references and releases, and only a receiver takes up. -/
def Entitled (counter : RefCounter) (thread : Nat) : RefUse → Prop
  | .reference => thread ∈ counter.owners
  | .receive => thread ∈ counter.handed
  | .release => thread ∈ counter.owners

instance decidableEntitled (counter : RefCounter) (thread : Nat) :
    ∀ use, Decidable (counter.Entitled thread use)
  | .reference => inferInstanceAs (Decidable (thread ∈ counter.owners))
  | .receive => inferInstanceAs (Decidable (thread ∈ counter.handed))
  | .release => inferInstanceAs (Decidable (thread ∈ counter.owners))

def settle (counter : RefCounter) (thread : Nat) : RefUse → RefCounter
  | .reference => { counter with owners := thread :: counter.owners }
  | .receive =>
      { counter with
        owners := thread :: counter.owners
        handed := counter.handed.erase thread }
  | .release =>
      { counter with
        owners := counter.owners.erase thread
        testing := thread :: counter.testing }

end RefCounter

namespace RefAction

/-- The condition of the loops over `expected_yield`, and what comes after them. -/
def retry (use : RefUse) (expected : UInt8) : RefAction :=
  if 0 < expected then .exchange use expected
  else
    match use with
    | .release => .loadCount
    | _ => .add use

/-- A release is followed by the test of the count. -/
def after : RefUse → List RefInstr
  | .release => [.act .test]
  | _ => []

def exec (thread : Nat) : RefAction → RefCounter → Option (RefCounter × List RefInstr)
  | .enter use, counter =>
      some (counter, if counter.Entitled thread use then [.act (.loadYield use)] else [])
  | .loadYield use, counter => some (counter, [.act (retry use counter.yield)])
  | .exchange use expected, counter =>
      some (if counter.yield = expected then
        ({ counter with yield := expected - 1 }.settle thread use, after use)
      else
        (counter, [.act (retry use counter.yield)]))
  | .add use, counter =>
      some ({ counter with count := counter.count + 1 }.settle thread use, [])
  | .loadCount, counter =>
      -- `count_val` is a `uint16_t`.
      some (if 0 < counter.count.toUInt16 then (counter, [.act .subtract])
        else (counter.settle thread .release, [.act .test]))
  | .subtract, counter =>
      some ({ counter with count := counter.count - 1 }.settle thread .release, [.act .test])
  | .test, counter =>
      some ({ counter with
        testing := counter.testing.erase thread
        cleanups := if counter.count.toUInt16 = 0 then counter.cleanups + 1
          else counter.cleanups }, [])
  | .consume receiver, counter =>
      some (if thread ∈ counter.owners then
        { counter with
          yield := counter.yield + 1
          owners := counter.owners.erase thread
          handed := receiver :: counter.handed }
      else
        counter, [])

end RefAction

inductive RefCall where
  | uses (use : RefUse)
  | consume (receiver : Nat)
deriving DecidableEq

def RefCall.first : RefCall → RefAction
  | .uses use => .enter use
  | .consume receiver => .consume receiver

def refCode : Threads.Code Empty RefAction RefCounter RefCall where
  exec := RefAction.exec
  program := fun call => [.act call.first]

abbrev RefSystem := Threads.System Empty RefAction RefCounter

namespace RefSystem

def start (creator : Nat) : RefSystem where
  shared := .init creator
  holder := fun _ => none
  todo := fun _ => []

def run (s : RefSystem) (turns : List (Threads.Turn RefCall)) : RefSystem :=
  Runs.run (Threads.step refCode) s turns

end RefSystem

end Poseidon
