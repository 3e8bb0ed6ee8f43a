import Mathlib.Data.List.Nodup
import Mathlib.Logic.Function.Basic
import Poseidon.Lib.Runs
import Poseidon.Quasar.Routing

/-!
# Drawing message ids

`quasar_message_id_get_next` reads the monotonic clock and then takes the next number of a counter,
in two steps between which other threads run. The counter belongs to the process, and nothing in an
id names the node that drew it. So the ids of one process differ, and those of two processes agree
exactly where both show the same time in their calls of the same number.
-/

namespace Poseidon

open Function (update update_self update_of_ne)

/-- A reading of `CLOCK_MONOTONIC`. -/
structure ClockStamp where
  time : UInt64
  nanos : UInt64
deriving DecidableEq, Repr

def MessageId.stamp (id : MessageId) : ClockStamp :=
  ⟨id.time, id.nanos⟩

/-- The processes that draw ids: the counter of each, the readings of the threads that are between
their two steps, and the ids returned so far, in the order of their draws. -/
structure IdNetwork (ν τ : Type*) where
  messageIdCount : ν → UInt64
  reading : ν → τ → Option ClockStamp
  returned : ν → List MessageId

/-- The two steps of a call, each of any thread of any process. -/
inductive IdStep (ν τ : Type*) where
  | clockGettime (node : ν) (thread : τ) (stamp : ClockStamp)
  | fetchAdd (node : ν) (thread : τ)
deriving DecidableEq, Repr

namespace IdNetwork

variable {ν τ : Type*}

def start : IdNetwork ν τ where
  messageIdCount _ := 0
  reading _ _ := none
  returned _ := []

/-- The counter of a process is the number of its draws, and a draw has its own number. -/
structure Numbered (net : IdNetwork ν τ) : Prop where
  count_eq : ∀ node, net.messageIdCount node = UInt64.ofNat (net.returned node).length
  number_eq : ∀ {node k id}, (net.returned node)[k]? = some id → id.count = UInt64.ofNat k

theorem numbered_start : (start : IdNetwork ν τ).Numbered :=
  ⟨fun _ => rfl, fun hid => by simp [start] at hid⟩

theorem Numbered.draw {net : IdNetwork ν τ} (hnet : net.Numbered) (node : ν) (stamp : ClockStamp)
    {k : Nat} {id : MessageId}
    (hid : (net.returned node ++ [⟨stamp.time, stamp.nanos, net.messageIdCount node⟩])[k]? =
      some id) :
    id.count = UInt64.ofNat k := by
  by_cases hk : k < (net.returned node).length
  · rw [List.getElem?_append_left hk] at hid
    exact hnet.number_eq hid
  · rw [List.getElem?_append_right (Nat.le_of_not_lt hk), List.getElem?_singleton] at hid
    split_ifs at hid with hlast
    obtain rfl := Option.some.inj hid
    obtain rfl : k = (net.returned node).length := by omega
    exact hnet.count_eq node

section Steps

variable [DecidableEq ν] [DecidableEq τ]

def setReading (net : IdNetwork ν τ) (node : ν) (thread : τ) (stamp : Option ClockStamp) :
    ν → τ → Option ClockStamp :=
  update net.reading node (update (net.reading node) thread stamp)

-- a thread that has read the clock takes its number before it calls again
def step (net : IdNetwork ν τ) : IdStep ν τ → IdNetwork ν τ
  | .clockGettime node thread stamp =>
      if (net.reading node thread).isSome then net
      else { net with reading := net.setReading node thread (some stamp) }
  | .fetchAdd node thread =>
      match net.reading node thread with
      | none => net
      | some stamp =>
          { messageIdCount :=
              update net.messageIdCount node (net.messageIdCount node + 1)
            reading := net.setReading node thread none
            returned := update net.returned node
              (net.returned node ++ [⟨stamp.time, stamp.nanos, net.messageIdCount node⟩]) }

theorem Numbered.step {net : IdNetwork ν τ} (hnet : net.Numbered) (idStep : IdStep ν τ) :
    (net.step idStep).Numbered := by
  cases idStep with
  | clockGettime node thread stamp =>
      simp only [IdNetwork.step]
      split_ifs
      · exact hnet
      · exact ⟨hnet.count_eq, hnet.number_eq⟩
  | fetchAdd node thread =>
      simp only [IdNetwork.step]
      cases net.reading node thread with
      | none => exact hnet
      | some stamp =>
          refine ⟨fun other => ?_, fun {other k id} hid => ?_⟩
          · dsimp only
            by_cases hother : other = node
            · subst hother
              rw [update_self, update_self, hnet.count_eq, List.length_append]
              exact (UInt64.ofNat_add _ 1).symm
            · rw [update_of_ne hother, update_of_ne hother]
              exact hnet.count_eq other
          · dsimp only at hid
            by_cases hother : other = node
            · subst hother
              rw [update_self] at hid
              exact hnet.draw other stamp hid
            · rw [update_of_ne hother] at hid
              exact hnet.number_eq hid

theorem numbered_run (steps : List (IdStep ν τ)) : (Runs.run step start steps).Numbered :=
  Runs.invariant step Numbered (fun _ idStep hnet => hnet.step idStep) numbered_start

end Steps

def UniqueIds (net : IdNetwork ν τ) : Prop :=
  ∀ (node other : ν) (i j : Nat) (id : MessageId), (net.returned node)[i]? = some id →
    (net.returned other)[j]? = some id → node = other ∧ i = j

/-- The message is discarded by every receiver that has handled `first`, and has the id of that
message. -/
def MistakenFor (second first : RouteMessage) : Prop :=
  second.id = first.id ∧ ∀ (H : HashFn) (receiver : Quasar),
    (receiver.onRouteMessage H first).1.onRouteMessage H second =
      ((receiver.onRouteMessage H first).1, [])

def NeverMistaken (net : IdNetwork ν τ) : Prop :=
  ∀ (node other : ν) (first second : RouteMessage), node ≠ other →
    first.id ∈ net.returned node → second.id ∈ net.returned other → ¬MistakenFor second first

/-- No two nodes read the same time in their calls of the same number. -/
def ApartInTime (net : IdNetwork ν τ) : Prop :=
  ∀ (node other : ν) (k : Nat) (id found : MessageId), node ≠ other →
    (net.returned node)[k]? = some id → (net.returned other)[k]? = some found →
      id.stamp ≠ found.stamp

theorem mistakenFor_of_id_eq {first second : RouteMessage} (hid : second.id = first.id) :
    MistakenFor second first := by
  refine ⟨hid, fun H receiver => ?_⟩
  have hseen : (receiver.onRouteMessage H first).1.seen.contains H first.id.key = true := by
    unfold Quasar.onRouteMessage
    split_ifs with haccepts
    · exact Quasar.contains_seen_markSeen_of_mem H receiver (List.mem_singleton_self _)
    · simpa [Quasar.accepts] using haccepts
  have hrejects : ¬(receiver.onRouteMessage H first).1.accepts H second = true := by
    simp [Quasar.accepts, hid, hseen]
  conv_lhs => rw [Quasar.onRouteMessage, if_neg hrejects]

variable {net : IdNetwork ν τ}

theorem Numbered.eq_of_count_eq (hnet : net.Numbered)
    (hfew : ∀ node, (net.returned node).length ≤ 2 ^ 64) {node other : ν} {i j : Nat}
    {id found : MessageId} (hid : (net.returned node)[i]? = some id)
    (hfound : (net.returned other)[j]? = some found) (hcount : id.count = found.count) : i = j := by
  have hi := (List.getElem?_eq_some_iff.mp hid).1.trans_le (hfew node)
  have hj := (List.getElem?_eq_some_iff.mp hfound).1.trans_le (hfew other)
  rw [hnet.number_eq hid, hnet.number_eq hfound] at hcount
  have hnat := congrArg UInt64.toNat hcount
  rwa [UInt64.toNat_ofNat_of_lt' hi, UInt64.toNat_ofNat_of_lt' hj] at hnat

/-- Two calls that return the same id are the same call, or calls of the same number of two nodes
that read the same time. -/
theorem Numbered.uniqueIds_iff (hnet : net.Numbered)
    (hfew : ∀ node, (net.returned node).length ≤ 2 ^ 64) : net.UniqueIds ↔ net.ApartInTime := by
  constructor
  · intro hunique node other k id found hne hid hfound hstamp
    have hcount : id.count = found.count :=
      (hnet.number_eq hid).trans (hnet.number_eq hfound).symm
    have hsame : id = found := by
      cases id
      cases found
      simp only [MessageId.stamp, ClockStamp.mk.injEq] at hstamp
      cases hstamp.1
      cases hstamp.2
      cases hcount
      rfl
    exact hne (hunique node other k k id hid (hsame ▸ hfound)).1
  · intro hapart node other i j id hid hfound
    obtain rfl := hnet.eq_of_count_eq hfew hid hfound rfl
    by_cases hne : node = other
    · exact ⟨hne, rfl⟩
    · exact absurd rfl (hapart node other i id id hne hid hfound)

theorem neverMistaken_of_uniqueIds (hunique : net.UniqueIds) : net.NeverMistaken := by
  intro node other first second hne hfirst hsecond hmistaken
  obtain ⟨i, hi⟩ := List.mem_iff_getElem?.mp hfirst
  obtain ⟨j, hj⟩ := List.mem_iff_getElem?.mp hsecond
  rw [hmistaken.1] at hj
  exact hne (hunique node other i j first.id hi hj).1

/-- **Message ids.** For any processes, threads, clocks and interleavings, as long as no process has
drawn more than `2 ^ 64` ids: the ids of each process differ; and all ids differ, and no message is
discarded for the message of another node, exactly if no two nodes read the same time in their calls
of the same number. -/
theorem messageIds_unique_iff [DecidableEq ν] [DecidableEq τ] (steps : List (IdStep ν τ))
    (hfew : ∀ node, ((Runs.run step start steps).returned node).length ≤ 2 ^ 64) :
    let net := Runs.run step start steps
    (∀ node, (net.returned node).Nodup) ∧
      (net.UniqueIds ∧ net.NeverMistaken ↔ net.ApartInTime) := by
  intro net
  have hnet : net.Numbered := numbered_run steps
  have hiff := hnet.uniqueIds_iff hfew
  refine ⟨fun node => ?_, fun hunique => hiff.mp hunique.1, fun hapart => ?_⟩
  · rw [List.nodup_iff_getElem?_ne_getElem?]
    intro i j hij hj hsame
    have hi := List.getElem?_eq_getElem (hij.trans hj)
    have hequal := hnet.eq_of_count_eq hfew hi (hsame ▸ hi) rfl
    omega
  · have hunique := hiff.mpr hapart
    exact ⟨hunique, neverMistaken_of_uniqueIds hunique⟩

/-- Two nodes whose threads interleave and whose clocks agree, except that the second node drew an
id before. -/
def staggered : List (IdStep Bool Bool) :=
  [.clockGettime true false ⟨4, 0⟩, .fetchAdd true false, .clockGettime false false ⟨5, 6⟩,
    .clockGettime true true ⟨5, 6⟩, .fetchAdd true true, .fetchAdd false false]

theorem apartInTime_staggered : (Runs.run step start staggered).ApartInTime := by
  have hfalse : (Runs.run step start staggered).returned false = [⟨5, 6, 0⟩] := by decide +kernel
  have htrue : (Runs.run step start staggered).returned true = [⟨4, 0, 0⟩, ⟨5, 6, 1⟩] := by
    decide +kernel
  intro node other k id found hne hid hfound
  cases node with
  | false =>
      obtain rfl : other = true := by simpa using hne.symm
      rw [hfalse] at hid
      rw [htrue] at hfound
      grind [MessageId.stamp]
  | true =>
      obtain rfl : other = false := by simpa using hne.symm
      rw [htrue] at hid
      rw [hfalse] at hfound
      grind [MessageId.stamp]

theorem messageIds_unique_staggered :
    (∀ node, ((Runs.run step start staggered).returned node).length ≤ 2 ^ 64) ∧
      (Runs.run step start staggered).UniqueIds ∧
        (Runs.run step start staggered).NeverMistaken := by
  have hfew : ∀ node, ((Runs.run step start staggered).returned node).length ≤ 2 ^ 64 := by
    decide +kernel
  exact ⟨hfew, (messageIds_unique_iff staggered hfew).2.mpr apartInTime_staggered⟩

/-- Two nodes whose clocks agree in their first calls: a receiver that has handled the message of
one discards the message of the other. -/
theorem messageIds_collide :
    let net : IdNetwork Bool Bool := Runs.run step start
      [.clockGettime false false ⟨5, 6⟩, .clockGettime true false ⟨5, 6⟩, .fetchAdd false false,
        .fetchAdd true false]
    net.returned false = [⟨5, 6, 0⟩] ∧ net.returned true = [⟨5, 6, 0⟩] ∧
      ¬net.UniqueIds ∧ ¬net.NeverMistaken := by
  intro net
  have hfalse : net.returned false = [⟨5, 6, 0⟩] := by decide +kernel
  have htrue : net.returned true = [⟨5, 6, 0⟩] := by decide +kernel
  refine ⟨hfalse, htrue, fun hunique => ?_, fun hnever => ?_⟩
  · exact absurd (hunique false true 0 0 ⟨5, 6, 0⟩ (by rw [hfalse]; rfl) (by rw [htrue]; rfl)).1
      Bool.false_ne_true
  · exact hnever false true (.create ⟨5, 6, 0⟩ [1] [2] 3 8 1) (.create ⟨5, 6, 0⟩ [3] [4] 3 8 1)
      Bool.false_ne_true (by rw [hfalse]; exact List.mem_singleton_self _)
      (by rw [htrue]; exact List.mem_singleton_self _) (mistakenFor_of_id_eq rfl)

end IdNetwork

end Poseidon
