import Mathlib.Data.List.InsertIdx
import Mathlib.Data.List.Nodup
import Poseidon.Lib.Threads
import Poseidon.Meridian.Protocol

/-!
# Connections of many threads

`meridian_protocol_connect` looks for room and for an entry of the peer without the lock, one entry
after the other, then opens the connection, and takes the lock only to add the entry. The listener
and `meridian_protocol_disconnect` look and change under the lock, which is one step here. What
`meridian_protocol_connect` has found may no longer hold when it adds the entry.
-/

namespace Poseidon

/-- A connection, with the node it was opened to; there is none for an accepted one. -/
structure QuicConnection where
  handle : Nat
  openedTo : Option MeridianNode
deriving DecidableEq, Repr

def maxConnectedPeers : Nat := 64

/-- The arrays `connected_peers` and `peer_nodes` of `meridian_protocol_t`, as far as they are
used. -/
structure PeerArrays where
  running : Bool
  connectedPeers : List QuicConnection
  peerNodes : List (Option MeridianNode)
deriving DecidableEq, Repr

namespace PeerArrays

def numConnectedPeers (arrays : PeerArrays) : Nat :=
  arrays.peerNodes.length

def append (arrays : PeerArrays) (connection : QuicConnection) (node : Option MeridianNode) :
    PeerArrays :=
  { arrays with
    connectedPeers := arrays.connectedPeers ++ [connection]
    peerNodes := arrays.peerNodes ++ [node] }

/-- The entries behind move up by one in both arrays. -/
def remove (arrays : PeerArrays) (node : MeridianNode) : PeerArrays :=
  match arrays.peerNodes.findIdx? (· == some node) with
  | none => arrays
  | some index =>
      { arrays with
        connectedPeers := arrays.connectedPeers.eraseIdx index
        peerNodes := arrays.peerNodes.eraseIdx index }

end PeerArrays

/-- The places of the calls; a connect knows the connection that the library will open for it, if
any. -/
inductive PeerAction where
  | checkRoom (node : MeridianNode) (opened : Option Nat)
  | checkEntry (node : MeridianNode) (opened : Option Nat) (index : Nat)
  | insert (node : MeridianNode) (handle : Nat)
  | checkRunning (node : MeridianNode)
  | remove (node : MeridianNode)
  | accept (handle : Nat)
deriving DecidableEq, Repr

inductive PeerCall where
  | connect (node : MeridianNode) (opened : Option Nat)
  | disconnect (node : MeridianNode)
  | listener (handle : Nat)
deriving DecidableEq, Repr

abbrev PeerInstr := Threads.Instr Unit PeerAction

namespace PeerAction

def locked (action : PeerAction) : List PeerInstr :=
  [.lock (), .act action, .unlock ()]

def perform : PeerAction → PeerArrays → PeerArrays × List PeerInstr
  | .checkRoom node opened, arrays =>
      (arrays,
        if !arrays.running then []
        else if maxConnectedPeers ≤ arrays.numConnectedPeers then []
        else [.act (.checkEntry node opened 0)])
  | .checkEntry node opened index, arrays =>
      (arrays,
        if index < arrays.numConnectedPeers then
          if arrays.peerNodes[index]? = some (some node) then []
          else [.act (.checkEntry node opened (index + 1))]
        else (opened.map fun handle => (PeerAction.insert node handle).locked).getD [])
  | .insert node handle, arrays => (arrays.append ⟨handle, some node⟩ (some node), [])
  | .checkRunning node, arrays =>
      (arrays, if arrays.running then (PeerAction.remove node).locked else [])
  | .remove node, arrays => (arrays.remove node, [])
  | .accept handle, arrays =>
      (if arrays.numConnectedPeers < maxConnectedPeers then arrays.append ⟨handle, none⟩ none
        else arrays, [])

end PeerAction

/-- `meridian_protocol_connect`, `meridian_protocol_disconnect` and the new connections of
`ListenerCallback`. -/
def peerCode : Threads.Code Unit PeerAction PeerArrays PeerCall where
  exec _ action arrays := some (action.perform arrays)
  program
    | .connect node opened => [.act (.checkRoom node opened)]
    | .disconnect node => [.act (.checkRunning node)]
    | .listener handle => (PeerAction.accept handle).locked

abbrev PeerSystem := Threads.System Unit PeerAction PeerArrays

namespace PeerSystem

def start (running : Bool) : PeerSystem where
  shared := ⟨running, [], []⟩
  holder _ := none
  todo _ := []

def run (s : PeerSystem) (turns : List (Threads.Turn PeerCall)) : PeerSystem :=
  Runs.run (Threads.step peerCode) s turns

end PeerSystem

namespace PeerArrays

/-- The table is bounded, its arrays are aligned, and no two entries are of one known node. -/
structure Sound (arrays : PeerArrays) : Prop where
  bounded : arrays.numConnectedPeers ≤ maxConnectedPeers
  aligned : arrays.connectedPeers.map (·.openedTo) = arrays.peerNodes
  distinct : (arrays.peerNodes.filterMap id).Nodup

def Fresh (arrays : PeerArrays) (node : MeridianNode) : Prop :=
  arrays.numConnectedPeers < maxConnectedPeers ∧ some node ∉ arrays.peerNodes

theorem sound_empty (running : Bool) : Sound ⟨running, [], []⟩ :=
  ⟨Nat.zero_le _, rfl, List.nodup_nil⟩

theorem some_mem_iff (arrays : PeerArrays) (node : MeridianNode) :
    node ∈ arrays.peerNodes.filterMap id ↔ some node ∈ arrays.peerNodes := by
  rw [List.mem_filterMap]
  exact ⟨fun ⟨_, hmem, hsome⟩ => hsome ▸ hmem, fun hmem => ⟨some node, hmem, rfl⟩⟩

namespace Sound

variable {arrays : PeerArrays} (hsound : arrays.Sound)

include hsound

theorem aligned_append (connection : QuicConnection) :
    (arrays.append connection connection.openedTo).connectedPeers.map (·.openedTo) =
      (arrays.append connection connection.openedTo).peerNodes := by
  dsimp only [PeerArrays.append]
  rw [List.map_append, hsound.aligned, List.map_singleton]

theorem append_iff (node : MeridianNode) (handle : Nat) :
    (arrays.append ⟨handle, some node⟩ (some node)).Sound ↔ arrays.Fresh node := by
  have hnodes : (arrays.append ⟨handle, some node⟩ (some node)).peerNodes.filterMap id =
      (arrays.peerNodes.filterMap id).concat node := by
    rw [List.concat_eq_append]
    exact List.filterMap_append
  have hlength : (arrays.append ⟨handle, some node⟩ (some node)).numConnectedPeers =
      arrays.numConnectedPeers + 1 := List.length_append
  constructor
  · intro hafter
    have hbounded := hafter.bounded
    have hdistinct := hafter.distinct
    rw [hlength] at hbounded
    rw [hnodes, List.nodup_concat, some_mem_iff] at hdistinct
    exact ⟨hbounded, hdistinct.1⟩
  · rintro ⟨hroom, habsent⟩
    refine ⟨?_, hsound.aligned_append ⟨handle, some node⟩, ?_⟩
    · rw [hlength]
      exact hroom
    · rw [hnodes, List.nodup_concat, some_mem_iff]
      exact ⟨habsent, hsound.distinct⟩

theorem accept (hroom : arrays.numConnectedPeers < maxConnectedPeers) (handle : Nat) :
    (arrays.append ⟨handle, none⟩ none).Sound := by
  have hnodes : (arrays.append ⟨handle, none⟩ none).peerNodes.filterMap id =
      arrays.peerNodes.filterMap id :=
    List.filterMap_append.trans (List.append_nil _)
  refine ⟨?_, hsound.aligned_append ⟨handle, none⟩, ?_⟩
  · rw [numConnectedPeers, PeerArrays.append, List.length_append]
    exact hroom
  · rw [hnodes]
    exact hsound.distinct

theorem remove (node : MeridianNode) : (arrays.remove node).Sound := by
  unfold PeerArrays.remove
  cases arrays.peerNodes.findIdx? (· == some node) with
  | none => exact hsound
  | some index =>
      have hsublist := List.eraseIdx_sublist arrays.peerNodes index
      refine ⟨?_, ?_, ?_⟩
      · exact le_trans hsublist.length_le hsound.bounded
      · dsimp only
        rw [← hsound.aligned, List.eraseIdx_map]
      · exact hsound.distinct.sublist (hsublist.filterMap id)

end Sound

end PeerArrays

namespace PeerAction

variable {arrays : PeerArrays}

theorem sound_perform_iff (hsound : arrays.Sound) (action : PeerAction) :
    (action.perform arrays).1.Sound ↔
      ∀ node handle, action = .insert node handle → arrays.Fresh node := by
  cases action with
  | insert node handle =>
      refine (hsound.append_iff node handle).trans ⟨?_, fun hall => hall node handle rfl⟩
      intro hfresh _ _ heq
      obtain ⟨rfl, rfl⟩ := PeerAction.insert.inj heq
      exact hfresh
  | remove node => exact iff_of_true (hsound.remove node) fun _ _ heq => by cases heq
  | accept handle =>
      refine iff_of_true ?_ fun _ _ heq => by cases heq
      dsimp only [perform]
      split_ifs with hroom
      · exact hsound.accept hroom handle
      · exact hsound
  | _ => exact iff_of_true hsound fun _ _ heq => by cases heq

/-! ### What a connect has checked -/

def Changes : PeerAction → Prop
  | .insert _ _ | .remove _ | .accept _ => True
  | .checkRoom _ _ | .checkEntry _ _ _ | .checkRunning _ => False

/-- The thread is between its check of the room and its entry. -/
def Checks : PeerAction → Prop
  | .checkEntry _ _ _ | .insert _ _ => True
  | .checkRoom _ _ | .checkRunning _ | .remove _ | .accept _ => False

def Checked (arrays : PeerArrays) : PeerAction → Prop
  | .checkEntry node _ index =>
      arrays.numConnectedPeers < maxConnectedPeers ∧
        ∀ i < index, arrays.peerNodes[i]? ≠ some (some node)
  | .insert node _ => arrays.Fresh node
  | _ => True

variable {action : PeerAction}

theorem checked_of_not_checks (hnot : ¬action.Checks) : action.Checked arrays := by
  cases action with
  | checkEntry node opened index => exact absurd trivial hnot
  | insert node handle => exact absurd trivial hnot
  | _ => trivial

theorem perform_eq_self (hnot : ¬action.Changes) : (action.perform arrays).1 = arrays := by
  cases action with
  | insert node handle => exact absurd trivial hnot
  | remove node => exact absurd trivial hnot
  | accept handle => exact absurd trivial hnot
  | _ => rfl

/-- What a call goes on with, and what it has found. -/
inductive GoesOn (arrays : PeerArrays) : PeerAction → Option PeerAction → Prop
  | ends (action : PeerAction) : GoesOn arrays action none
  | searches (node : MeridianNode) (opened : Option Nat)
      (hroom : arrays.numConnectedPeers < maxConnectedPeers) :
      GoesOn arrays (.checkRoom node opened) (some (.checkEntry node opened 0))
  | looksOn (node : MeridianNode) (opened : Option Nat) (index : Nat)
      (hother : arrays.peerNodes[index]? ≠ some (some node)) :
      GoesOn arrays (.checkEntry node opened index) (some (.checkEntry node opened (index + 1)))
  | inserts (node : MeridianNode) (handle index : Nat)
      (hall : arrays.numConnectedPeers ≤ index) :
      GoesOn arrays (.checkEntry node (some handle) index) (some (.insert node handle))
  | removes (node : MeridianNode) : GoesOn arrays (.checkRunning node) (some (.remove node))

theorem goesOn_perform (action : PeerAction) (arrays : PeerArrays) :
    ∃ next, Threads.actions (action.perform arrays).2 = next.toList ∧
      GoesOn arrays action next := by
  cases action with
  | checkRoom node opened =>
      dsimp only [perform]
      split_ifs with hstopped hfull
      · exact ⟨none, rfl, .ends _⟩
      · exact ⟨none, rfl, .ends _⟩
      · exact ⟨_, rfl, .searches node opened (not_le.mp hfull)⟩
  | checkEntry node opened index =>
      dsimp only [perform]
      split_ifs with hmore hsame
      · exact ⟨none, rfl, .ends _⟩
      · exact ⟨_, rfl, .looksOn node opened index hsame⟩
      · cases opened with
        | none => exact ⟨none, rfl, .ends _⟩
        | some handle => exact ⟨_, rfl, .inserts node handle index (not_lt.mp hmore)⟩
  | checkRunning node =>
      dsimp only [perform]
      split_ifs
      · exact ⟨_, rfl, .removes node⟩
      · exact ⟨none, rfl, .ends _⟩
  | _ => exact ⟨none, rfl, .ends _⟩

theorem checked_of_goesOn {next : PeerAction} (hchecked : action.Checked arrays)
    (hgoesOn : GoesOn arrays action (some next)) : next.Checked arrays := by
  cases hgoesOn with
  | searches node opened hroom => exact ⟨hroom, fun i hi => absurd hi (Nat.not_lt_zero i)⟩
  | looksOn node opened index hother =>
      refine ⟨hchecked.1, fun i hi => ?_⟩
      rcases Nat.lt_succ_iff_lt_or_eq.mp hi with hbefore | rfl
      · exact hchecked.2 i hbefore
      · exact hother
  | inserts node handle index hall =>
      -- the loop has looked at every entry
      refine ⟨hchecked.1, fun hmem => ?_⟩
      obtain ⟨i, hi⟩ := List.mem_iff_getElem?.mp hmem
      have hlength := (List.getElem?_eq_some_iff.mp hi).1
      exact hchecked.2 i (lt_of_lt_of_le hlength hall) hi
  | removes node => trivial

theorem not_changes_of_goesOn {next : PeerAction} (hgoesOn : GoesOn arrays action (some next)) :
    ¬action.Changes := by
  cases hgoesOn <;> exact id

theorem checked_next {next : PeerAction} (hchecked : action.Checked arrays)
    (hnext : (Threads.actions (action.perform arrays).2).head? = some next) :
    next.Checked (action.perform arrays).1 := by
  obtain ⟨found, hactions, hgoesOn⟩ := action.goesOn_perform arrays
  rw [hactions, Option.head?_toList] at hnext
  subst hnext
  rw [perform_eq_self (not_changes_of_goesOn hgoesOn)]
  exact checked_of_goesOn hchecked hgoesOn

end PeerAction

theorem sequential_peerCode : Threads.Sequential peerCode where
  program call := by cases call <;> exact le_rfl
  exec _ action arrays _ _ hexec := by
    obtain ⟨next, hactions, -⟩ := action.goesOn_perform arrays
    rw [Option.some.inj hexec] at hactions
    rw [hactions]
    exact Option.length_toList_le

namespace PeerSystem

def AddsFresh (s : PeerSystem) (turn : Threads.Turn PeerCall) : Prop :=
  ∀ node handle, s.performs turn = some (.insert node handle) → s.shared.Fresh node

/-- No thread goes on with a change while another one is between its check and its entry. -/
def Undisturbed (s : PeerSystem) : Threads.Turn PeerCall → Prop
  | .call _ _ => True
  | .go thread =>
      ∀ action, s.place thread = some action → action.Changes →
        ∀ other later, other ≠ thread → s.place other = some later → ¬later.Checks

theorem sound_step_iff {s : PeerSystem} (hs : s.shared.Sound) (turn : Threads.Turn PeerCall) :
    (Threads.step peerCode s turn).shared.Sound ↔ s.AddsFresh turn := by
  rw [Threads.shared_step, AddsFresh]
  cases s.performs turn with
  | none => exact iff_of_true hs fun _ _ hnone => by cases hnone
  | some action =>
      change (action.perform s.shared).1.Sound ↔ _
      rw [PeerAction.sound_perform_iff hs]
      simp only [Option.some_inj]

/-- The table is sound, and what the threads have checked holds. -/
def Settled (arrays : PeerArrays) (place : Nat → Option PeerAction) : Prop :=
  arrays.Sound ∧ ∀ thread action, place thread = some action → action.Checked arrays

theorem settled_of_jumps {s : PeerSystem} {turn : Threads.Turn PeerCall} {arrays : PeerArrays}
    {place : Nat → Option PeerAction} (hs : Settled s.shared s.place) (hok : s.Undisturbed turn)
    (hjumps : Threads.Jumps peerCode s.shared s.place turn arrays place) :
    Settled arrays place := by
  obtain ⟨hsound, hchecked⟩ := hs
  cases hjumps with
  | stays => exact ⟨hsound, hchecked⟩
  | starts thread call hplace =>
      refine ⟨hsound, fun other action haction => ?_⟩
      rcases Threads.of_update_eq haction with ⟨rfl, hfirst⟩ | ⟨-, hold⟩
      · cases call <;> cases hfirst <;> trivial
      · exact hchecked other action hold
  | acts thread action arrays next hplace hexec =>
      have hown := hchecked thread action hplace
      have hperform : action.perform s.shared = (arrays, next) := Option.some.inj hexec
      obtain rfl : (action.perform s.shared).1 = arrays := congrArg Prod.fst hperform
      obtain rfl : (action.perform s.shared).2 = next := congrArg Prod.snd hperform
      refine ⟨(PeerAction.sound_perform_iff hsound action).mpr ?_, fun other later hlater => ?_⟩
      · rintro node handle rfl
        exact hown
      · rcases Threads.of_update_eq hlater with ⟨rfl, hnext⟩ | ⟨hother, hold⟩
        · exact PeerAction.checked_next hown hnext
        · by_cases hchanges : action.Changes
          · exact PeerAction.checked_of_not_checks
              (hok action hplace hchanges other later hother hold)
          · rw [PeerAction.perform_eq_self hchanges]
            exact hchecked other later hold

theorem settled_start (running : Bool) : Settled (start running).shared (start running).place :=
  ⟨PeerArrays.sound_empty running, fun _ _ hplace => by cases hplace⟩

theorem settled_run {running : Bool} {turns : List (Threads.Turn PeerCall)}
    (hundisturbed : Runs.Meets (Threads.step peerCode) Undisturbed (start running) turns) :
    Settled ((start running).run turns).shared ((start running).run turns).place :=
  Threads.invariant_of_jumps sequential_peerCode Settled
    (fun _ _ _ _ hs hok hjumps => settled_of_jumps hs hok hjumps) (fun _ => Nat.zero_le 1)
    (settled_start running) hundisturbed

theorem addsFresh_of_settled {s : PeerSystem} (hs : Settled s.shared s.place)
    (turn : Threads.Turn PeerCall) : s.AddsFresh turn := by
  intro node handle hperforms
  exact hs.2 turn.thread (.insert node handle) (Threads.place_of_performs hperforms)

/-- **The peer table.** In a run of any threads the table is sound at every point exactly if every
entry that is added is fresh then; and so it is if no thread changes the table while another one is
between its check and its entry. -/
theorem peers_sound_iff (running : Bool) (turns : List (Threads.Turn PeerCall)) :
    ((∀ front, front <+: turns → ((start running).run front).shared.Sound) ↔
        Runs.Meets (Threads.step peerCode) AddsFresh (start running) turns) ∧
      (Runs.Meets (Threads.step peerCode) Undisturbed (start running) turns →
        Runs.Meets (Threads.step peerCode) AddsFresh (start running) turns) := by
  constructor
  · exact Runs.forall_front_iff_meets (Threads.step peerCode) (fun _ => True) (·.shared.Sound)
      (fun _ _ _ => trivial) (fun s turn _ hs => sound_step_iff hs turn) trivial
      (PeerArrays.sound_empty running)
  · intro hundisturbed
    rw [Runs.meets_iff_forall_split]
    rintro front turn back rfl
    exact addsFresh_of_settled (settled_run ((Runs.meets_append _).mp hundisturbed).1) turn

open Threads (calls goes)

/-- Two threads check before either of them adds its entry. -/
def racing (first second : MeridianNode) (steps : Nat) : List (Threads.Turn PeerCall) :=
  calls 0 (.connect first (some 0)) steps ++ calls 1 (.connect second (some 1)) steps ++
    goes 0 3 ++ goes 1 3

/-- Two connects to one node add two entries of it; and where one entry is left, two connects to
different nodes add two. -/
theorem peers_not_sound :
    ((start true).run (racing ⟨1, 1⟩ ⟨1, 1⟩ 2)).shared.peerNodes = [some ⟨1, 1⟩, some ⟨1, 1⟩] ∧
      ((start true).run ((List.range 63).flatMap (fun handle => calls 2 (.listener handle) 3) ++
        racing ⟨1, 1⟩ ⟨2, 1⟩ 65)).shared.numConnectedPeers = 65 := by
  decide +kernel

end PeerSystem

end Poseidon
