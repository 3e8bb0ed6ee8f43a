import Mathlib.Logic.Function.Basic
import Mathlib.Logic.Relation
import Poseidon.Lib.Runs

/-!
# Threads over a shared state

A thread is the list of what it still has to do: it takes and releases locks and performs actions,
each in one atomic step. An action reads and changes the shared state and says what the thread goes
on with, so that calls, loops and branches are actions whose continuation is in front of the rest.
An action may also be blocked. A run is any interleaving; what starts a thread is a call.

Under `Throughout` an invariant is checked action by action. `Disciplined` ties the holder of each
lock to the instructions that are left, from one rule for each action. From that, `Deadlocked` is
about the locks a thread may ask for while it holds others. Where a thread never has more than one
action in front of it, the action is the place the thread is at, and `Jumps` is what a step does to
the places.
-/

namespace Poseidon.Threads

open Function (update update_self update_of_ne)

inductive Instr (Lock Action : Type*) where
  | lock (lock : Lock)
  | unlock (lock : Lock)
  | act (action : Action)
deriving DecidableEq

structure System (Lock Action State : Type*) where
  shared : State
  holder : Lock → Option Nat
  todo : Nat → List (Instr Lock Action)

/-- What the threads run. An action gives the new state and what its thread does next, or nothing
while it is blocked. -/
structure Code (Lock Action State Call : Type*) where
  exec : Nat → Action → State → Option (State × List (Instr Lock Action))
  program : Call → List (Instr Lock Action)

inductive Turn (Call : Type*) where
  | call (thread : Nat) (call : Call)
  | go (thread : Nat)

variable {Lock Action State Call : Type*} [DecidableEq Lock]

/-- One step of a thread. A lock that is taken, also by the thread itself, blocks. -/
def go (code : Code Lock Action State Call) (s : System Lock Action State) (thread : Nat) :
    System Lock Action State :=
  match s.todo thread with
  | [] => s
  | .lock lock :: rest =>
      if s.holder lock = none then
        { s with
          holder := update s.holder lock (some thread)
          todo := update s.todo thread rest }
      else
        s
  | .unlock lock :: rest =>
      { s with
        holder := update s.holder lock none
        todo := update s.todo thread rest }
  | .act action :: rest =>
      match code.exec thread action s.shared with
      | none => s
      | some (shared, next) =>
          { s with shared, todo := update s.todo thread (next ++ rest) }

/-- A thread that has nothing to do may start a call. -/
def step (code : Code Lock Action State Call) (s : System Lock Action State) :
    Turn Call → System Lock Action State
  | .call thread call =>
      if s.todo thread = [] then
        { s with todo := update s.todo thread (code.program call) }
      else
        s
  | .go thread => go code s thread

inductive Moves (code : Code Lock Action State Call) (s : System Lock Action State) :
    Turn Call → System Lock Action State → Prop where
  | stays (turn : Turn Call) : Moves code s turn s
  | starts (thread : Nat) (call : Call) (htodo : s.todo thread = []) :
      Moves code s (.call thread call)
        { s with todo := update s.todo thread (code.program call) }
  | locks (thread : Nat) (lock : Lock) (rest : List (Instr Lock Action))
      (htodo : s.todo thread = .lock lock :: rest) (hfree : s.holder lock = none) :
      Moves code s (.go thread)
        { s with
          holder := update s.holder lock (some thread)
          todo := update s.todo thread rest }
  | unlocks (thread : Nat) (lock : Lock) (rest : List (Instr Lock Action))
      (htodo : s.todo thread = .unlock lock :: rest) :
      Moves code s (.go thread)
        { s with
          holder := update s.holder lock none
          todo := update s.todo thread rest }
  | acts (thread : Nat) (action : Action) (rest : List (Instr Lock Action)) (shared : State)
      (next : List (Instr Lock Action)) (htodo : s.todo thread = .act action :: rest)
      (hexec : code.exec thread action s.shared = some (shared, next)) :
      Moves code s (.go thread)
        { s with shared, todo := update s.todo thread (next ++ rest) }

theorem moves_step (code : Code Lock Action State Call) (s : System Lock Action State)
    (turn : Turn Call) : Moves code s turn (step code s turn) := by
  cases turn with
  | call thread call =>
      unfold step
      by_cases htodo : s.todo thread = []
      · simp only [if_pos htodo]
        exact .starts thread call htodo
      · simp only [if_neg htodo]
        exact .stays _
  | go thread =>
      change Moves code s (.go thread) (go code s thread)
      unfold go
      split
      · exact .stays _
      · rename_i lock rest htodo
        by_cases hfree : s.holder lock = none
        · simp only [if_pos hfree]
          exact .locks thread lock rest htodo hfree
        · simp only [if_neg hfree]
          exact .stays _
      · rename_i lock rest htodo
        exact .unlocks thread lock rest htodo
      · rename_i action rest htodo
        split
        · exact .stays _
        · rename_i shared next hexec
          exact .acts thread action rest shared next htodo hexec

def Turn.thread : Turn Call → Nat
  | .call thread _ => thread
  | .go thread => thread

def goes (thread steps : Nat) : List (Turn Call) :=
  List.replicate steps (.go thread)

def calls (thread : Nat) (call : Call) (steps : Nat) : List (Turn Call) :=
  .call thread call :: goes thread steps

theorem of_update_eq {Value : Type*} {values : Nat → Value} {thread other : Nat}
    {new value : Value} (hvalue : update values thread new other = value) :
    other = thread ∧ new = value ∨ other ≠ thread ∧ values other = value := by
  by_cases hother : other = thread
  · subst hother
    rw [update_self] at hvalue
    exact Or.inl ⟨rfl, hvalue⟩
  · rw [update_of_ne hother] at hvalue
    exact Or.inr ⟨hother, hvalue⟩

omit [DecidableEq Lock] in
def front : List (Instr Lock Action) → Option Action
  | .act action :: _ => some action
  | _ => none

omit [DecidableEq Lock] in
def System.performs (s : System Lock Action State) : Turn Call → Option Action
  | .call _ _ => none
  | .go thread => front (s.todo thread)

theorem shared_go (code : Code Lock Action State Call) (s : System Lock Action State)
    (thread : Nat) :
    (go code s thread).shared =
      ((front (s.todo thread)).bind fun action =>
        (code.exec thread action s.shared).map Prod.fst).getD s.shared := by
  unfold go
  cases s.todo thread with
  | nil => rfl
  | cons instr rest =>
      cases instr with
      | lock lock =>
          dsimp only
          split_ifs <;> rfl
      | unlock lock => rfl
      | act action =>
          dsimp only [front, Option.bind_some]
          cases code.exec thread action s.shared <;> rfl

theorem shared_step (code : Code Lock Action State Call) (s : System Lock Action State)
    (turn : Turn Call) :
    (step code s turn).shared =
      ((s.performs turn).bind fun action =>
        (code.exec turn.thread action s.shared).map Prod.fst).getD s.shared := by
  cases turn with
  | call thread call =>
      change (if s.todo thread = [] then _ else s : System Lock Action State).shared = s.shared
      split_ifs <;> rfl
  | go thread => exact shared_go code s thread

theorem todo_step_of_ne (code : Code Lock Action State Call) (s : System Lock Action State)
    {turn : Turn Call} {other : Nat} (hother : other ≠ turn.thread) :
    (step code s turn).todo other = s.todo other := by
  have hmoves := moves_step code s turn
  generalize step code s turn = s' at hmoves ⊢
  cases hmoves with
  | stays => rfl
  | _ => exact update_of_ne hother _ _

theorem todo_run_of_forall_ne (code : Code Lock Action State Call) {turns : List (Turn Call)}
    {other : Nat} (hother : ∀ turn ∈ turns, other ≠ turn.thread) (s : System Lock Action State) :
    (Runs.run (step code) s turns).todo other = s.todo other := by
  induction turns generalizing s with
  | nil => rfl
  | cons turn turns ih =>
      rw [Runs.run_cons, ih fun turn hmem => hother turn (List.mem_cons_of_mem _ hmem)]
      exact todo_step_of_ne code s (hother turn List.mem_cons_self)

/-! ### Invariants over all actions that are left -/

/-- A property of the shared state, and one of every action some thread has still to perform. -/
def Throughout (Good : State → Prop) (Allowed : State → Action → Prop)
    (s : System Lock Action State) : Prop :=
  Good s.shared ∧ ∀ thread action, .act action ∈ s.todo thread → Allowed s.shared action

section Throughout

variable {code : Code Lock Action State Call} {Good : State → Prop}
  {Allowed : State → Action → Prop}

omit [DecidableEq Lock] in
theorem mem_or_mem_of_mem_update {todo : Nat → List (Instr Lock Action)} {thread other : Nat}
    {new : List (Instr Lock Action)} {instr : Instr Lock Action}
    (hinstr : instr ∈ update todo thread new other) :
    instr ∈ new ∨ instr ∈ todo other := by
  by_cases hother : other = thread
  · subst hother
    rw [update_self] at hinstr
    exact Or.inl hinstr
  · rw [update_of_ne hother] at hinstr
    exact Or.inr hinstr

/-- **Throughout rule.** It is enough to look at each action once: it keeps the state good, what it
goes on with is allowed, and what was allowed before still is. Of the calls, only the one that is
started has to be allowed. -/
theorem throughout_step_of_call
    (hexec : ∀ thread action shared shared' next,
      code.exec thread action shared = some (shared', next) → Good shared →
      Allowed shared action → Good shared' ∧ (∀ later, .act later ∈ next → Allowed shared' later) ∧
        ∀ other, Allowed shared other → Allowed shared' other)
    {s : System Lock Action State} (hs : Throughout Good Allowed s) {turn : Turn Call}
    (hcall : ∀ thread call action, turn = .call thread call → .act action ∈ code.program call →
      Allowed s.shared action) :
    Throughout Good Allowed (step code s turn) := by
  obtain ⟨hgood, hall⟩ := hs
  -- a lock taken or released leaves the actions behind it
  have hdropped : ∀ {thread instr rest}, s.todo thread = instr :: rest → ∀ other action,
      .act action ∈ update s.todo thread rest other → Allowed s.shared action := by
    intro thread instr rest htodo other action haction
    rcases mem_or_mem_of_mem_update haction with hrest | hold
    · exact hall thread action (htodo ▸ List.mem_cons_of_mem _ hrest)
    · exact hall other action hold
  have hmoves := moves_step code s turn
  generalize step code s turn = s' at hmoves ⊢
  cases hmoves with
  | stays => exact ⟨hgood, hall⟩
  | starts thread call htodo =>
      refine ⟨hgood, fun other action haction => ?_⟩
      rcases mem_or_mem_of_mem_update haction with hnew | hold
      · exact hcall thread call action rfl hnew
      · exact hall other action hold
  | locks thread lock rest htodo hfree => exact ⟨hgood, hdropped htodo⟩
  | unlocks thread lock rest htodo => exact ⟨hgood, hdropped htodo⟩
  | acts thread action rest shared next htodo hrun =>
      have haction : Allowed s.shared action :=
        hall thread action (htodo ▸ List.mem_cons_self)
      obtain ⟨hgood', hnext, hkeep⟩ := hexec thread action s.shared shared next hrun hgood haction
      refine ⟨hgood', fun other later hlater => ?_⟩
      rcases mem_or_mem_of_mem_update hlater with hnew | hold
      · rcases List.mem_append.mp hnew with hnew | hrest
        · exact hnext later hnew
        · exact hkeep later (hall thread later (htodo ▸ List.mem_cons_of_mem _ hrest))
      · exact hkeep later (hall other later hold)

theorem throughout_step
    (hprogram : ∀ call shared action, Good shared → .act action ∈ code.program call →
      Allowed shared action)
    (hexec : ∀ thread action shared shared' next,
      code.exec thread action shared = some (shared', next) → Good shared →
      Allowed shared action → Good shared' ∧ (∀ later, .act later ∈ next → Allowed shared' later) ∧
        ∀ other, Allowed shared other → Allowed shared' other)
    {s : System Lock Action State} (hs : Throughout Good Allowed s) (turn : Turn Call) :
    Throughout Good Allowed (step code s turn) :=
  throughout_step_of_call hexec hs fun _ call action _ hmem => hprogram call _ action hs.1 hmem

end Throughout

/-! ### Which locks a thread holds -/

section Discipline

variable (may : List Lock → Lock → Prop) (spec : Action → List Lock → List Lock → Prop)

/-- Done in full, the instructions take a thread from one list of held locks, innermost first, to
another. `may` says which lock may be asked for, `spec` what an action with all it goes on with
does. -/
def Leads : List Lock → List (Instr Lock Action) → List Lock → Prop
  | held, [], after => held = after
  | held, .lock lock :: rest, after => lock ∉ held ∧ may held lock ∧ Leads (lock :: held) rest after
  | held, .unlock lock :: rest, after => ∃ outer, held = lock :: outer ∧ Leads outer rest after
  | held, .act action :: rest, after => ∃ middle, spec action held middle ∧ Leads middle rest after

variable {may spec}

omit [DecidableEq Lock] in
theorem Leads.append {first second : List (Instr Lock Action)} {held middle after : List Lock}
    (hfirst : Leads may spec held first middle) (hsecond : Leads may spec middle second after) :
    Leads may spec held (first ++ second) after := by
  induction first generalizing held with
  | nil =>
      obtain rfl : held = middle := hfirst
      exact hsecond
  | cons instr rest ih =>
      cases instr with
      | lock lock => exact ⟨hfirst.1, hfirst.2.1, ih hfirst.2.2⟩
      | unlock lock =>
          obtain ⟨outer, hheld, hrest⟩ := hfirst
          exact ⟨outer, hheld, ih hrest⟩
      | act action =>
          obtain ⟨between, hspec, hrest⟩ := hfirst
          exact ⟨between, hspec, ih hrest⟩

variable (may spec)

/-- The list of held locks of each thread agrees with the holders and is what the thread's
instructions release. -/
structure Disciplined (s : System Lock Action State) (held : Nat → List Lock) : Prop where
  leads : ∀ thread, Leads may spec (held thread) (s.todo thread) []
  holds : ∀ lock thread, s.holder lock = some thread ↔ lock ∈ held thread
  nodup : ∀ thread, (held thread).Nodup

variable {may spec} {code : Code Lock Action State Call} {s : System Lock Action State}
  {held : Nat → List Lock}

variable (hs : Disciplined may spec s held)

include hs

theorem Disciplined.locks {thread : Nat} {lock : Lock} {rest : List (Instr Lock Action)}
    (htodo : s.todo thread = .lock lock :: rest) (hfree : s.holder lock = none) :
    Disciplined may spec
      { s with
        holder := update s.holder lock (some thread)
        todo := update s.todo thread rest }
      (update held thread (lock :: held thread)) := by
  obtain ⟨hnew, -, hrest⟩ : Leads may spec (held thread) (.lock lock :: rest) [] :=
    htodo ▸ hs.leads thread
  have hnobody : ∀ other, lock ∉ held other := by
    intro other hother
    rw [(hs.holds lock other).mpr hother] at hfree
    exact Option.some_ne_none _ hfree
  refine ⟨fun other => ?_, fun lock' other => ?_, fun other => ?_⟩
  · by_cases hother : other = thread
    · subst hother
      simpa using hrest
    · simpa [hother] using hs.leads other
  · by_cases hlock : lock' = lock
    · subst hlock
      by_cases hother : other = thread
      · simp [hother]
      · simp [hother, Ne.symm hother, hnobody other]
    · by_cases hother : other = thread
      · subst hother
        simp [hlock, hs.holds lock' other]
      · simp [hlock, hother, hs.holds lock' other]
  · by_cases hother : other = thread
    · subst hother
      simpa using ⟨hnew, hs.nodup other⟩
    · simpa [hother] using hs.nodup other

theorem Disciplined.unlocks {thread : Nat} {lock : Lock} {rest : List (Instr Lock Action)}
    (htodo : s.todo thread = .unlock lock :: rest) :
    ∃ held', Disciplined may spec
      { s with
        holder := update s.holder lock none
        todo := update s.todo thread rest } held' := by
  obtain ⟨outer, hheld, hrest⟩ : Leads may spec (held thread) (.unlock lock :: rest) [] :=
    htodo ▸ hs.leads thread
  have hnodup : (lock :: outer).Nodup := hheld ▸ hs.nodup thread
  have howner : s.holder lock = some thread :=
    (hs.holds lock thread).mpr (hheld ▸ List.mem_cons_self)
  refine ⟨update held thread outer, fun other => ?_, fun lock' other => ?_,
    fun other => ?_⟩
  · by_cases hother : other = thread
    · subst hother
      simpa using hrest
    · simpa [hother] using hs.leads other
  · by_cases hlock : lock' = lock
    · subst hlock
      by_cases hother : other = thread
      · subst hother
        simpa using (List.nodup_cons.mp hnodup).1
      · have : lock' ∉ held other := by
          rw [← hs.holds lock' other, howner]
          simpa using Ne.symm hother
        simpa [hother] using this
    · by_cases hother : other = thread
      · subst hother
        simp [hlock, hs.holds lock' other, hheld]
      · simp [hlock, hother, hs.holds lock' other]
  · by_cases hother : other = thread
    · subst hother
      simpa using (List.nodup_cons.mp hnodup).2
    · simpa [hother] using hs.nodup other

/-- **Discipline rule.** It is enough that the calls, and what each action goes on with, keep to
`may` and `spec`. -/
theorem Disciplined.step (hexec : ∀ thread action shared shared' next before after,
      code.exec thread action shared = some (shared', next) → spec action before after →
        Leads may spec before next after) {turn : Turn Call}
    (hcall : ∀ thread call, turn = .call thread call → Leads may spec [] (code.program call) []) :
    ∃ held', Disciplined may spec (step code s turn) held' := by
  have hmoves := moves_step code s turn
  generalize Threads.step code s turn = s' at hmoves ⊢
  cases hmoves with
  | stays => exact ⟨held, hs⟩
  | starts thread call htodo =>
      have hempty : held thread = [] := by
        have hleads := hs.leads thread
        rw [htodo] at hleads
        exact hleads
      refine ⟨held, fun other => ?_, hs.holds, hs.nodup⟩
      by_cases hother : other = thread
      · subst hother
        simpa [hempty] using hcall other call rfl
      · simpa [hother] using hs.leads other
  | locks thread lock rest htodo hfree => exact ⟨_, hs.locks htodo hfree⟩
  | unlocks thread lock rest htodo => exact hs.unlocks htodo
  | acts thread action rest shared next htodo hrun =>
      refine ⟨held, fun other => ?_, hs.holds, hs.nodup⟩
      by_cases hother : other = thread
      · subst hother
        obtain ⟨middle, hspec, hrest⟩ : Leads may spec (held other) (.act action :: rest) [] :=
          htodo ▸ hs.leads other
        simpa using (hexec other action _ _ _ _ _ hrun hspec).append hrest
      · simpa [hother] using hs.leads other

end Discipline

/-! ### Cycles of waiting threads -/

/-- The first thread waits for a lock that the second one holds. -/
def Waits (s : System Lock Action State) (thread other : Nat) : Prop :=
  ∃ lock rest, s.todo thread = .lock lock :: rest ∧ s.holder lock = some other

/-- Some thread waits, through others, for itself. -/
def Deadlocked (s : System Lock Action State) : Prop :=
  ∃ thread, Relation.TransGen (Waits s) thread thread

omit [DecidableEq Lock] in
theorem exists_waits_of_cycle {s : System Lock Action State} {thread : Nat}
    (hcycle : Relation.TransGen (Waits s) thread thread) :
    ∃ other, Waits s thread other ∧ Relation.TransGen (Waits s) other other := by
  obtain ⟨other, hwaits, hrest⟩ := Relation.TransGen.head'_iff.mp hcycle
  exact ⟨other, hwaits, Relation.TransGen.tail' hrest hwaits⟩

omit [DecidableEq Lock] in
/-- A thread of a cycle holds a lock and asks for another one, which the next thread holds. -/
theorem Disciplined.asks_of_cycle {may : List Lock → Lock → Prop}
    {spec : Action → List Lock → List Lock → Prop} {s : System Lock Action State}
    {held : Nat → List Lock} (hs : Disciplined may spec s held) {thread : Nat}
    (hcycle : Relation.TransGen (Waits s) thread thread) :
    ∃ lock rest other, s.todo thread = .lock lock :: rest ∧ s.holder lock = some other ∧
      lock ∈ held other ∧ may (held thread) lock ∧ held thread ≠ [] ∧
      Relation.TransGen (Waits s) other other := by
  obtain ⟨other, ⟨lock, rest, htodo, hholder⟩, hnext⟩ := exists_waits_of_cycle hcycle
  obtain ⟨-, hmay, -⟩ : Leads may spec (held thread) (.lock lock :: rest) [] :=
    htodo ▸ hs.leads thread
  -- The thread before it on the cycle waits for a lock of this one.
  obtain ⟨before, -, lock', rest', -, hholder'⟩ := Relation.TransGen.tail'_iff.mp hcycle
  have hne := List.ne_nil_of_mem ((hs.holds lock' thread).mp hholder')
  exact ⟨lock, rest, other, htodo, hholder, (hs.holds lock other).mp hholder, hmay, hne, hnext⟩

/-! ### Threads with one action in front of them -/

section Sequential

omit [DecidableEq Lock]

def actions : List (Instr Lock Action) → List Action
  | [] => []
  | .act action :: rest => action :: actions rest
  | .lock _ :: rest => actions rest
  | .unlock _ :: rest => actions rest

theorem actions_append (first second : List (Instr Lock Action)) :
    actions (first ++ second) = actions first ++ actions second := by
  induction first with
  | nil => rfl
  | cons instr rest ih => cases instr <;> simp [actions, ih]

/-- Calls and actions go on with at most one action. -/
structure Sequential (code : Code Lock Action State Call) : Prop where
  program : ∀ call, (actions (code.program call)).length ≤ 1
  exec : ∀ thread action shared shared' next,
    code.exec thread action shared = some (shared', next) → (actions next).length ≤ 1

def System.place (s : System Lock Action State) (thread : Nat) : Option Action :=
  (actions (s.todo thread)).head?

theorem head?_actions_of_front {todo : List (Instr Lock Action)} {action : Action}
    (hfront : front todo = some action) : (actions todo).head? = some action := by
  rcases todo with _ | ⟨_ | _ | _, rest⟩
  · cases hfront
  · cases hfront
  · cases hfront
  · exact hfront

theorem place_of_performs {s : System Lock Action State} {turn : Turn Call} {action : Action}
    (hperforms : s.performs turn = some action) : s.place turn.thread = some action := by
  cases turn with
  | call thread call => cases hperforms
  | go thread => exact head?_actions_of_front hperforms

def AtMostOne (s : System Lock Action State) : Prop :=
  ∀ thread, (actions (s.todo thread)).length ≤ 1

end Sequential

inductive Jumps (code : Code Lock Action State Call) (shared : State)
    (place : Nat → Option Action) : Turn Call → State → (Nat → Option Action) → Prop where
  | stays (turn : Turn Call) : Jumps code shared place turn shared place
  | starts (thread : Nat) (call : Call) (hplace : place thread = none) :
      Jumps code shared place (.call thread call) shared
        (update place thread (actions (code.program call)).head?)
  | acts (thread : Nat) (action : Action) (shared' : State) (next : List (Instr Lock Action))
      (hplace : place thread = some action)
      (hexec : code.exec thread action shared = some (shared', next)) :
      Jumps code shared place (.go thread) shared'
        (update place thread (actions next).head?)

theorem jumps_step {code : Code Lock Action State Call} (hcode : Sequential code)
    {s : System Lock Action State} (hs : AtMostOne s) (turn : Turn Call) :
    Jumps code s.shared s.place turn (step code s turn).shared (step code s turn).place ∧
      AtMostOne (step code s turn) := by
  have hplaces : ∀ (thread : Nat) (todo : List (Instr Lock Action)) (shared : State)
      (holder : Lock → Option Nat),
      (System.mk shared holder (update s.todo thread todo)).place =
        update s.place thread (actions todo).head? := by
    intro thread todo shared holder
    funext other
    by_cases hother : other = thread
    · subst hother
      simp [System.place]
    · simp [System.place, hother]
  have hone : ∀ {thread : Nat} {todo : List (Instr Lock Action)}, (actions todo).length ≤ 1 →
      ∀ other, (actions (update s.todo thread todo other)).length ≤ 1 := by
    intro thread todo htodo other
    by_cases hother : other = thread
    · subst hother
      simpa using htodo
    · simpa [hother] using hs other
  -- Taking or releasing a lock leaves the action in front.
  have hsame : ∀ {thread : Nat} {rest : List (Instr Lock Action)} {instr : Instr Lock Action},
      s.todo thread = instr :: rest → actions (instr :: rest) = actions rest →
      update s.place thread (actions rest).head? = s.place ∧
        (actions rest).length ≤ 1 := by
    intro thread rest instr htodo hrest
    rw [← hrest, ← htodo]
    exact ⟨Function.update_eq_self thread s.place, hs thread⟩
  have hmoves := moves_step code s turn
  generalize step code s turn = s' at hmoves ⊢
  cases hmoves with
  | stays => exact ⟨.stays turn, hs⟩
  | starts thread call htodo =>
      refine ⟨?_, hone (hcode.program call)⟩
      rw [hplaces]
      exact .starts thread call (by rw [System.place, htodo]; rfl)
  | locks thread lock rest htodo hfree =>
      rw [hplaces, (hsame htodo rfl).1]
      exact ⟨.stays _, hone (hsame htodo rfl).2⟩
  | unlocks thread lock rest htodo =>
      rw [hplaces, (hsame htodo rfl).1]
      exact ⟨.stays _, hone (hsame htodo rfl).2⟩
  | acts thread action rest shared next htodo hexec =>
      have hnone : actions rest = [] := by
        have hlength := hs thread
        rw [htodo, actions, List.length_cons] at hlength
        exact List.eq_nil_of_length_eq_zero (by omega)
      have hnext : actions (next ++ rest) = actions next := by
        rw [actions_append, hnone, List.append_nil]
      refine ⟨?_, hone (hnext ▸ hcode.exec _ _ _ _ _ hexec)⟩
      rw [hplaces, hnext]
      exact .acts thread action shared next (by rw [System.place, htodo]; rfl) hexec

/-- **Invariant rule over places.** -/
theorem invariant_of_jumps {code : Code Lock Action State Call} (hcode : Sequential code)
    {ok : System Lock Action State → Turn Call → Prop}
    (Inv : State → (Nat → Option Action) → Prop)
    (hjumps : ∀ (s : System Lock Action State) turn shared place, Inv s.shared s.place →
      ok s turn → Jumps code s.shared s.place turn shared place → Inv shared place)
    {turns : List (Turn Call)} {s : System Lock Action State} (hs : AtMostOne s)
    (hinv : Inv s.shared s.place) (hmeets : Runs.Meets (step code) ok s turns) :
    Inv (Runs.run (step code) s turns).shared (Runs.run (step code) s turns).place := by
  refine (Runs.invariant_of_meets (step code) (fun s => AtMostOne s ∧ Inv s.shared s.place) ?_
    ⟨hs, hinv⟩ hmeets).2
  rintro s turn ⟨hs, hinv⟩ hok
  obtain ⟨hjump, hone⟩ := jumps_step hcode hs turn
  exact ⟨hone, hjumps s turn _ _ hinv hok hjump⟩

end Poseidon.Threads
