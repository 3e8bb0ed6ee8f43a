import Mathlib.Data.List.Nodup
import Poseidon.Client.Protocol
import Poseidon.Client.TcpTransport
import Poseidon.Lib.Threads

/-!
# Calls of the C client

A call of the C client takes the next request id under the lock of the client, encodes its request,
takes the lock again and writes the header and the frame to the socket. Any number of threads may
call at once. The frames then stand whole in the stream, each under an id of its own, though not
always in the order of their ids.

The socket is a blocking one, and a write to it is complete.
-/

namespace Poseidon

open Function (update_self update_of_ne)

open Cbor ClientProtocol

/-- What a call asks for: `send_request` or `send_admin_request`. -/
inductive CallBody where
  | request (method : UInt8) (topicPath payload : Bytes)
  | adminRequest (method : UInt8) (topicPath signature config : Bytes)
deriving DecidableEq, Repr

structure ClientCall where
  id : UInt32
  body : CallBody
deriving DecidableEq, Repr

namespace ClientCall

def item (call : ClientCall) : Item :=
  match call.body with
  | .request method topicPath payload => encodeRequest call.id method topicPath payload
  | .adminRequest method topicPath signature config =>
      encodeAdminRequest call.id method topicPath signature config

def bytes (call : ClientCall) : Bytes :=
  serialize call.item

end ClientCall

/-- The fields of `poseidon_client_t` that the calls share, with what has been written to the
socket. `issued` counts the ids that were taken and `sent` lists the calls that were written
whole. -/
structure ClientOutput where
  nextRequestId : UInt32
  wire : Bytes
  issued : Nat
  sent : List ClientCall
deriving DecidableEq, Repr

namespace ClientOutput

inductive Act where
  | nextId (body : CallBody)
  | sendHeader (call : ClientCall)
  | sendData (call : ClientCall)
deriving DecidableEq, Repr

def Act.body : Act → CallBody
  | .nextId body => body
  | .sendHeader call => call.body
  | .sendData call => call.body

abbrev Instr := Threads.Instr Unit Act

/-- `next_id`, and the two writes of `send_frame` under the lock. -/
def perform (output : ClientOutput) : Act → ClientOutput × List Instr
  | .nextId body =>
      ({ output with
          nextRequestId := output.nextRequestId + 1
          issued := output.issued + 1 },
        [.unlock (), .lock (), .act (.sendHeader ⟨output.nextRequestId, body⟩)])
  | .sendHeader call =>
      ({ output with wire := output.wire ++ writeFrameHeader call.bytes.length },
        [.act (.sendData call)])
  | .sendData call =>
      ({ output with wire := output.wire ++ call.bytes, sent := output.sent ++ [call] },
        [.unlock ()])

def code : Threads.Code Unit Act ClientOutput CallBody where
  exec _ action output := some (output.perform action)
  program body := [.lock (), .act (.nextId body)]

end ClientOutput

abbrev CallingClient := Threads.System Unit ClientOutput.Act ClientOutput

namespace CallingClient

open ClientOutput

def connected : CallingClient where
  shared := ⟨1, [], 0, []⟩
  holder _ := none
  todo _ := []

abbrev run (turns : List (Threads.Turn CallBody)) : CallingClient :=
  Runs.run (Threads.step code) connected turns

/-! ### The stream -/

/-- An action is performed under the lock, which is released with all it goes on with. -/
def LockSpec (_ : Act) (held after : List Unit) : Prop :=
  held = [()] ∧ after = []

abbrev Locking (s : CallingClient) (held : Nat → List Unit) : Prop :=
  Threads.Disciplined (fun _ _ => True) LockSpec s held

variable {todo : Nat → List Instr} {output : ClientOutput} {held : Nat → List Unit}
  {rest : List Instr} {s : CallingClient}

theorem locking_step (hs : s.Locking held) (turn : Threads.Turn CallBody) :
    ∃ held', Locking (Threads.step code s turn) held' := by
  refine hs.step ?_ fun _ _ _ => by simp [code, Threads.Leads, LockSpec]
  rintro thread action output output' next before after hexec ⟨rfl, rfl⟩
  obtain ⟨-, rfl⟩ := Prod.mk.inj (Option.some.inj hexec)
  cases action <;> simp [Threads.Leads, LockSpec]

theorem Locking.eq_of_acts (hs : s.Locking held) {thread other : Nat} {action later : Act}
    {rest' : List Instr} (htodo : s.todo thread = .act action :: rest)
    (hother : s.todo other = .act later :: rest') : other = thread := by
  have hholder : ∀ {thread : Nat} {action : Act} {rest : List Instr},
      s.todo thread = .act action :: rest → s.holder () = some thread := by
    intro thread action rest htodo
    obtain ⟨middle, ⟨hheld, -⟩, -⟩ := htodo ▸ hs.leads thread
    exact (hs.holds () thread).mpr (hheld ▸ List.mem_cons_self)
  exact Option.some.inj ((hholder hother).symm.trans (hholder htodo))

def Begins (todo : List Instr) : Prop :=
  ∃ call, .act (.sendData call) ∈ todo

/-- The stream is the frames that were written whole, and the header that one thread may have
begun with. -/
inductive Written (output : ClientOutput) (todo : Nat → List Instr) : Prop where
  | between (hwire : output.wire = output.sent.flatMap fun call => sendFrame call.bytes)
      (hnone : ∀ thread, ¬Begins (todo thread))
  | begun (thread : Nat) (call : ClientCall) (rest : List Instr)
      (hwire : output.wire = (output.sent.flatMap fun call => sendFrame call.bytes) ++
        writeFrameHeader call.bytes.length)
      (htodo : todo thread = .act (.sendData call) :: rest) (hrest : ¬Begins rest)
      (hnone : ∀ other, other ≠ thread → ¬Begins (todo other))

section

variable (hs : Written output todo)

include hs

theorem Written.update {thread : Nat} {new : List Instr} (hnew : ¬Begins new)
    (hother : ∀ call rest, todo thread ≠ .act (.sendData call) :: rest) :
    Written output (Function.update todo thread new) := by
  have hupdate : ∀ other, ¬Begins (todo other) → ¬Begins (Function.update todo thread new other) :=
    fun other hold ⟨call, hcall⟩ =>
      (Threads.mem_or_mem_of_mem_update hcall).elim (fun h => hnew ⟨call, h⟩)
        fun h => hold ⟨call, h⟩
  cases hs with
  | between hwire hnone => exact .between hwire fun other => hupdate other (hnone other)
  | begun writer call rest hwire htodo hrest hnone =>
      have hne : writer ≠ thread := by
        rintro rfl
        exact hother call rest htodo
      refine .begun writer call rest hwire ?_ hrest fun other hne => hupdate other (hnone other hne)
      rw [update_of_ne hne, htodo]

theorem Written.not_begins {thread : Nat} {instr : Instr} (htodo : todo thread = instr :: rest) :
    ¬Begins rest := by
  cases hs with
  | between hwire hnone =>
      rintro ⟨call, hcall⟩
      exact hnone thread ⟨call, htodo ▸ List.mem_cons_of_mem _ hcall⟩
  | begun writer call rest' hwire hwriter hrest hnone =>
      by_cases hthread : thread = writer
      · subst hthread
        obtain ⟨-, rfl⟩ := List.cons.inj (htodo.symm.trans hwriter)
        exact hrest
      · rintro ⟨call, hcall⟩
        exact hnone thread hthread ⟨call, htodo ▸ List.mem_cons_of_mem _ hcall⟩

theorem Written.sendHeader {thread : Nat} {call : ClientCall}
    (htodo : todo thread = .act (.sendHeader call) :: rest)
    (halone : ∀ other later rest', todo other = .act later :: rest' → other = thread) :
    Written (output.perform (.sendHeader call)).1
      (Function.update todo thread (.act (.sendData call) :: rest)) := by
  have hrest := hs.not_begins htodo
  cases hs with
  | between hwire hnone =>
      refine .begun thread call rest (congrArg (· ++ _) hwire) (update_self ..) hrest
        fun other hother => ?_
      rw [update_of_ne hother]
      exact hnone other
  | begun writer call' rest' hwire hwriter =>
      obtain rfl := halone writer _ _ hwriter
      rw [htodo] at hwriter
      simp at hwriter

theorem Written.sendData {thread : Nat} {call : ClientCall}
    (htodo : todo thread = .act (.sendData call) :: rest) :
    Written (output.perform (.sendData call)).1
      (Function.update todo thread (.unlock () :: rest)) := by
  have hrest := hs.not_begins htodo
  cases hs with
  | between hwire hnone => exact absurd ⟨call, htodo ▸ List.mem_cons_self⟩ (hnone thread)
  | begun writer call' rest' hwire hwriter hrest' hnone =>
      obtain rfl : thread = writer := by
        by_contra hthread
        exact hnone thread hthread ⟨call, htodo ▸ List.mem_cons_self⟩
      obtain ⟨hcall, -⟩ := List.cons.inj (htodo.symm.trans hwriter)
      obtain rfl := Act.sendData.inj (Threads.Instr.act.inj hcall)
      refine .between ?_ fun other => ?_
      · simp only [perform, hwire, sendFrame, List.flatMap_append, List.flatMap_singleton,
          List.append_assoc]
      · by_cases hother : other = thread
        · subst hother
          rw [update_self]
          rintro ⟨later, hlater⟩
          exact hrest ⟨later, (List.mem_cons.mp hlater).resolve_left (by simp)⟩
        · rw [update_of_ne hother]
          exact hnone other hother

end

theorem Written.step (hs : Written s.shared s.todo) (hheld : s.Locking held)
    (turn : Threads.Turn CallBody) :
    Written (Threads.step code s turn).shared (Threads.step code s turn).todo := by
  have hmoves := Threads.moves_step code s turn
  generalize Threads.step code s turn = s' at hmoves ⊢
  cases hmoves with
  | stays => exact hs
  | starts thread body htodo => exact hs.update (by simp [Begins, code]) (by simp [htodo])
  | locks thread lock rest htodo => exact hs.update (hs.not_begins htodo) (by simp [htodo])
  | unlocks thread lock rest htodo => exact hs.update (hs.not_begins htodo) (by simp [htodo])
  | acts thread action rest output next htodo hexec =>
      obtain ⟨rfl, rfl⟩ := Prod.mk.inj (Option.some.inj hexec)
      cases action with
      | nextId body =>
          have hnew : ¬Begins ((s.shared.perform (.nextId body)).2 ++ rest) := by
            simpa [Begins, perform] using hs.not_begins htodo
          have hother : ∀ call rest', s.todo thread ≠ .act (.sendData call) :: rest' := by
            simp [htodo]
          cases hs.update hnew hother with
          | between hwire hnone => exact .between hwire hnone
          | begun writer call rest hwire hwriter hrest hnone =>
              exact .begun writer call rest hwire hwriter hrest hnone
      | sendHeader call =>
          exact hs.sendHeader htodo fun other later rest' => hheld.eq_of_acts htodo
      | sendData call => exact hs.sendData htodo

theorem written_run (turns : List (Threads.Turn CallBody)) :
    Written (run turns).shared (run turns).todo := by
  refine (Runs.invariant (Threads.step code)
    (fun s => (∃ held, Locking s held) ∧ Written s.shared s.todo) ?_ ⟨⟨fun _ => [], ?_⟩, ?_⟩).2
  · rintro s turn ⟨⟨held, hheld⟩, hs⟩
    exact ⟨locking_step hheld turn, hs.step hheld turn⟩
  · exact ⟨fun _ => rfl, by simp [connected], fun _ => List.nodup_nil⟩
  · exact .between rfl (by simp [connected, Begins])

/-! ### The ids -/

def Issued (issued : Nat) (id : UInt32) : Prop :=
  ∃ k < issued, id = UInt32.ofNat (k + 1)

theorem Issued.mono {issued issued' : Nat} (hle : issued ≤ issued') {id : UInt32}
    (hid : Issued issued id) : Issued issued' id := by
  obtain ⟨k, hk, rfl⟩ := hid
  exact ⟨k, Nat.lt_of_lt_of_le hk hle, rfl⟩

theorem not_issued {issued : Nat} (hroom : issued < 2 ^ 32) :
    ¬Issued issued (UInt32.ofNat (issued + 1)) := by
  rintro ⟨k, hk, hid⟩
  have htoNat := congrArg UInt32.toNat hid
  rw [UInt32.toNat_ofNat', UInt32.toNat_ofNat'] at htoNat
  omega

/-- The call whose id the thread has taken and whose frame it has still to finish. -/
def owes : Option Act → Option ClientCall
  | some (.sendHeader call) => some call
  | some (.sendData call) => some call
  | _ => none

/-- Each id that was given out belongs to a call that was sent (`none`) or to the thread that owes
it. -/
structure DistinctIds (output : ClientOutput) (place : Nat → Option Act)
    (owner : UInt32 → Option (Option Nat)) : Prop where
  issued : ∀ id, owner id ≠ none → Issued output.issued id
  owed : ∀ thread call, owes (place thread) = some call → owner call.id = some (some thread)
  sent : ∀ call ∈ output.sent, owner call.id = some none
  nodup : (output.sent.map ClientCall.id).Nodup

/-- Ids may be used again once all of them have been given out. -/
structure Numbered (output : ClientOutput) (place : Nat → Option Act) : Prop where
  next : output.nextRequestId = UInt32.ofNat (output.issued + 1)
  distinct : output.issued ≤ 2 ^ 32 → ∃ owner, DistinctIds output place owner

section Ids

variable {output : ClientOutput} {place : Nat → Option Act} {owner : UInt32 → Option (Option Nat)}
  {thread : Nat}

variable (hids : DistinctIds output place owner)

include hids

theorem DistinctIds.update {new : Option Act}
    (howes : ∀ call, owes new = some call → owes (place thread) = some call) :
    DistinctIds output (Function.update place thread new) owner := by
  refine ⟨hids.issued, fun other call hcall => hids.owed other call ?_, hids.sent, hids.nodup⟩
  by_cases hother : other = thread
  · subst hother
    rw [update_self] at hcall
    exact howes call hcall
  · rwa [update_of_ne hother] at hcall

theorem DistinctIds.nextId (hroom : output.issued < 2 ^ 32)
    (hnext : output.nextRequestId = UInt32.ofNat (output.issued + 1)) (body : CallBody) :
    DistinctIds (output.perform (.nextId body)).1
      (Function.update place thread (some (.sendHeader ⟨output.nextRequestId, body⟩)))
      (Function.update owner output.nextRequestId (some (some thread))) := by
  have hkept : ∀ id, owner id ≠ none →
      Function.update owner output.nextRequestId (some (some thread)) id = owner id := by
    intro id hid
    refine update_of_ne ?_ _ _
    rintro rfl
    exact not_issued hroom (hnext ▸ hids.issued _ hid)
  constructor
  · intro id hid
    by_cases hnew : id = output.nextRequestId
    · exact ⟨output.issued, Nat.lt_succ_self _, hnew.trans hnext⟩
    · rw [update_of_ne hnew] at hid
      exact (hids.issued id hid).mono (Nat.le_succ _)
  · intro other call hcall
    by_cases hother : other = thread
    · subst hother
      rw [update_self] at hcall
      obtain rfl := Option.some.inj hcall
      exact update_self ..
    · rw [update_of_ne hother] at hcall
      have howner := hids.owed other call hcall
      rw [hkept _ (by simp [howner]), howner]
  · intro call hcall
    have howner := hids.sent call hcall
    rw [hkept _ (by simp [howner]), howner]
  · exact hids.nodup

theorem DistinctIds.sendData {call : ClientCall} (hplace : place thread = some (.sendData call)) :
    DistinctIds (output.perform (.sendData call)).1 (Function.update place thread none)
      (Function.update owner call.id (some none)) := by
  have howner : owner call.id = some (some thread) := hids.owed thread call (by rw [hplace]; rfl)
  have hkept : ∀ id, owner id ≠ some (some thread) →
      Function.update owner call.id (some none) id = owner id := by
    intro id hid
    refine update_of_ne ?_ _ _
    rintro rfl
    exact hid howner
  constructor
  · intro id hid
    by_cases hsame : id = call.id
    · exact hids.issued id (by simp [hsame, howner])
    · rw [update_of_ne hsame] at hid
      exact hids.issued id hid
  · intro other later hlater
    by_cases hother : other = thread
    · rw [hother, update_self] at hlater
      exact absurd hlater (Option.some_ne_none _).symm
    · rw [update_of_ne hother] at hlater
      have hlater := hids.owed other later hlater
      rw [hkept _ (by simpa [hlater] using hother), hlater]
  · intro found hfound
    rcases List.mem_append.mp hfound with hold | hnew
    · have hfound := hids.sent found hold
      rw [hkept _ (by simp [hfound]), hfound]
    · rw [List.mem_singleton.mp hnew]
      exact update_self ..
  · have hfresh : call.id ∉ output.sent.map ClientCall.id := by
      intro hmem
      obtain ⟨old, hold, hsame⟩ := List.mem_map.mp hmem
      have hsent := hids.sent old hold
      rw [hsame, howner] at hsent
      simp at hsent
    simpa [perform, List.nodup_append, hids.nodup] using hfresh

end Ids

theorem sequential_code : Threads.Sequential code where
  program _ := le_rfl
  exec thread action output output' next hexec := by
    obtain ⟨-, rfl⟩ := Prod.mk.inj (Option.some.inj hexec)
    cases action <;> simp [Threads.actions]

theorem numbered_run (turns : List (Threads.Turn CallBody)) :
    Numbered (run turns).shared (run turns).place := by
  have hmeets : Runs.Meets (Threads.step code) (fun _ _ => True) connected turns :=
    Runs.meets_of_forall _ fun _ _ _ => trivial
  refine Threads.invariant_of_jumps sequential_code Numbered ?_ (fun _ => Nat.zero_le _)
    ⟨rfl, fun _ => ⟨fun _ => none, ?_⟩⟩ hmeets
  · rintro s turn output place ⟨hnext, hdistinct⟩ - hjumps
    cases hjumps with
    | stays => exact ⟨hnext, hdistinct⟩
    | starts thread body hplace =>
        refine ⟨hnext, fun hroom => ?_⟩
        obtain ⟨owner, hids⟩ := hdistinct hroom
        exact ⟨owner, hids.update fun call hcall => absurd hcall (Option.some_ne_none _).symm⟩
    | acts thread action output' next hplace hexec =>
        obtain ⟨rfl, rfl⟩ := Prod.mk.inj (Option.some.inj hexec)
        cases action with
        | nextId body =>
            refine ⟨?_, fun hroom => ?_⟩
            · change s.shared.nextRequestId + 1 = UInt32.ofNat (s.shared.issued + 1 + 1)
              rw [hnext, UInt32.ofNat_add (s.shared.issued + 1) 1]
              rfl
            · have hissued : s.shared.issued + 1 ≤ 2 ^ 32 := hroom
              obtain ⟨owner, hids⟩ := hdistinct (Nat.le_of_succ_le hissued)
              exact ⟨_, hids.nextId hissued hnext body⟩
        | sendHeader call =>
            refine ⟨hnext, fun hroom => ?_⟩
            obtain ⟨owner, hids⟩ := hdistinct hroom
            have howes : ∀ owed, owes (some (.sendData call)) = some owed →
                owes (s.place thread) = some owed := fun owed howed => by rw [hplace]; exact howed
            obtain ⟨hissued, howed, hsent, hnodup⟩ := hids.update howes
            exact ⟨owner, hissued, howed, hsent, hnodup⟩
        | sendData call =>
            refine ⟨hnext, fun hroom => ?_⟩
            obtain ⟨owner, hids⟩ := hdistinct hroom
            exact ⟨_, hids.sendData hplace⟩
  · exact ⟨by simp, by simp [connected, Threads.System.place, Threads.actions, owes],
      by simp [connected], List.nodup_nil⟩

variable {turns : List (Threads.Turn CallBody)}

theorem throughout_run {P : CallBody → Prop}
    (hturns : ∀ thread body, .call thread body ∈ turns → P body) :
    Threads.Throughout (fun output => ∀ call ∈ output.sent, P call.body)
      (fun _ action => P action.body) (run turns) := by
  have hstarted : Runs.Meets (Threads.step code)
      (fun _ turn => ∀ thread body, turn = .call thread body → P body) connected turns :=
    Runs.meets_of_forall _ fun _ hturn _ thread body hcall => hturns thread body (hcall ▸ hturn)
  refine Runs.invariant_of_meets (Threads.step code)
    (Threads.Throughout (fun output => ∀ call ∈ output.sent, P call.body)
      fun _ action => P action.body) ?_ ⟨by simp [connected], by simp [connected]⟩ hstarted
  intro s turn hs hturn
  apply Threads.throughout_step_of_call ?_ hs
  · rintro thread body action rfl haction
    have hbody : action = .nextId body := by simpa [code] using haction
    rw [hbody]
    exact hturn thread body rfl
  · rintro thread action output output' next hexec hsent haction
    obtain ⟨rfl, rfl⟩ := Prod.mk.inj (Option.some.inj hexec)
    refine ⟨?_, ?_, fun other hother => hother⟩
    · cases action with
      | sendData call =>
          intro found hfound
          rcases List.mem_append.mp hfound with hold | hnew
          · exact hsent found hold
          · rw [List.mem_singleton.mp hnew]
            exact haction
      | _ => exact hsent
    · cases action with
      | nextId body =>
          intro later hlater
          have hheader : later = .sendHeader ⟨output.nextRequestId, body⟩ := by
            simpa [perform] using hlater
          rw [hheader]
          exact haction
      | sendHeader call =>
          intro later hlater
          have hdata : later = .sendData call := by simpa [perform] using hlater
          rw [hdata]
          exact haction
      | sendData call => simp

/-- **Writing.** However the threads take turns, the stream is the frames of the calls that were
sent, one behind the other, and at most the header of one more. -/
theorem wire_run {P : CallBody → Prop}
    (hturns : ∀ thread body, .call thread body ∈ turns → P body) :
    (∀ call ∈ (run turns).shared.sent, P call.body) ∧
      ∃ begun, (run turns).shared.wire =
          (run turns).shared.sent.flatMap (fun call => sendFrame call.bytes) ++ begun ∧
        (begun = [] ∨
          ∃ call : ClientCall, P call.body ∧ begun = writeFrameHeader call.bytes.length) := by
  obtain ⟨hsent, hleft⟩ := throughout_run hturns
  refine ⟨hsent, ?_⟩
  cases written_run turns with
  | between hwire hnone => exact ⟨[], by rw [hwire, List.append_nil], .inl rfl⟩
  | begun thread call rest hwire htodo hrest hnone =>
      have hcall : P call.body :=
        hleft thread (.sendData call) (htodo ▸ List.mem_cons_self)
      exact ⟨_, hwire, .inr ⟨call, hcall, rfl⟩⟩

theorem nodup_ids_run (hissued : (run turns).shared.issued ≤ 2 ^ 32) :
    ((run turns).shared.sent.map ClientCall.id).Nodup := by
  obtain ⟨owner, hids⟩ := (numbered_run turns).distinct hissued
  exact hids.nodup

end CallingClient

end Poseidon
