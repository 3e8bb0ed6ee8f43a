import Poseidon.Client.WebProtocol
import Poseidon.Lib.Runs

/-!
# Requests and responses of the web client

A connection of the web client keeps the promise of every request under a number of its own, and
looks for the number that a response carries. The array of the request is made before, with a
number of its own; the server answers with that one. A response settles its own request exactly if
the two numbers are the same.
-/

namespace Poseidon

open Cbor

/-- How a promise was settled: with the result of a response, the error of one, or without one. -/
inductive Settlement where
  | resolved (resultData : Bytes)
  | failed (errorCode : JsValue)
  | timedOut
  | notConnected
  | disconnected
  | closed
deriving DecidableEq, Repr

/-- A call of `sendRequest` with the array of its frame, and its promise. -/
structure WebCall where
  request : List JsValue
  settlement : Option Settlement
deriving DecidableEq, Repr

/-- The first settlement of a promise counts. -/
def WebCall.settle (settlement : Settlement) (call : WebCall) : WebCall :=
  { call with settlement := some (call.settlement.getD settlement) }

/-- A `Connection` with the calls of `sendRequest` so far. Their numbers stand in the pending table
for the functions that settle their promises. -/
structure WebConnection where
  connected : Bool
  nextRequestId : Nat
  pending : List (Nat × Nat)
  calls : List WebCall
deriving DecidableEq, Repr

namespace WebConnection

def created : WebConnection :=
  ⟨false, 1, [], []⟩

def connect (connection : WebConnection) : WebConnection :=
  { connection with connected := true }

def sendRequest (connection : WebConnection) (request : List JsValue) : WebConnection :=
  if !connection.connected then
    { connection with calls := connection.calls ++ [⟨request, some .notConnected⟩] }
  else
    { connection with
      nextRequestId := connection.nextRequestId + 1
      pending := connection.pending ++ [(connection.nextRequestId, connection.calls.length)]
      calls := connection.calls ++ [⟨request, none⟩] }

/-- `pending.get`: a key is found only by the same number. -/
def getPending (connection : WebConnection) : JsValue → Option (Nat × Nat)
  | .number requestId => connection.pending.find? (·.1 == requestId)
  | _ => none

/-- A pending entry is deleted and its promise settled. -/
def finish (connection : WebConnection) (entry : Nat × Nat) (settlement : Settlement) :
    WebConnection :=
  { connection with
    pending := connection.pending.filter (·.1 != entry.1)
    calls := connection.calls.modify entry.2 (·.settle settlement) }

def outcome (errorCode : JsValue) (resultData : Bytes) : Settlement :=
  if errorCode = .number 0 then .resolved resultData else .failed errorCode

def handleResponse (connection : WebConnection) (requestId errorCode : JsValue)
    (resultData : Bytes) : WebConnection :=
  match connection.getPending requestId with
  | none => connection
  | some entry => connection.finish entry (outcome errorCode resultData)

/-- What `_onData` does to the pending requests with a frame it has decoded. -/
def handleFrame (connection : WebConnection) : Option WebFrame → WebConnection
  | some (.response requestId errorCode resultData) =>
      connection.handleResponse requestId errorCode resultData
  | _ => connection

def timeout (connection : WebConnection) (requestId : Nat) : WebConnection :=
  match connection.getPending (.number requestId) with
  | none => connection
  | some entry => connection.finish entry .timedOut

/-- The promises of all pending requests are settled, and the table is cleared. -/
def rejectAll (connection : WebConnection) (settlement : Settlement) : WebConnection :=
  { connection with
    pending := []
    calls := connection.pending.foldl
      (fun calls entry => calls.modify entry.2 (·.settle settlement)) connection.calls }

def onClose (connection : WebConnection) : WebConnection :=
  connection.rejectAll .closed

def disconnect (connection : WebConnection) : WebConnection :=
  { connection.rejectAll .disconnected with connected := false }

end WebConnection

def receivedId (request : List JsValue) : UInt32 :=
  match request with
  | _ :: .number requestId :: _ => UInt32.ofNat requestId
  | _ => 0

/-! ### Runs -/

/-- The server's response to a call arrives with an error code and a result. -/
inductive WebEvent where
  | connect
  | request (request : List JsValue)
  | respond (call : Nat) (errorCode : UInt8) (resultData : CString maxResultData)
  | timeout (requestId : Nat)
  | close
  | disconnect
deriving DecidableEq, Repr

structure WebRun where
  connection : WebConnection
  answered : List Nat
deriving DecidableEq, Repr

namespace WebRun

def start : WebRun :=
  ⟨WebConnection.created, []⟩

variable (runtime : WebRuntime)

/-- The connection when the response to a call has arrived: the server answers with the number it
received. -/
def respond (connection : WebConnection) (call : Nat) (errorCode : UInt8)
    (resultData : CString maxResultData) : WebConnection :=
  match connection.calls[call]? with
  | none => connection
  | some known =>
      connection.handleFrame (WebProtocol.decodeFrame runtime (serialize
        (ClientProtocol.encodeResponse (receivedId known.request) errorCode resultData.bytes)))

def step (s : WebRun) : WebEvent → WebRun
  | .connect => { s with connection := s.connection.connect }
  | .request request => { s with connection := s.connection.sendRequest request }
  | .respond call errorCode resultData =>
      ⟨respond runtime s.connection call errorCode resultData, call :: s.answered⟩
  | .timeout requestId => { s with connection := s.connection.timeout requestId }
  | .close => { s with connection := s.connection.onClose }
  | .disconnect => { s with connection := s.connection.disconnect }

/-- Requests are made on an open connection, and the server answers every one once, before its
timer fires and before the connection ends. -/
def Allowed (s : WebRun) : WebEvent → Prop
  | .connect => True
  | .request _ => s.connection.connected = true
  | .respond call _ _ => call < s.connection.calls.length ∧ call ∉ s.answered
  | .timeout requestId =>
      ∀ call, s.connection.getPending (.number requestId) = some (requestId, call) →
        call ∈ s.answered
  | .close | .disconnect => ∀ call < s.connection.calls.length, call ∈ s.answered

/-- A response settles the promise of its own request with what it carries, and no other. -/
def SettlesOwn (s : WebRun) : WebEvent → Prop
  | .respond call errorCode resultData =>
      ((respond runtime s.connection call errorCode resultData).calls[call]?.bind
          (·.settlement)) = some (WebConnection.outcome (.number errorCode.toNat)
            (runtime.decodeText resultData.bytes)) ∧
        ∀ other, other ≠ call →
          (respond runtime s.connection call errorCode resultData).calls[other]? =
            s.connection.calls[other]?
  | _ => True

/-- The frame of an answered request carries the number its promise is kept under. -/
def CarriesKey (s : WebRun) : WebEvent → Prop
  | .respond call _ _ =>
      ∀ known, s.connection.calls[call]? = some known → (receivedId known.request).toNat = call + 1
  | _ => True

/-- What holds as long as every response settled its own request: a call is pending under the number
after its own until it is answered, and its promise is open. -/
structure Tracked (s : WebRun) : Prop where
  nextRequestId_eq : s.connection.nextRequestId = s.connection.calls.length + 1
  answered_lt : ∀ call ∈ s.answered, call < s.connection.calls.length
  mem_pending_iff : ∀ entry, entry ∈ s.connection.pending ↔
    entry.1 = entry.2 + 1 ∧ entry.2 < s.connection.calls.length ∧ entry.2 ∉ s.answered
  unsettled : ∀ call known, s.connection.calls[call]? = some known → call ∉ s.answered →
    known.settlement = none

theorem tracked_start : start.Tracked where
  nextRequestId_eq := rfl
  answered_lt := List.forall_mem_nil _
  mem_pending_iff entry := by simp [start, WebConnection.created]
  unsettled call known hknown := by simp [start, WebConnection.created] at hknown

variable {runtime} {s : WebRun} {call : Nat} {known : WebCall} {errorCode : UInt8}
  {resultData : CString maxResultData}

theorem Tracked.getPending_eq_some_iff (htracked : s.Tracked) {requestId : Nat}
    {entry : Nat × Nat} :
    s.connection.getPending (.number requestId) = some entry ↔
      entry.1 = requestId ∧ entry ∈ s.connection.pending := by
  constructor
  · intro hfound
    exact ⟨by simpa using List.find?_some hfound, List.mem_of_find?_eq_some hfound⟩
  · rintro ⟨rfl, hmem⟩
    obtain ⟨found, hfound⟩ : ∃ found, s.connection.pending.find? (·.1 == entry.1) = some found :=
      Option.isSome_iff_exists.mp (List.find?_isSome.mpr ⟨entry, hmem, beq_self_eq_true _⟩)
    -- Two entries of one number belong to the same call.
    have hid : found.1 = entry.1 := by simpa using List.find?_some hfound
    have hcall := ((htracked.mem_pending_iff found).mp (List.mem_of_find?_eq_some hfound)).1
    have hentry := ((htracked.mem_pending_iff entry).mp hmem).1
    have hsame : found = entry := Prod.ext hid (by omega)
    rw [WebConnection.getPending, hfound, hsame]

theorem respond_eq (hknown : s.connection.calls[call]? = some known) :
    respond runtime s.connection call errorCode resultData =
      s.connection.handleResponse (.number (receivedId known.request).toNat)
        (.number errorCode.toNat) (runtime.decodeText resultData.bytes) := by
  rw [respond, hknown]
  dsimp only
  rw [WebProtocol.decodeFrame_response, WebConnection.handleFrame]

section

variable (htracked : s.Tracked)

include htracked

theorem Tracked.respond_of_carriesKey (hknown : s.connection.calls[call]? = some known)
    (hcall : call ∉ s.answered) (hkey : (receivedId known.request).toNat = call + 1) :
    respond runtime s.connection call errorCode resultData =
      s.connection.finish (call + 1, call) (WebConnection.outcome (.number errorCode.toNat)
        (runtime.decodeText resultData.bytes)) := by
  have hlt : call < s.connection.calls.length := (List.getElem?_eq_some_iff.mp hknown).1
  have hfound : s.connection.getPending (.number (call + 1)) = some (call + 1, call) :=
    htracked.getPending_eq_some_iff.mpr
      ⟨rfl, (htracked.mem_pending_iff _).mpr ⟨rfl, hlt, hcall⟩⟩
  rw [respond_eq hknown, hkey, WebConnection.handleResponse, hfound]

theorem Tracked.respond_of_not_carriesKey (hknown : s.connection.calls[call]? = some known)
    (hkey : (receivedId known.request).toNat ≠ call + 1) :
    (respond runtime s.connection call errorCode resultData).calls[call]? = some known := by
  rw [respond_eq hknown, WebConnection.handleResponse]
  cases hfound : s.connection.getPending (.number (receivedId known.request).toNat) with
  | none => exact hknown
  | some entry =>
      obtain ⟨hid, hmem⟩ := htracked.getPending_eq_some_iff.mp hfound
      have hnumber := ((htracked.mem_pending_iff entry).mp hmem).1
      have hother : entry.2 ≠ call := by omega
      dsimp only
      rw [WebConnection.finish, List.getElem?_modify_ne _ _ hother, hknown]

theorem Tracked.settlesOwn_iff {event : WebEvent} (hallowed : s.Allowed event) :
    s.SettlesOwn runtime event ↔ s.CarriesKey event := by
  cases event with
  | respond call errorCode resultData =>
      obtain ⟨hlt, hcall⟩ := hallowed
      have hknown := List.getElem?_eq_getElem hlt
      have hopen := htracked.unsettled call _ hknown hcall
      constructor
      · rintro ⟨hown, -⟩ known' hknown'
        by_contra hkey
        rw [htracked.respond_of_not_carriesKey hknown' hkey, Option.bind_some,
          htracked.unsettled call _ hknown' hcall] at hown
        exact absurd hown (Option.some_ne_none _).symm
      · intro hcarries
        rw [SettlesOwn, htracked.respond_of_carriesKey hknown hcall (hcarries _ hknown)]
        refine ⟨?_, fun other hother => ?_⟩
        · simp [WebConnection.finish, WebCall.settle, hknown, hopen]
        · exact List.getElem?_modify_ne _ _ hother.symm
  | connect => exact Iff.rfl
  | request request => exact Iff.rfl
  | timeout requestId => exact Iff.rfl
  | close => exact Iff.rfl
  | disconnect => exact Iff.rfl

/-! ### The invariant -/

theorem Tracked.request (request : List JsValue) (hconnected : s.connection.connected = true) :
    Tracked ⟨s.connection.sendRequest request, s.answered⟩ := by
  have hfresh : s.connection.calls.length ∉ s.answered :=
    fun hmem => (htracked.answered_lt _ hmem).false
  rw [WebConnection.sendRequest, hconnected, Bool.not_true, if_neg Bool.false_ne_true]
  constructor
  · simp [htracked.nextRequestId_eq]
  · intro call hcall
    have hlt := htracked.answered_lt call hcall
    simp only [List.length_append, List.length_singleton]
    omega
  · rintro ⟨requestId, call⟩
    simp only [List.mem_append, List.mem_singleton, Prod.mk.injEq, htracked.mem_pending_iff,
      htracked.nextRequestId_eq, List.length_append, List.length_singleton]
    constructor
    · rintro (⟨hid, hlt, hcall⟩ | ⟨hid, rfl⟩)
      · exact ⟨hid, by omega, hcall⟩
      · exact ⟨hid, by omega, hfresh⟩
    · rintro ⟨hid, hlt, hcall⟩
      by_cases hlast : call = s.connection.calls.length
      · exact Or.inr ⟨by omega, hlast⟩
      · exact Or.inl ⟨hid, by omega, hcall⟩
  · intro call known hknown hcall
    rcases Nat.lt_or_ge call s.connection.calls.length with hlt | hge
    · rw [List.getElem?_append_left hlt] at hknown
      exact htracked.unsettled call known hknown hcall
    · rw [List.getElem?_append_right hge] at hknown
      obtain ⟨-, rfl⟩ := List.getElem?_eq_some_iff.mp hknown
      simp

theorem Tracked.answer (hcall : call < s.connection.calls.length) (settlement : Settlement) :
    Tracked ⟨s.connection.finish (call + 1, call) settlement, call :: s.answered⟩ := by
  constructor
  · simp [WebConnection.finish, htracked.nextRequestId_eq]
  · intro answered hmem
    rw [WebConnection.finish, List.length_modify]
    rcases List.mem_cons.mp hmem with rfl | hmem
    · exact hcall
    · exact htracked.answered_lt answered hmem
  · intro entry
    simp only [WebConnection.finish, List.mem_filter, bne_iff_ne, List.length_modify,
      htracked.mem_pending_iff, List.mem_cons, not_or]
    constructor
    · rintro ⟨⟨hid, hlt, hopen⟩, hne⟩
      exact ⟨hid, hlt, by omega, hopen⟩
    · rintro ⟨hid, hlt, hne, hopen⟩
      exact ⟨⟨hid, hlt, hopen⟩, by omega⟩
  · intro other known hknown hother
    obtain ⟨hne, hopen⟩ := not_or.mp (mt List.mem_cons.mpr hother)
    rw [WebConnection.finish, List.getElem?_modify_ne _ _ (Ne.symm hne)] at hknown
    exact htracked.unsettled other known hknown hopen

theorem Tracked.pending_eq_nil (hall : ∀ call < s.connection.calls.length, call ∈ s.answered) :
    s.connection.pending = [] := by
  rw [List.eq_nil_iff_forall_not_mem]
  intro entry hmem
  obtain ⟨-, hlt, hopen⟩ := (htracked.mem_pending_iff entry).mp hmem
  exact hopen (hall entry.2 hlt)

theorem Tracked.rejectAll (settlement : Settlement)
    (hall : ∀ call < s.connection.calls.length, call ∈ s.answered) :
    s.connection.rejectAll settlement = s.connection := by
  have hpending := htracked.pending_eq_nil hall
  rw [WebConnection.rejectAll, hpending, List.foldl_nil, ← hpending]

theorem Tracked.connected (connected : Bool) :
    Tracked ⟨{ s.connection with connected := connected }, s.answered⟩ :=
  ⟨htracked.nextRequestId_eq, htracked.answered_lt, htracked.mem_pending_iff,
    htracked.unsettled⟩

theorem Tracked.step {event : WebEvent} (hallowed : s.Allowed event)
    (hcarries : s.CarriesKey event) : (s.step runtime event).Tracked := by
  cases event with
  | connect => exact htracked.connected true
  | request request => exact htracked.request request hallowed
  | respond call errorCode resultData =>
      obtain ⟨hlt, hcall⟩ := hallowed
      have hknown := List.getElem?_eq_getElem hlt
      rw [WebRun.step, htracked.respond_of_carriesKey hknown hcall (hcarries _ hknown)]
      exact htracked.answer hlt _
  | timeout requestId =>
      -- The timer of a request that was answered is gone.
      have hnone : s.connection.getPending (.number requestId) = none := by
        rw [Option.eq_none_iff_forall_ne_some]
        rintro ⟨id, call⟩ hfound
        obtain ⟨rfl, hmem⟩ := htracked.getPending_eq_some_iff.mp hfound
        exact ((htracked.mem_pending_iff _).mp hmem).2.2 (hallowed call hfound)
      rw [WebRun.step, WebConnection.timeout, hnone]
      exact htracked
  | close =>
      rw [WebRun.step, WebConnection.onClose, htracked.rejectAll _ hallowed]
      exact htracked
  | disconnect =>
      rw [WebRun.step, WebConnection.disconnect, htracked.rejectAll _ hallowed]
      exact htracked.connected false

end

/-- **Correlation.** In a run in which the server answers every request in time, every response
settles its own request and no other exactly if every answered frame carries the number its promise
is kept under. -/
theorem meets_settlesOwn_iff {events : List WebEvent}
    (hallowed : Runs.Meets (step runtime) Allowed start events) :
    Runs.Meets (step runtime) (SettlesOwn runtime) start events ↔
      Runs.Meets (step runtime) CarriesKey start events :=
  Runs.meets_iff_meets_of_keeps (step runtime) Tracked
    (fun _ _ htracked hallowed hcarries => htracked.step hallowed hcarries)
    (fun _ _ htracked hallowed => htracked.settlesOwn_iff hallowed) tracked_start hallowed

end WebRun

end Poseidon
