import Poseidon.Client.WebConfig
import Poseidon.Client.WebConnection

/-!
# Calls of the web client

Every call of the web client encodes its request with the number zero, while the connection keeps
the promise under a number counted from one. The server answers with zero, so that no response is
ever found to belong to a request.
-/

namespace Poseidon

/-- A call of `PoseidonClient` that sends a request, those for the owner with their signature. -/
inductive WebClientCall where
  | createChannel (name : Bytes)
  | joinChannel (topicOrAlias : Bytes)
  | leaveChannel (topicId : Bytes)
  | destroyChannel (topicId signature : Bytes)
  | modifyChannel (topicId : Bytes) (config : ChannelConfig) (signature : Bytes)
  | subscribe (topicPath : Bytes)
  | unsubscribe (topicPath : Bytes)
  | publish (topicPath data : Bytes)
  | registerAlias (name topicId : Bytes)
  | unregisterAlias (name : Bytes)
deriving DecidableEq, Repr

namespace WebClientCall

open WebProtocol

/-- The array of the frame that a call hands to `sendRequest`. -/
def request : WebClientCall → List JsValue
  | .createChannel name => encodeRequest 0 1 name none
  | .joinChannel topicOrAlias => encodeRequest 0 2 topicOrAlias none
  | .leaveChannel topicId => encodeRequest 0 3 topicId none
  | .destroyChannel topicId signature => encodeAdminRequest 0 4 topicId signature none
  | .modifyChannel topicId config signature =>
      encodeAdminRequest 0 5 topicId signature (some (WebClient.encodeConfig config))
  | .subscribe topicPath => encodeRequest 0 6 topicPath none
  | .unsubscribe topicPath => encodeRequest 0 7 topicPath none
  | .publish topicPath data => encodeRequest 0 8 topicPath (some data)
  | .registerAlias name topicId => encodeRequest 0 9 name (some topicId)
  | .unregisterAlias name => encodeRequest 0 10 name none

theorem receivedId_request (call : WebClientCall) : receivedId call.request = 0 := by
  cases call <;> rfl

end WebClientCall

/-! ### The requests of a run -/

def WebEvent.requests : WebEvent → List (List JsValue)
  | .request sent => [sent]
  | _ => []

namespace WebConnection

def requests (connection : WebConnection) : List (List JsValue) :=
  connection.calls.map (·.request)

theorem map_request_modify (calls : List WebCall) (call : Nat) (settlement : Settlement) :
    (calls.modify call (·.settle settlement)).map (·.request) = calls.map (·.request) := by
  apply List.ext_getElem?
  intro index
  rw [List.getElem?_map, List.getElem?_map, List.getElem?_modify]
  cases calls[index]? with
  | none => rfl
  | some known =>
      by_cases hcall : call = index
      · simp [hcall, WebCall.settle]
      · simp [hcall]

variable (connection : WebConnection)

theorem requests_finish (entry : Nat × Nat) (settlement : Settlement) :
    (connection.finish entry settlement).requests = connection.requests :=
  map_request_modify connection.calls entry.2 settlement

theorem requests_handleFrame (frame : Option WebFrame) :
    (connection.handleFrame frame).requests = connection.requests := by
  unfold handleFrame handleResponse
  split
  · split
    · rfl
    · apply requests_finish
  · rfl

theorem requests_timeout (requestId : Nat) :
    (connection.timeout requestId).requests = connection.requests := by
  unfold timeout
  split
  · rfl
  · apply requests_finish

theorem requests_rejectAll (settlement : Settlement) :
    (connection.rejectAll settlement).requests = connection.requests := by
  unfold rejectAll requests
  dsimp only
  generalize connection.calls = calls
  induction connection.pending generalizing calls with
  | nil => rfl
  | cons entry pending ih => rw [List.foldl_cons, ih, map_request_modify]

theorem requests_sendRequest (request : List JsValue) :
    (connection.sendRequest request).requests = connection.requests ++ [request] := by
  unfold sendRequest requests
  split <;> simp

end WebConnection

namespace WebRun

variable {runtime : WebRuntime} {s : WebRun}

theorem requests_step (s : WebRun) (event : WebEvent) :
    (s.step runtime event).connection.requests = s.connection.requests ++ event.requests := by
  cases event with
  | connect => exact (List.append_nil _).symm
  | request request => exact s.connection.requests_sendRequest request
  | respond call errorCode resultData =>
      refine Eq.trans ?_ (List.append_nil _).symm
      unfold step respond
      dsimp only
      split
      · rfl
      · apply WebConnection.requests_handleFrame
  | timeout requestId =>
      exact (s.connection.requests_timeout requestId).trans (List.append_nil _).symm
  | close => exact (s.connection.requests_rejectAll .closed).trans (List.append_nil _).symm
  | disconnect =>
      exact (s.connection.requests_rejectAll .disconnected).trans (List.append_nil _).symm

theorem length_calls_step (s : WebRun) (event : WebEvent) :
    s.connection.calls.length ≤ (s.step runtime event).connection.calls.length := by
  have hrequests := congrArg List.length (@requests_step runtime s event)
  rw [List.length_append, WebConnection.requests, WebConnection.requests, List.length_map,
    List.length_map] at hrequests
  omega

/-! ### Responses to the client -/

/-- In a run of the client the requests are those of its calls, made and answered in time. -/
def FromClient (s : WebRun) (event : WebEvent) : Prop :=
  s.Allowed event ∧ ∀ request ∈ event.requests, ∃ call : WebClientCall, request = call.request

def NoResponse (_ : WebRun) : WebEvent → Prop
  | .respond _ _ _ => False
  | _ => True

/-- The server has received the number zero with every request. -/
def ZeroIds (s : WebRun) : Prop :=
  ∀ request ∈ s.connection.requests, receivedId request = 0

theorem ZeroIds.step (hzero : s.ZeroIds) {event : WebEvent} (hclient : s.FromClient event) :
    (s.step runtime event).ZeroIds := by
  intro request hrequest
  rw [requests_step, List.mem_append] at hrequest
  rcases hrequest with hrequest | hrequest
  · exact hzero request hrequest
  · obtain ⟨call, rfl⟩ := hclient.2 request hrequest
    exact call.receivedId_request

theorem ZeroIds.carriesKey_iff (hzero : s.ZeroIds) {event : WebEvent}
    (hclient : s.FromClient event) : s.CarriesKey event ↔ s.NoResponse event := by
  cases event with
  | respond call errorCode resultData =>
      refine iff_of_false (fun hcarries => ?_) id
      have hknown := List.getElem?_eq_getElem hclient.1.1
      have hkey := hcarries _ hknown
      -- the key is positive
      rw [hzero _ (List.mem_map_of_mem (List.mem_of_getElem? hknown))] at hkey
      exact Nat.succ_ne_zero call hkey.symm
  | connect => exact Iff.rfl
  | request request => exact Iff.rfl
  | timeout requestId => exact Iff.rfl
  | close => exact Iff.rfl
  | disconnect => exact Iff.rfl

theorem answered_step_eq_nil_iff (s : WebRun) (event : WebEvent) :
    (s.step runtime event).answered = [] ↔ s.answered = [] ∧ s.NoResponse event := by
  cases event <;> simp [step, NoResponse]

def AnsweredKnown (s : WebRun) : Prop :=
  ∀ call ∈ s.answered, call < s.connection.calls.length

theorem AnsweredKnown.step (hknown : s.AnsweredKnown) {event : WebEvent}
    (hallowed : s.Allowed event) : (s.step runtime event).AnsweredKnown := by
  intro call hcall
  refine lt_of_lt_of_le ?_ (length_calls_step s event)
  cases event with
  | respond answered errorCode resultData =>
      rcases List.mem_cons.mp hcall with rfl | hcall
      · exact hallowed.1
      · exact hknown call hcall
  | connect => exact hknown call hcall
  | request request => exact hknown call hcall
  | timeout requestId => exact hknown call hcall
  | close => exact hknown call hcall
  | disconnect => exact hknown call hcall

/-- **Responses to the web client.** In a run of the client in which the server answers every
request in time, every response settles its own request and no other exactly if there was no
request. -/
theorem web_requests_settled_iff (runtime : WebRuntime) (events : List WebEvent)
    (hclient : Runs.Meets (step runtime) FromClient start events)
    (hanswered : ∀ call < (Runs.run (step runtime) start events).connection.calls.length,
      call ∈ (Runs.run (step runtime) start events).answered) :
    Runs.Meets (step runtime) (SettlesOwn runtime) start events ↔
      (Runs.run (step runtime) start events).connection.calls = [] := by
  have hallowed : Runs.Meets (step runtime) Allowed start events :=
    hclient.imp (step runtime) fun _ _ hstep => hstep.1
  have hzero : start.ZeroIds := List.forall_mem_nil _
  have hnone : start.AnsweredKnown := List.forall_mem_nil _
  have hknown := Runs.invariant_of_meets (step runtime) AnsweredKnown
    (fun _ _ hknown hallowed => hknown.step hallowed) hnone hallowed
  calc Runs.Meets (step runtime) (SettlesOwn runtime) start events
      ↔ Runs.Meets (step runtime) CarriesKey start events := meets_settlesOwn_iff hallowed
    _ ↔ Runs.Meets (step runtime) NoResponse start events :=
        Runs.meets_iff_meets_of_keeps (step runtime) ZeroIds
          (fun _ _ hzero hclient _ => hzero.step hclient)
          (fun _ _ hzero hclient => hzero.carriesKey_iff hclient) hzero hclient
    _ ↔ (Runs.run (step runtime) start events).answered = [] := by
        rw [Runs.invariant_iff_meets (step runtime) (fun s => s.answered = [])
          answered_step_eq_nil_iff]
        exact (and_iff_right rfl).symm
    _ ↔ (Runs.run (step runtime) start events).connection.calls = [] := by
        constructor
        · intro hnil
          by_contra hcalls
          have hfirst := hanswered 0 (List.length_pos_iff.mpr hcalls)
          rw [hnil] at hfirst
          exact List.not_mem_nil hfirst
        · intro hnil
          rw [List.eq_nil_iff_forall_not_mem]
          intro call hcall
          have hlt := hknown call hcall
          rw [hnil] at hlt
          exact Nat.not_lt_zero call hlt

/-! ### One call -/

theorem length_created_lt :
    ([99, 114, 101, 97, 116, 101, 100] : Bytes).length < maxResultData := by
  decide

theorem zero_not_mem_created : (0 : UInt8) ∉ ([99, 114, 101, 97, 116, 101, 100] : Bytes) := by
  decide

def oneCall : List WebEvent :=
  [.connect, .request (WebClientCall.createChannel [97]).request,
    .respond 0 0 ⟨[99, 114, 101, 97, 116, 101, 100], length_created_lt, zero_not_mem_created⟩]

theorem fromClient_oneCall :
    Runs.Meets (step WebRuntime.ofLoad) FromClient start oneCall := by
  refine ⟨⟨trivial, List.forall_mem_nil _⟩, ⟨rfl, ?_⟩, ⟨⟨?_, ?_⟩, List.forall_mem_nil _⟩, trivial⟩
  · exact fun request hrequest => ⟨_, List.mem_singleton.mp hrequest⟩
  · exact Nat.one_pos
  · exact List.not_mem_nil

theorem run_oneCall : Runs.run (step WebRuntime.ofLoad) start oneCall =
    ⟨⟨true, 2, [(1, 0)], [⟨(WebClientCall.createChannel [97]).request, none⟩]⟩, [0]⟩ := by
  decide +kernel

theorem web_requests_settled_oneCall :
    (Runs.run (step WebRuntime.ofLoad) start oneCall).connection.calls ≠ [] ∧
      ¬ Runs.Meets (step WebRuntime.ofLoad) (SettlesOwn WebRuntime.ofLoad) start oneCall := by
  have hcalls : (Runs.run (step WebRuntime.ofLoad) start oneCall).connection.calls ≠ [] := by
    rw [run_oneCall]
    exact List.cons_ne_nil _ _
  refine ⟨hcalls, fun hsettles => hcalls ?_⟩
  refine (web_requests_settled_iff WebRuntime.ofLoad oneCall fromClient_oneCall ?_).mp hsettles
  rw [run_oneCall]
  decide

/-- The call is answered in time, and its promise is still open. -/
theorem oneCall_not_settled :
    Runs.Meets (step WebRuntime.ofLoad) FromClient start oneCall ∧
      (Runs.run (step WebRuntime.ofLoad) start oneCall).answered = [0] ∧
      (Runs.run (step WebRuntime.ofLoad) start oneCall).connection.calls.map (·.settlement) =
        [none] ∧
      ¬ Runs.Meets (step WebRuntime.ofLoad) (SettlesOwn WebRuntime.ofLoad) start oneCall := by
  refine ⟨fromClient_oneCall, ?_, ?_, fun hsettles => ?_⟩
  · rw [run_oneCall]
  · rw [run_oneCall]
    rfl
  · have hopen : (Runs.run (step WebRuntime.ofLoad) start oneCall).connection.calls[0]?.bind
        (·.settlement) = none := by
      rw [run_oneCall]
      rfl
    exact absurd (hopen.symm.trans hsettles.2.2.1.1) (Option.some_ne_none _).symm

end WebRun

end Poseidon
