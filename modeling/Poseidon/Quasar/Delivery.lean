import Mathlib.Data.List.Count
import Poseidon.Quasar.Network

/-!
# Delivery at most once

All packets that stem from one call of `publish` carry the id the call drew, so the duplicate
check lets each node process at most one of them. A subscribed publisher breaks this: it draws a
fresh id for every connected peer, and the copies are then strangers to each other. The results
below are about calls that draw at most one id.
-/

namespace Poseidon.Network

variable {ι : Type}

structure CallsBelow (net : Network ι) : Prop where
  packets : ∀ packet ∈ net.packets, packet.trace.call < net.calls
  log : ∀ node call, .delivered node call ∈ net.log → call < net.calls

variable [DecidableEq ι] (H : HashFn)

theorem delivered_mem_log_act {net : Network ι} {actor node : ι} {result : Quasar × List Action}
    {trace : Trace} {events : List (Event ι)} {call : Nat}
    (hevents : .delivered node call ∉ events)
    (hmem : .delivered node call ∈ (net.act actor result trace events).log) :
    .delivered node call ∈ net.log ∨ node = actor ∧ call = trace.call := by
  rcases List.mem_append.mp hmem with hold | hnew
  · exact Or.inl hold
  · rcases List.mem_append.mp hnew with hevent | hdelivered
    · exact absurd hevent hevents
    · have heq := List.eq_of_mem_replicate hdelivered
      cases heq
      exact Or.inr ⟨rfl, rfl⟩

omit [DecidableEq ι] in
theorem delivered_not_mem_published {actor node : ι} {ids : List MessageId} {call : Nat} :
    .delivered node call ∉ ids.map (Event.published actor) := by
  simp

theorem callsBelow_step (net : Network ι) (label : Label ι) (hbelow : CallsBelow net) :
    CallsBelow (net.step H label) := by
  cases label with
  | publish actor ids topic data =>
      refine ⟨?_, ?_⟩
      · intro packet hpacket
        rcases mem_packets_publish H hpacket with hold | ⟨htrace, -⟩
        · exact Nat.lt_succ_of_lt (hbelow.packets packet hold)
        · rw [htrace]
          exact Nat.lt_succ_self _
      · intro node call hmem
        rcases delivered_mem_log_act delivered_not_mem_published hmem with hold | ⟨-, rfl⟩
        · exact Nat.lt_succ_of_lt (hbelow.log node call hold)
        · exact Nat.lt_succ_self _
  | receive actor index =>
      rcases receive_cases H net actor index with hsame | ⟨source, hsource, msg, -, hunseen, hstep⟩
      · rw [step, hsame]
        exact hbelow
      · rw [step, hstep]
        refine ⟨?_, ?_⟩
        · intro packet hpacket
          rcases mem_packets_process H hunseen hpacket with hold | ⟨htrace, -⟩
          · exact hbelow.packets packet hold
          · rw [htrace]
            exact hbelow.packets source hsource
        · intro node call hmem
          rcases delivered_mem_log_act (by simp) hmem with hold | ⟨-, rfl⟩
          · exact hbelow.log node call hold
          · exact hbelow.packets source hsource
  | perform actor operation => exact ⟨hbelow.packets, hbelow.log⟩

theorem callsBelow_run (nodes : ι → Quasar) (labels : List (Label ι)) :
    CallsBelow (Runs.run (step H) (start nodes) labels) :=
  Runs.invariant (step H) CallsBelow (callsBelow_step H)
    ⟨fun _ hpacket => absurd hpacket List.not_mem_nil,
      fun _ _ hmem => absurd hmem List.not_mem_nil⟩

/-- A call that drew one id: its packets all name it, and a node that delivered one of them has
seen it. -/
structure OnceFor (call : Nat) (id : MessageId) (net : Network ι) : Prop where
  call_lt : call < net.calls
  names : ∀ packet ∈ net.packets, packet.trace.call = call →
    ∀ msg, RouteMessage.deserialize packet.bytes = some msg → msg.id = id
  once : ∀ node, net.log.count (.delivered node call) ≤ 1
  seen : ∀ node, .delivered node call ∈ net.log →
    (∃ packet ∈ net.packets, packet.trace.call = call) →
    (net.nodes node).seen.contains H id.key = true

variable {net : Network ι}

theorem count_delivered_act {actor : ι} {result : Quasar × List Action} {trace : Trace}
    {events : List (Event ι)} (node : ι) (call : Nat) (hevents : .delivered node call ∉ events) :
    (net.act actor result trace events).log.count (.delivered node call) =
      net.log.count (.delivered node call) +
        if actor = node ∧ trace.call = call then result.2.countP Action.isCallback else 0 := by
  simp only [act, List.count_append, List.count_eq_zero_of_not_mem hevents, List.count_replicate,
    Nat.zero_add, beq_iff_eq, Event.delivered.injEq]

theorem count_delivered_publish (net : Network ι) (actor : ι) (ids : Nat → MessageId)
    (topic data : Bytes) (node : ι) (call : Nat) :
    (net.publish H actor ids topic data).log.count (.delivered node call) =
      net.log.count (.delivered node call) +
        if actor = node ∧ net.calls = call then
          ((net.nodes actor).publish H ids topic data).2.countP Action.isCallback
        else 0 :=
  count_delivered_act node call delivered_not_mem_published

theorem onceFor_publish {call : Nat} {id : MessageId} (honce : OnceFor H call id net) (actor : ι)
    (ids : Nat → MessageId) (topic data : Bytes) :
    OnceFor H call id (net.step H (.publish actor ids topic data)) := by
  have hne : net.calls ≠ call := Nat.ne_of_gt honce.call_lt
  have hother : ∀ packet ∈ (net.publish H actor ids topic data).packets,
      packet.trace.call = call → packet ∈ net.packets := by
    intro packet hpacket hcall
    rcases mem_packets_publish H hpacket with hold | ⟨htrace, -⟩
    · exact hold
    · rw [htrace] at hcall
      exact absurd hcall hne
  refine ⟨Nat.lt_succ_of_lt honce.call_lt, ?_, ?_, ?_⟩
  · intro packet hpacket hcall
    exact honce.names packet (hother packet hpacket hcall) hcall
  · intro node
    rw [step, count_delivered_publish, if_neg (fun hboth => hne hboth.2)]
    exact honce.once node
  · rintro node hmem ⟨packet, hpacket, hcall⟩
    apply contains_seen_step H net
    refine honce.seen node ?_ ⟨packet, hother packet hpacket hcall, hcall⟩
    rcases delivered_mem_log_act delivered_not_mem_published hmem with hold | ⟨-, heq⟩
    · exact hold
    · exact absurd heq.symm hne

theorem onceFor_receive {call : Nat} {id : MessageId} (honce : OnceFor H call id net) (actor : ι)
    (index : Nat) :
    OnceFor H call id (net.step H (.receive actor index)) := by
  rcases receive_cases H net actor index with hsame | ⟨source, hsource, msg, hmsg, hunseen, hstep⟩
  · rw [step, hsame]
    exact honce
  rw [step, hstep]
  have hmono : ∀ node, (net.nodes node).seen.contains H id.key = true →
      ((net.process H actor source.trace msg).nodes node).seen.contains H id.key = true := by
    intro node hkey
    rw [← hstep]
    exact contains_seen_step H net (.receive actor index) hkey
  have hnames : source.trace.call = call → msg.id = id := fun hcall =>
    honce.names source hsource hcall msg hmsg
  refine ⟨honce.call_lt, ?_, ?_, ?_⟩
  · intro packet hpacket hcall onward honward
    rcases mem_packets_process H hunseen hpacket with hold | ⟨htrace, target, hsend⟩
    · exact honce.names packet hold hcall onward honward
    · rw [htrace] at hcall
      rw [(Quasar.carries_forward H hsend onward honward).1]
      exact hnames hcall
  · intro node
    rw [process_eq H hunseen, count_delivered_act node call (by simp)]
    split_ifs with hboth
    · obtain ⟨rfl, hcall⟩ := hboth
      -- a delivery before this one would have left the id in the filter
      have hfirst : .delivered actor call ∉ net.log := by
        intro hmem
        have hseen := honce.seen actor hmem ⟨source, hsource, hcall⟩
        rw [← hnames hcall, hunseen] at hseen
        exact Bool.false_ne_true hseen
      rw [List.count_eq_zero_of_not_mem hfirst, Nat.zero_add]
      exact Quasar.countP_isCallback_forward_le H (net.nodes actor) msg
    · exact honce.once node
  · rintro node hmem ⟨packet, hpacket, hcall⟩
    rcases delivered_mem_log_act (by simp) hmem with hold | ⟨rfl, heq⟩
    · refine hmono node (honce.seen node hold ?_)
      rcases mem_packets_process H hunseen hpacket with hin | ⟨htrace, -⟩
      · exact ⟨packet, hin, hcall⟩
      · rw [htrace] at hcall
        exact ⟨source, hsource, hcall⟩
    · rw [← hnames heq.symm, process_eq H hunseen]
      simpa [act] using
        Quasar.contains_seen_markSeen_of_mem H (net.nodes node) (List.mem_singleton_self msg.id)

theorem onceFor_step {call : Nat} {id : MessageId} (net : Network ι) (label : Label ι)
    (honce : OnceFor H call id net) : OnceFor H call id (net.step H label) := by
  cases label with
  | publish actor ids topic data => exact onceFor_publish H honce actor ids topic data
  | receive actor index => exact onceFor_receive H honce actor index
  | perform actor operation =>
      refine ⟨honce.call_lt, honce.names, honce.once, ?_⟩
      intro node hmem hpacket
      exact contains_seen_step H net (.perform actor operation) (honce.seen node hmem hpacket)

theorem onceFor_of_publishedIds (hbelow : CallsBelow net) {actor : ι} {ids : Nat → MessageId}
    {topic : Bytes} {id : MessageId}
    (hids : ∀ drawn ∈ (net.nodes actor).publishedIds ids topic, drawn = id) (data : Bytes) :
    OnceFor H net.calls id (net.step H (.publish actor ids topic data)) := by
  have hnew : ∀ packet ∈ (net.publish H actor ids topic data).packets,
      packet.trace.call = net.calls →
      ∃ target, .send target packet.bytes ∈ ((net.nodes actor).publish H ids topic data).2 := by
    intro packet hpacket hcall
    rcases mem_packets_publish H hpacket with hold | ⟨-, hsend⟩
    · exact absurd hcall (Nat.ne_of_lt (hbelow.packets packet hold))
    · exact hsend
  have hfresh : ∀ node, .delivered node net.calls ∉ net.log := fun node hmem =>
    Nat.lt_irrefl _ (hbelow.log node _ hmem)
  refine ⟨Nat.lt_succ_self _, ?_, ?_, ?_⟩
  · intro packet hpacket hcall msg hmsg
    obtain ⟨target, hsend⟩ := hnew packet hpacket hcall
    obtain ⟨drawn, hdrawn, hcarries⟩ := Quasar.carries_publish H hsend
    rw [(hcarries msg hmsg).1]
    exact hids drawn hdrawn
  · intro node
    rw [step, count_delivered_publish, List.count_eq_zero_of_not_mem (hfresh node), Nat.zero_add]
    split_ifs
    · exact Quasar.countP_isCallback_publish_le H (net.nodes actor) ids topic data
    · exact Nat.zero_le _
  · rintro node hmem ⟨packet, hpacket, hcall⟩
    obtain ⟨target, hsend⟩ := hnew packet hpacket hcall
    obtain ⟨drawn, hdrawn, -⟩ := Quasar.carries_publish H hsend
    rcases delivered_mem_log_act delivered_not_mem_published hmem with hold | ⟨rfl, -⟩
    · exact absurd hold (hfresh node)
    · rw [← hids drawn hdrawn]
      simpa [step, publish, act, Quasar.publish] using
        Quasar.contains_seen_markSeen_of_mem H (net.nodes node) hdrawn

theorem eq_of_mem_publishedIds {quasar : Quasar} {topic : Bytes} (ids : Nat → MessageId)
    (hsingle : quasar.isLocallySubscribed topic = false ∨ quasar.connectedPeers.length ≤ 1) :
    ∀ drawn ∈ quasar.publishedIds ids topic, drawn = ids 0 := by
  intro drawn hdrawn
  unfold Quasar.publishedIds at hdrawn
  split_ifs at hdrawn with hsub
  · obtain ⟨i, hi, rfl⟩ := List.mem_map.mp hdrawn
    have hlength := hsingle.resolve_left (by simp [hsub])
    have hzero : i = 0 := by
      have hlt := List.mem_range.mp hi
      omega
    rw [hzero]
  · exact List.mem_singleton.mp hdrawn

/-- **Delivery at most once.** A call of `publish` by a node that is not subscribed to the topic,
or has at most one connected peer, makes the callback of each node run at most once, in every run
around it. -/
theorem delivered_at_most_once (nodes : ι → Quasar) (before after : List (Label ι))
    (publisher : ι) (ids : Nat → MessageId) (topic data : Bytes)
    (hsingle :
      ((Runs.run (step H) (start nodes) before).nodes publisher).isLocallySubscribed topic = false ∨
      ((Runs.run (step H) (start nodes) before).nodes publisher).connectedPeers.length ≤ 1)
    (node : ι) :
    (Runs.run (step H) (start nodes)
        (before ++ .publish publisher ids topic data :: after)).log.count
      (.delivered node (Runs.run (step H) (start nodes) before).calls) ≤ 1 := by
  rw [Runs.run_append, Runs.run_cons]
  have hpublished := onceFor_of_publishedIds H (callsBelow_run H nodes before)
    (eq_of_mem_publishedIds ids hsingle) data
  exact (Runs.invariant (step H) (OnceFor H _ (ids 0)) (onceFor_step H) hpublished).once node

/-- A publisher with two peers, of which the first is connected to the second. -/
def triangle (publisher : Quasar → Quasar) : Fin 3 → Quasar
  | 0 => publisher (loopbackNode 5 9000 [9001, 9002])
  | 1 => (loopbackNode 5 9001 [9002]).subscribe byteHash [116] 300
  | 2 => (loopbackNode 5 9002 []).subscribe byteHash [116] 300

def triangleRun : List (Label (Fin 3)) :=
  [.receive 1 0, .receive 2 1, .receive 2 2]

def triangleIds (i : Nat) : MessageId :=
  ⟨5, 6, UInt64.ofNat i⟩

theorem delivered_at_most_once_triangle :
    (triangle id 0).isLocallySubscribed [116] = false ∧
      (Runs.run (step byteHash) (start (triangle id))
        (.publish 0 triangleIds [116] [1] :: triangleRun)).log.count (.delivered 2 0) ≤ 1 :=
  ⟨by decide, delivered_at_most_once byteHash (triangle id) [] triangleRun 0 triangleIds [116] [1]
    (Or.inl (by decide)) 2⟩

/-- A subscribed publisher gives its two peers different ids, and the last node delivers both
copies. -/
theorem delivered_twice_from_subscribed_publisher :
    (Runs.run (step byteHash)
        (start (triangle fun quasar => quasar.subscribe byteHash [116] 300))
        (.publish 0 triangleIds [116] [1] :: triangleRun)).log.count (.delivered 2 0) = 2 := by
  decide +kernel

end Poseidon.Network
