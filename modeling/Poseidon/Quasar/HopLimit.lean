import Poseidon.Quasar.Network

/-!
# The hop limit

Along a chain of transmissions every packet's depth and remaining hops add up to the limit set by
the publisher, plus one for every subscriber that re-broadcast the message on the way: a
re-broadcast leaves the hops as they are. A message is therefore transmitted at most `max_hops + 1`
times along a chain on which no subscriber passes it on, and more often where one does.
-/

namespace Poseidon.Network

variable {ι : Type} [DecidableEq ι] (H : HashFn)

/-- The transmissions so far and the hops left balance the limit and the re-broadcasts. -/
structure Balanced (packet : Packet) : Prop where
  depth_le : packet.trace.depth ≤ packet.trace.limit + 1 + packet.trace.rebroadcasts
  depth_add : ∀ msg, RouteMessage.deserialize packet.bytes = some msg →
    packet.trace.depth + msg.hopsRemaining.toNat =
      packet.trace.limit + 1 + packet.trace.rebroadcasts

theorem toNat_sub_one {hops : UInt32} (hhops : hops ≠ 0) : (hops - 1).toNat + 1 = hops.toNat := by
  have hne : hops.toNat ≠ 0 := by
    intro hzero
    exact hhops (UInt32.toNat_inj.mp hzero)
  have hle : (1 : UInt32) ≤ hops := by
    rw [UInt32.le_iff_toNat_le]
    exact Nat.one_le_iff_ne_zero.mpr hne
  rw [UInt32.toNat_sub_of_le _ _ hle]
  exact Nat.sub_add_cancel (Nat.one_le_iff_ne_zero.mpr hne)

theorem balanced_forward {quasar : Quasar} {packet onward : Packet} {received : RouteMessage}
    {target : Option MeridianNode} (hbalanced : Balanced packet)
    (hreceived : RouteMessage.deserialize packet.bytes = some received)
    (htrace : onward.trace = packet.trace.next (quasar.isLocallySubscribed received.topic))
    (hsend : .send target onward.bytes ∈ quasar.forward H received) : Balanced onward := by
  have hadd := hbalanced.depth_add received hreceived
  have hcarries := Quasar.carries_forward H hsend
  have hhops := Quasar.subscribed_or_hops_of_send_mem_forward H hsend
  unfold Quasar.onwardHops at hcarries
  cases hsub : quasar.isLocallySubscribed received.topic with
  | true =>
      rw [hsub] at htrace
      simp only [hsub, if_true] at hcarries
      refine ⟨?_, ?_⟩
      · simp only [htrace, Trace.next, if_true]
        omega
      · intro msg hmsg
        simp only [htrace, Trace.next, if_true, (hcarries msg hmsg).2]
        omega
  | false =>
      have hsucc := toNat_sub_one (hhops.resolve_left (by simp [hsub]))
      rw [hsub] at htrace
      simp only [hsub, Bool.false_eq_true, if_false] at hcarries
      refine ⟨?_, ?_⟩
      · simp only [htrace, Trace.next, Bool.false_eq_true, if_false]
        omega
      · intro msg hmsg
        simp only [htrace, Trace.next, Bool.false_eq_true, if_false, (hcarries msg hmsg).2]
        omega

theorem balanced_publish {quasar : Quasar} {ids : Nat → MessageId} {topic data : Bytes}
    {packet : Packet} {target : Option MeridianNode} {call : Nat}
    (htrace : packet.trace = ⟨call, quasar.maxHops.toNat, 1, 0⟩)
    (hsend : .send target packet.bytes ∈ (quasar.publish H ids topic data).2) :
    Balanced packet := by
  obtain ⟨id, -, hcarries⟩ := Quasar.carries_publish H hsend
  refine ⟨?_, ?_⟩
  · simp only [htrace]
    omega
  · intro msg hmsg
    simp only [htrace, (hcarries msg hmsg).2]
    omega

theorem balanced_step (net : Network ι) (label : Label ι)
    (hbalanced : ∀ packet ∈ net.packets, Balanced packet) :
    ∀ packet ∈ (net.step H label).packets, Balanced packet := by
  cases label with
  | publish actor ids topic data =>
      intro packet hpacket
      rcases mem_packets_publish H hpacket with hold | ⟨htrace, target, hsend⟩
      · exact hbalanced packet hold
      · exact balanced_publish H htrace hsend
  | receive actor index =>
      obtain hsame | ⟨source, hsource, msg, hmsg, hunseen, hstep⟩ :=
        receive_cases H net actor index
      · rw [step, hsame]
        exact hbalanced
      · intro packet hpacket
        rw [step, hstep] at hpacket
        rcases mem_packets_process H hunseen hpacket with hold | ⟨htrace, target, hsend⟩
        · exact hbalanced packet hold
        · exact balanced_forward H (hbalanced source hsource) hmsg htrace hsend
  | perform actor operation => exact hbalanced

/-- In every run the depth of a packet exceeds the hop limit by at most one and the number of
re-broadcasts behind it. -/
theorem balanced_run (nodes : ι → Quasar) (labels : List (Label ι)) :
    ∀ packet ∈ (Runs.run (step H) (start nodes) labels).packets, Balanced packet :=
  Runs.invariant (step H) (fun net => ∀ packet ∈ net.packets, Balanced packet) (balanced_step H)
    (fun _ hpacket => absurd hpacket List.not_mem_nil)

/-- In this step no subscriber passes on a packet that stems from the given call. -/
def quietFor (call : Nat) (net : Network ι) : Label ι → Bool
  | .receive node index =>
      match net.packets[index]? with
      | none => true
      | some packet =>
          match RouteMessage.deserialize packet.bytes with
          | none => true
          | some msg => packet.trace.call != call || !(net.nodes node).accepts H msg ||
              !(net.nodes node).isLocallySubscribed msg.topic
  | _ => true

theorem rebroadcasts_step {call : Nat} (net : Network ι) (label : Label ι)
    (hzero : ∀ packet ∈ net.packets, packet.trace.call = call → packet.trace.rebroadcasts = 0)
    (hquiet : quietFor H call net label = true) :
    ∀ packet ∈ (net.step H label).packets,
      packet.trace.call = call → packet.trace.rebroadcasts = 0 := by
  cases label with
  | publish actor ids topic data =>
      intro packet hpacket hcall
      rcases mem_packets_publish H hpacket with hold | ⟨htrace, -⟩
      · exact hzero packet hold hcall
      · rw [htrace]
  | receive actor index =>
      rw [step]
      cases hpacket : net.packets[index]? with
      | none => simpa only [receive, hpacket] using hzero
      | some source =>
          cases hmsg : RouteMessage.deserialize source.bytes with
          | none => simpa only [receive, hpacket, hmsg] using hzero
          | some msg =>
              simp only [receive, hpacket, hmsg]
              split_ifs with haccepts
              · have hunseen : (net.nodes actor).seen.contains H msg.id.key = false := by
                  simpa [Quasar.accepts] using haccepts
                intro packet hmem hcall
                rcases mem_packets_process H hunseen hmem with hold | ⟨htrace, -⟩
                · exact hzero packet hold hcall
                · have hsource : source.trace.call = call := by
                    simpa [htrace, Trace.next] using hcall
                  have hsub : (net.nodes actor).isLocallySubscribed msg.topic = false := by
                    simpa [quietFor, hpacket, hmsg, hsource, haccepts] using hquiet
                  rw [htrace, hsub]
                  exact hzero source (List.mem_of_getElem? hpacket) hsource
              · exact hzero
  | perform actor operation => exact hzero

/-- **Hop limit.** A message is transmitted at most `max_hops + 1` times along every chain, in
every run in which no subscriber passes it on. -/
theorem depth_le_limit_of_quietFor (nodes : ι → Quasar) (labels : List (Label ι)) (call : Nat)
    (hquiet : Runs.Meets (step H) (fun net label => quietFor H call net label = true)
      (start nodes) labels) :
    ∀ packet ∈ (Runs.run (step H) (start nodes) labels).packets,
      packet.trace.call = call → packet.trace.depth ≤ packet.trace.limit + 1 := by
  have hzero := Runs.invariant_of_meets (step H)
    (fun net => ∀ packet ∈ net.packets, packet.trace.call = call → packet.trace.rebroadcasts = 0)
    (fun net label => rebroadcasts_step H net label)
    (fun _ hpacket => absurd hpacket List.not_mem_nil) hquiet
  intro packet hpacket hcall
  have hdepth := (balanced_run H nodes labels packet hpacket).depth_le
  rw [hzero packet hpacket hcall] at hdepth
  exact hdepth

def line (subscriber : Quasar → Quasar) : Fin 4 → Quasar
  | 0 => loopbackNode 1 9000 [9001]
  | 1 => subscriber (loopbackNode 1 9001 [9002])
  | 2 => loopbackNode 1 9002 [9003]
  | 3 => loopbackNode 1 9003 []

def news : Bytes := [110, 101, 119, 115]

def lineRun : List (Label (Fin 4)) :=
  [.publish 0 (fun i => ⟨5, 6, UInt64.ofNat i⟩) news [1], .receive 1 0, .receive 2 1]

theorem depth_le_limit_of_quietFor_line :
    (Runs.run (step byteHash) (start (line id)) lineRun).packets.length = 2 ∧
      ∀ packet ∈ (Runs.run (step byteHash) (start (line id)) lineRun).packets,
        packet.trace.call = 0 → packet.trace.depth ≤ packet.trace.limit + 1 :=
  ⟨by decide +kernel,
    depth_le_limit_of_quietFor byteHash (line id) lineRun 0 (by decide +kernel)⟩

/-- With the second node subscribed, a third transmission follows under a limit of one. -/
theorem depth_exceeds_limit_behind_subscriber :
    ¬∀ packet ∈ (Runs.run (step byteHash)
        (start (line fun quasar => quasar.subscribe byteHash news 300)) lineRun).packets,
      packet.trace.depth ≤ packet.trace.limit + 1 := by
  decide +kernel

end Poseidon.Network
