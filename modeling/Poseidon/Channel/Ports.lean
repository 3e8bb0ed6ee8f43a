import Poseidon.Channel.Flooding
import Poseidon.Channel.Pending

/-!
# The ports of channels

A manager gives its channels the ports of a range, one after another, from a 16-bit counter, and
stops when the counter has passed the end of the range. Behind the end 65535 there is no number to
pass it with: the counter starts again at zero, and the ports below the range, or those already
given, are assigned.
-/

namespace Poseidon

def Channel.port {crypto : Crypto} (channel : Channel crypto) : Option UInt16 :=
  channel.protocol.map (·.listenPort)

namespace Manager

variable {crypto : Crypto} (H : HashFn)

def born (manager : Manager crypto) : ManagerStep → Option (Channel crypto)
  | .operation (.createChannel key config) => (manager.createChannel key config).1
  | .operation (.joinChannel key topic now) => (manager.joinChannel H key topic now).1
  | _ => none

/-- What a step does to the counter, with the port it assigns. -/
inductive Allots (before after : Manager crypto) : Option UInt16 → Prop where
  | idle (hnext : after.nextPort = before.nextPort) : Allots before after none
  | failed (hroom : before.nextPort ≤ before.portRangeEnd)
      (hnext : after.nextPort = before.nextPort + 1) : Allots before after none
  | assigned (hroom : before.nextPort ≤ before.portRangeEnd)
      (hnext : after.nextPort = before.nextPort + 1) :
      Allots before after (some before.nextPort)

variable (manager : Manager crypto)

theorem allots_allocatePort : Allots manager manager.allocatePort.2 none := by
  unfold allocatePort
  split_ifs with hpast
  · exact .idle rfl
  · exact .failed (UInt16.not_lt.mp hpast) rfl

theorem allots_of_allocated {manager after : Manager crypto} (hport : manager.allocatePort.1 ≠ 0)
    (hnext : after.nextPort = manager.allocatePort.2.nextPort) :
    Allots manager after (some manager.allocatePort.1) := by
  unfold allocatePort at hport hnext ⊢
  split_ifs at hport hnext ⊢ with hpast
  · exact absurd rfl hport
  · exact .assigned (UInt16.not_lt.mp hpast) hnext

theorem port_create {address : Nat} {key : Option Bytes} {port : UInt16} {config : ChannelConfig}
    {channel : Channel crypto}
    (hcreate : Channel.create crypto address key port config = some channel) :
    channel.port = some port := by
  unfold Channel.create at hcreate
  cases key with
  | none => contradiction
  | some publicKey =>
      dsimp only at hcreate
      split at hcreate
      · contradiction
      · obtain rfl := Option.some.inj hcreate
        rfl

theorem portRangeEnd_allocatePort :
    manager.allocatePort.2.portRangeEnd = manager.portRangeEnd := by
  obtain ⟨nextPort, hallocated⟩ := manager.allocatePort_frame
  rw [hallocated]

theorem allots_createChannel (key : Option Bytes) (config : ChannelConfig) :
    (manager.createChannel key config).2.portRangeEnd = manager.portRangeEnd ∧
      Allots manager (manager.createChannel key config).2
        ((manager.createChannel key config).1.bind Channel.port) := by
  have hend := manager.portRangeEnd_allocatePort
  obtain heq | heq | ⟨channel, hport, hcreate, heq⟩ := manager.createChannel_cases key config
  · rw [heq]
    exact ⟨rfl, .idle rfl⟩
  · rw [heq]
    exact ⟨hend, manager.allots_allocatePort⟩
  · rw [heq, Option.bind_some, port_create hcreate]
    exact ⟨hend, allots_of_allocated hport rfl⟩

theorem allots_joinChannel (key : Option Bytes) (topic : Bytes) (now : ClockReading) :
    (manager.joinChannel H key topic now).2.1.portRangeEnd = manager.portRangeEnd ∧
      Allots manager (manager.joinChannel H key topic now).2.1
        ((manager.joinChannel H key topic now).1.bind Channel.port) := by
  have hend := manager.portRangeEnd_allocatePort
  obtain heq | heq | ⟨created, hport, hcreate, heq⟩ := manager.joinChannel_cases H key topic now
  · rw [heq]
    exact ⟨rfl, .idle rfl⟩
  · rw [heq]
    exact ⟨hend, manager.allots_allocatePort⟩
  · rw [heq, Option.bind_some]
    refine ⟨hend, ?_⟩
    change Allots manager _ created.port
    rw [port_create hcreate]
    exact allots_of_allocated hport rfl

theorem allots_advance (step : ManagerStep) :
    (manager.advance H step).portRangeEnd = manager.portRangeEnd ∧
      Allots manager (manager.advance H step) ((manager.born H step).bind Channel.port) := by
  cases step with
  | operation operation =>
      cases operation with
      | createChannel key config => exact manager.allots_createChannel key config
      | joinChannel key topic now => exact manager.allots_joinChannel H key topic now
      | destroyChannel hash =>
          obtain ⟨channels, hdestroyed⟩ := manager.destroyChannel_frame hash
          unfold advance perform
          dsimp only
          rw [hdestroyed]
          exact ⟨rfl, .idle rfl⟩
      | subscribeDial topic ttl => exact ⟨rfl, .idle rfl⟩
      | unsubscribeDial topic => exact ⟨rfl, .idle rfl⟩
      | tickAll now => exact ⟨rfl, .idle rfl⟩
  | packet data now =>
      obtain ⟨channels, pending, tombstones, hafter⟩ := manager.intercept_frame H data now
      unfold advance
      dsimp only
      rw [hafter]
      exact ⟨rfl, .idle rfl⟩

end Manager

/-! ### Runs -/

structure PortLog (crypto : Crypto) where
  manager : Manager crypto
  assigned : List UInt16

namespace PortLog

variable {crypto : Crypto} (H : HashFn)

def step (log : PortLog crypto) (label : ManagerStep) : PortLog crypto where
  manager := log.manager.advance H label
  assigned := log.assigned ++ ((log.manager.born H label).bind Channel.port).toList

/-- Every port is one of the range, and none was assigned twice. -/
def InRange (portRangeStart portRangeEnd : UInt16) (log : PortLog crypto) : Prop :=
  (∀ port ∈ log.assigned, portRangeStart ≤ port ∧ port ≤ portRangeEnd) ∧ log.assigned.Nodup

instance (portRangeStart portRangeEnd : UInt16) (log : PortLog crypto) :
    Decidable (log.InRange portRangeStart portRangeEnd) :=
  inferInstanceAs (Decidable (_ ∧ _))

/-- A port is only asked for while the counter has not started again below the range. -/
def Unwrapped (portRangeStart : UInt16) (log : PortLog crypto) : ManagerStep → Prop
  | .operation (.createChannel _ _) | .operation (.joinChannel _ _ _) =>
      portRangeStart ≤ log.manager.nextPort
  | _ => True

/-- As long as the counter has not started again, it is above every port assigned. -/
structure Climbing (portRangeStart portRangeEnd : UInt16) (log : PortLog crypto) : Prop where
  range : log.manager.portRangeEnd = portRangeEnd
  inRange : log.InRange portRangeStart portRangeEnd
  below : portRangeStart ≤ log.manager.nextPort →
    ∀ port ∈ log.assigned, port < log.manager.nextPort

theorem lt_add_one_of_le {first port : UInt16} (hfirst : 1 ≤ first) (hport : first ≤ port)
    (hnext : first ≤ port + 1) : port < port + 1 := by
  rw [UInt16.le_iff_toNat_le] at hfirst hport hnext
  rw [UInt16.lt_iff_toNat_lt]
  rw [UInt16.toNat_add] at hnext ⊢
  have hone : (1 : UInt16).toNat = 1 := rfl
  have hsize := port.toNat_lt
  omega

theorem lt_succ_of_mem_append {first next : UInt16} {assigned : List UInt16} (hfirst : 1 ≤ first)
    (hle : first ≤ next) (hbelow : ∀ port ∈ assigned, port < next) (hagain : first ≤ next + 1) :
    ∀ port ∈ assigned ++ [next], port < next + 1 := by
  have hgrows := lt_add_one_of_le hfirst hle hagain
  intro port hport
  obtain hold | hnew := List.mem_append.mp hport
  · exact UInt16.lt_trans (hbelow port hold) hgrows
  · rw [List.mem_singleton.mp hnew]
    exact hgrows

variable {log : PortLog crypto} {owner manager : Manager crypto} {count : Nat}
  {portRangeStart portRangeEnd : UInt16}

theorem le_nextPort_or_idle {label : ManagerStep}
    (hunwrapped : log.Unwrapped portRangeStart label) :
    portRangeStart ≤ log.manager.nextPort ∨
      ((log.step H label).manager.nextPort = log.manager.nextPort ∧
        (log.step H label).assigned = log.assigned) := by
  have hidle : (log.manager.born H label).bind Channel.port = none →
      (log.step H label).assigned = log.assigned := by
    intro hnone
    rw [step, hnone]
    exact List.append_nil _
  cases label with
  | operation operation =>
      cases operation with
      | createChannel key config => exact .inl hunwrapped
      | joinChannel key topic now => exact .inl hunwrapped
      | destroyChannel hash =>
          obtain ⟨channels, hdestroyed⟩ := log.manager.destroyChannel_frame hash
          refine .inr ⟨?_, hidle rfl⟩
          change (log.manager.destroyChannel hash).2.nextPort = _
          rw [hdestroyed]
      | subscribeDial topic ttl => exact .inr ⟨rfl, hidle rfl⟩
      | unsubscribeDial topic => exact .inr ⟨rfl, hidle rfl⟩
      | tickAll now => exact .inr ⟨rfl, hidle rfl⟩
  | packet data now =>
      obtain ⟨channels, pending, tombstones, hafter⟩ := log.manager.intercept_frame H data now
      have hnext : (log.manager.intercept H data now).2.1.nextPort = log.manager.nextPort := by
        rw [hafter]
      exact .inr ⟨hnext, hidle rfl⟩

theorem Climbing.step (hstart : 1 ≤ portRangeStart) {label : ManagerStep}
    (hclimbing : log.Climbing portRangeStart portRangeEnd)
    (hunwrapped : log.Unwrapped portRangeStart label) :
    (log.step H label).Climbing portRangeStart portRangeEnd := by
  obtain ⟨hrange, ⟨hin, hnodup⟩, hbelow⟩ := hclimbing
  obtain ⟨hend, hallots⟩ := log.manager.allots_advance H label
  have hrange' : (log.step H label).manager.portRangeEnd = portRangeEnd := hend.trans hrange
  obtain hle | ⟨hnext, hassigned⟩ := le_nextPort_or_idle H hunwrapped
  · have hbefore := hbelow hle
    have hassigned : (log.step H label).assigned =
        log.assigned ++ ((log.manager.born H label).bind Channel.port).toList := rfl
    have hnextEq : (log.step H label).manager.nextPort = (log.manager.advance H label).nextPort :=
      rfl
    revert hassigned hallots
    generalize (log.manager.born H label).bind Channel.port = port
    rintro (hnext | ⟨hroom, hnext⟩ | ⟨hroom, hnext⟩) hassigned
    · rw [Option.toList_none, List.append_nil] at hassigned
      refine ⟨hrange', ⟨hassigned ▸ hin, hassigned ▸ hnodup⟩, fun _ => ?_⟩
      rw [hassigned, hnextEq, hnext]
      exact hbefore
    · rw [Option.toList_none, List.append_nil] at hassigned
      refine ⟨hrange', ⟨hassigned ▸ hin, hassigned ▸ hnodup⟩, ?_⟩
      rw [hassigned, hnextEq, hnext]
      exact fun hagain port hport => lt_succ_of_mem_append hstart hle hbefore hagain port
        (List.mem_append_left _ hport)
    · rw [Option.toList_some] at hassigned
      refine ⟨hrange', ⟨?_, ?_⟩, ?_⟩
      · rw [hassigned]
        intro port hport
        obtain hold | hnew := List.mem_append.mp hport
        · exact hin port hold
        · rw [List.mem_singleton.mp hnew, ← hrange]
          exact ⟨hle, hroom⟩
      · rw [hassigned]
        refine List.nodup_append.mpr ⟨hnodup, List.nodup_singleton _, ?_⟩
        intro port hport other hother heq
        rw [List.mem_singleton.mp hother] at heq
        exact UInt16.lt_irrefl _ (heq ▸ hbefore port hport)
      · rw [hassigned, hnextEq, hnext]
        exact lt_succ_of_mem_append hstart hle hbefore
  · refine ⟨hrange', ⟨hassigned ▸ hin, hassigned ▸ hnodup⟩, ?_⟩
    rw [hnext, hassigned]
    exact hbelow

/-- Where the counter can pass the end of the range, it never starts again. -/
theorem le_nextPort_step (hlast : portRangeEnd < 65535) (label : ManagerStep)
    (hrange : log.manager.portRangeEnd = portRangeEnd)
    (hle : portRangeStart ≤ log.manager.nextPort) :
    portRangeStart ≤ (log.step H label).manager.nextPort := by
  obtain ⟨-, hallots⟩ := log.manager.allots_advance H label
  have hsucc : log.manager.nextPort ≤ log.manager.portRangeEnd →
      portRangeStart ≤ log.manager.nextPort + 1 := by
    intro hroom
    rw [hrange, UInt16.le_iff_toNat_le] at hroom
    rw [UInt16.le_iff_toNat_le] at hle ⊢
    rw [UInt16.lt_iff_toNat_lt] at hlast
    have hlimit : (65535 : UInt16).toNat = 65535 := rfl
    have hone : (1 : UInt16).toNat = 1 := rfl
    rw [UInt16.toNat_add]
    omega
  change _ ≤ (log.manager.advance H label).nextPort
  revert hallots
  generalize (log.manager.born H label).bind Channel.port = port
  rintro (hnext | ⟨hroom, hnext⟩ | ⟨hroom, hnext⟩)
  · exact hnext ▸ hle
  · exact hnext ▸ hsucc hroom
  · exact hnext ▸ hsucc hroom

/-! ### A range that ends with the last port -/

def lap (manager : Manager crypto) : List ManagerStep :=
  [.operation (.createChannel (some manager.dial.publicKey) .defaults),
    .operation (.destroyChannel manager.dial.nodeId.hash)]

/-- A manager without channels, with the given count and the last port as the end of its range. -/
structure Empty (owner : Manager crypto) (count : Nat) (log : PortLog crypto) : Prop where
  channels : log.manager.channels = []
  nextPort : log.manager.nextPort = UInt16.ofNat count
  range : log.manager.portRangeEnd = 65535
  dial : log.manager.dial = owner.dial

theorem exists_create {key : Bytes} {id : NodeId} (hid : NodeId.fromPublicKey crypto key = some id)
    (address : Nat) (port : UInt16) (config : ChannelConfig) :
    ∃ channel, Channel.create crypto address (some key) port config = some channel ∧
      channel.nodeId = id := by
  unfold Channel.create
  dsimp only
  split
  · rename_i hnone
    rw [hid] at hnone
    contradiction
  · rename_i nodeId hsome
    exact ⟨_, rfl, Option.some.inj (hsome.symm.trans hid)⟩

theorem destroyChannel_single {channel : Channel crypto}
    (hchannels : manager.channels = [channel]) :
    (manager.destroyChannel channel.nodeId.hash).2 = { manager with channels := [] } := by
  unfold Manager.destroyChannel
  rw [hchannels]
  simp [swapRemove]

section

variable (hempty : log.Empty owner count)

include hempty

theorem Empty.not_full : ¬log.manager.channels.length ≥ Manager.maxChannels := by
  rw [hempty.channels]
  exact Nat.not_succ_le_zero _

theorem Empty.allocatePort_eq :
    log.manager.allocatePort =
      (UInt16.ofNat count, { log.manager with nextPort := UInt16.ofNat (count + 1) }) := by
  have hroom : ¬log.manager.nextPort > log.manager.portRangeEnd := by
    rw [hempty.range, gt_iff_lt, UInt16.not_lt, UInt16.le_iff_toNat_le]
    exact Nat.le_of_lt_succ log.manager.nextPort.toNat_lt
  rw [Manager.allocatePort, if_neg hroom, hempty.nextPort, UInt16.ofNat_add]
  rfl

theorem Empty.created (hzero : UInt16.ofNat count ≠ 0) :
    ∃ channel, channel.nodeId = owner.dial.nodeId ∧ channel.port = some (UInt16.ofNat count) ∧
      log.manager.createChannel (some owner.dial.publicKey) .defaults =
        (some channel,
          { log.manager with nextPort := UInt16.ofNat (count + 1) }.addChannel channel) := by
  obtain ⟨channel, hcreate, hid⟩ := exists_create owner.dial.nodeId_eq log.manager.nextAddress
    (UInt16.ofNat count) .defaults
  refine ⟨channel, hid, Manager.port_create hcreate, ?_⟩
  rw [Manager.createChannel, if_neg hempty.not_full, hempty.allocatePort_eq]
  dsimp only
  rw [if_neg hzero, hcreate]

theorem Empty.refused (hzero : UInt16.ofNat count = 0) :
    log.manager.createChannel (some owner.dial.publicKey) .defaults =
      (none, { log.manager with nextPort := UInt16.ofNat (count + 1) }) := by
  rw [Manager.createChannel, if_neg hempty.not_full, hempty.allocatePort_eq]
  exact if_pos hzero

theorem Empty.lap :
    (Runs.run (step H) log (lap owner)).Empty owner (count + 1) ∧
      (Runs.run (step H) log (lap owner)).assigned =
        log.assigned ++ if UInt16.ofNat count = 0 then [] else [UInt16.ofNat count] := by
  let created := log.manager.createChannel (some owner.dial.publicKey) .defaults
  have hrun : Runs.run (step H) log (PortLog.lap owner) =
      ⟨(created.2.destroyChannel owner.dial.nodeId.hash).2,
        (log.assigned ++ (created.1.bind Channel.port).toList) ++ []⟩ := rfl
  rw [hrun]
  by_cases hzero : UInt16.ofNat count = 0
  · have hcreated : created = _ := hempty.refused hzero
    rw [hcreated, if_pos hzero]
    have hnothing : ({ log.manager with
        nextPort := UInt16.ofNat (count + 1) }.destroyChannel owner.dial.nodeId.hash).2 =
          { log.manager with nextPort := UInt16.ofNat (count + 1) } := by
      unfold Manager.destroyChannel
      dsimp only
      rw [hempty.channels]
      rfl
    refine ⟨⟨?_, ?_, ?_, ?_⟩, List.append_nil _⟩
    all_goals
      dsimp only
      rw [hnothing]
    · exact hempty.channels
    · exact hempty.range
    · exact hempty.dial
  · obtain ⟨channel, hid, hport, hcreated⟩ := hempty.created hzero
    have hcreated : created = _ := hcreated
    rw [hcreated, if_neg hzero, ← hid, Option.bind_some, hport]
    let added := { log.manager with nextPort := UInt16.ofNat (count + 1) }.addChannel channel
    have hsingle : (added.destroyChannel channel.nodeId.hash).2 = { added with channels := [] } :=
      destroyChannel_single (congrArg (· ++ [channel]) hempty.channels)
    refine ⟨⟨?_, ?_, ?_, ?_⟩, List.append_nil _⟩
    all_goals
      dsimp only
      rw [hsingle]
    · rfl
    · exact hempty.range
    · exact hempty.dial

end

def laps (owner : Manager crypto) (count : Nat) : List ManagerStep :=
  (List.replicate count (lap owner)).flatten

theorem Empty.laps (hempty : log.Empty owner count) (rounds : Nat) :
    (Runs.run (step H) log (laps owner rounds)).Empty owner (count + rounds) ∧
      log.assigned ⊆ (Runs.run (step H) log (laps owner rounds)).assigned := by
  induction rounds generalizing count log with
  | zero => exact ⟨hempty, List.Subset.refl _⟩
  | succ rounds ih =>
      obtain ⟨hnext, hassigned⟩ := hempty.lap H
      obtain ⟨hlast, hsubset⟩ := ih hnext
      have hlaps : PortLog.laps owner (rounds + 1) =
          PortLog.lap owner ++ PortLog.laps owner rounds := by
        rw [PortLog.laps, List.replicate_succ, List.flatten_cons]
        rfl
      rw [hlaps, Runs.run_append, Nat.add_comm rounds 1, ← Nat.add_assoc]
      refine ⟨hlast, fun port hport => hsubset ?_⟩
      rw [hassigned]
      exact List.mem_append_left _ hport

/-- With the last port as the end of the range, a port below the range or an old one comes back
after all ports of the range have been asked for. -/
theorem exists_not_inRange (hstart : 1 ≤ portRangeStart)
    (hempty : Empty manager portRangeStart.toNat ⟨manager, []⟩) :
    ∃ steps, ¬(Runs.run (step H) ⟨manager, []⟩ steps).InRange portRangeStart portRangeEnd := by
  have hone : (1 : UInt16).toNat = 1 := rfl
  rw [UInt16.le_iff_toNat_le, hone] at hstart
  have hsize := portRangeStart.toNat_lt
  have hself : UInt16.ofNat portRangeStart.toNat = portRangeStart := UInt16.ofNat_toNat
  have hne : portRangeStart ≠ 0 := by
    rintro rfl
    exact absurd hstart (by decide)
  -- the first lap, the laps up to the last port, one that gets no port, and one more
  obtain ⟨hfirst, hassigned⟩ := hempty.lap H
  rw [hself, if_neg hne] at hassigned
  obtain ⟨hfull, hsubset⟩ := hfirst.laps H (65535 - portRangeStart.toNat)
  obtain ⟨hagain, hsame⟩ := hfull.lap H
  obtain ⟨-, hlast⟩ := hagain.lap H
  have hcount : portRangeStart.toNat + 1 + (65535 - portRangeStart.toNat) = 65536 := by omega
  rw [hcount, if_pos (by decide), List.append_nil] at hsame
  rw [hcount, if_neg (by decide), hsame] at hlast
  have hold : portRangeStart ∈ (Runs.run (step H) (Runs.run (step H) ⟨manager, []⟩ (lap manager))
      (laps manager (65535 - portRangeStart.toNat))).assigned := by
    apply hsubset
    rw [hassigned]
    exact List.mem_append_right _ (List.mem_singleton.mpr rfl)
  refine ⟨lap manager ++ (laps manager (65535 - portRangeStart.toNat) ++
    (lap manager ++ lap manager)), ?_⟩
  rw [Runs.run_append, Runs.run_append, Runs.run_append]
  rintro ⟨hin, hnodup⟩
  rw [hlast] at hin hnodup
  -- the port one, which is below the range or was the first of it
  have hlow := (hin 1 (List.mem_append_right _ (List.mem_singleton.mpr rfl))).1
  rw [UInt16.le_iff_toNat_le, hone] at hlow
  have hsame : portRangeStart = 1 := UInt16.toNat_inj.mp (by omega)
  exact (List.nodup_append.mp hnodup).2.2 1 (hsame ▸ hold) 1 (List.mem_singleton.mpr rfl) rfl

theorem create_fields {dialKey : Option Bytes} {dialPort : UInt16}
    (hcreate : Manager.create crypto dialKey dialPort portRangeStart portRangeEnd = some manager) :
    manager.channels = [] ∧ manager.nextPort = portRangeStart ∧
      manager.portRangeEnd = portRangeEnd := by
  unfold Manager.create at hcreate
  split_ifs at hcreate
  obtain ⟨dial, -, rfl⟩ := Option.map_eq_some_iff.mp hcreate
  exact ⟨rfl, rfl, rfl⟩

/-- **Ports.** In every run that asks for ports only while the counter has not started again, the
ports of channels are distinct and of the range. All runs have this property exactly if the range
ends before the last port. -/
theorem inRange_iff (dialKey : Option Bytes) (dialPort portRangeStart portRangeEnd : UInt16)
    (hstart : 1 ≤ portRangeStart) (manager : Manager crypto)
    (hcreate : Manager.create crypto dialKey dialPort portRangeStart portRangeEnd =
      some manager) :
    (∀ steps, Runs.Meets (step H) (Unwrapped portRangeStart) ⟨manager, []⟩ steps →
      (Runs.run (step H) ⟨manager, []⟩ steps).InRange portRangeStart portRangeEnd) ∧
    ((∀ steps, (Runs.run (step H) ⟨manager, []⟩ steps).InRange portRangeStart portRangeEnd) ↔
      portRangeEnd < 65535) := by
  obtain ⟨hchannels, hnext, hrange⟩ := create_fields hcreate
  have hclimbing : Climbing portRangeStart portRangeEnd ⟨manager, []⟩ :=
    ⟨hrange, ⟨fun _ hport => absurd hport List.not_mem_nil, List.nodup_nil⟩,
      fun _ _ hport => absurd hport List.not_mem_nil⟩
  have hmeets : ∀ steps, Runs.Meets (step H) (Unwrapped portRangeStart) ⟨manager, []⟩ steps →
      (Runs.run (step H) ⟨manager, []⟩ steps).InRange portRangeStart portRangeEnd := by
    intro steps hmeets
    exact (Runs.invariant_of_meets (step H) (Climbing portRangeStart portRangeEnd)
      (fun log label hclimbing hunwrapped => hclimbing.step H hstart hunwrapped) hclimbing
      hmeets).inRange
  refine ⟨hmeets, ?_, fun hlast steps => hmeets steps ?_⟩
  · intro hall
    by_contra hlast
    have hend : portRangeEnd = 65535 := by
      rw [UInt16.not_lt, UInt16.le_iff_toNat_le] at hlast
      have hsize := portRangeEnd.toNat_lt
      have hlimit : (65535 : UInt16).toNat = 65535 := rfl
      exact UInt16.toNat_inj.mp (by omega)
    have hempty : Empty manager portRangeStart.toNat ⟨manager, []⟩ :=
      ⟨hchannels, hnext.trans UInt16.ofNat_toNat.symm, hrange.trans hend, rfl⟩
    obtain ⟨steps, hsteps⟩ := exists_not_inRange H hstart hempty
    exact hsteps (hall steps)
  · refine Runs.meets_of_invariant (step H) (fun log : PortLog crypto =>
      log.manager.portRangeEnd = portRangeEnd ∧ portRangeStart ≤ log.manager.nextPort)
      ?_ ?_ ⟨hrange, hnext ▸ UInt16.le_refl _⟩
    · intro log label hlog
      exact ⟨(log.manager.allots_advance H label).1.trans hlog.1,
        le_nextPort_step H hlast label hlog.1 hlog.2⟩
    · rintro log label ⟨-, hle⟩
      unfold Unwrapped
      split
      · exact hle
      · exact hle
      · trivial

open Network (byteHash)

/-- A range of a hundred ports. -/
theorem inRange_hundred :
    ∃ manager, Manager.create Crypto.padded (some [9]) 9000 9001 9100 = some manager ∧
      ∀ steps, (Runs.run (step byteHash) ⟨manager, []⟩ steps).InRange 9001 9100 := by
  have hsome : (Manager.create Crypto.padded (some [9]) 9000 9001 9100).isSome = true := by
    decide +kernel
  obtain ⟨manager, hcreate⟩ := Option.isSome_iff_exists.mp hsome
  exact ⟨manager, hcreate, (inRange_iff byteHash (some [9]) 9000 9001 9100 (by decide)
    manager hcreate).2.mpr (by decide)⟩

def createStep (key : UInt8) : ManagerStep :=
  .operation (.createChannel (some [key]) .defaults)

/-- A range of two ports that ends with the last one: four creations, and the third channel listens
on port one. -/
theorem not_inRange_last :
    ∃ manager, Manager.create Crypto.padded (some [9]) 9000 65534 65535 = some manager ∧
      ¬(Runs.run (step byteHash) ⟨manager, []⟩
        [createStep 1, createStep 2, createStep 3, createStep 4]).InRange 65534 65535 := by
  have hany : ((Manager.create Crypto.padded (some [9]) 9000 65534 65535).any fun manager =>
      decide ¬(Runs.run (step byteHash) ⟨manager, []⟩
        [createStep 1, createStep 2, createStep 3, createStep 4]).InRange 65534 65535) = true := by
    decide +kernel
  obtain ⟨manager, hcreate, hfails⟩ := (Option.any_eq_true _ _).mp hany
  exact ⟨manager, hcreate, of_decide_eq_true hfails⟩

end PortLog

end Poseidon
