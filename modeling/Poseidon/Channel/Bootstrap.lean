import Poseidon.Channel.Authority
import Poseidon.Channel.PacketRoundTrip

/-!
# Bootstrapping a joined channel

A join publishes a request under the topic; a member of the channel answers with a reply; the
joiner looks for a pending entry with the topic and the timestamp of the reply and connects the
channel of that entry to the address in it. The member puts its own clock's reading into the reply,
and the address its dial channel listens on; and the join does not start the protocol of the joined
channel, without which no connection is opened.
-/

namespace Poseidon

open Cbor

def Channel.ListensOn {crypto : Crypto} (channel : Channel crypto) (node : MeridianNode) : Prop :=
  ∃ protocol ∈ channel.protocol, protocol.running = true ∧ protocol.getLocalNode = node

instance {crypto : Crypto} (channel : Channel crypto) (node : MeridianNode) :
    Decidable (channel.ListensOn node) :=
  inferInstanceAs (Decidable (∃ protocol ∈ channel.protocol,
    protocol.running = true ∧ protocol.getLocalNode = node))

def Channel.ConnectedTo {crypto : Crypto} (channel : Channel crypto) (node : MeridianNode) :
    Prop :=
  ∃ protocol ∈ channel.protocol, protocol.running = true ∧ some node ∈ protocol.peerNodes

/-- The protocol of the channel runs and has a connection to the node, or room for one. -/
def Channel.CanConnect {crypto : Crypto} (channel : Channel crypto) (node : MeridianNode) : Prop :=
  ∃ protocol ∈ channel.protocol, protocol.running = true ∧
    (some node ∈ protocol.peerNodes ∨ protocol.peerNodes.length < 64)

instance {crypto : Crypto} (channel : Channel crypto) (node : MeridianNode) :
    Decidable (channel.CanConnect node) :=
  inferInstanceAs (Decidable (∃ protocol ∈ channel.protocol, protocol.running = true ∧
    (some node ∈ protocol.peerNodes ∨ protocol.peerNodes.length < 64)))

namespace MeridianProtocol

theorem peerNodes_foldl_addSeedNode (seeds : List MeridianNode) (protocol : MeridianProtocol) :
    (seeds.foldl addSeedNode protocol).running = protocol.running ∧
      (seeds.foldl addSeedNode protocol).peerNodes = protocol.peerNodes := by
  refine Runs.invariant addSeedNode
    (fun after => after.running = protocol.running ∧ after.peerNodes = protocol.peerNodes) ?_
    ⟨rfl, rfl⟩
  intro after seed hafter
  unfold addSeedNode
  split_ifs <;> exact hafter

theorem mem_peerNodes_connect_iff (protocol : MeridianProtocol) (node : MeridianNode) :
    ((protocol.connect node.addr node.port).2.running = true ∧
        some node ∈ (protocol.connect node.addr node.port).2.peerNodes) ↔
      protocol.running = true ∧
        (some node ∈ protocol.peerNodes ∨ protocol.peerNodes.length < 64) := by
  unfold connect
  split_ifs with hstopped hfull hconnected
  · have hidle : protocol.running = false := by simpa using hstopped
    simp [hidle]
  · simp [Nat.not_lt.mpr hfull]
  · have hmem : some node ∈ protocol.peerNodes := List.contains_iff_mem.mp hconnected
    simp [hmem]
  · simp [Nat.lt_of_not_le hfull]

end MeridianProtocol

theorem Manager.connectedTo_connectReply_iff {crypto : Crypto} (channel : Channel crypto)
    (reply : BootstrapReply) :
    (connectReply channel reply).ConnectedTo reply.responder ↔
      channel.CanConnect reply.responder := by
  change (∃ protocol ∈ channel.protocol.map _, _) ↔ ∃ protocol ∈ channel.protocol, _
  simp only [Option.mem_map, exists_exists_and_eq_and,
    MeridianProtocol.peerNodes_foldl_addSeedNode, MeridianProtocol.mem_peerNodes_connect_iff]

namespace Manager

variable {crypto : Crypto} (H : HashFn)

theorem joinChannel_eq {joiner joined : Manager crypto} {key : Option Bytes} {topic : Bytes}
    {now : ClockReading} {channel : Channel crypto} {effects : List Effect}
    (hjoin : joiner.joinChannel H key topic now = (some channel, joined, effects)) :
    joined.pending = joiner.pending ++ [.ofJoin topic now channel.address] ∧
      effects = [.publish (joiner.joinRequest topic now.realtimeUs)] := by
  obtain heq | heq | ⟨created, -, -, heq⟩ := joiner.joinChannel_cases H key topic now
  · cases heq.symm.trans hjoin
  · cases heq.symm.trans hjoin
  · cases heq.symm.trans hjoin
    exact ⟨rfl, rfl⟩

theorem intercept_joinRequest [Memory] (joiner : Manager crypto) {member : Manager crypto}
    {topic : Bytes} {mine : Channel crypto} (hmember : member.findByTopic topic = some mine)
    (htombstone : member.findTombstone topic = none) (timestampUs : UInt64) (now : ClockReading) :
    (member.intercept H (joiner.joinRequest topic timestampUs).data now).2.2 =
      [.publish (member.bootstrapReply topic now)] := by
  obtain rfl := topic_eq_of_findByTopic hmember
  obtain ⟨request, hread, htopic, -⟩ := @DialPacket.read_serialize_request _ crypto _ _
    mine.length_topic_lt mine.zero_not_mem_topic joiner.dial.length_topic_lt
    joiner.dial.zero_not_mem_topic timestampUs
  unfold intercept joinRequest
  rw [hread]
  change member.handleBootstrapRequest request.topicId.bytes now = _
  rw [htopic, handleBootstrapRequest, htombstone, hmember]

/-- The pending entry that the search of the handler finds for a packet. -/
def matchedEntry [Memory] (manager : Manager crypto) (data : Bytes) : Option PendingBootstrap :=
  match DialPacket.read crypto data with
  | some (.bootstrapReply reply) => (manager.findPending reply).map (·.1)
  | _ => none

/-- The entry is the first of its topic and timestamp among those that wait. -/
def Foremost (manager : Manager crypto) (entry : PendingBootstrap) : Prop :=
  manager.pending.find? (fun other =>
    other.topicId == entry.topicId && other.timestampUs == entry.timestampUs) = some entry

instance (manager : Manager crypto) (entry : PendingBootstrap) :
    Decidable (manager.Foremost entry) :=
  inferInstanceAs (Decidable (manager.pending.find? (fun other =>
    other.topicId == entry.topicId && other.timestampUs == entry.timestampUs) = some entry))

theorem findPending_map_fst (manager : Manager crypto) (reply : BootstrapReply) :
    (manager.findPending reply).map (·.1) = manager.pending.find? fun entry =>
      entry.topicId == reply.topicId && entry.timestampUs == reply.timestampUs := by
  conv_rhs => rw [← List.zipIdx_map_fst 0 manager.pending, List.find?_map]
  rfl

theorem findPending_eq_iff {manager : Manager crypto} {reply : BootstrapReply}
    {entry : PendingBootstrap} (htopic : entry.topicId = reply.topicId) :
    (manager.findPending reply).map (·.1) = some entry ↔
      reply.timestampUs = entry.timestampUs ∧ manager.Foremost entry := by
  rw [findPending_map_fst, ← htopic]
  constructor
  · intro hfind
    have hmatches := List.find?_some hfind
    simp only [Bool.and_eq_true, beq_iff_eq] at hmatches
    refine ⟨hmatches.2.symm, ?_⟩
    unfold Foremost
    rw [hmatches.2]
    exact hfind
  · rintro ⟨htimestamp, hforemost⟩
    rw [htimestamp]
    exact hforemost

/-- The reply is matched to the entry, the entry's channel runs, and it is dialled to, and has a
connection to, an address on which the member's channel listens. -/
def Completes [Memory] (joiner : Manager crypto) (entry : PendingBootstrap) (mine : Channel crypto)
    (data : Bytes) (now : ClockReading) : Prop :=
  joiner.matchedEntry data = some entry ∧
    ∃ peer, Effect.connecting entry.channel peer ∈ (joiner.intercept H data now).2.2 ∧
      mine.ListensOn peer ∧
      ∃ channel ∈ (joiner.intercept H data now).2.1.channels,
        channel.address = entry.channel ∧ channel.state = .running ∧ channel.ConnectedTo peer

theorem handleBootstrapReply_first {manager : Manager crypto} {reply : BootstrapReply}
    {entry : PendingBootstrap} (hmatched : (manager.findPending reply).map (·.1) = some entry)
    (hreplies : entry.replies = []) :
    (manager.handleBootstrapReply reply).2.1.channels = (manager.channels.map fun channel =>
      if channel.address = entry.channel then connectReply channel reply else channel) ∧
    (manager.handleBootstrapReply reply).2.2 = [.connecting entry.channel reply.responder] := by
  obtain ⟨⟨found, index⟩, hfind, hfound⟩ := Option.map_eq_some_iff.mp hmatched
  obtain rfl : found = entry := hfound
  have hfirst : (found.addReply reply.responder).replies.length = 1 := by
    unfold PendingBootstrap.addReply
    rw [hreplies]
    rfl
  unfold handleBootstrapReply
  rw [hfind]
  dsimp only
  rw [if_pos hfirst]
  exact ⟨rfl, rfl⟩

theorem exists_connected_iff (channels : List (Channel crypto)) (address : Nat)
    (reply : BootstrapReply) :
    (∃ channel ∈ channels.map (fun channel =>
        if channel.address = address then connectReply channel reply else channel),
      channel.address = address ∧ channel.state = .running ∧
        channel.ConnectedTo reply.responder) ↔
      ∃ channel ∈ channels, channel.address = address ∧ channel.CanConnect reply.responder := by
  simp only [List.mem_map, exists_exists_and_eq_and]
  refine exists_congr fun channel => and_congr_right fun _ => ?_
  split_ifs with haddress
  · rw [connectedTo_connectReply_iff]
    exact and_congr_right fun _ => and_iff_right rfl
  · exact iff_of_false (fun h => haddress h.1) fun h => haddress h.1

theorem completes_iff [Memory] {joiner member : Manager crypto} {entry : PendingBootstrap}
    {mine : Channel crypto} (hreplies : entry.replies = [])
    (htopic : entry.topicId.bytes = mine.topic) (memberNow now : ClockReading) :
    joiner.Completes H entry mine (member.bootstrapReply mine.topic memberNow).data now ↔
      memberNow.realtimeUs = entry.timestampUs ∧ joiner.Foremost entry ∧
        mine.ListensOn member.dial.quasar.localNode ∧
        ∃ channel ∈ joiner.channels, channel.address = entry.channel ∧
          channel.CanConnect member.dial.quasar.localNode := by
  obtain ⟨reply, hread, hreplyTopic, hresponder, htimestamp, -⟩ :=
    @DialPacket.read_serialize_reply _ crypto _ _ mine.length_topic_lt mine.zero_not_mem_topic
      member.dial.length_topic_lt member.dial.zero_not_mem_topic member.dial.quasar.localNode
      memberNow.realtimeUs
  have hsame : entry.topicId = reply.topicId := CString.ext (htopic.trans hreplyTopic.symm)
  have hmatched : joiner.matchedEntry (member.bootstrapReply mine.topic memberNow).data =
      some entry ↔ memberNow.realtimeUs = entry.timestampUs ∧ joiner.Foremost entry := by
    unfold matchedEntry bootstrapReply
    rw [hread, ← htimestamp]
    exact findPending_eq_iff hsame
  have hintercept : (joiner.intercept H (member.bootstrapReply mine.topic memberNow).data now).2 =
      (joiner.handleBootstrapReply reply).2 := by
    unfold intercept bootstrapReply
    rw [hread]
    rfl
  have hfirst : joiner.matchedEntry (member.bootstrapReply mine.topic memberNow).data =
      some entry → (joiner.findPending reply).map (·.1) = some entry := by
    intro hentry
    exact (findPending_eq_iff hsame).mpr (by rw [htimestamp]; exact hmatched.mp hentry)
  unfold Completes
  rw [hintercept]
  -- the only address the handler connects to is the one the reply carries
  constructor
  · rintro ⟨hentry, peer, hconnecting, hlistens, hconnected⟩
    obtain ⟨hclock, hforemost⟩ := hmatched.mp hentry
    obtain ⟨hchannels, heffects⟩ := handleBootstrapReply_first (hfirst hentry) hreplies
    rw [heffects, List.mem_singleton] at hconnecting
    obtain rfl := (Effect.connecting.inj hconnecting).2
    rw [hchannels, exists_connected_iff] at hconnected
    exact ⟨hclock, hforemost, hresponder ▸ hlistens, hresponder ▸ hconnected⟩
  · rintro ⟨hclock, hforemost, hlistens, hconnects⟩
    have hentry := hmatched.mpr ⟨hclock, hforemost⟩
    obtain ⟨hchannels, heffects⟩ := handleBootstrapReply_first (hfirst hentry) hreplies
    rw [← hresponder] at hlistens hconnects
    refine ⟨hentry, reply.responder, ?_, hlistens, ?_⟩
    · rw [heffects]
      exact List.mem_singleton_self _
    · rw [hchannels, exists_connected_iff]
      exact hconnects

open Network (byteHash)

/-- A joiner that has asked for the topic of the key `1` at microsecond five. -/
def askedFor : Option (Manager Crypto.padded × Channel Crypto.padded × Manager Crypto.padded) :=
  (create Crypto.padded (some [9]) 9000 9001 9100).bind fun joiner =>
    let result := joiner.joinChannel byteHash (some [3]) (topicOf [1]).bytes ⟨5, 5⟩
    result.1.map fun channel => (joiner, channel, result.2.1)

/-- The joiner once its application has started the channels. -/
def startedChannels (manager : Manager Crypto.padded) : Manager Crypto.padded :=
  { manager with channels := manager.channels.map Channel.start }

/-- A member whose dial channel, on the given port, and whose channel of the key `1` run. -/
def runningMember (dialPort : UInt16) : Option (Manager Crypto.padded × Channel Crypto.padded) :=
  (create Crypto.padded (some [8]) dialPort 9001 9100).bind fun manager =>
    let created := (manager.createChannel (some [1]) .defaults).2
    let member := { created.startedChannels with dial := created.dial.start }
    (member.findByTopic (topicOf [1]).bytes).map fun mine => (member, mine)

theorem joinChannel_of_askedFor {joiner joined : Manager Crypto.padded}
    {channel : Channel Crypto.padded} (hasked : askedFor = some (joiner, channel, joined)) :
    ∃ effects, joiner.joinChannel byteHash (some [3]) (topicOf [1]).bytes ⟨5, 5⟩ =
      (some channel, joined, effects) := by
  obtain ⟨manager, -, hresult⟩ := Option.bind_eq_some_iff.mp hasked
  obtain ⟨found, hfound, heq⟩ := Option.map_eq_some_iff.mp hresult
  obtain ⟨rfl, rfl, rfl⟩ := heq
  exact ⟨_, Prod.ext hfound rfl⟩

theorem findByTopic_of_runningMember {dialPort : UInt16} {member : Manager Crypto.padded}
    {mine : Channel Crypto.padded} (hrunning : runningMember dialPort = some (member, mine)) :
    member.findByTopic (topicOf [1]).bytes = some mine := by
  obtain ⟨manager, -, hresult⟩ := Option.bind_eq_some_iff.mp hrunning
  obtain ⟨found, hfound, heq⟩ := Option.map_eq_some_iff.mp hresult
  obtain ⟨rfl, rfl⟩ := heq
  exact hfound

end Manager

end Poseidon
