import Mathlib.Data.List.Dedup
import Mathlib.Data.List.InsertIdx
import Mathlib.Data.List.Perm.Subperm
import Mathlib.Data.List.ReduceOption
import Poseidon.Quasar.Addressing

/-!
# The fan-out of the random walk

The random walk goes through the table of connected peers and passes the message to the first
`alpha` that have not been visited. A peer that connected to this node is in the table without its
address: it never counts as visited, nothing can be sent to it, and yet it takes one of the
`alpha` places.
-/

namespace Poseidon

/-- A connection: the node at its other end, and whether it was opened from this side. -/
structure Peer where
  remote : MeridianNode
  outgoing : Bool
deriving DecidableEq, Repr

/-- The entry of `peer_nodes` for a connection. -/
def Peer.node (peer : Peer) : Option MeridianNode :=
  if peer.outgoing then some peer.remote else none

/-- A running protocol with the connections behind its table. No node is connected to twice. -/
structure PeerTable where
  protocol : MeridianProtocol
  peers : List Peer
  running : protocol.running = true
  recorded : protocol.peerNodes = peers.map Peer.node
  distinct : (peers.map Peer.node).reduceOption.Nodup

namespace PeerTable

/-! ### How the table changes -/

def start (port : UInt16) : PeerTable where
  protocol := (MeridianProtocol.create port).start
  peers := []
  running := rfl
  recorded := rfl
  distinct := List.nodup_nil

/-- Whether `meridian_protocol_connect` opens a connection. -/
def opens (table : PeerTable) (node : MeridianNode) : Bool :=
  table.protocol.peerNodes.length < 64 && !table.protocol.peerNodes.contains (some node)

/-- The connections behind the table after a call of `meridian_protocol_connect`. -/
def peersConnect (table : PeerTable) (node : MeridianNode) : List Peer :=
  if table.opens node then table.peers ++ [⟨node, true⟩] else table.peers

def peersAccept (table : PeerTable) (remote : MeridianNode) : List Peer :=
  if table.protocol.peerNodes.length < 64 then table.peers ++ [⟨remote, false⟩] else table.peers

def peersDisconnect (table : PeerTable) (node : MeridianNode) : List Peer :=
  match table.protocol.peerNodes.findIdx? (· == some node) with
  | none => table.peers
  | some index => table.peers.eraseIdx index

variable (table : PeerTable)

theorem running_connect (node : MeridianNode) :
    (table.protocol.connect node.addr node.port).2.running = true := by
  unfold MeridianProtocol.connect
  split_ifs <;> exact table.running

theorem recorded_connect (node : MeridianNode) :
    (table.protocol.connect node.addr node.port).2.peerNodes =
      (table.peersConnect node).map Peer.node := by
  unfold peersConnect
  split_ifs with hopens
  · obtain ⟨hroom, hnew⟩ := Bool.and_eq_true_iff.mp hopens
    have hfull : ¬table.protocol.peerNodes.length ≥ 64 := Nat.not_le.mpr (of_decide_eq_true hroom)
    have hknown : table.protocol.peerNodes.contains (some node) = false :=
      (Bool.not_eq_true' _).mp hnew
    simp only [MeridianProtocol.connect, table.running, Bool.not_true, Bool.false_eq_true,
      if_false, hfull, hknown]
    rw [table.recorded, List.map_append]
    rfl
  · unfold MeridianProtocol.connect
    split_ifs with hstopped hfull hknown
    · exact table.recorded
    · exact table.recorded
    · exact table.recorded
    · refine absurd ?_ hopens
      simp only [opens, Nat.lt_of_not_le hfull, decide_true, Bool.true_and]
      exact (Bool.not_eq_true' _).mpr (Bool.eq_false_of_not_eq_true hknown)

theorem distinct_connect (node : MeridianNode) :
    ((table.peersConnect node).map Peer.node).reduceOption.Nodup := by
  unfold peersConnect
  split_ifs with hopens
  · have hnew : some node ∉ table.peers.map Peer.node := by
      rw [← table.recorded]
      simpa [opens] using (Bool.and_eq_true_iff.mp hopens).2
    rw [List.map_append, List.reduceOption_append]
    refine table.distinct.append (List.nodup_singleton node) fun other hother hnode => ?_
    obtain rfl : other = node := by simpa [Peer.node, List.reduceOption] using hnode
    exact hnew (List.reduceOption_mem_iff.mp hother)
  · exact table.distinct

theorem recorded_accept (remote : MeridianNode) :
    table.protocol.accept.peerNodes = (table.peersAccept remote).map Peer.node := by
  unfold MeridianProtocol.accept peersAccept
  split_ifs
  · dsimp only
    rw [table.recorded, List.map_append]
    rfl
  · exact table.recorded

theorem distinct_accept (remote : MeridianNode) :
    ((table.peersAccept remote).map Peer.node).reduceOption.Nodup := by
  unfold peersAccept
  split_ifs
  · rw [List.map_append, List.reduceOption_append]
    exact (List.append_nil _).symm ▸ table.distinct
  · exact table.distinct

theorem recorded_disconnect (node : MeridianNode) :
    (table.protocol.disconnect node.addr node.port).2.peerNodes =
      (table.peersDisconnect node).map Peer.node := by
  unfold MeridianProtocol.disconnect peersDisconnect
  simp only [table.running, Bool.not_true, Bool.false_eq_true, if_false]
  cases table.protocol.peerNodes.findIdx? (· == some node) with
  | none => exact table.recorded
  | some index =>
      dsimp only
      rw [table.recorded, List.eraseIdx_map]

theorem running_accept : table.protocol.accept.running = true := by
  unfold MeridianProtocol.accept
  split_ifs <;> exact table.running

theorem running_disconnect (node : MeridianNode) :
    (table.protocol.disconnect node.addr node.port).2.running = true := by
  unfold MeridianProtocol.disconnect
  simp only [table.running, Bool.not_true, Bool.false_eq_true, if_false]
  cases table.protocol.peerNodes.findIdx? (· == some node) with
  | none => exact table.running
  | some index => rfl

theorem distinct_disconnect (node : MeridianNode) :
    ((table.peersDisconnect node).map Peer.node).reduceOption.Nodup := by
  unfold peersDisconnect
  cases table.protocol.peerNodes.findIdx? (· == some node) with
  | none => exact table.distinct
  | some index =>
      refine List.Nodup.sublist ?_ table.distinct
      exact ((List.eraseIdx_sublist _ _).map Peer.node).filterMap id

def connect (table : PeerTable) (node : MeridianNode) : PeerTable where
  protocol := (table.protocol.connect node.addr node.port).2
  peers := table.peersConnect node
  running := table.running_connect node
  recorded := table.recorded_connect node
  distinct := table.distinct_connect node

def accept (table : PeerTable) (remote : MeridianNode) : PeerTable where
  protocol := table.protocol.accept
  peers := table.peersAccept remote
  running := table.running_accept
  recorded := table.recorded_accept remote
  distinct := table.distinct_accept remote

def disconnect (table : PeerTable) (node : MeridianNode) : PeerTable where
  protocol := (table.protocol.disconnect node.addr node.port).2
  peers := table.peersDisconnect node
  running := table.running_disconnect node
  recorded := table.recorded_disconnect node
  distinct := table.distinct_disconnect node

inductive Event where
  | connect (node : MeridianNode)
  | accept (remote : MeridianNode)
  | disconnect (node : MeridianNode)
deriving DecidableEq, Repr

def step (table : PeerTable) : Event → PeerTable
  | .connect node => table.connect node
  | .accept remote => table.accept remote
  | .disconnect node => table.disconnect node

end PeerTable

/-! ### The peers a walk chooses -/

namespace Quasar

variable (H : HashFn)

def targets (actions : List Action) : List (Option MeridianNode) :=
  actions.filterMap fun
    | .callback _ _ => none
    | .send target _ => some target

theorem targets_append (front back : List Action) :
    targets (front ++ back) = targets front ++ targets back :=
  List.filterMap_append

variable (marked : List MeridianNode) (filter : BloomFilter) {msg : RouteMessage}
  {nodes : List MeridianNode}

theorem targets_sendMessage (hfits : msg.serialize.isSome = true) (target : Option MeridianNode) :
    targets (sendMessage msg target) = [target] := by
  obtain ⟨packet, hpacket⟩ := Option.isSome_iff_exists.mp hfits
  simp only [sendMessage, hpacket]
  rfl

/-- Marking some of the nodes as visited makes no other of them appear visited. -/
def Distinguishes (visited : BloomFilter) (nodes : List MeridianNode) : Prop :=
  ∀ marked : List MeridianNode, marked ⊆ nodes → ∀ node ∈ nodes, node ∉ marked →
    (marked.foldl (fun filter other => filter.add H other.key) visited).contains H node.key =
      visited.contains H node.key

theorem indices_foldl_add (data : Bytes) :
    (marked.foldl (fun filter node => filter.add H node.key) filter).indices H data =
      filter.indices H data := by
  induction marked generalizing filter with
  | nil => rfl
  | cons node marked ih => exact ih (filter.add H node.key)

theorem get_bits_foldl_add (index : Nat) :
    (marked.foldl (fun filter node => filter.add H node.key) filter).bits.get index =
      (filter.bits.get index ||
        marked.any fun node => decide (index ∈ filter.indices H node.key)) := by
  induction marked generalizing filter with
  | nil => simp
  | cons node marked ih =>
      rw [List.foldl_cons, ih, BloomFilter.get_bits_add, List.any_cons, Bool.or_assoc]
      rfl

/-- It is enough that each node has a bit that is still free and belongs to no other node. -/
theorem distinguishes_of_ownBit {visited : BloomFilter}
    (hown : ∀ node ∈ nodes, ∃ index ∈ visited.indices H node.key,
      visited.bits.get index = false ∧
        ∀ other ∈ nodes, other ≠ node → index ∉ visited.indices H other.key) :
    Distinguishes H visited nodes := by
  intro marked hmarked node hnode hunmarked
  obtain ⟨index, hindex, hfree, hother⟩ := hown node hnode
  have hbefore : visited.contains H node.key = false := by
    refine Bool.eq_false_of_not_eq_true fun hcontains => ?_
    have hset := (BloomFilter.contains_iff H visited node.key).mp hcontains index hindex
    exact Bool.false_ne_true (hfree.symm.trans hset)
  rw [hbefore]
  refine Bool.eq_false_of_not_eq_true fun hcontains => ?_
  have hsame : index ∈ (marked.foldl (fun filter other => filter.add H other.key)
      visited).indices H node.key := by
    rwa [indices_foldl_add]
  have hset := (BloomFilter.contains_iff H _ node.key).mp hcontains index hsame
  rw [get_bits_foldl_add, hfree, Bool.false_or, List.any_eq_true] at hset
  obtain ⟨other, hmem, hin⟩ := hset
  have hne : other ≠ node := fun heq => hunmarked (heq ▸ hmem)
  exact hother other (hmarked hmem) hne (of_decide_eq_true hin)

/-- The message behind the packets sent to `marked`. -/
def marking (msg : RouteMessage) (marked : List MeridianNode) : RouteMessage :=
  { msg with visited := marked.foldl (fun filter node => filter.add H node.key) msg.visited }

theorem marking_append_singleton (msg : RouteMessage) (marked : List MeridianNode)
    (node : MeridianNode) :
    marking H msg (marked ++ [node]) = (marking H msg marked).addVisited H (some node) := by
  simp only [marking, RouteMessage.addVisited, List.foldl_append, List.foldl_cons, List.foldl_nil]

theorem size_foldl_add :
    (marked.foldl (fun filter node => filter.add H node.key) filter).size = filter.size := by
  induction marked generalizing filter with
  | nil => rfl
  | cons node marked ih => exact ih (filter.add H node.key)

theorem isSome_serialize_marking (msg : RouteMessage) (marked : List MeridianNode) :
    (marking H msg marked).serialize.isSome = msg.serialize.isSome := by
  rw [Bool.eq_iff_iff, RouteMessage.isSome_serialize_iff, RouteMessage.isSome_serialize_iff]
  simp only [marking, size_foldl_add]

theorem hasVisited_marking {marked : List MeridianNode}
    (hdistinguishes : Distinguishes H msg.visited nodes) (hmarked : marked ⊆ nodes)
    {node : MeridianNode} (hnode : node ∈ nodes) (hunmarked : node ∉ marked) :
    (marking H msg marked).hasVisited H (some node) = msg.hasVisited H (some node) :=
  hdistinguishes marked hmarked node hnode hunmarked

theorem targets_randomWalk (hfits : msg.serialize.isSome = true)
    (hdistinguishes : Distinguishes H msg.visited nodes) (alpha : Nat)
    {peers : List (Option MeridianNode)} (hdistinct : peers.reduceOption.Nodup)
    {marked : List MeridianNode} (hmarked : marked ⊆ nodes)
    (hpeers : ∀ node ∈ peers.reduceOption, node ∈ nodes ∧ node ∉ marked) (sent : Nat) :
    targets (randomWalk H alpha (marking H msg marked) sent peers) =
      (peers.filter fun peer => !msg.hasVisited H peer).take (alpha - sent) := by
  induction peers generalizing marked sent with
  | nil => simp [randomWalk, targets]
  | cons peer peers ih =>
      have hsend := targets_sendMessage
        ((isSome_serialize_marking H msg marked).trans hfits) peer
      unfold randomWalk
      by_cases hdone : sent ≥ alpha
      · rw [if_pos hdone, Nat.sub_eq_zero_of_le hdone, List.take_zero]
        rfl
      · have hleft : alpha - sent = alpha - (sent + 1) + 1 := by omega
        rw [if_neg hdone]
        cases peer with
        | none =>
            -- an entry without a node is never visited, and marking it marks nothing
            have hopen : ¬(marking H msg marked).hasVisited H none = true := Bool.false_ne_true
            rw [if_neg hopen, targets_append, hsend, hleft]
            exact congrArg (none :: ·) (ih hdistinct hmarked hpeers (sent + 1))
        | some node =>
            rw [List.reduceOption_cons_of_some, List.nodup_cons] at hdistinct
            rw [List.reduceOption_cons_of_some, List.forall_mem_cons] at hpeers
            obtain ⟨hnode, hunmarked⟩ := hpeers.1
            rw [hasVisited_marking H hdistinguishes hmarked hnode hunmarked]
            by_cases hvisited : msg.hasVisited H (some node) = true
            · rw [if_pos hvisited, List.filter_cons_of_neg (by simpa using hvisited)]
              exact ih hdistinct.2 hmarked hpeers.2 sent
            · have hrest : ∀ other ∈ peers.reduceOption,
                  other ∈ nodes ∧ other ∉ marked ++ [node] := by
                intro other hother
                obtain ⟨hmem, hnot⟩ := hpeers.2 other hother
                refine ⟨hmem, fun hin => ?_⟩
                rcases List.mem_append.mp hin with hin | hin
                · exact hnot hin
                · obtain rfl := List.mem_singleton.mp hin
                  exact hdistinct.1 hother
              have hmarkedNext : marked ++ [node] ⊆ nodes :=
                List.append_subset.mpr ⟨hmarked, List.cons_subset.mpr ⟨hnode, List.nil_subset _⟩⟩
              rw [if_neg hvisited, List.filter_cons_of_pos (by simpa using hvisited),
                targets_append, hsend, hleft, List.take_succ_cons, ← marking_append_singleton]
              exact congrArg (some node :: ·) (ih hdistinct.2 hmarkedNext hrest (sent + 1))

end Quasar

/-! ### How far the fan-out is used -/

namespace PeerTable

variable (H : HashFn)

def connected (table : PeerTable) : List MeridianNode :=
  (table.peers.map Peer.remote).dedup

/-- The connected peers that are not in the visited filter of the message. -/
def unvisited (table : PeerTable) (msg : RouteMessage) : List MeridianNode :=
  table.connected.filter fun node => !msg.hasVisited H (some node)

/-- The nodes to which `meridian_protocol_send_packet` hands a packet. -/
def recipients (table : PeerTable) (actions : List Action) : List MeridianNode :=
  ((Quasar.targets actions).filter table.protocol.sendPacket).reduceOption

/-- The actions reach as many different connected peers as `alpha` allows. -/
def FullyUsed (table : PeerTable) (alpha : Nat) (msg : RouteMessage) (actions : List Action) :
    Prop :=
  (table.recipients actions).Nodup ∧ table.recipients actions ⊆ table.connected ∧
    (table.recipients actions).length = min alpha (table.unvisited H msg).length

def chosen (table : PeerTable) (alpha : Nat) (msg : RouteMessage) : List (Option MeridianNode) :=
  (table.protocol.peerNodes.filter fun peer => !msg.hasVisited H peer).take alpha

/-- Incoming connections do not get in the way: `alpha` entries are chosen and none of them is an
incoming connection, or every peer that is not visited is chosen by its address. -/
def Unblocked (table : PeerTable) (alpha : Nat) (msg : RouteMessage) : Prop :=
  ((table.chosen H alpha msg).length = alpha ∧
    ∀ peer ∈ table.chosen H alpha msg, peer.isSome = true) ∨
  ∀ node ∈ table.unvisited H msg, some node ∈ table.chosen H alpha msg

theorem chosen_sublist (table : PeerTable) (alpha : Nat) (msg : RouteMessage) :
    (table.chosen H alpha msg).Sublist table.protocol.peerNodes :=
  (List.take_sublist _ _).trans List.filter_sublist

variable {table : PeerTable}

theorem mem_connected_of_recorded {node : MeridianNode}
    (hnode : some node ∈ table.protocol.peerNodes) : node ∈ table.connected := by
  rw [table.recorded] at hnode
  obtain ⟨peer, hpeer, hrecorded⟩ := List.mem_map.mp hnode
  have hremote : peer.remote = node := by
    unfold Peer.node at hrecorded
    split_ifs at hrecorded with houtgoing
    exact Option.some.inj hrecorded
  exact List.mem_dedup.mpr (List.mem_map.mpr ⟨peer, hpeer, hremote⟩)

theorem sendPacket_eq_isSome {peer : Option MeridianNode}
    (hpeer : peer ∈ table.protocol.peerNodes) : table.protocol.sendPacket peer = peer.isSome := by
  have hcontains : table.protocol.peerNodes.contains peer = true := by simpa using hpeer
  simp only [MeridianProtocol.sendPacket, table.running, hcontains, Bool.true_and, Bool.and_true]

theorem reduceOption_filter_sendPacket {entries : List (Option MeridianNode)}
    (hentries : entries ⊆ table.protocol.peerNodes) :
    (entries.filter table.protocol.sendPacket).reduceOption = entries.reduceOption := by
  induction entries with
  | nil => rfl
  | cons peer entries ih =>
      obtain ⟨hpeer, hrest⟩ := List.cons_subset.mp hentries
      cases peer with
      | none =>
          rw [List.filter_cons_of_neg (by simp [sendPacket_eq_isSome hpeer])]
          exact ih hrest
      | some node =>
          rw [List.filter_cons_of_pos (by simp [sendPacket_eq_isSome hpeer]),
            List.reduceOption_cons_of_some, List.reduceOption_cons_of_some, ih hrest]

theorem recipients_walk {quasar : Quasar} (hprotocol : quasar.protocol = some table.protocol)
    {msg : RouteMessage} {negative : List Bytes}
    (hrandom : quasar.directedTarget H msg.topic negative = none)
    (hfits : msg.serialize.isSome = true)
    (hdistinguishes : Quasar.Distinguishes H msg.visited table.connected) :
    table.recipients (quasar.walk H msg negative) =
      (table.chosen H quasar.alpha.toNat msg).reduceOption := by
  have htargets := Quasar.targets_randomWalk H hfits hdistinguishes quasar.alpha.toNat
    (table.recorded ▸ table.distinct) (List.nil_subset _)
    (fun node hnode => ⟨mem_connected_of_recorded (List.reduceOption_mem_iff.mp hnode),
      List.not_mem_nil⟩) 0
  have hpeers : quasar.connectedPeers = table.protocol.peerNodes := by
    simp only [Quasar.connectedPeers, hprotocol]
  simp only [recipients, Quasar.walk, hrandom, hpeers]
  rw [show Quasar.marking H msg [] = msg from rfl] at htargets
  rw [htargets, Nat.sub_zero]
  exact reduceOption_filter_sendPacket (table.chosen_sublist H quasar.alpha.toNat msg).subset

section Reached

variable {table : PeerTable} {alpha : Nat} {msg : RouteMessage}

theorem nodup_reached : (table.chosen H alpha msg).reduceOption.Nodup := by
  have hrecorded : table.protocol.peerNodes.reduceOption.Nodup := table.recorded ▸ table.distinct
  exact hrecorded.sublist ((table.chosen_sublist H alpha msg).filterMap id)

theorem reached_subset_unvisited :
    (table.chosen H alpha msg).reduceOption ⊆ table.unvisited H msg := by
  intro node hnode
  have hchosen := List.mem_of_mem_take (List.reduceOption_mem_iff.mp hnode)
  obtain ⟨hrecorded, hopen⟩ := List.mem_filter.mp hchosen
  exact List.mem_filter.mpr ⟨mem_connected_of_recorded hrecorded, hopen⟩

theorem length_reached_le :
    (table.chosen H alpha msg).reduceOption.length ≤ (table.chosen H alpha msg).length ∧
      (table.chosen H alpha msg).length ≤ alpha :=
  ⟨List.reduceOption_length_le _, List.length_take_le _ _⟩

theorem length_reached_eq_alpha_iff :
    (table.chosen H alpha msg).reduceOption.length = alpha ↔
      (table.chosen H alpha msg).length = alpha ∧
        ∀ peer ∈ table.chosen H alpha msg, peer.isSome = true := by
  obtain ⟨hreached, hchosen⟩ := @length_reached_le H table alpha msg
  rw [← List.reduceOption_length_eq_iff]
  omega

theorem length_reached_eq_unvisited_iff :
    (table.chosen H alpha msg).reduceOption.length = (table.unvisited H msg).length ↔
      ∀ node ∈ table.unvisited H msg, some node ∈ table.chosen H alpha msg := by
  have hsubperm := List.subperm_of_subset (nodup_reached H)
    (@reached_subset_unvisited H table alpha msg)
  constructor
  · intro hlength node hnode
    have hperm := hsubperm.perm_of_length_le hlength.ge
    exact List.reduceOption_mem_iff.mp (hperm.mem_iff.mpr hnode)
  · intro hall
    have hnodup : (table.unvisited H msg).Nodup := (List.nodup_dedup _).filter _
    have hback := List.subperm_of_subset hnodup fun node hnode =>
      List.reduceOption_mem_iff.mpr (hall node hnode)
    exact Nat.le_antisymm hsubperm.length_le hback.length_le

end Reached

/-- **Fan-out.** A random walk reaches as many peers as it may exactly if no incoming connection
gets in its way. -/
theorem fullyUsed_walk_iff {quasar : Quasar} {table : PeerTable}
    (hprotocol : quasar.protocol = some table.protocol) {msg : RouteMessage}
    {negative : List Bytes} (hrandom : quasar.directedTarget H msg.topic negative = none)
    (hfits : msg.serialize.isSome = true)
    (hdistinguishes : Quasar.Distinguishes H msg.visited table.connected) :
    table.FullyUsed H quasar.alpha.toNat msg (quasar.walk H msg negative) ↔
      table.Unblocked H quasar.alpha.toNat msg := by
  have hsubset := @reached_subset_unvisited H table quasar.alpha.toNat msg
  have hleAlpha := (@length_reached_le H table quasar.alpha.toNat msg).1.trans
    (length_reached_le H).2
  have hleUnvisited := (List.subperm_of_subset (nodup_reached H) hsubset).length_le
  have hmin : (table.chosen H quasar.alpha.toNat msg).reduceOption.length =
      min quasar.alpha.toNat (table.unvisited H msg).length ↔
        (table.chosen H quasar.alpha.toNat msg).reduceOption.length = quasar.alpha.toNat ∨
          (table.chosen H quasar.alpha.toNat msg).reduceOption.length =
            (table.unvisited H msg).length := by
    omega
  rw [FullyUsed, recipients_walk H hprotocol hrandom hfits hdistinguishes, hmin,
    length_reached_eq_alpha_iff, length_reached_eq_unvisited_iff]
  refine ⟨fun hused => hused.2.2, fun hunblocked => ⟨nodup_reached H, ?_, hunblocked⟩⟩
  exact fun node hnode => List.mem_of_mem_filter (hsubset hnode)

/-- A table with one connection in each direction, the outgoing one first. -/
def outgoingFirst : PeerTable :=
  Runs.run step (start 9000) [.connect ⟨2, 9001⟩, .accept ⟨3, 9002⟩]

def incomingFirst : PeerTable :=
  Runs.run step (start 9000) [.accept ⟨3, 9002⟩, .connect ⟨2, 9001⟩]

open Network (byteHash)

theorem fullyUsed_walk_outgoingFirst :
    outgoingFirst.FullyUsed byteHash 1 firstMessage
      ((Quasar.create (some outgoingFirst.protocol) 3 1 64 3).walk byteHash
        firstMessage []) := by
  have hdistinguishes : Quasar.Distinguishes byteHash firstMessage.visited
      outgoingFirst.connected :=
    Quasar.distinguishes_of_ownBit byteHash (by decide +kernel)
  refine (@fullyUsed_walk_iff byteHash
    (Quasar.create (some outgoingFirst.protocol) 3 1 64 3) outgoingFirst rfl firstMessage []
    (by decide +kernel) (by decide +kernel) hdistinguishes).mpr ?_
  exact Or.inl ⟨by decide +kernel, by decide +kernel⟩

/-- The incoming connection takes the only place: nobody gets the message, though two peers are
connected and none of them has been visited. -/
theorem not_fullyUsed_walk_incomingFirst :
    Quasar.Distinguishes byteHash firstMessage.visited incomingFirst.connected ∧
    incomingFirst.unvisited byteHash firstMessage = [⟨3, 9002⟩, ⟨2, 9001⟩] ∧
    ¬incomingFirst.FullyUsed byteHash 1 firstMessage
      ((Quasar.create (some incomingFirst.protocol) 3 1 64 3).walk byteHash
        firstMessage []) := by
  refine ⟨Quasar.distinguishes_of_ownBit byteHash (by decide +kernel),
    by decide +kernel, ?_⟩
  rintro ⟨-, -, hlength⟩
  exact absurd hlength (by decide +kernel)

end PeerTable

end Poseidon
