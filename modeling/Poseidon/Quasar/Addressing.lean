import Poseidon.Lib.Runs
import Poseidon.Quasar.Network

/-!
# Who a node says it is

A node enters itself into filters and messages under the address its protocol reports. That is the
address its listener is bound to, `INADDR_ANY`, with the port it listens on. The other nodes know
it by the address they reach it at. So the key a node uses for itself is not the one the others
use for it, and nodes that listen on the same port all use the same one.
-/

namespace Poseidon

theorem MeridianNode.key_injective : Function.Injective MeridianNode.key := by
  rintro ⟨leftAddr, leftPort⟩ ⟨rightAddr, rightPort⟩ hkey
  obtain ⟨haddr, hport⟩ := List.append_inj hkey (by simp)
  have haddr' : leftAddr = rightAddr := by
    apply UInt32.toNat_inj.mp
    apply eq_of_leBytes_eq _ _ haddr
    · exact Nat.lt_of_lt_of_eq leftAddr.toNat_lt (by norm_num)
    · exact Nat.lt_of_lt_of_eq rightAddr.toNat_lt (by norm_num)
  have hport' : leftPort = rightPort := by
    apply UInt16.toNat_inj.mp
    apply eq_of_leBytes_eq _ _ hport
    · exact Nat.lt_of_lt_of_eq leftPort.toNat_lt (by norm_num)
    · exact Nat.lt_of_lt_of_eq rightPort.toNat_lt (by norm_num)
  rw [haddr', hport']

/-! ### The address a protocol reports -/

namespace MeridianProtocol

/-- A connection to the listener; its peer is recorded without a node. -/
def accept (protocol : MeridianProtocol) : MeridianProtocol :=
  if protocol.peerNodes.length < 64 then
    { protocol with peerNodes := protocol.peerNodes ++ [none] }
  else protocol

inductive Operation where
  | start
  | stop
  | connect (addr : UInt32) (port : UInt16)
  | accept
  | addSeedNode (seed : MeridianNode)
deriving DecidableEq, Repr

def perform (protocol : MeridianProtocol) : Operation → MeridianProtocol
  | .start => protocol.start
  | .stop => protocol.stop
  | .connect addr port => (protocol.connect addr port).2
  | .accept => protocol.accept
  | .addSeedNode seed => protocol.addSeedNode seed

structure Listens (port : UInt16) (protocol : MeridianProtocol) : Prop where
  listenPort : protocol.listenPort = port
  localNode : protocol.running = true → protocol.localAddr = 0 ∧ protocol.localPort = port

theorem listens_create (port : UInt16) : (create port).Listens port := by
  refine ⟨rfl, fun hrunning => ?_⟩
  exact absurd hrunning Bool.false_ne_true

theorem Listens.perform {port : UInt16} {protocol : MeridianProtocol}
    (hlistens : protocol.Listens port) (operation : Operation) :
    (protocol.perform operation).Listens port := by
  obtain ⟨hport, hnode⟩ := hlistens
  cases operation with
  | start =>
      simp only [MeridianProtocol.perform, start]
      split_ifs
      · exact ⟨hport, hnode⟩
      · exact ⟨hport, fun _ => ⟨rfl, hport⟩⟩
  | stop =>
      simp only [MeridianProtocol.perform, stop]
      split_ifs
      · exact ⟨hport, fun hrunning => absurd hrunning Bool.false_ne_true⟩
      · exact ⟨hport, hnode⟩
  | connect addr port =>
      simp only [MeridianProtocol.perform, connect]
      split_ifs <;> exact ⟨hport, hnode⟩
  | accept =>
      simp only [MeridianProtocol.perform, accept]
      split_ifs <;> exact ⟨hport, hnode⟩
  | addSeedNode seed =>
      simp only [MeridianProtocol.perform, addSeedNode]
      split_ifs <;> exact ⟨hport, hnode⟩

theorem listens_run (port : UInt16) (history : List Operation) :
    (Runs.run perform (create port) history).Listens port :=
  Runs.invariant perform (Listens port) (fun _ operation hlistens => hlistens.perform operation)
    (listens_create port)

end MeridianProtocol

/-! ### Running nodes -/

/-- A running node, with the record by which the others reach it: its network address and the port
it listens on. -/
structure Host where
  record : MeridianNode
  history : List MeridianProtocol.Operation
  quasar : Quasar
  protocol_eq : quasar.protocol =
    some (Runs.run MeridianProtocol.perform (.create record.port) history)
  running : (Runs.run MeridianProtocol.perform (.create record.port) history).running = true

namespace Host

/-- The key a node enters for itself as subscriber, publisher or visited node. -/
def ownKey (host : Host) : Bytes :=
  host.quasar.localNode.key

theorem localNode_eq (host : Host) : host.quasar.localNode = ⟨0, host.record.port⟩ := by
  have hlistens := MeridianProtocol.listens_run host.record.port host.history
  obtain ⟨haddr, hport⟩ := hlistens.localNode host.running
  rw [Quasar.localNode, host.protocol_eq]
  simp only [MeridianProtocol.getLocalNode, host.running, if_true]
  rw [haddr, hport]

theorem ownKey_eq_key_iff (host : Host) (node : MeridianNode) :
    host.ownKey = node.key ↔ node.addr = 0 ∧ node.port = host.record.port := by
  rw [ownKey, MeridianNode.key_injective.eq_iff, host.localNode_eq]
  constructor
  · rintro rfl
    exact ⟨rfl, rfl⟩
  · rintro ⟨haddr, hport⟩
    rw [← haddr, ← hport]

theorem ownKey_eq_ownKey_iff (host other : Host) :
    host.ownKey = other.ownKey ↔ host.record.port = other.record.port := by
  calc host.ownKey = other.ownKey
      ↔ other.quasar.localNode.addr = 0 ∧ other.quasar.localNode.port = host.record.port :=
        host.ownKey_eq_key_iff other.quasar.localNode
    _ ↔ host.record.port = other.record.port := by
        rw [other.localNode_eq, eq_comm (a := host.record.port)]
        exact and_iff_right rfl

end Host

/-! ### Negative information -/

namespace Quasar

variable (H : HashFn)

/-- The keys that keep `publish` from following a level. -/
def negativeKeys (quasar : Quasar) : List Bytes :=
  if quasar.localNode.addr ≠ 0 ∨ quasar.localNode.port ≠ 0 then [quasar.localNode.key] else []

theorem publish_eq_walk {quasar : Quasar} {topic : Bytes}
    (hsubscribed : quasar.isLocallySubscribed topic = false)
    (hprotocol : quasar.protocol.isNone = false) (ids : Nat → MessageId) (data : Bytes) :
    (quasar.publish H ids topic data).2 =
      quasar.walk H (quasar.signedMessage H (ids 0) topic data) quasar.negativeKeys := by
  simp only [publish, hsubscribed, hprotocol]
  rfl

/-- `publish` treats a level that matches the topic as negated. -/
def Negates (quasar : Quasar) (level : ElasticBloomFilter) (topic : Bytes) : Prop :=
  level.contains H topic = true ∧ quasar.negativeKeys.any (level.contains H) = true

instance (quasar : Quasar) (level : ElasticBloomFilter) (topic : Bytes) :
    Decidable (quasar.Negates H level topic) :=
  inferInstanceAs (Decidable (_ ∧ _))

theorem any_negativeKeys_iff {quasar : Quasar} (level : ElasticBloomFilter) :
    quasar.negativeKeys.any (level.contains H) = true ↔
      (quasar.localNode.addr ≠ 0 ∨ quasar.localNode.port ≠ 0) ∧
        level.contains H quasar.localNode.key = true := by
  unfold negativeKeys
  split_ifs with haddress
  · rw [List.any_cons, List.any_nil, Bool.or_false]
    exact (and_iff_right haddress).symm
  · exact iff_of_false Bool.false_ne_true fun hboth => haddress hboth.1

end Quasar

namespace Host

/-- **Identity.** A node's key for itself is the key of its record exactly if its network address
is the unspecified one; it differs from the keys of another node exactly if they listen on
different ports; and `publish` takes a matching level as negated only where the publishing node is
recorded exactly if no other node recorded there listens on its port. -/
theorem identity_iff (H : HashFn) (publisher other : Host) {level : ElasticBloomFilter}
    {topic : Bytes} (recorded : List Host) (hmatch : level.contains H topic = true)
    (hcollision : level.contains H publisher.ownKey = true ↔
      ∃ host ∈ recorded, host.ownKey = publisher.ownKey) :
    (publisher.ownKey = publisher.record.key ↔ publisher.record.addr = 0) ∧
    (publisher.ownKey ≠ other.ownKey ∧ publisher.ownKey ≠ other.record.key ↔
      publisher.record.port ≠ other.record.port) ∧
    ((publisher.quasar.Negates H level topic →
        ∃ host ∈ recorded, host.record = publisher.record) ↔
      publisher.record.port = 0 ∨ ∀ host ∈ recorded, host.record.port = publisher.record.port →
        ∃ host ∈ recorded, host.record = publisher.record) := by
  have hnegates : publisher.quasar.Negates H level topic ↔
      publisher.record.port ≠ 0 ∧
        ∃ host ∈ recorded, host.record.port = publisher.record.port := by
    calc publisher.quasar.Negates H level topic
        ↔ publisher.record.port ≠ 0 ∧ level.contains H publisher.ownKey = true := by
          rw [Quasar.Negates, and_iff_right hmatch, Quasar.any_negativeKeys_iff,
            publisher.localNode_eq, ownKey, publisher.localNode_eq]
          simp
      _ ↔ publisher.record.port ≠ 0 ∧
            ∃ host ∈ recorded, host.record.port = publisher.record.port := by
          simp only [hcollision, ownKey_eq_ownKey_iff]
  refine ⟨?_, ?_, ?_⟩
  · rw [ownKey_eq_key_iff]
    exact and_iff_left rfl
  · rw [ne_eq, ne_eq, ownKey_eq_ownKey_iff, ownKey_eq_key_iff]
    constructor
    · exact fun hdiffers => hdiffers.1
    · intro hports
      exact ⟨hports, fun hrecord => hports hrecord.2.symm⟩
  · rw [hnegates]
    constructor
    · intro hself
      by_cases hzero : publisher.record.port = 0
      · exact .inl hzero
      · exact .inr fun host hhost hport => hself ⟨hzero, host, hhost, hport⟩
    · rintro (hzero | hnone) ⟨hport, host, hhost, hsame⟩
      · exact absurd hzero hport
      · exact hnone host hhost hsame

/-! ### Two nodes that listen on one port -/

def started (port : UInt16) : MeridianProtocol :=
  Runs.run MeridianProtocol.perform (.create port) [.start]

def idle (addr : UInt32) (port : UInt16) : Host where
  record := ⟨addr, port⟩
  history := [.start]
  quasar := Quasar.create (some (started port)) 3 3 64 3
  protocol_eq := rfl
  running := rfl

open Network (byteHash)

def subscribed (addr : UInt32) (port : UInt16) : Host where
  record := ⟨addr, port⟩
  history := [.start]
  quasar := (Quasar.create (some (started port)) 3 3 64 3).subscribe byteHash [1] 0
  protocol_eq := rfl
  running := rfl

def levelZero (host : Host) : ElasticBloomFilter :=
  host.quasar.routing.levels.headD (.create 1 0 1 0)

theorem identity_iff_differentPorts :
    ((subscribed 2 9001).levelZero.contains byteHash [1] = true ∧
      (idle 1 9000).record ≠ (subscribed 2 9001).record) ∧
    ((idle 1 9000).ownKey ≠ (subscribed 2 9001).ownKey ∧
      ¬(idle 1 9000).quasar.Negates byteHash (subscribed 2 9001).levelZero [1]) := by
  have hmatch : (subscribed 2 9001).levelZero.contains byteHash [1] = true := by
    decide +kernel
  have hown : ¬(subscribed 2 9001).levelZero.contains byteHash
      (idle 1 9000).ownKey = true := by
    decide +kernel
  have hother : ¬∃ host ∈ [subscribed 2 9001], host.ownKey = (idle 1 9000).ownKey := by
    simp only [List.mem_singleton, exists_eq_left]
    decide +kernel
  have hidentity := identity_iff byteHash (idle 1 9000) (subscribed 2 9001)
    [subscribed 2 9001] hmatch (iff_of_false hown hother)
  refine ⟨⟨hmatch, by decide⟩, (hidentity.2.1.mpr (by decide)).1, ?_⟩
  intro hnegates
  have hnone : ∀ host ∈ [subscribed 2 9001], host.record.port = (idle 1 9000).record.port →
      ∃ host ∈ [subscribed 2 9001], host.record = (idle 1 9000).record := by
    intro host hhost hport
    obtain rfl := List.mem_singleton.mp hhost
    exact absurd hport (by decide)
  obtain ⟨host, hhost, hrecord⟩ := hidentity.2.2.mpr (.inr hnone) hnegates
  obtain rfl := List.mem_singleton.mp hhost
  exact absurd hrecord (by decide)

/-- The only subscriber is another node on the same port. The publisher holds its filter,
takes the level as negated and sends the message nowhere. -/
theorem identity_shared :
    (idle 1 9000).ownKey ≠ (idle 1 9000).record.key ∧
    (idle 1 9000).ownKey = (subscribed 2 9000).ownKey ∧
    (idle 1 9000).quasar.Negates byteHash (subscribed 2 9000).levelZero [1] ∧
    (((idle 1 9000).quasar.storeNeighborFilter (subscribed 2 9000).record
      (subscribed 2 9000).quasar.routing).publish byteHash (fun _ => ⟨1, 1, 1⟩) [1]
        [7]).2 = [] := by
  refine ⟨by decide +kernel, by decide +kernel, by decide +kernel, by decide +kernel⟩

end Host

/-- A message of the topic `1` that has visited no node. -/
def firstMessage : RouteMessage :=
  .create ⟨1, 1, 1⟩ [1] [7] 3 64 3

end Poseidon
