import Poseidon.Channel.Flooding
import Poseidon.Crypto.KeyPair

/-!
# Signed notices stay verifiable

The owner of a channel signs the notice that deletes or reconfigures it. The notice then travels:
it is encoded and read again by each node it passes, and a node that missed it gets it rebuilt from
the tombstone of a node that has it. Whatever way it takes, it is the notice that was signed.
-/

namespace Poseidon

open Cbor

variable {crypto : Crypto}

/-! ### Creation -/

structure OwnedChannel (crypto : Crypto) where
  channel : Channel crypto
  keyPair : KeyPair
  publicKey_eq : keyPair.publicKey = channel.publicKey

/-- What the owner asks for: the channel to be deleted, or to have a new configuration. -/
inductive NoticeOrder where
  | delete
  | modify (config : ChannelConfig)
deriving DecidableEq, Repr

namespace NoticeOrder

def type : NoticeOrder → Nat
  | .delete => deleteNoticeType
  | .modify _ => modifyNoticeType

def configItems : NoticeOrder → List Item
  | .delete => []
  | .modify config => [config.encode]

def notice : NoticeOrder → NoticeBody → Notice
  | .delete, body => .delete body
  | .modify config, body => .modify body config

end NoticeOrder

def Notice.order : Notice → NoticeOrder
  | .delete _ => .delete
  | .modify _ config => .modify config

@[simp]
theorem NoticeOrder.order_notice (order : NoticeOrder) (body : NoticeBody) :
    (order.notice body).order = order := by
  cases order <;> rfl

@[simp]
theorem NoticeOrder.body_notice (order : NoticeOrder) (body : NoticeBody) :
    (order.notice body).body = body := by
  cases order <;> rfl

/-- `build_delete_signable` and `build_modify_signable` on the strings of the channel. -/
def buildSignable (order : NoticeOrder) (topicId nodeId keyType publicKey : Bytes)
    (timestampUs : UInt64) : Item :=
  .array ([.uint .w8 order.type, .string topicId, .string nodeId, .string keyType,
    .bytestring publicKey, .uint .w64 timestampUs.toNat] ++ order.configItems)

namespace OwnedChannel

/-- `poseidon_channel_create_delete_notice` and `poseidon_channel_create_modify_notice`, at the
time the clock shows. -/
def createNotice (owned : OwnedChannel crypto) (order : NoticeOrder) (timestampUs : UInt64) :
    Option Notice :=
  let topic := owned.channel.topic
  let nodeId := owned.channel.nodeId.str.bytes
  let keyType := owned.keyPair.keyType.name
  if hkey : owned.keyPair.publicKey.length ≤ 64 then
    let signable := buildSignable order topic nodeId keyType owned.keyPair.publicKey timestampUs
    match owned.keyPair.sign (serialize signable) with
    | none => none
    | some signature =>
        if hsignature : signature.length ≤ 64 then
          some (order.notice
            { topicId := CString.copy 63 topic
              nodeId := CString.copy 63 nodeId
              keyType := CString.copy 15 keyType
              publicKey := owned.keyPair.publicKey
              length_publicKey := hkey
              timestampUs := timestampUs
              signature := signature
              length_signature := hsignature })
        else none
  else none

/-- The body of a notice of this channel: its identity, its key and a signature of what the order
says. -/
structure Signs (owned : OwnedChannel crypto) (order : NoticeOrder) (timestampUs : UInt64)
    (body : NoticeBody) : Prop where
  topicId_eq : body.topicId.bytes = owned.channel.topic
  nodeId_eq : body.nodeId.bytes = owned.channel.topic
  keyType_eq : body.keyType.bytes = owned.keyPair.keyType.name
  publicKey_eq : body.publicKey = owned.keyPair.publicKey
  timestampUs_eq : body.timestampUs = timestampUs
  signature_eq : body.signature =
    owned.keyPair.digestSign (serialize (order.notice body).signable)

theorem signable_eq {order : NoticeOrder} (body : NoticeBody) :
    (order.notice body).signable = buildSignable order body.topicId.bytes body.nodeId.bytes
      body.keyType.bytes body.publicKey body.timestampUs := by
  cases order <;> rfl

theorem exists_body_of_createNotice {owned : OwnedChannel crypto} {order : NoticeOrder}
    {timestampUs : UInt64} {notice : Notice}
    (hnotice : owned.createNotice order timestampUs = some notice) :
    ∃ body, notice = order.notice body := by
  unfold createNotice at hnotice
  dsimp only at hnotice
  split at hnotice
  · split at hnotice
    · cases hnotice
    · split at hnotice
      · exact ⟨_, (Option.some.inj hnotice).symm⟩
      · cases hnotice
  · cases hnotice

theorem createNotice_eq_some (owned : OwnedChannel crypto)
    (hkey : owned.keyPair.IsEd25519 crypto) (order : NoticeOrder) (timestampUs : UInt64) :
    ∃ body, owned.createNotice order timestampUs = some (order.notice body) ∧
      owned.Signs order timestampUs body := by
  have hroom : owned.keyPair.publicKey.length ≤ 64 := by
    rw [hkey.length_publicKey]
    norm_num
  have htopic : (CString.copy 63 owned.channel.topic).bytes = owned.channel.topic := by
    refine CString.bytes_copy ?_ owned.channel.nodeId.str.zero_not_mem
    have hlength := owned.channel.nodeId.str.length_lt
    exact Nat.le_of_lt (lt_of_lt_of_le hlength (by decide))
  have hname : (CString.copy 15 owned.keyPair.keyType.name).bytes =
      owned.keyPair.keyType.name := by
    rw [hkey.keyType_eq]
    rfl
  have hsignature := hkey.length_digestSign (serialize (buildSignable order owned.channel.topic
    owned.channel.topic owned.keyPair.keyType.name owned.keyPair.publicKey timestampUs))
  let body : NoticeBody :=
    { topicId := CString.copy 63 owned.channel.topic
      nodeId := CString.copy 63 owned.channel.topic
      keyType := CString.copy 15 owned.keyPair.keyType.name
      publicKey := owned.keyPair.publicKey
      length_publicKey := hroom
      timestampUs := timestampUs
      signature := _
      length_signature := hsignature.le }
  refine ⟨body, ?_, htopic, htopic, hname, rfl, rfl, ?_⟩
  · unfold createNotice
    dsimp only
    rw [dif_pos hroom, hkey.sign_eq]
    exact dif_pos hsignature.le
  · rw [signable_eq, htopic, hname]

theorem Signs.verify {owned : OwnedChannel crypto} {order : NoticeOrder} {timestampUs : UInt64}
    {body : NoticeBody} (hsigns : owned.Signs order timestampUs body)
    (hkey : owned.keyPair.IsEd25519 crypto) : (order.notice body).verify crypto = true := by
  have hid := owned.channel.nodeId_eq
  rw [← owned.publicKey_eq] at hid
  obtain ⟨hstring, haccepts⟩ :=
    NodeId.verifyPublicKey_of_fromPublicKey hid hkey.publicKey_ne_nil
  have hnode : NodeId.fromString body.nodeId.bytes = some owned.channel.nodeId := by
    rw [hsigns.nodeId_eq]
    exact hstring
  unfold Notice.verify
  rw [NoticeOrder.body_notice, hnode]
  dsimp only
  rw [hsigns.publicKey_eq, haccepts, hsigns.keyType_eq, hsigns.signature_eq,
    hkey.verifySignatureWithKey]
  rfl

end OwnedChannel

/-! ### The way of a notice -/

/-- The decoder the packet type selects, without a check of the signature. -/
def Notice.decodeAs (notice : Notice) (data : Bytes) : Option Notice :=
  match notice with
  | .delete _ => (load data).bind Notice.decodeDelete
  | .modify _ _ => (load data).bind Notice.decodeModify

theorem Notice.decodeAs_serialize (notice : Notice) :
    notice.decodeAs (serialize notice.encode) = some notice := by
  unfold Notice.decodeAs
  rw [load_serialize notice.fits_encode]
  cases notice with
  | delete body => exact Notice.decodeDelete_encode body
  | modify body config => exact Notice.decodeModify_encode body config

/-- A hop of a notice: over the wire, or into the tombstones of a manager, out of which it is
rebuilt when a bootstrap request for its topic comes. -/
inductive Hop (crypto : Crypto) where
  | wire
  | tombstone (manager : Manager crypto) (stored asked : ClockReading)

namespace Hop

/-- The manager stores the notice, and does not keep an older one of its own. -/
def Stores (notice : Notice) : Hop crypto → Prop
  | .wire => True
  | .tombstone manager stored _ =>
      manager.stores (Manager.tombstoneOf notice stored) = true

def carry (notice : Notice) : Hop crypto → Option Notice
  | .wire => notice.decodeAs (serialize notice.encode)
  | .tombstone manager stored asked =>
      let holder := manager.addTombstone (Manager.tombstoneOf notice stored)
      match holder.handleBootstrapRequest notice.body.topicId.bytes asked with
      | [.publish publication] => notice.decodeAs publication.data
      | _ => none

theorem carry_eq {notice : Notice} {hop : Hop crypto} (hstores : hop.Stores notice) :
    hop.carry notice = some notice := by
  cases hop with
  | wire => exact notice.decodeAs_serialize
  | tombstone manager stored asked =>
      have hfind := Manager.findTombstone_addTombstone hstores notice.body.topicId.bytes
      rw [Manager.tombstoneOf_topicId, if_pos rfl] at hfind
      unfold carry Manager.handleBootstrapRequest
      dsimp only
      rw [hfind]
      exact notice.decodeAs_serialize

end Hop

/-- The hops a notice takes one after another. -/
def Notice.travel (notice : Notice) : List (Hop crypto) → Option Notice
  | [] => some notice
  | hop :: hops => (hop.carry notice).bind (·.travel hops)

theorem Notice.travel_eq {notice : Notice} {hops : List (Hop crypto)}
    (hstores : ∀ hop ∈ hops, hop.Stores notice) : notice.travel hops = some notice := by
  induction hops with
  | nil => rfl
  | cons hop hops ih =>
      rw [Notice.travel, Hop.carry_eq (hstores hop List.mem_cons_self), Option.bind_some]
      exact ih fun other hother => hstores other (List.mem_cons_of_mem _ hother)

/-- A server with one channel, which is its dial channel too. -/
def Manager.single (channel : Channel crypto) : Manager crypto where
  dial := channel
  channels := [channel]
  nextAddress := 2
  nextPort := 4001
  portRangeEnd := 4010
  pending := []
  tombstones := []

theorem Channel.exists_tagged :
    ∃ channel : Channel Crypto.tagged, channel.publicKey = KeyPair.tagged.publicKey := by
  have hsome : (NodeId.fromPublicKey Crypto.tagged KeyPair.tagged.publicKey).isSome = true := by
    decide +kernel
  obtain ⟨id, hid⟩ := Option.isSome_iff_exists.mp hsome
  exact ⟨⟨1, KeyPair.tagged.publicKey, id, hid, .running, .defaults,
    Quasar.create none 5 3 4096 3, false⟩, rfl⟩

namespace OwnedChannel

/-- **End to end.** The notice an owner creates verifies, and so does what arrives of it over any
way it can take, with its topic, timestamp and configuration. -/
theorem notice_verifiable (owned : OwnedChannel crypto) (hkey : owned.keyPair.IsEd25519 crypto)
    (order : NoticeOrder) (timestampUs : UInt64) :
    ∃ notice, owned.createNotice order timestampUs = some notice ∧
      notice.verify crypto = true ∧ notice.body.topicId.bytes = owned.channel.topic ∧
      notice.body.timestampUs = timestampUs ∧ notice.order = order ∧
      ∀ hops : List (Hop crypto), (∀ hop ∈ hops, hop.Stores notice) →
        ∃ arrived, notice.travel hops = some arrived ∧ arrived.verify crypto = true ∧
          arrived.body.topicId.bytes = owned.channel.topic ∧
          arrived.body.timestampUs = timestampUs ∧ arrived.order = order := by
  obtain ⟨body, hcreate, hsigns⟩ := owned.createNotice_eq_some hkey order timestampUs
  have hverify := hsigns.verify hkey
  have htopic : (order.notice body).body.topicId.bytes = owned.channel.topic := by
    rw [NoticeOrder.body_notice, hsigns.topicId_eq]
  have htime : (order.notice body).body.timestampUs = timestampUs := by
    rw [NoticeOrder.body_notice, hsigns.timestampUs_eq]
  have horder := order.order_notice body
  refine ⟨order.notice body, hcreate, hverify, htopic, htime, horder, ?_⟩
  intro hops hstores
  exact ⟨order.notice body, Notice.travel_eq hstores, hverify, htopic, htime, horder⟩

/-- A deletion that crosses the wire, waits as a tombstone and crosses the wire again. -/
theorem notice_verifiable_tombstoned :
    ∃ (owned : OwnedChannel Crypto.tagged) (manager : Manager Crypto.tagged) (notice : Notice),
      owned.createNotice .delete 5 = some notice ∧
      ∃ arrived, notice.travel [.wire, .tombstone manager ⟨6, 6⟩ ⟨7, 7⟩, .wire] = some arrived ∧
        arrived.verify Crypto.tagged = true := by
  obtain ⟨channel, hpublic⟩ := Channel.exists_tagged
  let owned : OwnedChannel Crypto.tagged := ⟨channel, KeyPair.tagged, hpublic.symm⟩
  obtain ⟨notice, hcreate, -, -, -, -, htravel⟩ :=
    notice_verifiable owned KeyPair.isEd25519_tagged .delete 5
  obtain ⟨arrived, harrived, hverify, -⟩ :=
    htravel [.wire, .tombstone (Manager.single channel) ⟨6, 6⟩ ⟨7, 7⟩, .wire] (by
      intro hop hhop
      simp only [List.mem_cons, List.not_mem_nil, or_false] at hhop
      rcases hhop with rfl | rfl | rfl
      · trivial
      · rfl
      · trivial)
  exact ⟨owned, Manager.single channel, notice, hcreate, arrived, harrived, hverify⟩

end OwnedChannel

end Poseidon
