import Poseidon.Channel.SignedNotice
import Poseidon.Client.Protocol

/-!
# Authorization of admin requests

The owner of a channel asks the server to destroy or modify it by a request signed with the
channel's key. The client signs the method, the topic and the time, and sends the method, the topic
and the signature; the server checks the signature against the method and the topic alone. So it
refuses every owner, as long as a signature is not also one of a beginning of the signed text.
-/

namespace Poseidon

open Cbor

variable {crypto : Crypto}

/-! ### The client -/

namespace NoticeOrder

/-- `CLIENT_METHOD_CHANNEL_DESTROY` and `CLIENT_METHOD_CHANNEL_MODIFY`. -/
def method : NoticeOrder → UInt8
  | .delete => 4
  | .modify _ => 5

/-- The memory of the configuration, sent as it is. -/
def configMemory : NoticeOrder → Bytes
  | .delete => []
  | .modify config =>
      (config.ringSizes ++ [config.gossipInitIntervalS, config.gossipSteadyIntervalS,
        config.gossipNumInitIntervals, config.quasarMaxHops, config.quasarAlpha,
        config.quasarSeenSize, config.quasarSeenHashes]).flatMap fun field => leBytes 4 field.toNat

theorem length_configMemory_le (order : NoticeOrder) : order.configMemory.length ≤ maxPayload := by
  cases order with
  | delete => exact Nat.zero_le _
  | modify config =>
      rw [configMemory, length_flatMap_of_width fun _ => length_leBytes 4 _, List.length_append,
        config.length_ringSizes]
      change 4 * (10 + 7) ≤ 65536
      norm_num

end NoticeOrder

namespace Client

def dataToSign (order : NoticeOrder) (topicId : Bytes) (timestampUs : UInt64) : Bytes :=
  order.method :: (topicId ++ beBytes 8 timestampUs.toNat)

/-- `poseidon_client_channel_destroy` and `poseidon_client_channel_modify`: what they send. -/
def adminRequest (ownerKey : KeyPair) (order : NoticeOrder) (topicId : Bytes) (requestId : UInt32)
    (timestampUs : UInt64) : Option Item :=
  if topicId.length > maxTopicPath then none
  else
    (ownerKey.sign (dataToSign order topicId timestampUs)).map fun signature =>
      ClientProtocol.encodeAdminRequest requestId order.method topicId signature
        order.configMemory

end Client

/-! ### The server -/

def RequestFrame.dataToVerify (frame : RequestFrame) : Bytes :=
  frame.method :: frame.topicPath.bytes

/-- `verify_channel_owner_signature`, for a channel with the given key pair. -/
def verifyChannelOwnerSignature (crypto : Crypto) (keyPair : KeyPair) (frame : RequestFrame) :
    Bool :=
  frame.signature.bytes != [] &&
    crypto.verifySignatureWithKey keyPair.keyType.name keyPair.publicKey frame.dataToVerify
      frame.signature.bytes

/-! ### The outcome -/

namespace KeyPair

/-- The library's documentation holds for the pair, if it can sign at all. -/
def Conforms (crypto : Crypto) (keyPair : KeyPair) : Prop :=
  keyPair.keyType = .ed25519 → keyPair.IsEd25519 crypto

/-- The signature of a text, of those a client signs, is not accepted for a part at its front. -/
def BindsWholeText (crypto : Crypto) (keyPair : KeyPair) : Prop :=
  ∀ text front : Bytes, text.length ≤ 1 + maxTopicPath + 8 → front <+: text → front ≠ text →
    crypto.digestVerify keyPair.keyType keyPair.publicKey front (keyPair.digestSign text) = false

theorem bindsWholeText_tagged : KeyPair.tagged.BindsWholeText Crypto.tagged := by
  intro text front hlength hfront hne
  have hshort : front.length < text.length := by
    refine lt_of_le_of_ne hfront.length_le fun heq => hne (hfront.eq_of_length heq)
  change text.length ≤ 265 at hlength
  refine beq_false_of_ne fun htags => ?_
  have hlengths : beBytes 2 text.length = beBytes 2 front.length :=
    List.append_inj_left htags (by rw [length_beBytes, length_beBytes])
  have hsame := congrArg beNat hlengths
  rw [beNat_beBytes (by omega), beNat_beBytes (by omega)] at hsame
  omega

end KeyPair

/-- The request of an owner who can sign is built, and what arrives of it fails the check. -/
theorem refused_adminRequest {keyPair : KeyPair} (hkey : keyPair.IsEd25519 crypto)
    (hbinds : keyPair.BindsWholeText crypto) (channel : Channel crypto) (order : NoticeOrder)
    (requestId : UInt32) (timestampUs : UInt64) :
    ∃ item frame, Client.adminRequest keyPair order channel.topic requestId timestampUs =
        some item ∧
      ClientProtocol.SentAs item (.request frame) ∧ frame.requestId = requestId ∧
      frame.method = order.method ∧ frame.topicPath.bytes = channel.topic ∧
      verifyChannelOwnerSignature crypto keyPair frame = false := by
  have hlength : channel.topic.length < 48 := channel.nodeId.str.length_lt
  let text := Client.dataToSign order channel.topic timestampUs
  let frame : RequestFrame :=
    { requestId := requestId
      method := order.method
      topicPath := ⟨channel.topic, lt_trans hlength (by decide), channel.nodeId.str.zero_not_mem⟩
      signature := ⟨keyPair.digestSign text, (hkey.length_digestSign text).le⟩
      payload := ⟨order.configMemory, order.length_configMemory_le⟩ }
  have hsent := ClientProtocol.SentAs.admin frame.requestId frame.method frame.topicPath
    frame.signature frame.payload
  refine ⟨_, frame, ?_, hsent, rfl, rfl, rfl, ?_⟩
  · unfold Client.adminRequest
    have hshort : ¬ channel.topic.length > maxTopicPath := by
      change ¬ channel.topic.length > 256
      omega
    rw [if_neg hshort, hkey.sign_eq, Option.map_some]
  · have hfront : frame.dataToVerify <+: text := by
      exact ⟨beBytes 8 timestampUs.toNat, rfl⟩
    have hne : frame.dataToVerify ≠ text := by
      intro heq
      have hlengths := congrArg List.length heq
      simp [RequestFrame.dataToVerify, text, Client.dataToSign, frame] at hlengths
    have htext : text.length ≤ 1 + maxTopicPath + 8 := by
      have hcount : text.length = channel.topic.length + 8 + 1 := by
        simp [text, Client.dataToSign]
      change text.length ≤ 265
      omega
    unfold verifyChannelOwnerSignature Crypto.verifySignatureWithKey
    rw [KeyType.ofName_name]
    dsimp only
    rw [hbinds text frame.dataToVerify htext hfront hne, Bool.and_false]

end Poseidon
