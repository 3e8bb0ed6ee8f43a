import Poseidon.Cbor.Load
import Poseidon.Crypto.NodeId
import Poseidon.Meridian.Protocol

/-!
# The packets of the dial channel

Bootstrap requests and replies, and the signed notices that delete a channel or give it a new
configuration, with their CBOR codecs. A decoder copies strings into cleared buffers behind a
length check, so what it returns is cut at the first zero byte.
-/

namespace Poseidon

open Cbor

/-! ### Channel configuration -/

def maxRings : Nat := 10

@[ext]
structure ChannelConfig where
  ringSizes : List UInt32
  length_ringSizes : ringSizes.length = maxRings
  gossipInitIntervalS : UInt32
  gossipSteadyIntervalS : UInt32
  gossipNumInitIntervals : UInt32
  quasarMaxHops : UInt32
  quasarAlpha : UInt32
  quasarSeenSize : UInt32
  quasarSeenHashes : UInt32
deriving DecidableEq, Repr

namespace ChannelConfig

def defaults : ChannelConfig where
  ringSizes := List.replicate maxRings 8
  length_ringSizes := List.length_replicate
  gossipInitIntervalS := 5
  gossipSteadyIntervalS := 30
  gossipNumInitIntervals := 6
  quasarMaxHops := 5
  quasarAlpha := 3
  quasarSeenSize := 1024
  quasarSeenHashes := 3

def setRing (config : ChannelConfig) (index : Nat) (value : UInt32) : ChannelConfig :=
  { config with
    ringSizes := config.ringSizes.set index value
    length_ringSizes := by rw [List.length_set, config.length_ringSizes] }

/-- The key `r0` to `r9` of a ring size. -/
def ringKey (index : Nat) : Bytes :=
  [114, UInt8.ofNat (48 + index)]

-- the keys `gis`, `gss`, `gni`, `qmh`, `qa`, `qss` and `qsh`

def gisKey : Bytes := [103, 105, 115]

def gssKey : Bytes := [103, 115, 115]

def gniKey : Bytes := [103, 110, 105]

def qmhKey : Bytes := [113, 109, 104]

def qaKey : Bytes := [113, 97]

def qssKey : Bytes := [113, 115, 115]

def qshKey : Bytes := [113, 115, 104]

def entry (key : Bytes) (value : UInt32) : List Item :=
  [.string key, .uint .w32 value.toNat]

def entries (config : ChannelConfig) : List Item :=
  (config.ringSizes.zipIdx.flatMap fun ring => entry (ringKey ring.2) ring.1) ++
    (entry gisKey config.gossipInitIntervalS ++ (entry gssKey config.gossipSteadyIntervalS ++
    (entry gniKey config.gossipNumInitIntervals ++ (entry qmhKey config.quasarMaxHops ++
    (entry qaKey config.quasarAlpha ++ (entry qssKey config.quasarSeenSize ++
    entry qshKey config.quasarSeenHashes))))))

def encode (config : ChannelConfig) : Item :=
  .map config.entries

/-- What one key of the map sets; an unknown key sets nothing. -/
def setKey (config : ChannelConfig) (key : Bytes) (value : UInt32) : ChannelConfig :=
  if key.length = 2 ∧ key.getD 0 0 = 114 ∧ 48 ≤ key.getD 1 0 ∧ key.getD 1 0 ≤ 57 then
    config.setRing (key.getD 1 0 - 48).toNat value
  else if key = gisKey then { config with gossipInitIntervalS := value }
  else if key = gssKey then { config with gossipSteadyIntervalS := value }
  else if key = gniKey then { config with gossipNumInitIntervals := value }
  else if key = qmhKey then { config with quasarMaxHops := value }
  else if key = qaKey then { config with quasarAlpha := value }
  else if key = qssKey then { config with quasarSeenSize := value }
  else if key = qshKey then { config with quasarSeenHashes := value }
  else config

/-- The loop over the pairs of the map. Pairs of other types are skipped. -/
def readEntries [Memory] : ChannelConfig → List Item → ChannelConfig
  | config, key :: value :: rest =>
      match key.stringData with
      | some name =>
          readEntries (if value.isUint then config.setKey name (UInt32.ofNat value.getUint32)
            else config) rest
      | none => readEntries config rest
  | config, _ => config

end ChannelConfig

/-! ### Notices -/

/-- The fields that delete and modify notices share. -/
structure NoticeBody where
  topicId : CString 64
  nodeId : CString 64
  keyType : CString 16
  publicKey : Bytes
  length_publicKey : publicKey.length ≤ 64
  timestampUs : UInt64
  signature : Bytes
  length_signature : signature.length ≤ 64
deriving DecidableEq, Repr

/-- `meridian_channel_delete_notice_t` and `meridian_channel_modify_notice_t`. -/
inductive Notice where
  | delete (body : NoticeBody)
  | modify (body : NoticeBody) (config : ChannelConfig)
deriving DecidableEq, Repr

def deleteNoticeType : Nat := 60

def modifyNoticeType : Nat := 61

namespace NoticeBody

def signedFields (body : NoticeBody) (type : Nat) : List Item :=
  [.uint .w8 type, .string body.topicId.bytes, .string body.nodeId.bytes,
    .string body.keyType.bytes, .bytestring body.publicKey, .uint .w64 body.timestampUs.toNat]

/-- The checks and copies that both notice decoders make. -/
def read [Memory] (topicId nodeId keyType publicKey timestampUs signature : Item) :
    Option NoticeBody :=
  do
    let topicId ← topicId.stringData.bind (CString.ofMemory 64)
    let nodeId ← nodeId.stringData.bind (CString.ofMemory 64)
    let keyType ← keyType.stringData.bind (CString.ofMemory 16)
    let publicKey ← publicKey.bytestringData
    let signature ← signature.bytestringData
    if hkey : publicKey.length ≤ 64 then
      if hsignature : signature.length ≤ 64 then
        if timestampUs.isUint then
          some ⟨topicId, nodeId, keyType, publicKey, hkey, UInt64.ofNat timestampUs.getUint64,
            signature, hsignature⟩
        else none
      else none
    else none

end NoticeBody

namespace Notice

def body : Notice → NoticeBody
  | .delete body => body
  | .modify body _ => body

/-- `build_delete_signable` and `build_modify_signable`. -/
def signable : Notice → Item
  | .delete body => .array (body.signedFields deleteNoticeType)
  | .modify body config => .array (body.signedFields modifyNoticeType ++ [config.encode])

def encode : Notice → Item
  | .delete body => .array (body.signedFields deleteNoticeType ++ [.bytestring body.signature])
  | .modify body config =>
      .array (body.signedFields modifyNoticeType ++ [config.encode, .bytestring body.signature])

def decodeDelete [Memory] (item : Item) : Option Notice :=
  match item.arrayItems with
  | some [type, topicId, nodeId, keyType, publicKey, timestampUs, signature] =>
      if type.isUint then
        (NoticeBody.read topicId nodeId keyType publicKey timestampUs signature).map .delete
      else none
  | _ => none

def decodeModify [Memory] (item : Item) : Option Notice :=
  match item.arrayItems with
  | some [type, topicId, nodeId, keyType, publicKey, timestampUs, config, signature] =>
      match config.mapItems with
      | some entries =>
          if type.isUint then
            (NoticeBody.read topicId nodeId keyType publicKey timestampUs signature).map
              (.modify · (ChannelConfig.readEntries .defaults entries))
          else none
      | none => none
  | _ => none

/-- `poseidon_channel_verify_delete_notice` and `poseidon_channel_verify_modify_notice`. -/
def verify (crypto : Crypto) (notice : Notice) : Bool :=
  match NodeId.fromString notice.body.nodeId.bytes with
  | none => false
  | some expected =>
      expected.verifyPublicKey crypto notice.body.publicKey &&
        crypto.verifySignatureWithKey notice.body.keyType.bytes notice.body.publicKey
          (serialize notice.signable) notice.body.signature

end Notice

/-! ### Bootstrap -/

def bootstrapType : Nat := 40

def bootstrapReplyType : Nat := 41

structure BootstrapRequest where
  topicId : CString 64
  senderNodeId : CString 64
  timestampUs : UInt64
deriving DecidableEq, Repr

structure BootstrapReply where
  topicId : CString 64
  responderNodeId : CString 64
  responder : MeridianNode
  timestampUs : UInt64
  seeds : List MeridianNode
deriving DecidableEq, Repr

namespace BootstrapRequest

def encode (topicId senderNodeId : Bytes) (timestampUs : UInt64) : Item :=
  .array [.uint .w8 bootstrapType, .string topicId, .string senderNodeId,
    .uint .w64 timestampUs.toNat]

def decode [Memory] : Item → Option BootstrapRequest
  | .array (type :: topicId :: senderNodeId :: timestampUs :: _) =>
      do
        let topicId ← topicId.stringData.bind (CString.ofMemory 64)
        let senderNodeId ← senderNodeId.stringData.bind (CString.ofMemory 64)
        if type.isUint && type.getUint8 == bootstrapType && timestampUs.isUint then
          some ⟨topicId, senderNodeId, UInt64.ofNat timestampUs.getUint64⟩
        else none
  | _ => none

end BootstrapRequest

namespace BootstrapReply

def encodeSeed (seed : MeridianNode) : Item :=
  .array [.uint .w32 seed.addr.toNat, .uint .w16 seed.port.toNat]

def encode (topicId responderNodeId : Bytes) (responder : MeridianNode) (timestampUs : UInt64)
    (seeds : List MeridianNode) : Item :=
  .array [.uint .w8 bootstrapReplyType, .string topicId, .string responderNodeId,
    .uint .w32 responder.addr.toNat, .uint .w16 responder.port.toNat,
    .uint .w64 timestampUs.toNat, .array (seeds.map encodeSeed)]

def readSeed [Memory] : Item → Option MeridianNode
  | .array (addr :: port :: _) =>
      if addr.isUint && port.isUint then
        some ⟨UInt32.ofNat addr.getUint32, UInt16.ofNat port.getUint16⟩
      else none
  | _ => none

/-- At most sixteen seeds are read; a last item that is no array counts as no seeds. -/
def readSeeds [Memory] (item : Item) : Option (List MeridianNode) :=
  match item.arrayItems with
  | none => some []
  | some seeds => (seeds.take 16).mapM readSeed

def decode [Memory] : Item → Option BootstrapReply
  | .array (type :: topicId :: responderNodeId :: addr :: port :: timestampUs :: seeds :: _) =>
      do
        let topicId ← topicId.stringData.bind (CString.ofMemory 64)
        let responderNodeId ← responderNodeId.stringData.bind (CString.ofMemory 64)
        let seeds ← readSeeds seeds
        if type.isUint && type.getUint8 == bootstrapReplyType && addr.isUint && port.isUint &&
            timestampUs.isUint then
          some ⟨topicId, responderNodeId,
            ⟨UInt32.ofNat addr.getUint32, UInt16.ofNat port.getUint16⟩,
            UInt64.ofNat timestampUs.getUint64, seeds⟩
        else none
  | _ => none

end BootstrapReply

/-! ### Packets -/

/-- What the intercept callback passes to its handlers. -/
inductive DialPacket where
  | bootstrap (request : BootstrapRequest)
  | bootstrapReply (reply : BootstrapReply)
  | notice (notice : Notice)
deriving DecidableEq, Repr

/-- The dispatch of `channel_manager_bootstrap_intercept` on the packet type. Notices are verified
before they are handled. -/
def DialPacket.read [Memory] (crypto : Crypto) (data : Bytes) : Option DialPacket :=
  match load data with
  | some (.array (type :: rest)) =>
      if !type.isUint then none
      else if type.getUint8 = bootstrapType then
        (BootstrapRequest.decode (.array (type :: rest))).map .bootstrap
      else if type.getUint8 = bootstrapReplyType then
        (BootstrapReply.decode (.array (type :: rest))).map .bootstrapReply
      else if type.getUint8 = deleteNoticeType then
        ((Notice.decodeDelete (.array (type :: rest))).filter (Notice.verify crypto)).map .notice
      else if type.getUint8 = modifyNoticeType then
        ((Notice.decodeModify (.array (type :: rest))).filter (Notice.verify crypto)).map .notice
      else none
  | _ => none

theorem DialPacket.verify_of_read [Memory] {crypto : Crypto} {data : Bytes} {notice : Notice}
    (hread : DialPacket.read crypto data = some (.notice notice)) :
    notice.verify crypto = true := by
  have hnotice : ∀ decoded : Option Notice,
      (decoded.filter (Notice.verify crypto)).map DialPacket.notice = some (.notice notice) →
        notice.verify crypto = true := by
    intro decoded hmap
    obtain ⟨other, hfilter, heq⟩ := Option.map_eq_some_iff.mp hmap
    obtain rfl := DialPacket.notice.inj heq
    exact (Option.filter_eq_some_iff.mp hfilter).2
  unfold DialPacket.read at hread
  split at hread
  · split_ifs at hread
    · obtain ⟨request, -, heq⟩ := Option.map_eq_some_iff.mp hread
      contradiction
    · obtain ⟨reply, -, heq⟩ := Option.map_eq_some_iff.mp hread
      contradiction
    · exact hnotice _ hread
    · exact hnotice _ hread
  · contradiction

end Poseidon
