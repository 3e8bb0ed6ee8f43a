import Poseidon.Cbor.RoundTrip
import Poseidon.Channel.Packet

/-!
# Packets survive the wire

A packet that one manager serializes is read by another as what was sent: a notice with all its
fields, a bootstrap request with its topic and timestamp, a reply with the address it offers.
-/

namespace Poseidon

open Cbor

namespace ChannelConfig

variable (config : ChannelConfig)

@[simp]
theorem readEntries_entry [Memory] (key : Bytes) (value : UInt32) (rest : List Item) :
    config.readEntries (entry key value ++ rest) = (config.setKey key value).readEntries rest := by
  simp only [entry, List.cons_append, List.nil_append, readEntries, Item.stringData, Item.isUint,
    if_true, Item.ofNat_getUint32]

theorem setKey_ringKey {index : Nat} (hindex : index < maxRings) (value : UInt32) :
    config.setKey (ringKey index) value = config.setRing index value := by
  unfold maxRings at hindex
  interval_cases index <;> rfl

theorem readEntries_rings [Memory] {sizes : List UInt32} {start : Nat}
    (hstart : start + sizes.length ≤ maxRings) (rest : List Item) :
    config.readEntries (((sizes.zipIdx start).flatMap fun ring =>
        entry (ringKey ring.2) ring.1) ++ rest) =
      ((sizes.zipIdx start).foldl (fun config ring => config.setRing ring.2 ring.1)
        config).readEntries rest := by
  induction sizes generalizing config start with
  | nil => rfl
  | cons size sizes ih =>
      rw [List.length_cons] at hstart
      rw [List.zipIdx_cons, List.flatMap_cons, List.append_assoc, readEntries_entry,
        setKey_ringKey config (show start < maxRings by omega), List.foldl_cons]
      exact ih (config.setRing start size) (by omega)

theorem ringSizes_foldl_setRing {front old sizes : List UInt32} {config : ChannelConfig}
    (hconfig : config.ringSizes = front ++ old) (hlength : old.length = sizes.length) :
    ((sizes.zipIdx front.length).foldl (fun config ring => config.setRing ring.2 ring.1)
      config).ringSizes = front ++ sizes := by
  induction sizes generalizing front old config with
  | nil =>
      rw [List.length_eq_zero_iff.mp hlength] at hconfig
      exact hconfig
  | cons size sizes ih =>
      cases old with
      | nil => contradiction
      | cons first old =>
          have hset : (config.setRing front.length size).ringSizes =
              (front ++ [size]) ++ old := by
            simp [setRing, hconfig]
          have hrest := ih hset (Nat.succ.inj hlength)
          rw [List.length_append, List.length_singleton, List.append_assoc] at hrest
          exact hrest

theorem readEntries_entries [Memory] : readEntries .defaults config.entries = config := by
  have hlength : (List.replicate maxRings (8 : UInt32)).length = config.ringSizes.length := by
    rw [config.length_ringSizes]
    rfl
  have hrings := ringSizes_foldl_setRing (show defaults.ringSizes = [] ++ _ from rfl) hlength
  unfold entries
  rw [readEntries_rings _ (by rw [config.length_ringSizes]; decide),
    ← List.append_nil (entry qshKey config.quasarSeenHashes)]
  simp only [readEntries_entry]
  ext1
  · exact hrings
  all_goals rfl

end ChannelConfig

/-! ### Notices -/

theorem NoticeBody.read_fields [Memory] (body : NoticeBody) :
    NoticeBody.read (.string body.topicId.bytes) (.string body.nodeId.bytes)
      (.string body.keyType.bytes) (.bytestring body.publicKey)
      (.uint .w64 body.timestampUs.toNat) (.bytestring body.signature) = some body := by
  simp only [NoticeBody.read, Item.stringData, Item.bytestringData, Option.bind_some,
    CString.ofMemory_bytes, Option.bind_eq_bind, dif_pos body.length_publicKey,
    dif_pos body.length_signature, Item.isUint, if_true, Item.ofNat_getUint64]

theorem fits_string {capacity room : Nat} (hcapacity : capacity ≤ 2 ^ 64)
    (string : CString capacity) : Item.Fits room (.string string.bytes) :=
  lt_of_lt_of_le string.length_lt hcapacity

theorem fitsAll_signedFields (body : NoticeBody) {type room : Nat} (htype : type < 256) :
    FitsAll room (body.signedFields type) := by
  have hkey := body.length_publicKey
  refine ⟨htype, fits_string (by decide) _, fits_string (by decide) _, fits_string (by decide) _,
    ?_, body.timestampUs.toNat_lt, trivial⟩
  change body.publicKey.length < 2 ^ 64
  omega

theorem fitsAll_append {room : Nat} {front back : List Item} (hfront : FitsAll room front)
    (hback : FitsAll room back) : FitsAll room (front ++ back) := by
  rw [fitsAll_iff] at hfront hback ⊢
  intro item hitem
  obtain hmem | hmem := List.mem_append.mp hitem
  · exact hfront item hmem
  · exact hback item hmem

theorem fitsAll_entry {key : Bytes} (hkey : key.length < 2 ^ 64) (value : UInt32) {room : Nat} :
    FitsAll room (ChannelConfig.entry key value) :=
  ⟨hkey, value.toNat_lt, trivial⟩

theorem length_entries (config : ChannelConfig) : config.entries.length = 34 := by
  simp [ChannelConfig.entries, ChannelConfig.entry, List.length_flatMap, config.length_ringSizes,
    maxRings]

theorem fits_config (config : ChannelConfig) {room : Nat} (hroom : 0 < room) :
    Item.Fits room config.encode := by
  have hlength := length_entries config
  refine ⟨hroom, by omega, by omega, ?_⟩
  refine fitsAll_append ?_ (fitsAll_append ?_ (fitsAll_append ?_ (fitsAll_append ?_
    (fitsAll_append ?_ (fitsAll_append ?_ (fitsAll_append ?_ ?_))))))
  · rw [fitsAll_iff]
    intro item hitem
    obtain ⟨ring, -, hmem⟩ := List.mem_flatMap.mp hitem
    exact (fitsAll_iff _ _).mp (fitsAll_entry (by simp [ChannelConfig.ringKey]) ring.1) item hmem
  all_goals exact fitsAll_entry (by decide) _

theorem Notice.fits_encode (notice : Notice) : Item.Fits maxStackSize notice.encode := by
  have hsignature := notice.body.length_signature
  cases notice with
  | delete body =>
      refine ⟨by decide, by simp [NoticeBody.signedFields], ?_⟩
      refine fitsAll_append (fitsAll_signedFields body (by decide)) ⟨?_, trivial⟩
      exact lt_of_le_of_lt hsignature (by decide)
  | modify body config =>
      refine ⟨by decide, by simp [NoticeBody.signedFields], ?_⟩
      refine fitsAll_append (fitsAll_signedFields body (by decide))
        ⟨fits_config config (by decide), ?_, trivial⟩
      exact lt_of_le_of_lt hsignature (by decide)

theorem Notice.decodeDelete_encode [Memory] (body : NoticeBody) :
    Notice.decodeDelete (Notice.delete body).encode = some (.delete body) := by
  simp only [Notice.encode, NoticeBody.signedFields, List.cons_append, List.nil_append,
    Notice.decodeDelete, Item.arrayItems, Item.isUint, if_true, NoticeBody.read_fields,
    Option.map_some]

theorem Notice.decodeModify_encode [Memory] (body : NoticeBody) (config : ChannelConfig) :
    Notice.decodeModify (Notice.modify body config).encode = some (.modify body config) := by
  simp only [Notice.encode, NoticeBody.signedFields, List.cons_append, List.nil_append,
    Notice.decodeModify, Item.arrayItems, Item.isUint, if_true, NoticeBody.read_fields,
    ChannelConfig.encode, Item.mapItems, ChannelConfig.readEntries_entries, Option.map_some]

theorem filter_verify {crypto : Crypto} {notice : Notice} (hverify : notice.verify crypto = true) :
    ((some notice).filter (Notice.verify crypto)).map DialPacket.notice =
      some (.notice notice) := by
  rw [Option.filter_some_pos hverify, Option.map_some]

theorem DialPacket.read_serialize [Memory] {crypto : Crypto} {type : Nat} {rest : List Item}
    (hfits : Item.Fits maxStackSize (.array (.uint .w8 type :: rest))) :
    DialPacket.read crypto (serialize (.array (.uint .w8 type :: rest))) =
      if type = bootstrapType then
        (BootstrapRequest.decode (.array (.uint .w8 type :: rest))).map .bootstrap
      else if type = bootstrapReplyType then
        (BootstrapReply.decode (.array (.uint .w8 type :: rest))).map .bootstrapReply
      else if type = deleteNoticeType then
        ((Notice.decodeDelete (.array (.uint .w8 type :: rest))).filter
          (Notice.verify crypto)).map .notice
      else if type = modifyNoticeType then
        ((Notice.decodeModify (.array (.uint .w8 type :: rest))).filter
          (Notice.verify crypto)).map .notice
      else none := by
  have htype : (Item.uint .w8 type).getUint8 = type := Item.getUint8_uint hfits.2.2.1
  unfold DialPacket.read
  rw [load_serialize hfits]
  simp only [htype, Item.isUint, Bool.not_true, Bool.false_eq_true, if_false]

theorem DialPacket.read_serialize_notice [Memory] {crypto : Crypto} {notice : Notice}
    (hverify : notice.verify crypto = true) :
    DialPacket.read crypto (serialize notice.encode) = some (.notice notice) := by
  refine Eq.trans ?_ (filter_verify hverify)
  have hfits := notice.fits_encode
  cases notice with
  | delete body =>
      rw [← Notice.decodeDelete_encode]
      exact read_serialize hfits
  | modify body config =>
      rw [← Notice.decodeModify_encode]
      exact read_serialize hfits

/-! ### Bootstrap -/

theorem DialPacket.read_serialize_request [Memory] {crypto : Crypto} {topic sender : Bytes}
    (htopic : topic.length < 64) (htopicZero : (0 : UInt8) ∉ topic) (hsender : sender.length < 64)
    (hsenderZero : (0 : UInt8) ∉ sender) (timestampUs : UInt64) :
    ∃ request, DialPacket.read crypto (serialize
        (BootstrapRequest.encode topic sender timestampUs)) = some (.bootstrap request) ∧
      request.topicId.bytes = topic ∧ request.timestampUs = timestampUs := by
  obtain ⟨topicId, htopicId, rfl⟩ := CString.ofMemory_eq_some htopic htopicZero
  obtain ⟨senderId, hsenderId, rfl⟩ := CString.ofMemory_eq_some hsender hsenderZero
  have hfits : Item.Fits maxStackSize
      (BootstrapRequest.encode topicId.bytes senderId.bytes timestampUs) := by
    refine ⟨by decide, by simp, ?_, fits_string (by decide) _, fits_string (by decide) _,
      timestampUs.toNat_lt, trivial⟩
    change bootstrapType < 256
    decide
  have hdecode : BootstrapRequest.decode
      (BootstrapRequest.encode topicId.bytes senderId.bytes timestampUs) =
        some ⟨topicId, senderId, timestampUs⟩ := by
    simp [BootstrapRequest.encode, BootstrapRequest.decode, Item.stringData, Item.isUint,
      bootstrapType]
  refine ⟨⟨topicId, senderId, timestampUs⟩, ?_, rfl, rfl⟩
  exact (read_serialize hfits).trans (congrArg (Option.map DialPacket.bootstrap) hdecode)

theorem DialPacket.read_serialize_reply [Memory] {crypto : Crypto} {topic responderId : Bytes}
    (htopic : topic.length < 64) (htopicZero : (0 : UInt8) ∉ topic)
    (hresponder : responderId.length < 64) (hresponderZero : (0 : UInt8) ∉ responderId)
    (responder : MeridianNode) (timestampUs : UInt64) :
    ∃ reply, DialPacket.read crypto (serialize
        (BootstrapReply.encode topic responderId responder timestampUs [])) =
          some (.bootstrapReply reply) ∧
      reply.topicId.bytes = topic ∧ reply.responder = responder ∧
      reply.timestampUs = timestampUs ∧ reply.seeds = [] := by
  obtain ⟨topicId, htopicId, rfl⟩ := CString.ofMemory_eq_some htopic htopicZero
  obtain ⟨nodeId, hnodeId, rfl⟩ := CString.ofMemory_eq_some hresponder hresponderZero
  have hfits : Item.Fits maxStackSize
      (BootstrapReply.encode topicId.bytes nodeId.bytes responder timestampUs []) := by
    refine ⟨by decide, by simp, ?_, fits_string (by decide) _, fits_string (by decide) _,
      responder.addr.toNat_lt, responder.port.toNat_lt, timestampUs.toNat_lt,
      ⟨by decide, by simp, trivial⟩, trivial⟩
    change bootstrapReplyType < 256
    decide
  have hdecode : BootstrapReply.decode
      (BootstrapReply.encode topicId.bytes nodeId.bytes responder timestampUs []) =
        some ⟨topicId, nodeId, responder, timestampUs, []⟩ := by
    simp [BootstrapReply.encode, BootstrapReply.decode, BootstrapReply.readSeeds, Item.arrayItems,
      Item.stringData, Item.isUint, bootstrapReplyType]
  refine ⟨⟨topicId, nodeId, responder, timestampUs, []⟩, ?_, rfl, rfl, rfl, rfl⟩
  exact (read_serialize hfits).trans (congrArg (Option.map DialPacket.bootstrapReply) hdecode)

end Poseidon
