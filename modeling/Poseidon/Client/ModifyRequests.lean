import Poseidon.Channel.Convergence
import Poseidon.Client.Overlay
import Poseidon.Client.Requests

/-!
# What the signature of an admin request covers

The server checks the signature of an admin request against its method and its topic, which is not
what the client signs: it refuses the owner of every channel. The configuration of a modify request
is not part of that text: whoever has the signature of one such request can send it with any
configuration, and each is applied. A request to destroy the channel is told apart by its method.
-/

namespace Poseidon

open Cbor

/-! ### The configuration of a request -/

theorem configWord_flatMap {fields : List UInt32} {index : Nat} (hindex : index < fields.length) :
    configWord (fields.flatMap fun field => leBytes 4 field.toNat) index = fields[index] := by
  induction fields generalizing index with
  | nil => exact absurd hindex (Nat.not_lt_zero index)
  | cons field fields ih =>
      have hlength : (leBytes 4 field.toNat).length = 4 := length_leBytes 4 _
      cases index with
      | zero =>
          have htake : ((field :: fields).flatMap fun field => leBytes 4 field.toNat).take 4 =
              leBytes 4 field.toNat := by
            rw [List.flatMap_cons, List.take_left' hlength]
          rw [configWord, Nat.mul_zero, List.drop_zero, htake,
            leNat_leBytes (lt_of_lt_of_le field.toNat_lt (by norm_num))]
          exact UInt32.ofNat_toNat
      | succ index =>
          have hdrop : ((field :: fields).flatMap fun field => leBytes 4 field.toNat).drop
              (4 * (index + 1)) =
                (fields.flatMap fun field => leBytes 4 field.toNat).drop (4 * index) := by
            rw [List.flatMap_cons, Nat.mul_succ, Nat.add_comm, ← List.drop_drop,
              List.drop_left' hlength]
          rw [configWord, hdrop]
          exact ih (Nat.lt_of_succ_lt_succ hindex)

theorem ChannelConfig.ofMemory_configMemory (config : ChannelConfig) :
    ofMemory (NoticeOrder.modify config).configMemory = config := by
  let others := [config.gossipInitIntervalS, config.gossipSteadyIntervalS,
    config.gossipNumInitIntervals, config.quasarMaxHops, config.quasarAlpha,
    config.quasarSeenSize, config.quasarSeenHashes]
  have hrings : config.ringSizes.length = 10 := config.length_ringSizes
  have hword : ∀ index (hindex : index < (config.ringSizes ++ others).length),
      configWord (NoticeOrder.modify config).configMemory index =
        (config.ringSizes ++ others)[index] := fun index hindex => configWord_flatMap hindex
  have hother : ∀ index (hindex : index < 7),
      configWord (NoticeOrder.modify config).configMemory (10 + index) =
        others.get ⟨index, hindex⟩ := by
    intro index hindex
    have hlt : 10 + index < (config.ringSizes ++ others).length := by
      rw [List.length_append, hrings]
      exact Nat.add_lt_add_left hindex 10
    rw [hword _ hlt, List.getElem_append_right (by omega)]
    simp only [hrings, Nat.add_sub_cancel_left, List.get_eq_getElem]
  have hsizes : (List.range maxRings).map (configWord (NoticeOrder.modify config).configMemory) =
      config.ringSizes := by
    apply List.ext_getElem
    · rw [List.length_map, List.length_range, config.length_ringSizes]
    · intro index _ hindex
      have hlt : index < (config.ringSizes ++ others).length := by
        rw [List.length_append]
        omega
      rw [List.getElem_map, List.getElem_range, hword index hlt, List.getElem_append_left hindex]
  unfold ofMemory
  simp only [hsizes]
  congr 1
  · exact hother 0 (by decide)
  · exact hother 1 (by decide)
  · exact hother 2 (by decide)
  · exact hother 3 (by decide)
  · exact hother 4 (by decide)
  · exact hother 5 (by decide)
  · exact hother 6 (by decide)

/-! ### The signature of a request -/

/-- A signature is accepted for at most one text, of those that name a method and a channel. -/
def KeyPair.SignsOneText (crypto : Crypto) (keyPair : KeyPair) : Prop :=
  ∀ text other signature : Bytes, text.length ≤ nodeIdStringSize →
    other.length ≤ nodeIdStringSize →
    crypto.digestVerify keyPair.keyType keyPair.publicKey text signature = true →
    crypto.digestVerify keyPair.keyType keyPair.publicKey other signature = true → text = other

theorem textTag_injOn {text other : Bytes} (htext : text.length ≤ 62) (hother : other.length ≤ 62)
    (htag : textTag text = textTag other) : text = other := by
  obtain ⟨hlengths, hfronts⟩ := List.append_inj htag (by rw [length_beBytes, length_beBytes])
  have hsame : text.length = other.length := by
    have hnumbers := congrArg beNat hlengths
    rwa [beNat_beBytes (by omega), beNat_beBytes (by omega)] at hnumbers
  have hfront := congrArg (List.take text.length) hfronts
  rw [List.take_take, List.take_take, Nat.min_eq_left htext, List.take_left' rfl,
    List.take_left' hsame.symm] at hfront
  exact hfront

theorem KeyPair.signsOneText_tagged : KeyPair.tagged.SignsOneText Crypto.tagged := by
  intro text other signature htext hother haccepted haccepted'
  apply textTag_injOn (Nat.le_trans htext (by decide)) (Nat.le_trans hother (by decide))
  exact (beq_iff_eq.mp haccepted).symm.trans (beq_iff_eq.mp haccepted')

theorem verifyChannelOwnerSignature_iff {crypto : Crypto} (keyPair : KeyPair)
    (frame : RequestFrame) :
    verifyChannelOwnerSignature crypto keyPair frame = true ↔
      frame.signature.bytes ≠ [] ∧ crypto.digestVerify keyPair.keyType keyPair.publicKey
        frame.dataToVerify frame.signature.bytes = true := by
  unfold verifyChannelOwnerSignature Crypto.verifySignatureWithKey
  rw [KeyType.ofName_name, Bool.and_eq_true, bne_iff_ne]

namespace Daemon

variable {crypto : Crypto} {H : HashFn} {keyring : Keyring} {inputs : RequestInputs}

variable {channel : Channel crypto} {daemon : Daemon crypto}

theorem verified_of_administer {frame : RequestFrame} {order : NoticeOrder}
    {success answered : RequestSuccess}
    (hok : (daemon.administer H keyring inputs frame channel order success).result = .ok answered) :
    verifyChannelOwnerSignature crypto (keyring.pair channel.publicKey) frame = true := by
  by_contra hrefused
  unfold administer at hok
  rw [Bool.eq_false_of_not_eq_true hrefused, if_pos Bool.not_false] at hok
  cases hok

theorem administer_of_verified (daemon : Daemon crypto) {frame : RequestFrame}
    (hkey : (keyring.pair channel.publicKey).IsEd25519 crypto)
    (hverified : verifyChannelOwnerSignature crypto (keyring.pair channel.publicKey) frame = true)
    (order : NoticeOrder) (success : RequestSuccess) :
    ∃ body, daemon.administer H keyring inputs frame channel order success =
      ⟨.ok success, (daemon.applyOwn H inputs channel (order.notice body)).1,
        (daemon.applyOwn H inputs channel (order.notice body)).2⟩ := by
  obtain ⟨body, hnotice, hsigns⟩ :=
    (keyring.owned channel).createNotice_eq_some hkey order inputs.now.realtimeUs
  refine ⟨body, ?_⟩
  unfold administer
  rw [hverified, if_neg (by decide), hnotice]
  dsimp only
  rw [hsigns.verify hkey, if_neg (by decide)]

theorem config_applyOwn {topic : Bytes}
    (hchannel : daemon.server.manager.findByTopic topic = some channel) (body : NoticeBody)
    (config : ChannelConfig) :
    ((daemon.applyOwn H inputs channel (.modify body config)).1.server.manager.findByTopic
      topic).map (·.config) = some config := by
  unfold applyOwn setManager Manager.applyNotice Manager.publishOn
  dsimp only
  rw [Server.findByTopic_updateChannel, Manager.findByTopic_addTombstone,
    Server.findByTopic_updateChannel, hchannel]
  · simp only [Option.map_some, if_true]
    rfl
  · exact fun _ => rfl
  · exact fun _ => rfl

theorem handle_modify {frame : RequestFrame} (client : Nat) (hmethod : frame.method = 5)
    (hchannel : daemon.server.manager.findByTopic frame.topicPath.bytes = some channel) :
    daemon.handleRequest H keyring inputs client frame =
      daemon.administer H keyring inputs frame channel (.modify (frame.newConfig channel))
        .modified := by
  unfold handleRequest onChannel
  rw [hmethod, hchannel]
  rfl

theorem handle_destroy {frame : RequestFrame} (client : Nat) (hmethod : frame.method = 4)
    (hchannel : daemon.server.manager.findByTopic frame.topicPath.bytes = some channel) :
    daemon.handleRequest H keyring inputs client frame =
      daemon.administer H keyring inputs frame channel .delete .deleted := by
  unfold handleRequest onChannel
  rw [hmethod, hchannel]
  rfl

theorem modified_of_verified {daemon : Daemon crypto} {frame : RequestFrame}
    {channel : Channel crypto} (client : Nat) (hmethod : frame.method = 5)
    (hchannel : daemon.server.manager.findByTopic frame.topicPath.bytes = some channel)
    (hkey : (keyring.pair channel.publicKey).IsEd25519 crypto)
    (hverified : verifyChannelOwnerSignature crypto (keyring.pair channel.publicKey) frame =
      true) :
    (daemon.handleRequest H keyring inputs client frame).result = .ok .modified ∧
      ((daemon.handleRequest H keyring inputs client frame).daemon.server.manager.findByTopic
        frame.topicPath.bytes).map (·.config) = some (frame.newConfig channel) := by
  rw [handle_modify client hmethod hchannel]
  obtain ⟨body, hanswer⟩ := daemon.administer_of_verified hkey hverified
    (.modify (frame.newConfig channel)) .modified
  rw [hanswer]
  exact ⟨rfl, config_applyOwn hchannel body (frame.newConfig channel)⟩

theorem config_of_modified {frame : RequestFrame} {client : Nat} {success : RequestSuccess}
    (hmethod : frame.method = 5)
    (hchannel : daemon.server.manager.findByTopic frame.topicPath.bytes = some channel)
    (hok : (daemon.handleRequest H keyring inputs client frame).result = .ok success) :
    ((daemon.handleRequest H keyring inputs client frame).daemon.server.manager.findByTopic
      frame.topicPath.bytes).map (·.config) = some (frame.newConfig channel) := by
  rw [handle_modify client hmethod hchannel] at hok ⊢
  have hverified := verified_of_administer hok
  unfold administer at hok ⊢
  rw [hverified, if_neg (by decide)] at hok ⊢
  cases hnotice : (keyring.owned channel).createNotice (.modify (frame.newConfig channel))
      inputs.now.realtimeUs with
  | none =>
      rw [hnotice] at hok
      cases hok
  | some notice =>
      obtain ⟨body, rfl⟩ := OwnedChannel.exists_body_of_createNotice hnotice
      rw [hnotice] at hok
      dsimp only at hok ⊢
      split at hok
      · cases hok
      · rename_i haccepted
        rw [if_neg haccepted]
        exact config_applyOwn hchannel body (frame.newConfig channel)

theorem handle_of_refused {frame : RequestFrame} (client : Nat) {order : NoticeOrder}
    (hmethod : frame.method = order.method)
    (hchannel : daemon.server.manager.findByTopic frame.topicPath.bytes = some channel)
    (hrefused : verifyChannelOwnerSignature crypto (keyring.pair channel.publicKey) frame = false) :
    daemon.handleRequest H keyring inputs client frame = daemon.refuse .notAuthorized := by
  have hadminister : ∀ order success, daemon.administer H keyring inputs frame channel order
      success = daemon.refuse .notAuthorized := by
    intro order success
    rw [administer, hrefused, if_pos Bool.not_false]
  cases order with
  | delete => rw [handle_destroy client hmethod hchannel, hadminister]
  | modify config => rw [handle_modify client hmethod hchannel, hadminister]

end Daemon

/-! ### The owner -/

/-- The request an owner sends to the server is built, arrives and passes the check. -/
def OwnerAuthorized {crypto : Crypto} (manager : Manager crypto) (keys : Channel crypto → KeyPair)
    (channel : Channel crypto) (topic : Bytes) (order : NoticeOrder) (requestId : UInt32)
    (timestampUs : UInt64) : Prop :=
  ∃ item frame found,
    Client.adminRequest (keys channel) order topic requestId timestampUs = some item ∧
    ClientProtocol.receive (serialize item) = some (.request frame) ∧
    manager.findByTopic frame.topicPath.bytes = some found ∧
    verifyChannelOwnerSignature crypto (keys found) frame = true

theorem not_ownerAuthorized_of_isEd25519 {crypto : Crypto} {manager : Manager crypto}
    {keys : Channel crypto → KeyPair} {topic : Bytes} {channel : Channel crypto}
    (hfind : manager.findByTopic topic = some channel) (hkey : (keys channel).IsEd25519 crypto)
    (hbinds : (keys channel).BindsWholeText crypto) (order : NoticeOrder) (requestId : UInt32)
    (timestampUs : UInt64) :
    ¬ OwnerAuthorized manager keys channel topic order requestId timestampUs := by
  rintro ⟨item, frame, found, hitem, hframe, hfound, hverified⟩
  obtain rfl := Manager.topic_eq_of_findByTopic hfind
  obtain ⟨sent, received, hsent, hreceived, -, -, htopic, hrefused⟩ :=
    refused_adminRequest hkey hbinds channel order requestId timestampUs
  obtain rfl := Option.some.inj (hitem.symm.trans hsent)
  obtain rfl := ClientFrame.request.inj
    (Option.some.inj (hframe.symm.trans (ClientProtocol.receive_serialize hreceived)))
  rw [htopic, hfind] at hfound
  obtain rfl := Option.some.inj hfound
  rw [hrefused] at hverified
  contradiction

/-- **No owner is authorized**, whatever the channel, the topic that names it, the request and the
time: a pair that cannot sign sends no request, and the request of one that can is refused. The
server answers it so and does nothing. -/
theorem owner_never_authorized {crypto : Crypto} (manager : Manager crypto)
    (keys : Channel crypto → KeyPair) (topic : Bytes) (channel : Channel crypto)
    (htopic : topic.length < maxTopicPath) (hfind : manager.findByTopic topic = some channel)
    (hconforms : (keys channel).Conforms crypto) (hbinds : (keys channel).BindsWholeText crypto)
    (order : NoticeOrder) (requestId : UInt32) (timestampUs : UInt64) :
    ¬ OwnerAuthorized manager keys channel topic order requestId timestampUs ∧
      ∀ (daemon : Daemon crypto) (H : HashFn) (keyring : Keyring) (inputs : RequestInputs)
        (client : Nat) (item : Item), daemon.server.manager = manager →
        keyring.pair channel.publicKey = keys channel →
        Client.adminRequest (keys channel) order topic requestId timestampUs = some item →
        daemon.serve H keyring inputs client (serialize item) =
          some (encodeResult requestId (.error .notAuthorized),
            daemon.refuse .notAuthorized) := by
  by_cases hkey : (keys channel).keyType = .ed25519
  · refine ⟨not_ownerAuthorized_of_isEd25519 hfind (hconforms hkey) hbinds order requestId
      timestampUs, ?_⟩
    rintro daemon H keyring inputs client item rfl hpair hitem
    obtain rfl := Manager.topic_eq_of_findByTopic hfind
    obtain ⟨sent, frame, hsent, hreceived, rfl, hmethod, hpath, hrefused⟩ :=
      refused_adminRequest (hconforms hkey) hbinds channel order requestId timestampUs
    obtain rfl := Option.some.inj (hitem.symm.trans hsent)
    rw [← hpair] at hrefused
    rw [Daemon.serve_request hreceived, Daemon.handle_of_refused client hmethod
      (hpath.symm ▸ hfind) hrefused]
    rfl
  · have hnone : Client.adminRequest (keys channel) order topic requestId timestampUs = none := by
      unfold Client.adminRequest KeyPair.sign
      rw [if_neg htopic.le.not_gt, if_pos hkey, Option.map_none]
    constructor
    · rintro ⟨item, frame, found, hitem, -⟩
      cases hnone.symm.trans hitem
    · intro daemon H keyring inputs client item _ _ hitem
      cases hnone.symm.trans hitem

theorem Manager.findByTopic_single {crypto : Crypto} (channel : Channel crypto) :
    (Manager.single channel).findByTopic channel.topic = some channel :=
  List.find?_cons_of_pos (beq_self_eq_true channel.topic)

/-- A server with one channel, and a request of its owner to destroy it. -/
theorem owner_never_authorized_single :
    ∃ channel : Channel Crypto.tagged, channel.publicKey = KeyPair.tagged.publicKey ∧
      ¬ OwnerAuthorized (Manager.single channel) (fun _ => KeyPair.tagged) channel channel.topic
        .delete 1 1700000000000000 := by
  obtain ⟨channel, hpublic⟩ := Channel.exists_tagged
  have hlength : channel.topic.length < 48 := channel.nodeId.str.length_lt
  refine ⟨channel, hpublic, ?_⟩
  exact (owner_never_authorized (Manager.single channel) (fun _ => KeyPair.tagged) channel.topic
    channel (lt_trans hlength (by decide)) (Manager.findByTopic_single channel)
    (fun _ => KeyPair.isEd25519_tagged) KeyPair.bindsWholeText_tagged .delete 1
    1700000000000000).1

/-- The owner's request to destroy the only channel of a server arrives and is refused. -/
theorem owner_refused :
    ∃ channel : Channel Crypto.tagged, channel.publicKey = KeyPair.tagged.publicKey ∧
      KeyPair.tagged.IsEd25519 Crypto.tagged ∧
      (Manager.single channel).findByTopic channel.topic = some channel ∧
      ¬ OwnerAuthorized (Manager.single channel) (fun _ => KeyPair.tagged) channel channel.topic
        .delete 1 0 := by
  obtain ⟨channel, hpublic⟩ := Channel.exists_tagged
  have hfind := Manager.findByTopic_single channel
  refine ⟨channel, hpublic, KeyPair.isEd25519_tagged, hfind, ?_⟩
  exact not_ownerAuthorized_of_isEd25519 hfind KeyPair.isEd25519_tagged
    KeyPair.bindsWholeText_tagged .delete 1 0

namespace Daemon

variable {crypto : Crypto} {H : HashFn} {keyring : Keyring} {inputs : RequestInputs}

/-! ### Another request with the same signature -/

/-- **Coverage.** A modify request for a channel is accepted. A second request for it with the same
signature, at whatever time and in whatever state, is accepted too if it is a modify request, and
puts its own configuration into force; if it is a request to destroy the channel it is refused. -/
theorem modify_signature_covers_method (daemon later : Daemon crypto)
    (first second : RequestInputs) (client other : Nat) (frame again : RequestFrame)
    (channel found : Channel crypto)
    (hchannel : daemon.server.manager.findByTopic frame.topicPath.bytes = some channel)
    (hfound : later.server.manager.findByTopic again.topicPath.bytes = some found)
    (hsame : found.publicKey = channel.publicKey)
    (hkey : (keyring.pair channel.publicKey).IsEd25519 crypto)
    (hone : (keyring.pair channel.publicKey).SignsOneText crypto) (hmodify : frame.method = 5)
    (htopic : again.topicPath = frame.topicPath) (hsignature : again.signature = frame.signature)
    (haccepted : (daemon.handleRequest H keyring first client frame).result = .ok .modified) :
    (again.method = 5 →
      (later.handleRequest H keyring second other again).result = .ok .modified ∧
        ((later.handleRequest H keyring second other again).daemon.server.manager.findByTopic
          again.topicPath.bytes).map (·.config) = some (again.newConfig found)) ∧
      (again.method = 4 →
        (later.handleRequest H keyring second other again).result = .error .notAuthorized) := by
  rw [handle_modify client hmodify hchannel] at haccepted
  have hverified := verified_of_administer haccepted
  obtain ⟨hnonempty, hdigest⟩ := (verifyChannelOwnerSignature_iff _ frame).mp hverified
  have hlength : ∀ method : UInt8,
      (method :: frame.topicPath.bytes).length ≤ nodeIdStringSize := by
    intro method
    rw [← Manager.topic_eq_of_findByTopic hchannel]
    exact channel.nodeId.str.length_lt
  rw [RequestFrame.dataToVerify, hmodify] at hdigest
  constructor
  · intro hmethod
    apply modified_of_verified other hmethod hfound
    · rw [hsame]
      exact hkey
    · rw [hsame, verifyChannelOwnerSignature_iff, RequestFrame.dataToVerify, hmethod, htopic,
        hsignature]
      exact ⟨hnonempty, hdigest⟩
  · intro hmethod
    have hdestroy : again.method = NoticeOrder.delete.method := hmethod
    refine congrArg Answer.result (handle_of_refused other hdestroy hfound ?_)
    rw [hsame]
    by_contra hdestroys
    -- then one signature stands for both methods
    obtain ⟨-, hother⟩ := (verifyChannelOwnerSignature_iff _ again).mp
      (Bool.eq_true_of_not_eq_false hdestroys)
    rw [RequestFrame.dataToVerify, hmethod, htopic, hsignature] at hother
    have htexts := hone _ _ _ (hlength 5) (hlength 4) hdigest hother
    cases htexts

/-! ### Two configurations under one signature -/

def taggedKeyring : Keyring where
  pair publicKey := ⟨.ed25519, publicKey, textTag⟩
  publicKey_pair _ := rfl

theorem length_topic_lt_path (channel : Channel crypto) : channel.topic.length < maxTopicPath :=
  lt_trans channel.length_topic_lt (by decide)

theorem length_signature_le (text : Bytes) : (textTag text).length ≤ maxSignature :=
  (length_textTag text).le

def signedFrame (channel : Channel crypto) (method : UInt8) (config : ChannelConfig) :
    RequestFrame where
  requestId := 1
  method := method
  topicPath := ⟨channel.topic, length_topic_lt_path channel, channel.zero_not_mem_topic⟩
  signature := ⟨textTag (5 :: channel.topic), length_signature_le _⟩
  payload := ⟨(NoticeOrder.modify config).configMemory, NoticeOrder.length_configMemory_le _⟩

theorem verify_signedFrame (channel : Channel Crypto.tagged) (config : ChannelConfig) :
    verifyChannelOwnerSignature Crypto.tagged (taggedKeyring.pair channel.publicKey)
      (signedFrame channel 5 config) = true := by
  rw [verifyChannelOwnerSignature_iff]
  constructor
  · intro hempty
    have hlength := congrArg List.length hempty
    rw [signedFrame, length_textTag] at hlength
    contradiction
  · exact beq_self_eq_true (textTag (5 :: channel.topic))

theorem newConfig_signedFrame (channel found : Channel crypto) (method : UInt8)
    (config : ChannelConfig) : (signedFrame channel method config).newConfig found = config := by
  have hsize : (NoticeOrder.modify config).configMemory.length = configSize := by
    rw [NoticeOrder.configMemory, length_flatMap_of_width fun _ => length_leBytes 4 _,
      List.length_append, config.length_ringSizes]
    rfl
  unfold RequestFrame.newConfig
  exact (if_pos hsize).trans config.ofMemory_configMemory

def otherConfig : ChannelConfig :=
  { ChannelConfig.defaults with quasarMaxHops := 9 }

theorem conforms_taggedKeyring {channel : Channel Crypto.tagged}
    (hpublic : channel.publicKey = KeyPair.tagged.publicKey) :
    (taggedKeyring.pair channel.publicKey).IsEd25519 Crypto.tagged ∧
      (taggedKeyring.pair channel.publicKey).SignsOneText Crypto.tagged := by
  have hpair : taggedKeyring.pair channel.publicKey = KeyPair.tagged := by
    rw [hpublic]
    rfl
  rw [hpair]
  exact ⟨KeyPair.isEd25519_tagged, KeyPair.signsOneText_tagged⟩

open Network (byteHash)

theorem modified_signedFrame {channel : Channel Crypto.tagged}
    (hpublic : channel.publicKey = KeyPair.tagged.publicKey) (time : UInt64)
    (config : ChannelConfig) :
    ((start (Manager.single channel)).handleRequest byteHash taggedKeyring (.atTime time)
        0 (signedFrame channel 5 config)).result = .ok .modified ∧
      (((start (Manager.single channel)).handleRequest byteHash taggedKeyring
        (.atTime time) 0 (signedFrame channel 5 config)).daemon.server.manager.findByTopic
          channel.topic).map (·.config) = some config := by
  have hfind : (start (Manager.single channel)).server.manager.findByTopic
      (signedFrame channel 5 config).topicPath.bytes = some channel :=
    Manager.findByTopic_single channel
  obtain ⟨hkey, -⟩ := conforms_taggedKeyring hpublic
  obtain ⟨hresult, hconfig⟩ := @modified_of_verified Crypto.tagged byteHash taggedKeyring
    (.atTime time) _ _ _ 0 rfl hfind hkey (verify_signedFrame channel config)
  rw [newConfig_signedFrame] at hconfig
  exact ⟨hresult, hconfig⟩

/-- The owner's signature of a modify request is good for another configuration and not for the
deletion of the channel. -/
theorem modify_signature_covers_method_single :
    ∃ channel : Channel Crypto.tagged, channel.publicKey = KeyPair.tagged.publicKey ∧
      ((start (Manager.single channel)).handleRequest byteHash taggedKeyring (.atTime 2) 0
        (signedFrame channel 5 otherConfig)).result = .ok .modified ∧
      ((start (Manager.single channel)).handleRequest byteHash taggedKeyring (.atTime 2) 0
        (signedFrame channel 4 otherConfig)).result = .error .notAuthorized := by
  obtain ⟨channel, hpublic⟩ := Channel.exists_tagged
  have hfind := Manager.findByTopic_single channel
  obtain ⟨hkey, hone⟩ := conforms_taggedKeyring hpublic
  have hcovers (method : UInt8) :=
    modify_signature_covers_method (start (Manager.single channel))
      (start (Manager.single channel)) (.atTime 1) (.atTime 2) 0 0
      (signedFrame channel 5 .defaults) (signedFrame channel method otherConfig) channel channel
      hfind hfind rfl hkey hone rfl rfl rfl (modified_signedFrame hpublic 1 .defaults).1
  exact ⟨channel, hpublic, ((hcovers 5).1 rfl).1, (hcovers 4).2 rfl⟩

/-- One signature of the owner is accepted with two configurations. -/
theorem one_signature_two_configs :
    ∃ (channel : Channel Crypto.tagged) (frame again : RequestFrame),
      (taggedKeyring.pair channel.publicKey).IsEd25519 Crypto.tagged ∧
      (taggedKeyring.pair channel.publicKey).SignsOneText Crypto.tagged ∧
      (Manager.single channel).findByTopic frame.topicPath.bytes = some channel ∧
      frame.method = 5 ∧ again.method = 5 ∧ again.topicPath = frame.topicPath ∧
      again.signature = frame.signature ∧ again.payload ≠ frame.payload ∧
      ((start (Manager.single channel)).handleRequest byteHash taggedKeyring (.atTime 1) 0
        frame).result = .ok .modified ∧
      ((start (Manager.single channel)).handleRequest byteHash taggedKeyring (.atTime 1) 0
        again).result = .ok .modified := by
  obtain ⟨channel, hpublic⟩ := Channel.exists_tagged
  obtain ⟨hkey, hone⟩ := conforms_taggedKeyring hpublic
  refine ⟨channel, signedFrame channel 5 .defaults, signedFrame channel 5 otherConfig, hkey, hone,
    Manager.findByTopic_single channel, rfl, rfl, rfl, rfl, fun hpayload => ?_,
    (modified_signedFrame hpublic 1 .defaults).1, (modified_signedFrame hpublic 1 otherConfig).1⟩
  have hconfig : otherConfig = ChannelConfig.defaults := by
    rw [← otherConfig.ofMemory_configMemory, ← ChannelConfig.defaults.ofMemory_configMemory]
    exact congrArg (fun payload => ChannelConfig.ofMemory payload.bytes) hpayload
  have hhops := congrArg ChannelConfig.quasarMaxHops hconfig
  contradiction

end Daemon

end Poseidon
