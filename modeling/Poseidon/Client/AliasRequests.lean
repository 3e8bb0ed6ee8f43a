import Poseidon.Channel.Authority
import Poseidon.Client.Overlay
import Poseidon.Client.Requests

/-!
# Requests for aliases

The client asks for an alias with the name as the topic path and the topic as the payload. The
server takes the topic path for both: it names the channel whose registry is used, and the alias.
So an alias is registered, and resolved again, only if its name is the topic of a channel. A name
that is registered twice is resolved as well, to the topic of the first entry that has it.
-/

namespace Poseidon

open Cbor

namespace Client

/-- `poseidon_client_alias_register`: what it sends. -/
def aliasRegister (requestId : UInt32) (name topicId : Bytes) : Item :=
  ClientProtocol.encodeRequest requestId 9 name topicId

def aliasResolve (requestId : UInt32) (name : Bytes) : Item :=
  ClientProtocol.encodeRequest requestId 11 name []

end Client

/-! ### The frames -/

theorem length_aliasName_lt (name : CString aliasMaxName) : name.bytes.length < maxTopicPath :=
  lt_trans name.length_lt (by decide)

def CString.topicPath (name : CString aliasMaxName) : CString maxTopicPath :=
  ⟨name.bytes, length_aliasName_lt name, name.zero_not_mem⟩

theorem CString.bytes_topicPath (name : CString aliasMaxName) :
    name.topicPath.bytes = name.bytes := rfl

def aliasFrame (requestId : UInt32) (method : UInt8) (name : CString aliasMaxName)
    (payload : ByteBuffer maxPayload) : RequestFrame :=
  ⟨requestId, method, name.topicPath, ByteBuffer.empty maxSignature, payload⟩

variable {crypto : Crypto} (requestId : UInt32)

theorem Channel.length_topic_le (channel : Channel crypto) : channel.topic.length ≤ maxPayload :=
  Nat.le_trans (Nat.le_of_lt channel.length_topic_lt) (by decide)

def Channel.topicPayload {crypto : Crypto} (channel : Channel crypto) : ByteBuffer maxPayload :=
  ⟨channel.topic, channel.length_topic_le⟩

theorem sentAs_aliasRegister (name : CString aliasMaxName) (channel : Channel crypto) :
    ClientProtocol.SentAs (Client.aliasRegister requestId name.bytes channel.topic)
      (.request (aliasFrame requestId 9 name channel.topicPayload)) :=
  .plain requestId 9 name.topicPath channel.topicPayload

def resolveFrame (requestId : UInt32) (path : CString maxTopicPath) : RequestFrame :=
  ⟨requestId, 11, path, ByteBuffer.empty maxSignature, ByteBuffer.empty maxPayload⟩

theorem topicPath_resolveFrame (path : CString maxTopicPath) :
    (resolveFrame requestId path).topicPath = path := rfl

theorem sentAs_aliasResolve (path : CString maxTopicPath) :
    ClientProtocol.SentAs (Client.aliasResolve requestId path.bytes)
      (.request (resolveFrame requestId path)) :=
  .plain requestId 11 path (ByteBuffer.empty maxPayload)

theorem aliasTopic_aliasFrame (method : UInt8) (name : CString aliasMaxName)
    (channel : Channel crypto) :
    (aliasFrame requestId method name channel.topicPayload).aliasTopic = channel.topic := by
  have hshort : channel.topic.length < maxTopicPath :=
    lt_trans channel.length_topic_lt (by decide)
  change (if 0 < channel.topic.length ∧ channel.topic.length < maxTopicPath then
    CString.cut channel.topic else []) = channel.topic
  by_cases hempty : 0 < channel.topic.length
  · rw [if_pos ⟨hempty, hshort⟩]
    exact CString.cut_eq_self channel.zero_not_mem_topic
  · rw [if_neg fun hboth => hempty hboth.1]
    exact (List.length_eq_zero_iff.mp (Nat.eq_zero_of_not_pos hempty)).symm

namespace Daemon

variable {crypto : Crypto} (H : HashFn) (keyring : Keyring)

open ClientProtocol (encodeResponse)

/-- The request of the client for the alias is answered with success, and so is a following one to
resolve it, with the topic. -/
def AliasResolves (daemon : Daemon crypto) (first second : RequestInputs)
    (client other : Nat) (requestId otherId : UInt32) (name topic : Bytes) : Prop :=
  ∃ text registered resolved,
    daemon.serve H keyring first client
      (serialize (Client.aliasRegister requestId name topic)) = some registered ∧
    registered.1 = encodeResponse requestId 0 text ∧
    registered.2.daemon.serve H keyring second other
      (serialize (Client.aliasResolve otherId name)) = some resolved ∧
    resolved.1 = encodeResponse otherId 0 topic

variable {H keyring}

theorem handle_aliasRegister (daemon : Daemon crypto) (inputs : RequestInputs) (client : Nat)
    (requestId : UInt32) (name : CString aliasMaxName) (channel : Channel crypto) :
    daemon.handleRequest H keyring inputs client
        (aliasFrame requestId 9 name channel.topicPayload) =
      match daemon.server.manager.findByTopic name.bytes with
      | none => daemon.refuse .channelNotFound
      | some named =>
          match (daemon.aliases named.address).register name.bytes channel.topic with
          | none => daemon.refuse .aliasAmbiguous
          | some registry =>
              ⟨.ok .registered, daemon.setAliases named.address registry, []⟩ := by
  rw [← aliasTopic_aliasFrame requestId 9 name channel]
  rfl

def aliasAnswer (requestId : UInt32) : Option (CString aliasMaxTopic) → Item
  | none => encodeResponse requestId RequestError.aliasAmbiguous.code []
  | some topic => encodeResponse requestId 0 topic.bytes

theorem serve_aliasResolve (daemon : Daemon crypto) (inputs : RequestInputs) (client : Nat)
    (requestId : UInt32) {path : CString maxTopicPath} {channel : Channel crypto}
    (hchannel : daemon.server.manager.findByTopic path.bytes = some channel) :
    (daemon.serve H keyring inputs client
        (serialize (Client.aliasResolve requestId path.bytes))).map Prod.fst =
      some (aliasAnswer requestId ((daemon.aliases channel.address).resolve path.bytes)) := by
  have hhandle : daemon.handleRequest H keyring inputs client (resolveFrame requestId path) =
      daemon.aliasResolve (resolveFrame requestId path) channel := by
    change daemon.onChannel _ (daemon.aliasResolve _) = _
    rw [onChannel, topicPath_resolveFrame, hchannel]
  rw [serve_request (sentAs_aliasResolve requestId path), Option.map_some, hhandle, aliasResolve,
    topicPath_resolveFrame]
  cases (daemon.aliases channel.address).resolve path.bytes <;> rfl

variable {daemon : Daemon crypto} {requestId : UInt32} {channel : Channel crypto}

theorem named_of_registered {inputs : RequestInputs} {client : Nat} {name : CString aliasMaxName}
    {success : RequestSuccess} (hok : (daemon.handleRequest H keyring inputs client
      (aliasFrame requestId 9 name channel.topicPayload)).result = .ok success) :
    ∃ named, daemon.server.manager.findByTopic name.bytes = some named ∧
      (daemon.aliases named.address).HasRoom := by
  rw [handle_aliasRegister] at hok
  cases hnamed : daemon.server.manager.findByTopic name.bytes with
  | none =>
      rw [hnamed] at hok
      cases hok
  | some named =>
      refine ⟨named, rfl, ?_⟩
      rw [hnamed] at hok
      dsimp only at hok
      rw [← AliasRegistry.isSome_register_iff _ name.bytes channel.topic]
      cases hregister : (daemon.aliases named.address).register name.bytes channel.topic with
      | none =>
          rw [hregister] at hok
          cases hok
      | some registry => rfl

theorem aliasResolves_of_named {first second : RequestInputs} {client other : Nat}
    {otherId : UInt32} {name : CString aliasMaxName} {named : Channel crypto}
    (hnamed : daemon.server.manager.findByTopic name.bytes = some named)
    (hroom : (daemon.aliases named.address).HasRoom)
    (hnew : (daemon.aliases named.address).resolve name.bytes = none) :
    daemon.AliasResolves H keyring first second client other requestId otherId name.bytes
      channel.topic := by
  obtain ⟨registry, hregister⟩ := Option.isSome_iff_exists.mp
    ((AliasRegistry.isSome_register_iff _ name.bytes channel.topic).mpr hroom)
  obtain ⟨topic, hresolve, hstored⟩ : ∃ topic, registry.resolve name.bytes = some topic ∧
      topic.bytes = channel.topic :=
    ⟨_, AliasRegistry.resolve_register name hnew hregister,
      CString.bytes_copy (Nat.le_pred_of_lt channel.length_topic_lt) channel.zero_not_mem_topic⟩
  let after := daemon.setAliases named.address registry
  have hfirst : daemon.handleRequest H keyring first client
      (aliasFrame requestId 9 name channel.topicPayload) = ⟨.ok .registered, after, []⟩ := by
    rw [handle_aliasRegister, hnamed]
    dsimp only
    rw [hregister]
  have hregistered : daemon.serve H keyring first client
      (serialize (Client.aliasRegister requestId name.bytes channel.topic)) =
        some (encodeResponse requestId 0 RequestSuccess.registered.text,
          ⟨.ok .registered, after, []⟩) := by
    rw [serve_request (sentAs_aliasRegister requestId name channel), hfirst]
    rfl
  have hfound : after.server.manager.findByTopic name.topicPath.bytes = some named := hnamed
  have hself : after.aliases named.address = registry := Function.update_self _ _ _
  have hanswer := @serve_aliasResolve _ H keyring after second other otherId _ _ hfound
  rw [name.bytes_topicPath, hself, hresolve, aliasAnswer, hstored] at hanswer
  obtain ⟨resolved, hresolved, htopic⟩ := Option.map_eq_some_iff.mp hanswer
  exact ⟨_, _, resolved, hregistered, rfl, hresolved, htopic⟩

theorem named_of_aliasResolves {first second : RequestInputs} {client other : Nat}
    {otherId : UInt32} {name : CString aliasMaxName}
    (hresolves : daemon.AliasResolves H keyring first second client other requestId otherId
      name.bytes channel.topic) :
    ∃ named, daemon.server.manager.findByTopic name.bytes = some named ∧
      (daemon.aliases named.address).HasRoom := by
  obtain ⟨text, registered, resolved, hregistered, hanswer, -⟩ := hresolves
  rw [serve_request (sentAs_aliasRegister requestId name channel)] at hregistered
  obtain rfl := Option.some.inj hregistered
  obtain ⟨success, hok, -⟩ := (encodeResult_eq_ok_iff _ _ text).mp hanswer
  exact named_of_registered hok

/-- **Aliases.** For the topic of a channel and a name that is not in use, the request of the client
for the alias and a following one to resolve it succeed, the second with the topic, exactly if the
name itself is the topic of a channel of the manager whose registry has room. -/
theorem aliasResolves_iff_named (daemon : Daemon crypto) (first second : RequestInputs)
    (client other : Nat) (requestId otherId : UInt32) (channel : Channel crypto)
    (name : CString aliasMaxName)
    (hnew : ∀ known ∈ daemon.server.manager.channels,
      (daemon.aliases known.address).resolve name.bytes = none) :
    daemon.AliasResolves H keyring first second client other requestId otherId name.bytes
        channel.topic ↔
      ∃ named, daemon.server.manager.findByTopic name.bytes = some named ∧
        (daemon.aliases named.address).HasRoom := by
  constructor
  · exact named_of_aliasResolves
  · rintro ⟨named, hnamed, hroom⟩
    exact aliasResolves_of_named hnamed hroom (hnew named (List.mem_of_find?_eq_some hnamed))

/-! ### Ambiguous names -/

/-- What a request to resolve the name finds: the channel with the name as its topic, and in the
registry of that channel the name. -/
def lookup (daemon : Daemon crypto) (name : Bytes) : Option Bytes :=
  (daemon.server.manager.findByTopic name).bind fun channel =>
    ((daemon.aliases channel.address).resolve name).map (·.bytes)

/-- The answer is success with the topic, or an error without one. -/
def AnswersAlias (requestId : UInt32) (answer : Item) : Option Bytes → Prop
  | none => ∃ code, code ≠ 0 ∧ answer = encodeResponse requestId code []
  | some topic => answer = encodeResponse requestId 0 topic

theorem AnswersAlias.unique {answer : Item} {first second : Option Bytes}
    (hfirst : AnswersAlias requestId answer first)
    (hsecond : AnswersAlias requestId answer second) : first = second := by
  have hcode : ∀ {code : UInt8} {topic : Bytes}, code ≠ 0 →
      encodeResponse requestId code [] ≠
        encodeResponse requestId 0 topic := by
    intro code topic hne heq
    simp only [encodeResponse, Item.array.injEq, List.cons.injEq,
      Item.uint.injEq] at heq
    exact hne (UInt8.toNat_inj.mp heq.2.2.1.2)
  rcases first with _ | first <;> rcases second with _ | second
  · rfl
  · obtain ⟨code, hne, rfl⟩ := hfirst
    exact absurd hsecond (hcode hne)
  · obtain ⟨code, hne, rfl⟩ := hsecond
    exact absurd hfirst.symm (hcode hne).symm
  · have htopics := hfirst.symm.trans hsecond
    simpa [encodeResponse] using htopics

theorem answersAlias_lookup (daemon : Daemon crypto) (inputs : RequestInputs) (client : Nat)
    (requestId : UInt32) (path : CString maxTopicPath) :
    ∃ served, daemon.serve H keyring inputs client
        (serialize (Client.aliasResolve requestId path.bytes)) = some served ∧
      AnswersAlias requestId served.1 (daemon.lookup path.bytes) := by
  unfold lookup
  cases hchannel : daemon.server.manager.findByTopic path.bytes with
  | none =>
      refine ⟨_, serve_request (sentAs_aliasResolve requestId path) daemon client,
        RequestError.channelNotFound.code, by decide, ?_⟩
      change encodeResult requestId (daemon.onChannel _ _).result = _
      rw [onChannel, topicPath_resolveFrame, hchannel]
      rfl
  | some channel =>
      have hanswer := @serve_aliasResolve _ H keyring daemon inputs client requestId path channel
        hchannel
      obtain ⟨served, hserved, hitem⟩ := Option.map_eq_some_iff.mp hanswer
      refine ⟨served, hserved, ?_⟩
      rw [hitem, Option.bind_some]
      cases (daemon.aliases channel.address).resolve path.bytes with
      | none => exact ⟨RequestError.aliasAmbiguous.code, by decide, rfl⟩
      | some topic => rfl

def silentKeyring : Keyring where
  pair publicKey := ⟨.ed25519, publicKey, fun _ => []⟩
  publicKey_pair _ := rfl

open Manager (topicOf withChannel)

open Network (byteHash)

/-- The name is the topic of the channel itself. -/
theorem aliasResolves_topicOf :
    ∃ manager channel, withChannel = some manager ∧ channel ∈ manager.channels ∧
      (start manager).AliasResolves byteHash silentKeyring (.atTime 0)
        (.atTime 1) 0 0 1 2 (topicOf [1]).bytes channel.topic := by
  obtain ⟨manager, channel, hmanager, hfound⟩ := Manager.exists_withChannel
  have hchannel : channel ∈ manager.channels := List.mem_of_find?_eq_some hfound
  refine ⟨manager, channel, hmanager, hchannel, ?_⟩
  refine (aliasResolves_iff_named (start manager) (.atTime 0) (.atTime 1) 0 0 1 2 channel
    (topicOf [1]) fun _ _ => rfl).mpr ⟨channel, hfound, ?_⟩
  exact (by decide : 0 < 32)

def newsName : CString aliasMaxName :=
  CString.copy (aliasMaxName - 1) [110, 101, 119, 115]

/-- The alias `news` is not registered: there is no channel with this topic. -/
theorem not_aliasResolves_newsName :
    ∃ manager channel, withChannel = some manager ∧ channel ∈ manager.channels ∧
      (∀ known ∈ manager.channels,
        ((start manager).aliases known.address).resolve newsName.bytes = none) ∧
      ¬(start manager).AliasResolves byteHash silentKeyring (.atTime 0)
        (.atTime 1) 0 0 1 2 newsName.bytes channel.topic := by
  have hany : (withChannel.any fun manager =>
      (manager.findByTopic (topicOf [1]).bytes).isSome &&
        (manager.findByTopic newsName.bytes).isNone) = true := by
    decide +kernel
  obtain ⟨manager, hmanager, hboth⟩ := (Option.any_eq_true _ _).mp hany
  obtain ⟨hsome, hnone⟩ := Bool.and_eq_true_iff.mp hboth
  obtain ⟨channel, hfound⟩ := Option.isSome_iff_exists.mp hsome
  refine ⟨manager, channel, hmanager, List.mem_of_find?_eq_some hfound, fun _ _ => rfl, ?_⟩
  intro hresolves
  obtain ⟨named, hnamed, -⟩ := named_of_aliasResolves hresolves
  have habsent : manager.findByTopic newsName.bytes = none := Option.isNone_iff_eq_none.mp hnone
  cases habsent.symm.trans hnamed

/-- The topic of the channel as an alias of `A`. -/
def singleAlias : List AliasCall :=
  [.register (topicOf [1]).bytes [65], .register [110] [66], .unregister [110]]

/-- The topic of the channel as an alias of `A` and then also of `B`. -/
def doubleAlias : Option AliasRegistry :=
  ((AliasRegistry.create 32).register (topicOf [1]).bytes [65]).bind fun registry =>
    registry.register (topicOf [1]).bytes [66]

end Daemon

end Poseidon
