import Poseidon.Client.ModifyRequests

/-!
# The configuration that the web client sends

The web client writes a configuration into a buffer of eighteen words, one more than it has fields.
The server takes the payload of a modify request for a configuration only if it has the size of one,
and keeps the configuration of the channel otherwise. It answers with success in either case.
-/

namespace Poseidon

namespace WebClient

def writeUInt32LE (buf : Bytes) (value : UInt32) (offset : Nat) : Bytes :=
  buf.take offset ++ leBytes 4 value.toNat ++ buf.drop (offset + 4)

def writeNext (written : Bytes × Nat) (value : UInt32) : Bytes × Nat :=
  (writeUInt32LE written.1 value written.2, written.2 + 4)

def encodeConfig (config : ChannelConfig) : Bytes :=
  let rings := (List.range 10).foldl
    (fun written i => writeNext written (config.ringSizes.getD i 0)) (List.replicate (18 * 4) 0, 0)
  ([config.gossipInitIntervalS, config.gossipSteadyIntervalS, config.gossipNumInitIntervals,
    config.quasarMaxHops, config.quasarAlpha, config.quasarSeenSize,
    config.quasarSeenHashes].foldl writeNext rings).1

theorem foldl_writeNext (values : List UInt32) (front rest : Bytes) :
    values.foldl writeNext (front ++ rest, front.length) =
      (front ++ values.flatMap (fun value => leBytes 4 value.toNat) ++
        rest.drop (4 * values.length), front.length + 4 * values.length) := by
  induction values generalizing front rest with
  | nil => simp
  | cons value values ih =>
      have hlength : (leBytes 4 value.toNat).length = 4 := length_leBytes 4 _
      have hnext : writeNext (front ++ rest, front.length) value =
          ((front ++ leBytes 4 value.toNat) ++ rest.drop 4,
            (front ++ leBytes 4 value.toNat).length) := by
        rw [writeNext, writeUInt32LE, List.take_left' rfl, List.length_append, hlength,
          ← List.drop_drop, List.drop_left' rfl]
      rw [List.foldl_cons, hnext, ih, List.drop_drop, List.flatMap_cons, List.length_append,
        hlength, List.length_cons]
      refine Prod.ext ?_ ?_
      · simp only [List.append_assoc, Nat.mul_succ, Nat.add_comm]
      · dsimp only
        omega

variable (config : ChannelConfig)

theorem encodeConfig_eq :
    encodeConfig config = (NoticeOrder.modify config).configMemory ++ List.replicate 4 0 := by
  have hrings : (List.range 10).map (fun i => config.ringSizes.getD i 0) = config.ringSizes := by
    apply List.ext_getElem
    · rw [List.length_map, List.length_range, config.length_ringSizes]
      rfl
    · intro i _ hi
      rw [List.getElem_map, List.getElem_range, List.getD_eq_getElem?_getD,
        List.getElem?_eq_getElem hi, Option.getD_some]
  have hfold : (List.range 10).foldl
      (fun written i => writeNext written (config.ringSizes.getD i 0))
      (List.replicate (18 * 4) 0, 0) =
        config.ringSizes.foldl writeNext (List.replicate (18 * 4) 0, 0) := by
    conv_rhs => rw [← hrings, List.foldl_map]
  have hwritten := foldl_writeNext (config.ringSizes ++ [config.gossipInitIntervalS,
    config.gossipSteadyIntervalS, config.gossipNumInitIntervals, config.quasarMaxHops,
    config.quasarAlpha, config.quasarSeenSize, config.quasarSeenHashes]) []
    (List.replicate (18 * 4) 0)
  have hlength : config.ringSizes.length = 10 := config.length_ringSizes
  rw [encodeConfig, hfold, ← List.foldl_append]
  simp only [List.nil_append, List.length_nil] at hwritten
  rw [hwritten, NoticeOrder.configMemory, List.length_append, hlength, List.drop_replicate]
  rfl

theorem length_encodeConfig : (encodeConfig config).length = 72 := by
  have hlength : config.ringSizes.length = 10 := config.length_ringSizes
  rw [encodeConfig_eq, NoticeOrder.configMemory, List.length_append,
    length_flatMap_of_width fun _ => length_leBytes 4 _, List.length_append, hlength]
  rfl

theorem length_encodeConfig_le : (encodeConfig config).length ≤ maxPayload := by
  rw [length_encodeConfig]
  decide

end WebClient

open WebClient

theorem newConfig_encodeConfig {crypto : Crypto} {frame : RequestFrame} {config : ChannelConfig}
    (hpayload : frame.payload.bytes = encodeConfig config) (channel : Channel crypto) :
    frame.newConfig channel = channel.config := by
  unfold RequestFrame.newConfig
  rw [hpayload, length_encodeConfig]
  exact if_neg (by decide)

namespace Daemon

variable {crypto : Crypto} {H : HashFn} {keyring : Keyring} {inputs : RequestInputs}

/-- **The configuration of the web client.** After a modify request that was answered with success
the channel has the configuration which the web client encoded exactly if it had it before. -/
theorem webConfig_applied_iff (daemon : Daemon crypto) (client : Nat) (frame : RequestFrame)
    (channel : Channel crypto) (config : ChannelConfig) (hmethod : frame.method = 5)
    (hchannel : daemon.server.manager.findByTopic frame.topicPath.bytes = some channel)
    (hpayload : frame.payload.bytes = encodeConfig config)
    (hok : (daemon.handleRequest H keyring inputs client frame).result = .ok .modified) :
    ((daemon.handleRequest H keyring inputs client frame).daemon.server.manager.findByTopic
        frame.topicPath.bytes).map (·.config) = some config ↔ channel.config = config := by
  rw [config_of_modified hmethod hchannel hok, newConfig_encodeConfig hpayload, Option.some.injEq]

def webFrame (channel : Channel crypto) (config : ChannelConfig) : RequestFrame :=
  { signedFrame channel 5 config with
    payload := ⟨encodeConfig config, length_encodeConfig_le config⟩ }

theorem payload_webFrame (channel : Channel crypto) (config : ChannelConfig) :
    (webFrame channel config).payload.bytes = encodeConfig config := rfl

theorem findByTopic_webFrame (channel : Channel crypto) (config : ChannelConfig) :
    (start (Manager.single channel)).server.manager.findByTopic
      (webFrame channel config).topicPath.bytes = some channel :=
  Manager.findByTopic_single channel

theorem verify_webFrame (channel : Channel Crypto.tagged) (config : ChannelConfig) :
    verifyChannelOwnerSignature Crypto.tagged (taggedKeyring.pair channel.publicKey)
      (webFrame channel config) = true := by
  have hsigned := verify_signedFrame channel config
  rw [verifyChannelOwnerSignature_iff, RequestFrame.dataToVerify] at hsigned ⊢
  simp only [webFrame]
  exact hsigned

open Network (byteHash)

theorem modified_webFrame {channel : Channel Crypto.tagged}
    (hpublic : channel.publicKey = KeyPair.tagged.publicKey) (config : ChannelConfig) :
    ((start (Manager.single channel)).handleRequest byteHash taggedKeyring (.atTime 1) 0
      (webFrame channel config)).result = .ok .modified := by
  obtain ⟨hkey, -⟩ := conforms_taggedKeyring hpublic
  exact (modified_of_verified 0 rfl (findByTopic_webFrame channel config) hkey
    (verify_webFrame channel config)).1

theorem webConfig_applied_own :
    ∃ channel : Channel Crypto.tagged,
      ((start (Manager.single channel)).handleRequest byteHash taggedKeyring (.atTime 1) 0
        (webFrame channel channel.config)).result = .ok .modified ∧
      (((start (Manager.single channel)).handleRequest byteHash taggedKeyring (.atTime 1)
        0 (webFrame channel channel.config)).daemon.server.manager.findByTopic
          channel.topic).map (·.config) = some channel.config := by
  obtain ⟨channel, hpublic⟩ := Channel.exists_tagged
  have hok := modified_webFrame hpublic channel.config
  exact ⟨channel, hok, (webConfig_applied_iff (start (Manager.single channel)) 0
    (webFrame channel channel.config) channel channel.config rfl
    (findByTopic_webFrame channel channel.config) (payload_webFrame channel channel.config)
    hok).mpr rfl⟩

/-- The owner's request is answered with success, and the channel does not have the
configuration. -/
theorem webConfig_not_applied :
    ∃ (channel : Channel Crypto.tagged) (config : ChannelConfig),
      ((start (Manager.single channel)).handleRequest byteHash taggedKeyring (.atTime 1) 0
        (webFrame channel config)).result = .ok .modified ∧
      (((start (Manager.single channel)).handleRequest byteHash taggedKeyring (.atTime 1)
        0 (webFrame channel config)).daemon.server.manager.findByTopic
          channel.topic).map (·.config) ≠ some config := by
  obtain ⟨channel, hpublic⟩ := Channel.exists_tagged
  let config : ChannelConfig :=
    { channel.config with quasarMaxHops := channel.config.quasarMaxHops + 1 }
  have hok := modified_webFrame hpublic config
  refine ⟨channel, config, hok, fun happlied => ?_⟩
  have hkept := config_of_modified rfl (findByTopic_webFrame channel config) hok
  rw [newConfig_encodeConfig (payload_webFrame channel config)] at hkept
  have hsame : channel.config = config := Option.some.inj (hkept.symm.trans happlied)
  have hhops : channel.config.quasarMaxHops = channel.config.quasarMaxHops + 1 :=
    congrArg ChannelConfig.quasarMaxHops hsame
  simp at hhops

end Daemon

end Poseidon
