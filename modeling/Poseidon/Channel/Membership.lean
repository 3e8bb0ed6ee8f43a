import Poseidon.Channel.Authority
import Poseidon.Lib.Runs

/-!
# The topics of joined channels

Client requests, bootstrap requests and notices find a channel by comparing its topic, the Base58
form of its id, with the topic they name. A joined channel has an id of its own, derived from the
key drawn for it, and the topic it was joined under is not kept with it. So it is found under that
topic only where the drawn key happens to have that id, or where another channel has it.
-/

namespace Poseidon

/-- The channels of a manager, with the topic and the address of every channel joined so far. -/
structure Membership (crypto : Crypto) where
  manager : Manager crypto
  joined : List (Bytes × Nat)

inductive MemberStep where
  | create (key : Option Bytes) (config : ChannelConfig)
  | join (key : Option Bytes) (topic : Bytes) (now : ClockReading)
  | destroy (hash : Bytes)

namespace Manager

variable {crypto : Crypto} (H : HashFn)

def topicOfKey (crypto : Crypto) (key : Option Bytes) : Option Bytes :=
  (key.bind (NodeId.fromPublicKey crypto)).map fun id => id.str.bytes

/-- What creating and joining do to the channels. -/
inductive Adds (before after : Manager crypto) (key : Option Bytes) :
    Option (Channel crypto) → Prop where
  | failed (hchannels : after.channels = before.channels)
      (haddress : after.nextAddress = before.nextAddress) : Adds before after key none
  | added (channel : Channel crypto) (hchannels : after.channels = before.channels ++ [channel])
      (haddress : after.nextAddress = before.nextAddress + 1)
      (hfresh : channel.address = before.nextAddress)
      (htopic : topicOfKey crypto key = some channel.topic) : Adds before after key (some channel)

theorem create_eq_some {address : Nat} {key : Option Bytes} {port : UInt16}
    {config : ChannelConfig} {channel : Channel crypto}
    (hcreate : Channel.create crypto address key port config = some channel) :
    channel.address = address ∧ topicOfKey crypto key = some channel.topic := by
  unfold Channel.create at hcreate
  cases key with
  | none => contradiction
  | some publicKey =>
      dsimp only at hcreate
      split at hcreate
      · contradiction
      · rename_i id hid
        obtain rfl := Option.some.inj hcreate
        exact ⟨rfl, congrArg (Option.map fun id : NodeId => id.str.bytes) hid⟩

variable (manager : Manager crypto)

theorem adds_createChannel (key : Option Bytes) (config : ChannelConfig) :
    Adds manager (manager.createChannel key config).2 key (manager.createChannel key config).1 := by
  obtain ⟨nextPort, hallocated⟩ := manager.allocatePort_frame
  obtain heq | heq | ⟨channel, -, hcreate, heq⟩ := manager.createChannel_cases key config
  · rw [heq]
    exact .failed rfl rfl
  · rw [heq, hallocated]
    exact .failed rfl rfl
  · obtain ⟨hfresh, htopic⟩ := create_eq_some hcreate
    rw [heq, hallocated]
    exact .added channel rfl rfl hfresh htopic

theorem adds_joinChannel (key : Option Bytes) (topic : Bytes) (now : ClockReading) :
    Adds manager (manager.joinChannel H key topic now).2.1 key
      (manager.joinChannel H key topic now).1 := by
  obtain ⟨nextPort, hallocated⟩ := manager.allocatePort_frame
  obtain heq | heq | ⟨created, -, hcreate, heq⟩ := manager.joinChannel_cases H key topic now
  · rw [heq]
    exact .failed rfl rfl
  · rw [heq, hallocated]
    exact .failed rfl rfl
  · obtain ⟨hfresh, htopic⟩ := create_eq_some hcreate
    rw [heq, joined, hallocated]
    exact .added _ rfl rfl hfresh htopic

theorem isSome_findByTopic_iff (topic : Bytes) :
    (manager.findByTopic topic).isSome = true ↔
      ∃ channel ∈ manager.channels, channel.topic = topic := by
  unfold findByTopic
  rw [List.find?_isSome]
  simp only [beq_iff_eq]

theorem isSome_findByTopic_of_added {manager after : Manager crypto} {channel : Channel crypto}
    (hchannels : after.channels = manager.channels ++ [channel]) (topic : Bytes) :
    (after.findByTopic topic).isSome = true ↔
      (manager.findByTopic topic).isSome = true ∨ channel.topic = topic := by
  rw [isSome_findByTopic_iff, isSome_findByTopic_iff, hchannels]
  simp only [List.mem_append, List.mem_singleton]
  constructor
  · rintro ⟨found, hfound | rfl, htopic⟩
    · exact .inl ⟨found, hfound, htopic⟩
    · exact .inr htopic
  · rintro (⟨found, hfound, htopic⟩ | htopic)
    · exact ⟨found, .inl hfound, htopic⟩
    · exact ⟨channel, .inr rfl, htopic⟩

theorem destroyChannel_cases (hash : Bytes) :
    (manager.destroyChannel hash).2.nextAddress = manager.nextAddress ∧
      ((manager.destroyChannel hash).2.channels = manager.channels ∨
        ∃ doomed ∈ manager.channels, doomed.nodeId.hash = hash ∧
          ((manager.destroyChannel hash).2.channels ⊆ manager.channels ∧
            ∀ channel ∈ manager.channels, channel.topic ≠ doomed.topic →
              channel ∈ (manager.destroyChannel hash).2.channels)) := by
  unfold destroyChannel
  split
  · exact ⟨rfl, .inl rfl⟩
  · rename_i index hindex
    obtain ⟨hlength, hhash, -⟩ := List.findIdx?_eq_some_iff_getElem.mp hindex
    have hperm := swapRemove_perm hlength
    refine ⟨rfl, .inr ⟨manager.channels[index], List.getElem_mem hlength, by simpa using hhash,
      ?_, ?_⟩⟩
    · intro channel hchannel
      exact List.eraseIdx_subset (hperm.mem_iff.mp hchannel)
    · intro channel hchannel htopic
      apply hperm.mem_iff.mpr
      obtain ⟨position, hposition, rfl⟩ := List.getElem_of_mem hchannel
      refine List.mem_eraseIdx_iff_getElem.mpr ⟨position, hposition, ?_, rfl⟩
      rintro rfl
      exact htopic rfl

end Manager

namespace Membership

variable {crypto : Crypto} (H : HashFn)

def step (members : Membership crypto) : MemberStep → Membership crypto
  | .create key config =>
      { members with manager := (members.manager.createChannel key config).2 }
  | .join key topic now =>
      let result := members.manager.joinChannel H key topic now
      { manager := result.2.1
        joined := members.joined ++ (result.1.map fun channel => (topic, channel.address)).toList }
  | .destroy hash => { members with manager := (members.manager.destroyChannel hash).2 }

def Found (members : Membership crypto) : Prop :=
  ∀ entry ∈ members.joined, ∀ channel ∈ members.manager.channels, channel.address = entry.2 →
    (members.manager.findByTopic entry.1).isSome = true

instance (members : Membership crypto) : Decidable members.Found :=
  inferInstanceAs (Decidable (∀ entry ∈ members.joined, ∀ channel ∈ members.manager.channels,
    channel.address = entry.2 → (members.manager.findByTopic entry.1).isSome = true))

/-- A channel is joined with a key whose id is the topic, or under the topic of a channel that is
there; a channel is destroyed only if every channel joined under its topic has that topic. -/
def Named (members : Membership crypto) : MemberStep → Prop
  | .create _ _ => True
  | .join key topic _ =>
      (members.manager.findByTopic topic).isSome = true ∨
        Manager.topicOfKey crypto key = some topic
  | .destroy hash =>
      ∀ doomed ∈ members.manager.channels, doomed.nodeId.hash = hash →
        ∀ entry ∈ members.joined, entry.1 = doomed.topic →
          ∀ channel ∈ members.manager.channels, channel.address = entry.2 →
            channel.topic = entry.1

instance (members : Membership crypto) : (label : MemberStep) → Decidable (members.Named label)
  | .create _ _ => inferInstanceAs (Decidable True)
  | .join key topic _ => inferInstanceAs (Decidable
      ((members.manager.findByTopic topic).isSome = true ∨
        Manager.topicOfKey crypto key = some topic))
  | .destroy hash => inferInstanceAs (Decidable
      (∀ doomed ∈ members.manager.channels, doomed.nodeId.hash = hash →
        ∀ entry ∈ members.joined, entry.1 = doomed.topic →
          ∀ channel ∈ members.manager.channels, channel.address = entry.2 →
            channel.topic = entry.1))

/-- The invariant of the runs: the addresses given out are below the next one. -/
structure Kept (members : Membership crypto) : Prop where
  found : members.Found
  below : ∀ entry ∈ members.joined, entry.2 < members.manager.nextAddress

variable {members : Membership crypto}

theorem Kept.add (hkept : members.Kept) {after : Manager crypto} {key : Option Bytes}
    {result : Option (Channel crypto)} (hadds : Manager.Adds members.manager after key result) :
    Kept ⟨after, members.joined⟩ := by
  cases hadds with
  | failed hchannels haddress =>
      refine ⟨?_, ?_⟩
      · unfold Found Manager.findByTopic
        dsimp only
        rw [hchannels]
        exact hkept.found
      · dsimp only
        rw [haddress]
        exact hkept.below
  | added channel hchannels haddress hfresh _ =>
      refine ⟨?_, ?_⟩
      · intro entry hentry other hother hsame
        apply (Manager.isSome_findByTopic_of_added hchannels entry.1).mpr
        dsimp only at hother
        rw [hchannels] at hother
        obtain hold | hnew := List.mem_append.mp hother
        · exact .inl (hkept.found entry hentry other hold hsame)
        · obtain rfl := List.mem_singleton.mp hnew
          have hbelow := hkept.below entry hentry
          omega
      · intro entry hentry
        have hbelow := hkept.below entry hentry
        dsimp only
        omega

theorem Kept.join (hkept : members.Kept) {key : Option Bytes} {topic : Bytes} {now : ClockReading}
    (hnamed : members.Named (.join key topic now)) :
    (members.step H (.join key topic now)).Kept := by
  have hadds := members.manager.adds_joinChannel H key topic now
  have hadd := hkept.add hadds
  unfold step
  cases hresult : (members.manager.joinChannel H key topic now).1 with
  | none =>
      simp only [hresult, Option.map_none, Option.toList_none, List.append_nil]
      exact hadd
  | some channel =>
      rw [hresult] at hadds
      obtain ⟨hchannels, haddress, hfresh, htopic⟩ : _ ∧ _ ∧ _ ∧ _ := by
        cases hadds with
        | added _ hchannels haddress hfresh htopic =>
            exact ⟨hchannels, haddress, hfresh, htopic⟩
      simp only [hresult, Option.map_some, Option.toList_some]
      refine ⟨?_, ?_⟩
      · intro entry hentry other hother hsame
        obtain hold | hnew := List.mem_append.mp hentry
        · exact hadd.found entry hold other hother hsame
        · obtain rfl := List.mem_singleton.mp hnew
          apply (Manager.isSome_findByTopic_of_added hchannels topic).mpr
          obtain hpresent | hkey := hnamed
          · exact .inl hpresent
          · exact .inr (Option.some.inj (htopic.symm.trans hkey))
      · intro entry hentry
        obtain hold | hnew := List.mem_append.mp hentry
        · exact hadd.below entry hold
        · obtain rfl := List.mem_singleton.mp hnew
          dsimp only
          omega

theorem Kept.destroy (hkept : members.Kept) {hash : Bytes}
    (hnamed : members.Named (.destroy hash)) : (members.step H (.destroy hash)).Kept := by
  obtain ⟨haddress, hchannels⟩ := members.manager.destroyChannel_cases hash
  refine ⟨?_, ?_⟩
  · intro entry hentry channel hchannel hsame
    apply (Manager.isSome_findByTopic_iff _ _).mpr
    obtain hsameChannels | ⟨doomed, hdoomed, hhash, hsubset, hothers⟩ := hchannels
    · have hchannel' : channel ∈ members.manager.channels := hsameChannels ▸ hchannel
      have hfound := hkept.found entry hentry channel hchannel' hsame
      obtain ⟨found, hmem, htopic⟩ := (Manager.isSome_findByTopic_iff _ _).mp hfound
      exact ⟨found, hsameChannels.symm ▸ hmem, htopic⟩
    · have hold := hsubset hchannel
      -- under the topic of the destroyed channel the joined channel finds itself
      by_cases hdoomedTopic : entry.1 = doomed.topic
      · exact ⟨channel, hchannel,
          hnamed doomed hdoomed hhash entry hentry hdoomedTopic channel hold hsame⟩
      · have hfound := hkept.found entry hentry channel hold hsame
        obtain ⟨found, hmem, htopic⟩ := (Manager.isSome_findByTopic_iff _ _).mp hfound
        refine ⟨found, hothers found hmem ?_, htopic⟩
        rw [htopic]
        exact hdoomedTopic
  · intro entry hentry
    change entry.2 < (members.manager.destroyChannel hash).2.nextAddress
    rw [haddress]
    exact hkept.below entry hentry

theorem Kept.step {label : MemberStep} (hkept : members.Kept) (hnamed : members.Named label) :
    (members.step H label).Kept := by
  cases label with
  | create key config => exact hkept.add (members.manager.adds_createChannel key config)
  | join key topic now => exact hkept.join H hnamed
  | destroy hash => exact hkept.destroy H hnamed

/-- **Reachability of joined channels.** A join makes its topic findable exactly if the topic was
findable before or is the id of the key drawn for the join. In every run of creating, joining and
destroying whose steps are so named, every joined channel that still exists is found under the
topic it was joined with. -/
theorem joined_found :
    (∀ (manager : Manager crypto) (key : Option Bytes) (topic : Bytes) (now : ClockReading)
      (channel : Channel crypto), (manager.joinChannel H key topic now).1 = some channel →
        (((manager.joinChannel H key topic now).2.1.findByTopic topic).isSome = true ↔
          (manager.findByTopic topic).isSome = true ∨
            Manager.topicOfKey crypto key = some topic)) ∧
    ∀ (manager : Manager crypto) (labels : List MemberStep),
      Runs.Meets (step H) Named ⟨manager, []⟩ labels →
        (Runs.run (step H) ⟨manager, []⟩ labels).Found := by
  refine ⟨?_, ?_⟩
  · intro manager key topic now channel hjoined
    have hadds := manager.adds_joinChannel H key topic now
    rw [hjoined] at hadds
    cases hadds with
    | added _ hchannels _ _ htopic =>
        rw [Manager.isSome_findByTopic_of_added hchannels, htopic, Option.some_inj]
  · intro manager labels hmeets
    have hstart : Kept (⟨manager, []⟩ : Membership crypto) := by
      refine ⟨?_, ?_⟩
      · intro entry hentry
        exact absurd hentry List.not_mem_nil
      · intro entry hentry
        exact absurd hentry List.not_mem_nil
    exact (Runs.invariant_of_meets (step H) Kept
      (fun members label hkept hnamed => hkept.step H hnamed) hstart hmeets).found

open Manager (topicOf)

/-- A channel is created, its topic joined, the topic of another key joined with that key, and the
last channel destroyed. -/
def namedRun : List MemberStep :=
  [.create (some [1]) .defaults, .join (some [3]) (topicOf [1]).bytes ⟨5, 5⟩,
    .join (some [2]) (topicOf [2]).bytes ⟨6, 6⟩, .destroy (Crypto.padded.blake3 [2])]

open Network (byteHash)

theorem joined_found_namedRun :
    ∃ manager, Manager.create Crypto.padded (some [9]) 9000 9001 9100 = some manager ∧
      (Runs.run (step byteHash) ⟨manager, []⟩ namedRun).joined.length = 2 ∧
      (Runs.run (step byteHash) ⟨manager, []⟩ namedRun).Found ∧
      ∃ channel, (manager.joinChannel byteHash (some [2]) (topicOf [2]).bytes
          ⟨6, 6⟩).1 = some channel ∧
        ((manager.joinChannel byteHash (some [2]) (topicOf [2]).bytes
          ⟨6, 6⟩).2.1.findByTopic (topicOf [2]).bytes).isSome = true := by
  have hany : ((Manager.create Crypto.padded (some [9]) 9000 9001 9100).any fun manager =>
      decide ((Runs.run (step byteHash) ⟨manager, []⟩ namedRun).joined.length = 2) &&
        decide (Runs.Meets (step byteHash) Named ⟨manager, []⟩ namedRun) &&
        (manager.joinChannel byteHash (some [2]) (topicOf [2]).bytes
          ⟨6, 6⟩).1.isSome &&
        decide (Manager.topicOfKey Crypto.padded (some [2]) =
          some (topicOf [2]).bytes)) = true := by
    decide +kernel
  obtain ⟨manager, hmanager, hrun⟩ := (Option.any_eq_true _ _).mp hany
  rw [Bool.and_eq_true, Bool.and_eq_true, Bool.and_eq_true, decide_eq_true_eq, decide_eq_true_eq,
    decide_eq_true_eq] at hrun
  obtain ⟨⟨⟨hlength, hmeets⟩, hsome⟩, hkey⟩ := hrun
  obtain ⟨channel, hchannel⟩ := Option.isSome_iff_exists.mp hsome
  have hfound := @joined_found Crypto.padded byteHash
  have hjoin := hfound.1 manager _ _ _ channel hchannel
  exact ⟨manager, hmanager, hlength, hfound.2 manager namedRun hmeets, channel, hchannel,
    hjoin.mpr (.inr hkey)⟩

/-- A topic is joined with a freshly drawn key, and no channel is found under it. -/
theorem joined_not_found :
    ∃ manager, Manager.create Crypto.padded (some [9]) 9000 9001 9100 = some manager ∧
      ¬ (Runs.run (step byteHash) ⟨manager, []⟩
        [.join (some [3]) (topicOf [1]).bytes ⟨5, 5⟩]).Found := by
  have hany : ((Manager.create Crypto.padded (some [9]) 9000 9001 9100).any fun manager =>
      decide ¬ (Runs.run (step byteHash) ⟨manager, []⟩
        [.join (some [3]) (topicOf [1]).bytes ⟨5, 5⟩]).Found) = true := by
    decide +kernel
  obtain ⟨manager, hmanager, hlost⟩ := (Option.any_eq_true _ _).mp hany
  exact ⟨manager, hmanager, of_decide_eq_true hlost⟩

end Membership

end Poseidon
