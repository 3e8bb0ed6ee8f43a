import Mathlib.Data.List.Perm.Basic
import Poseidon.Channel.Authority
import Poseidon.Client.Session
import Poseidon.Quasar.Subscriptions

/-!
# Sessions and the overlay

A channel should be subscribed to its topic exactly while a registered session is. Every session
that subscribes adds an entry to the channel's `local_subs`, and only the last one to leave takes
one away. So the two agree as long as no session subscribes while another one is subscribed.
-/

namespace Poseidon

/-! ### Entries of a topic -/

namespace Channel

variable {crypto : Crypto} (H : HashFn)

/-- How often the topic stands in the channel's `local_subs`. -/
def entries (channel : Channel crypto) (topic : Bytes) : Nat :=
  channel.quasar.topics.count topic

variable (channel : Channel crypto)

theorem isLocallySubscribed_iff (topic : Bytes) :
    channel.quasar.isLocallySubscribed topic = true ↔ 0 < channel.entries topic := by
  rw [entries, List.count_pos_iff, Quasar.topics, List.mem_map, Quasar.isLocallySubscribed,
    List.any_eq_true]
  simp only [beq_iff_eq]

theorem entries_subscribe (topic : Bytes) (ttl : Nat) (other : Bytes) :
    (channel.subscribe H topic ttl).entries other =
      channel.entries other + if topic = other then 1 else 0 := by
  have htopics : (channel.subscribe H topic ttl).quasar.topics =
      channel.quasar.topics ++ [topic] := List.map_append
  rw [entries, htopics, List.count_append, List.count_singleton]
  simp only [beq_iff_eq]
  rfl

theorem entries_unsubscribe (topic other : Bytes) :
    (channel.unsubscribe H topic).entries other =
      channel.entries other - if topic = other then 1 else 0 := by
  have htopics : (channel.unsubscribe H topic).quasar.topics =
      channel.quasar.topics.erase topic := by
    rw [Quasar.topics, Quasar.topics, List.erase_eq_eraseP', List.eraseP_map]
    rfl
  rw [entries, htopics, List.count_erase]
  simp only [beq_iff_eq]
  rfl

end Channel

/-! ### Subscriptions of a session -/

namespace Session

def countFor (session : Session) (topic : Bytes) : Nat :=
  session.subscriptions.countP (·.isFor topic)

theorem isSubscribed_iff (session : Session) (topic : Bytes) :
    session.isSubscribed topic = true ↔ 0 < session.countFor topic := by
  rw [isSubscribed, countFor, List.any_eq_true, List.countP_pos_iff]

theorem isFor_iff_of_isFor {subscription : ClientSubscription} {topic : Bytes}
    (hfor : subscription.isFor topic = true) (other : Bytes) :
    subscription.isFor other = true ↔ topic = other := by
  simp only [ClientSubscription.isFor, Bool.and_eq_true, beq_iff_eq] at hfor ⊢
  rw [hfor.2]
  exact and_iff_right hfor.1

theorem countFor_setLoopback (session : Session) (index : Nat) (loopback : Bool)
    (topic : Bytes) : (session.setLoopback index loopback).countFor topic =
      session.countFor topic := by
  unfold countFor setLoopback
  apply countP_modify
  intro subscription
  rfl

theorem countFor_add (session : Session) {topic other : Bytes} (loopback : Bool)
    (hroom : session.subscriptions.length < maxSubscriptions) (htopic : (0 : UInt8) ∉ topic)
    (hother : other.length + 1 < maxTopicPath) :
    (session.add topic loopback hroom).countFor other =
      session.countFor other + if topic = other then 1 else 0 := by
  have hstored : (CString.copy (maxTopicPath - 1) topic).bytes = other ↔ topic = other := by
    change (CString.cut topic).take (maxTopicPath - 1) = other ↔ topic = other
    rw [CString.cut_eq_self htopic]
    constructor
    · intro htake
      -- a topic that was cut fills the buffer and is longer than `other`
      rw [← htake, List.length_take] at hother
      rw [← htake, List.take_of_length_le (by omega)]
    · rintro rfl
      exact List.take_of_length_le (by omega)
  rw [countFor, add, List.countP_append, List.countP_singleton]
  simp only [ClientSubscription.isFor, Bool.true_and, beq_iff_eq, hstored]
  rfl

theorem countFor_remove (session : Session) {topic : Bytes} {index : Nat}
    (hfind : session.find topic = some index) (other : Bytes) :
    (session.remove index).countFor other =
      session.countFor other - if topic = other then 1 else 0 := by
  obtain ⟨hlength, hfor, -⟩ := List.findIdx?_eq_some_iff_getElem.mp hfind
  have hperm := List.getElem_cons_eraseIdx_perm hlength
  have hcount := hperm.countP_eq (·.isFor other)
  rw [List.countP_cons] at hcount
  simp only [isFor_iff_of_isFor hfor other] at hcount
  unfold countFor remove
  dsimp only
  omega

theorem countFor_eq_zero_of_find {session : Session} {topic : Bytes}
    (hfind : session.find topic = none) : session.countFor topic = 0 := by
  rw [countFor, List.countP_eq_zero]
  intro subscription hmem
  rw [List.findIdx?_eq_none_iff.mp hfind subscription hmem]
  exact Bool.false_ne_true

theorem count_activeTopics (session : Session) (topic : Bytes) :
    session.activeTopics.count topic = session.countFor topic := by
  rw [activeTopics, List.count_eq_countP, List.countP_map, List.countP_filter, countFor]
  congr 1
  funext subscription
  exact Bool.and_comm _ _

end Session

namespace Server

variable {crypto : Crypto} (H : HashFn)

theorem topic_ensureCallback (channel : Channel crypto) :
    (ensureCallback channel).topic = channel.topic := by
  unfold ensureCallback
  split_ifs <;> rfl

theorem entries_ensureCallback (channel : Channel crypto) (topic : Bytes) :
    (ensureCallback channel).entries topic = channel.entries topic := by
  unfold ensureCallback
  split_ifs <;> rfl

theorem findByTopic_updateChannel (manager : Manager crypto) (address : Nat)
    {change : Channel crypto → Channel crypto}
    (hchange : ∀ channel, (change channel).topic = channel.topic) (topic : Bytes) :
    (manager.updateChannel address change).findByTopic topic =
      (manager.findByTopic topic).map fun channel =>
        if channel.address = address then change channel else channel := by
  unfold Manager.updateChannel Manager.findByTopic
  rw [List.find?_map]
  congr 2
  funext channel
  dsimp only [Function.comp_apply]
  split_ifs
  · rw [hchange]
  · rfl

def entries (manager : Manager crypto) (topic : Bytes) : Option Nat :=
  (manager.findByTopic topic).map fun channel => channel.entries topic

variable {server : Server crypto} {client : Nat} {new : Option Session} {manager : Manager crypto}

/-- A change of the channel that a topic finds acts on the entries of that topic; those of another
topic it must leave alone, since the channel may be the same. -/
theorem entries_onChannel {topic other : Bytes} {change : Channel crypto → Channel crypto}
    {count : Nat → Nat} (htopic : ∀ channel, (change channel).topic = channel.topic)
    (hcount : ∀ channel, (change channel).entries other = count (channel.entries other))
    (hother : topic ≠ other → ∀ n, count n = n) :
    entries (onChannel manager topic change) other = (entries manager other).map count := by
  unfold onChannel entries
  cases hfind : manager.findByTopic topic with
  | none =>
      by_cases heq : topic = other
      · rw [← heq, hfind]
        rfl
      · rw [Option.map_map]
        congr 1
        funext found
        exact (hother heq _).symm
  | some channel =>
      dsimp only
      rw [findByTopic_updateChannel manager channel.address htopic, Option.map_map, Option.map_map]
      by_cases heq : topic = other
      · rw [← heq, hfind]
        simp only [Option.map_some, Function.comp_apply, if_true]
        rw [heq, hcount]
      · congr 1
        funext found
        dsimp only [Function.comp_apply]
        split_ifs
        · exact hcount found
        · exact (hother heq _).symm

/-! ### Agreement -/

def holds (server : Server crypto) (topic : Bytes) (client : Nat) : Bool :=
  (server.session client).any (·.isSubscribed topic)

/-- The topic has a channel, and that is subscribed to it exactly if a registered session is. -/
def Agrees (server : Server crypto) (topic : Bytes) : Prop :=
  ∃ channel, server.manager.findByTopic topic = some channel ∧
    (channel.quasar.isLocallySubscribed topic = true ↔
      ∃ client ∈ server.registry, server.holds topic client = true)

/-- A session subscribes to the topic only if it is registered and no other registered session is
subscribed to it, or if it is subscribed itself. -/
def Alone (topic : Bytes) (server : Server crypto) : ClientStep → Prop
  | .subscribe client wanted _ => wanted.bytes = topic →
      server.holds topic client = true ∨
        client ∈ server.registry ∧ server.hasOtherSubscriber topic client = false
  | _ => True

instance (topic : Bytes) (server : Server crypto) : (label : ClientStep) →
    Decidable (Alone topic server label)
  | .subscribe client wanted _ => inferInstanceAs (Decidable (wanted.bytes = topic →
      server.holds topic client = true ∨
        client ∈ server.registry ∧ server.hasOtherSubscriber topic client = false))
  | .connect => inferInstanceAs (Decidable True)
  | .unsubscribe _ _ => inferInstanceAs (Decidable True)
  | .disconnect _ => inferInstanceAs (Decidable True)

/-- The invariant of the runs: there is one entry while a session is subscribed, and none
otherwise; only registered sessions are, and none twice. -/
structure Balanced (server : Server crypto) (topic : Bytes) : Prop where
  single : ∀ client session, server.session client = some session → session.countFor topic ≤ 1
  registered : ∀ client, server.holds topic client = true → client ∈ server.registry
  balance : ∃ count, entries server.manager topic = some count ∧
    (count = 1 ∧ (∃ client, server.holds topic client = true) ∨
      count = 0 ∧ ∀ client, server.holds topic client = false)

theorem Balanced.agrees {topic : Bytes} (hbalanced : server.Balanced topic) :
    server.Agrees topic := by
  obtain ⟨count, hentries, hbalance⟩ := hbalanced.balance
  obtain ⟨channel, hfind, rfl⟩ := Option.map_eq_some_iff.mp hentries
  refine ⟨channel, hfind, ?_⟩
  rw [channel.isLocallySubscribed_iff]
  obtain ⟨hone, client, hholds⟩ | ⟨hzero, hnone⟩ := hbalance
  · rw [hone]
    exact iff_of_true Nat.one_pos ⟨client, hbalanced.registered client hholds, hholds⟩
  · rw [hzero]
    apply iff_of_false (Nat.lt_irrefl 0)
    rintro ⟨client, -, hholds⟩
    rw [hnone client] at hholds
    contradiction

theorem hasOtherSubscriber_iff {topic : Bytes} (hbalanced : server.Balanced topic) (client : Nat) :
    server.hasOtherSubscriber topic client = true ↔
      ∃ other, other ≠ client ∧ server.holds topic other = true := by
  unfold hasOtherSubscriber
  rw [List.any_eq_true]
  simp only [Bool.and_eq_true, bne_iff_ne]
  constructor
  · rintro ⟨other, -, hother⟩
    exact ⟨other, hother⟩
  · rintro ⟨other, hne, hholds⟩
    exact ⟨other, hbalanced.registered other hholds, hne, hholds⟩

theorem Balanced.of_same {after : Server crypto} {topic : Bytes}
    (hbalanced : server.Balanced topic)
    (hsingle : ∀ client session, after.session client = some session → session.countFor topic ≤ 1)
    (hholds : ∀ client, after.holds topic client = server.holds topic client)
    (hregistry : server.registry ⊆ after.registry)
    (hentries : entries after.manager topic = entries server.manager topic) :
    after.Balanced topic := by
  refine ⟨hsingle, ?_, ?_⟩
  · intro client hclient
    rw [hholds] at hclient
    exact hregistry (hbalanced.registered client hclient)
  · simp only [hholds, hentries]
    exact hbalanced.balance

theorem Balanced.leave {after : Server crypto} {topic : Bytes} {dropped : Nat}
    (hbalanced : server.Balanced topic)
    (hsingle : ∀ client session, after.session client = some session → session.countFor topic ≤ 1)
    (hgone : after.holds topic client = false)
    (hothers : ∀ other, other ≠ client → after.holds topic other = server.holds topic other)
    (hregistry : ∀ other ∈ server.registry, other ≠ client → other ∈ after.registry)
    (hentries : entries after.manager topic =
      if server.hasOtherSubscriber topic client = true then entries server.manager topic
      else (entries server.manager topic).map (· - dropped))
    (hdropped : server.holds topic client = true → 0 < dropped) : after.Balanced topic := by
  have hne : ∀ other, after.holds topic other = true → other ≠ client := by
    rintro other hother rfl
    rw [hgone] at hother
    contradiction
  refine ⟨hsingle, ?_, ?_⟩
  · intro other hother
    have hold := hothers other (hne other hother) ▸ hother
    exact hregistry other (hbalanced.registered other hold) (hne other hother)
  · obtain ⟨count, hcount, hbalance⟩ := hbalanced.balance
    -- with another holder the entry stays; without one the client was the only holder
    by_cases hother : server.hasOtherSubscriber topic client = true
    · obtain ⟨other, hdiffers, hholds⟩ := (hasOtherSubscriber_iff hbalanced client).mp hother
      rw [if_pos hother] at hentries
      obtain ⟨hone, -⟩ | ⟨-, hnone⟩ := hbalance
      · refine ⟨count, hentries.trans hcount, .inl ⟨hone, other, ?_⟩⟩
        rw [hothers other hdiffers, hholds]
      · rw [hnone other] at hholds
        contradiction
    · rw [if_neg hother, hcount, Option.map_some] at hentries
      refine ⟨count - dropped, hentries, .inr ⟨?_, ?_⟩⟩
      · obtain ⟨rfl, holder, hholder⟩ | ⟨rfl, -⟩ := hbalance
        · have hself : holder = client := by
            by_contra hdiffers
            exact hother ((hasOtherSubscriber_iff hbalanced client).mpr
              ⟨holder, hdiffers, hholder⟩)
          have hpos := hdropped (hself ▸ hholder)
          omega
        · exact Nat.zero_sub _
      · intro holder
        by_contra hholds
        have htrue := Bool.eq_true_of_not_eq_false hholds
        have hdiffers := hne holder htrue
        exact hother ((hasOtherSubscriber_iff hbalanced client).mpr
          ⟨holder, hdiffers, hothers holder hdiffers ▸ htrue⟩)

/-! ### Steps -/

section

variable (hlive : (server.session client).isSome = true ∨ new = none)

include hlive

theorem session_setSession (other : Nat) :
    (server.setSession client new).session other =
      if other = client then new else server.session other := by
  unfold session at hlive
  unfold session setSession
  rw [List.getD_eq_getElem?_getD] at hlive ⊢
  rw [List.getD_eq_getElem?_getD]
  dsimp only
  rw [List.getElem?_set]
  by_cases hother : client = other
  · subst hother
    rw [if_pos rfl, if_pos rfl]
    split_ifs with hlength
    · rfl
    · rw [List.getElem?_eq_none (Nat.le_of_not_lt hlength)] at hlive
      obtain hlive | rfl := hlive
      · contradiction
      · rfl
  · rw [if_neg hother, if_neg (Ne.symm hother)]

theorem holds_setSession (topic : Bytes) (other : Nat) :
    (server.setSession client new).holds topic other =
      if other = client then new.any (·.isSubscribed topic) else server.holds topic other := by
  unfold holds
  rw [session_setSession hlive]
  split_ifs <;> rfl

theorem hasOtherSubscriber_setSession (topic : Bytes) :
    (server.setSession client new).hasOtherSubscriber topic client =
      server.hasOtherSubscriber topic client := by
  unfold hasOtherSubscriber
  congr 1
  funext other
  rw [session_setSession hlive]
  by_cases hother : other = client
  · rw [hother, bne_self_eq_false, Bool.false_and, Bool.false_and]
  · rw [if_neg hother]

end

theorem Balanced.single_setSession {topic : Bytes} (hbalanced : server.Balanced topic)
    (hlive : (server.session client).isSome = true ∨ new = none)
    (hnew : ∀ session ∈ new, session.countFor topic ≤ 1) (other : Nat) (session : Session)
    (hother : (server.setSession client new).session other = some session) :
    session.countFor topic ≤ 1 := by
  rw [session_setSession hlive] at hother
  split_ifs at hother
  · exact hnew session hother
  · exact hbalanced.single other session hother

theorem isSome_or_of_session {session : Session} (hsession : server.session client = some session)
    (new : Option Session) : (server.session client).isSome = true ∨ new = none := by
  rw [hsession]
  exact .inl rfl

theorem holds_of_session {session : Session} (hsession : server.session client = some session)
    (topic : Bytes) : server.holds topic client = session.isSubscribed topic := by
  rw [holds, hsession]
  rfl

theorem Balanced.replace {topic : Bytes} (hbalanced : server.Balanced topic)
    {session new : Session} (hsession : server.session client = some session)
    (hcount : new.countFor topic = session.countFor topic)
    (hentries : entries manager topic = entries server.manager topic) :
    Balanced { server.setSession client (some new) with manager := manager } topic := by
  have hlive := isSome_or_of_session hsession (some new)
  refine hbalanced.of_same (hbalanced.single_setSession hlive ?_) ?_ (List.Subset.refl _) hentries
  · rintro _ ⟨⟩
    rw [hcount]
    exact hbalanced.single client session hsession
  · intro other
    change (server.setSession client (some new)).holds topic other = _
    rw [holds_setSession hlive]
    split_ifs with hother
    · rw [hother, holds_of_session hsession, Option.any_some, Bool.eq_iff_iff,
        Session.isSubscribed_iff, Session.isSubscribed_iff, hcount]
    · rfl

theorem session_connect (server : Server crypto) (client : Nat) :
    server.connect.session client =
      if client = server.sessions.length then some Session.create
      else server.session client := by
  unfold session connect
  rw [List.getD_eq_getElem?_getD, List.getD_eq_getElem?_getD]
  dsimp only
  split_ifs with hclient
  · rw [hclient, List.getElem?_concat_length]
    rfl
  · by_cases hlt : client < server.sessions.length
    · rw [List.getElem?_append_left hlt]
    · rw [List.getElem?_eq_none (by rw [List.length_append, List.length_singleton]; omega),
        List.getElem?_eq_none (by omega)]

theorem Balanced.connect {topic : Bytes} (hbalanced : server.Balanced topic) :
    server.connect.Balanced topic := by
  have hnew : server.session server.sessions.length = none := by
    unfold session
    rw [List.getD_eq_getElem?_getD, List.getElem?_eq_none (Nat.le_refl _)]
    rfl
  refine hbalanced.of_same ?_ ?_ ?_ rfl
  · intro client session hsession
    rw [session_connect] at hsession
    split_ifs at hsession
    · obtain rfl := Option.some.inj hsession
      exact Nat.zero_le 1
    · exact hbalanced.single client session hsession
  · intro client
    unfold holds
    rw [session_connect]
    split_ifs with hclient
    · rw [hclient, hnew]
      rfl
    · rfl
  · unfold Server.connect
    dsimp only
    split_ifs
    · exact List.Subset.refl _
    · exact List.subset_append_left _ _

theorem entries_subscribed (manager : Manager crypto) (topic other : Bytes) :
    entries (onChannel manager topic fun channel => ensureCallback (channel.subscribe H topic 0))
      other = (entries manager other).map (· + if topic = other then 1 else 0) := by
  apply entries_onChannel
  · intro channel
    exact topic_ensureCallback _
  · intro channel
    rw [entries_ensureCallback, channel.entries_subscribe]
  · intro hother n
    rw [if_neg hother, Nat.add_zero]

theorem Balanced.enter {topic : Bytes} (hbalanced : server.Balanced topic) {session new : Session}
    (hsession : server.session client = some session) (hnone : session.countFor topic = 0)
    (hone : new.countFor topic = 1) (hclient : client ∈ server.registry)
    (halone : server.hasOtherSubscriber topic client = false)
    (hentries : entries manager topic = (entries server.manager topic).map (· + 1)) :
    Balanced { server.setSession client (some new) with manager := manager } topic := by
  have hlive := isSome_or_of_session hsession (some new)
  have hself : server.holds topic client = false := by
    rw [holds_of_session hsession, Bool.eq_false_iff, ne_eq, Session.isSubscribed_iff, hnone]
    exact Nat.lt_irrefl 0
  have hfree : ∀ other, server.holds topic other = false := by
    intro other
    by_contra hother
    have htrue := Bool.eq_true_of_not_eq_false hother
    have hne : other ≠ client := by
      rintro rfl
      exact hother hself
    rw [(hasOtherSubscriber_iff hbalanced client).mpr ⟨other, hne, htrue⟩] at halone
    contradiction
  have hholds : ∀ other, (server.setSession client (some new)).holds topic other = true ↔
      other = client := by
    intro other
    rw [holds_setSession hlive]
    by_cases hother : other = client
    · rw [if_pos hother, Option.any_some, Session.isSubscribed_iff, hone]
      exact iff_of_true Nat.one_pos hother
    · rw [if_neg hother, hfree]
      exact iff_of_false Bool.false_ne_true hother
  refine ⟨hbalanced.single_setSession hlive ?_, ?_, ?_⟩
  · rintro _ ⟨⟩
    exact Nat.le_of_eq hone
  · intro other hother
    rw [(hholds other).mp hother]
    exact hclient
  · obtain ⟨count, hcount, ⟨-, holder, hholder⟩ | ⟨rfl, -⟩⟩ := hbalanced.balance
    · rw [hfree] at hholder
      contradiction
    · rw [hcount, Option.map_some] at hentries
      exact ⟨1, hentries, .inl ⟨rfl, client, (hholds client).mpr rfl⟩⟩

theorem Balanced.subscribe {topic : Bytes} (hbalanced : server.Balanced topic)
    (hshort : topic.length + 1 < maxTopicPath) (client : Nat) {capacity : Nat}
    (wanted : CString capacity) (loopback : Bool)
    (halone : Alone topic server (.subscribe client wanted loopback)) :
    (server.subscribe H client wanted.bytes loopback).2.Balanced topic := by
  unfold Server.subscribe
  cases hsession : server.session client with
  | none => exact hbalanced
  | some session =>
      dsimp only
      cases hfind : session.find wanted.bytes with
      | some index =>
          exact hbalanced.replace hsession (session.countFor_setLoopback index loopback topic) rfl
      | none =>
          dsimp only
          split_ifs with hroom
          · have hcount := session.countFor_add loopback hroom wanted.zero_not_mem hshort
            have hentries := entries_subscribed H server.manager wanted.bytes topic
            by_cases htopic : wanted.bytes = topic
            · have hnone : session.countFor topic = 0 :=
                htopic ▸ Session.countFor_eq_zero_of_find hfind
              rw [if_pos htopic] at hentries
              rw [if_pos htopic, hnone] at hcount
              obtain hself | ⟨hclient, halone⟩ := halone htopic
              · rw [holds_of_session hsession, Session.isSubscribed_iff, hnone] at hself
                exact absurd hself (Nat.lt_irrefl 0)
              · exact hbalanced.enter hsession hnone hcount hclient halone hentries
            · rw [if_neg htopic] at hcount hentries
              apply hbalanced.replace hsession hcount
              rw [hentries]
              simp only [Nat.add_zero, Option.map_id']
          · exact hbalanced

theorem entries_release (server : Server crypto) (client : Nat) (manager : Manager crypto)
    (topic other : Bytes) :
    entries (server.release H client manager topic) other =
      if server.hasOtherSubscriber other client = true then entries manager other
      else (entries manager other).map (· - if topic = other then 1 else 0) := by
  have hunsubscribed : entries (onChannel manager topic fun channel =>
      channel.unsubscribe H topic) other =
        (entries manager other).map (· - if topic = other then 1 else 0) := by
    apply entries_onChannel
    · intro channel
      rfl
    · intro channel
      exact channel.entries_unsubscribe H topic other
    · intro hother n
      rw [if_neg hother, Nat.sub_zero]
  unfold release
  by_cases hother : topic = other
  · rw [hother] at hunsubscribed ⊢
    rw [apply_ite (entries · other), hunsubscribed]
  · have hsame : (entries manager other).map (· - if topic = other then 1 else 0) =
        entries manager other := by
      simp only [if_neg hother, Nat.sub_zero, Option.map_id']
    rw [apply_ite (entries · other), hunsubscribed, hsame, ite_self, ite_self]

theorem entries_foldl_release (server : Server crypto) (client : Nat) (topics : List Bytes)
    (manager : Manager crypto) (other : Bytes) :
    entries (topics.foldl (server.release H client) manager) other =
      if server.hasOtherSubscriber other client = true then entries manager other
      else (entries manager other).map (· - topics.count other) := by
  induction topics generalizing manager with
  | nil => simp
  | cons topic topics ih =>
      rw [List.foldl_cons, ih, entries_release]
      by_cases hother : server.hasOtherSubscriber other client = true
      · rw [if_pos hother, if_pos hother, if_pos hother]
      · rw [if_neg hother, if_neg hother, if_neg hother, Option.map_map]
        congr 1
        funext count
        rw [Function.comp_apply, List.count_cons]
        simp only [beq_iff_eq]
        omega

theorem Balanced.unsubscribe {topic : Bytes} (hbalanced : server.Balanced topic) (client : Nat)
    (unwanted : Bytes) : (server.unsubscribe H client unwanted).2.Balanced topic := by
  unfold Server.unsubscribe
  cases hsession : server.session client with
  | none => exact hbalanced
  | some session =>
      dsimp only
      cases hfind : session.find unwanted with
      | none => exact hbalanced
      | some index =>
          have hlive := isSome_or_of_session hsession (some (session.remove index))
          have hcount := session.countFor_remove hfind topic
          have hentries := entries_release H (server.setSession client (session.remove index))
            client server.manager unwanted topic
          rw [hasOtherSubscriber_setSession hlive] at hentries
          by_cases htopic : unwanted = topic
          · subst htopic
            have hsingle := hbalanced.single client session hsession
            rw [if_pos rfl] at hcount hentries
            refine hbalanced.leave (hbalanced.single_setSession hlive ?_) ?_ ?_ ?_ hentries
              fun _ => Nat.one_pos
            · rintro _ ⟨⟩
              omega
            · change (server.setSession client (some (session.remove index))).holds _ client = _
              rw [holds_setSession hlive, if_pos rfl, Option.any_some, Bool.eq_false_iff, ne_eq,
                Session.isSubscribed_iff]
              omega
            · intro other hother
              change (server.setSession client (some (session.remove index))).holds _ other = _
              rw [holds_setSession hlive, if_neg hother]
            · intro other hother _
              exact hother
          · rw [if_neg htopic] at hcount hentries
            apply hbalanced.replace hsession hcount
            rw [hentries]
            simp only [Nat.sub_zero, Option.map_id', ite_self]

theorem entries_cleanupSubscriptions (server : Server crypto) (client : Nat) (topic : Bytes) :
    entries (server.cleanupSubscriptions H client).manager topic =
      if server.hasOtherSubscriber topic client = true then entries server.manager topic
      else (entries server.manager topic).map
        (· - ((server.session client).map (·.countFor topic)).getD 0) := by
  unfold cleanupSubscriptions
  cases server.session client with
  | none => simp
  | some session =>
      dsimp only
      rw [entries_foldl_release, Session.count_activeTopics]
      rfl

theorem registry_unregister_perm (server : Server crypto) (client : Nat) :
    (server.unregister client).registry.Perm (server.registry.erase client) := by
  unfold unregister
  cases hfind : server.registry.findIdx? (· == client) with
  | none =>
      have hnot : client ∉ server.registry := by
        intro hclient
        exact Bool.false_ne_true
          ((List.findIdx?_eq_none_iff.mp hfind client hclient).symm.trans (beq_self_eq_true client))
      rw [List.erase_of_not_mem hnot]
  | some index => exact swapRemove_perm_erase hfind

theorem mem_registry_unregister {other : Nat} (hother : other ∈ server.registry)
    (hne : other ≠ client) : other ∈ (server.unregister client).registry :=
  (server.registry_unregister_perm client).mem_iff.mpr ((List.mem_erase_of_ne hne).mpr hother)

theorem unregister_frame (server : Server crypto) (client : Nat) :
    (server.unregister client).sessions = server.sessions ∧
      (server.unregister client).manager = server.manager := by
  unfold unregister
  split <;> exact ⟨rfl, rfl⟩

theorem cleanupSubscriptions_frame (server : Server crypto) (client : Nat) :
    (server.cleanupSubscriptions H client).sessions = server.sessions ∧
      (server.cleanupSubscriptions H client).registry = server.registry := by
  unfold cleanupSubscriptions
  split <;> exact ⟨rfl, rfl⟩

theorem session_disconnect (server : Server crypto) (client other : Nat) :
    (server.disconnect H client).session other =
      if other = client then none else server.session other := by
  unfold disconnect
  rw [session_setSession (.inr rfl)]
  unfold session
  rw [(unregister_frame _ client).1, (server.cleanupSubscriptions_frame H client).1]

theorem Balanced.disconnect {topic : Bytes} (hbalanced : server.Balanced topic) (client : Nat) :
    (server.disconnect H client).Balanced topic := by
  have hentries := server.entries_cleanupSubscriptions H client topic
  rw [← (unregister_frame (server.cleanupSubscriptions H client) client).2] at hentries
  refine hbalanced.leave ?_ ?_ ?_ ?_ hentries ?_
  · intro other session hsession
    rw [session_disconnect] at hsession
    split_ifs at hsession
    exact hbalanced.single other session hsession
  · rw [holds, session_disconnect, if_pos rfl]
    rfl
  · intro other hother
    rw [holds, session_disconnect, if_neg hother]
    rfl
  · intro other hother hne
    apply mem_registry_unregister _ hne
    rw [(server.cleanupSubscriptions_frame H client).2]
    exact hother
  · intro hholds
    obtain ⟨session, hsession, hsubscribed⟩ := (Option.any_eq_true _ _).mp hholds
    rw [hsession]
    exact (session.isSubscribed_iff topic).mp hsubscribed

theorem Balanced.step {topic : Bytes} {label : ClientStep} (hbalanced : server.Balanced topic)
    (hshort : topic.length + 1 < maxTopicPath) (halone : Alone topic server label) :
    (server.step H label).Balanced topic := by
  cases label with
  | connect => exact hbalanced.connect
  | subscribe client wanted loopback =>
      exact hbalanced.subscribe H hshort client wanted loopback halone
  | unsubscribe client unwanted => exact hbalanced.unsubscribe H client unwanted.bytes
  | disconnect client => exact hbalanced.disconnect H client

def start (manager : Manager crypto) : Server crypto :=
  ⟨manager, [], []⟩

/-- **Agreement.** A channel is there and is not yet subscribed to its topic when the server
starts. In every run in which a session subscribes to the topic only while it is registered and no
other registered session is subscribed, the channel stays subscribed to the topic exactly while a
registered session is. -/
theorem agrees_of_alone {manager : Manager crypto} {channel : Channel crypto} {topic : Bytes}
    (hchannel : manager.findByTopic topic = some channel)
    (hstart : channel.quasar.isLocallySubscribed topic = false) {labels : List ClientStep}
    (halone : Runs.Meets (step H) (Alone topic) (start manager) labels) :
    (Runs.run (step H) (start manager) labels).Agrees topic := by
  have hshort : topic.length + 1 < maxTopicPath := by
    obtain rfl := Manager.topic_eq_of_findByTopic hchannel
    exact Nat.lt_trans (Nat.succ_lt_succ channel.nodeId.str.length_lt) (by decide)
  have hbalanced : (start manager).Balanced topic := by
    refine ⟨?_, ?_, ?_⟩
    · intro client session hsession
      contradiction
    · intro client hholds
      contradiction
    · refine ⟨channel.entries topic, congrArg (Option.map _) hchannel, .inr ⟨?_, fun _ => rfl⟩⟩
      apply Nat.eq_zero_of_not_pos
      rw [← channel.isLocallySubscribed_iff, hstart]
      exact Bool.false_ne_true
  exact (Runs.invariant_of_meets (step H) (Balanced · topic)
    (fun server label hbalanced halone => hbalanced.step H hshort halone) hbalanced halone).agrees

open Manager (topicOf withChannel)

/-- Two clients use the topic of the key `1` one after the other. -/
def inTurn : List ClientStep :=
  [.connect, .connect, .subscribe 0 (topicOf [1]) false,
    .unsubscribe 0 (topicOf [1]), .subscribe 1 (topicOf [1]) true,
    .subscribe 1 (topicOf [2]) true, .disconnect 0]

open Network (byteHash)

theorem agrees_of_alone_inTurn :
    ∃ manager, withChannel = some manager ∧
      (Runs.run (step byteHash) (start manager) inTurn).registry = [1] ∧
      (Runs.run (step byteHash) (start manager) inTurn).Agrees
        (topicOf [1]).bytes := by
  have hany : (withChannel.any fun manager =>
      (manager.findByTopic (topicOf [1]).bytes).any fun channel =>
        decide (channel.quasar.isLocallySubscribed (topicOf [1]).bytes = false) &&
        decide ((Runs.run (step byteHash) (start manager) inTurn).registry = [1]) &&
        decide (Runs.Meets (step byteHash) (Alone (topicOf [1]).bytes)
          (start manager) inTurn)) = true := by
    decide +kernel
  obtain ⟨manager, hmanager, hany⟩ := (Option.any_eq_true _ _).mp hany
  obtain ⟨channel, hchannel, hany⟩ := (Option.any_eq_true _ _).mp hany
  simp only [Bool.and_eq_true, decide_eq_true_eq] at hany
  have hagrees := agrees_of_alone byteHash hchannel hany.1.1 hany.2
  exact ⟨manager, hmanager, hany.1.2, hagrees⟩

/-- Two clients subscribe to the topic of the key `1` and then give it up. -/
def together : List ClientStep :=
  [.connect, .connect, .subscribe 0 (topicOf [1]) false,
    .subscribe 1 (topicOf [1]) false, .unsubscribe 0 (topicOf [1]),
    .unsubscribe 1 (topicOf [1])]

/-- The channel stays subscribed when the last of two clients has given its topic up. -/
theorem subscribed_for_nobody :
    ∃ manager channel, withChannel = some manager ∧
      (Runs.run (step byteHash) (start manager) together).manager.findByTopic
        (topicOf [1]).bytes = some channel ∧
      channel.quasar.isLocallySubscribed (topicOf [1]).bytes = true ∧
      ∀ client ∈ (Runs.run (step byteHash) (start manager) together).registry,
        (Runs.run (step byteHash) (start manager) together).holds
          (topicOf [1]).bytes client = false := by
  have hany : (withChannel.any fun manager =>
      ((Runs.run (step byteHash) (start manager) together).manager.findByTopic
        (topicOf [1]).bytes).any fun channel =>
          decide (channel.quasar.isLocallySubscribed (topicOf [1]).bytes = true ∧
            ∀ client ∈ (Runs.run (step byteHash) (start manager) together).registry,
              (Runs.run (step byteHash) (start manager) together).holds
                (topicOf [1]).bytes client = false)) = true := by
    decide +kernel
  obtain ⟨manager, hmanager, hany⟩ := (Option.any_eq_true _ _).mp hany
  obtain ⟨channel, hchannel, hany⟩ := (Option.any_eq_true _ _).mp hany
  exact ⟨manager, channel, hmanager, hchannel, of_decide_eq_true hany⟩

end Server

end Poseidon
