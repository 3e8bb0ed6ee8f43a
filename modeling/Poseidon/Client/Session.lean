import Poseidon.Channel.Manager
import Poseidon.Client.Protocol

/-!
# Client sessions

A session keeps the topics its client subscribed to, and passes them on to the channel of that
topic. The manager keeps a registry of sessions; a session that gives up a topic asks it whether
another one still wants the topic before it unsubscribes the channel. Requests are handled one
after another.
-/

namespace Poseidon

def maxSubscriptions : Nat := 256

def maxSessions : Nat := 256

/-- `client_subscription_t`. -/
structure ClientSubscription where
  topicPath : CString maxTopicPath
  active : Bool
  loopback : Bool
deriving DecidableEq, Repr

def ClientSubscription.isFor (subscription : ClientSubscription) (topic : Bytes) : Bool :=
  subscription.active && subscription.topicPath.bytes == topic

/-- The part of `client_session_t` that subscribing reads. -/
structure Session where
  subscriptions : List ClientSubscription
  length_subscriptions : subscriptions.length ≤ maxSubscriptions
deriving DecidableEq, Repr

namespace Session

def create : Session :=
  ⟨[], Nat.zero_le _⟩

def isSubscribed (session : Session) (topic : Bytes) : Bool :=
  session.subscriptions.any (·.isFor topic)

/-- `client_session_has_loopback`: what the first subscription to the topic says. -/
def hasLoopback (session : Session) (topic : Bytes) : Bool :=
  (session.subscriptions.find? (·.isFor topic)).any (·.loopback)

def find (session : Session) (topic : Bytes) : Option Nat :=
  session.subscriptions.findIdx? (·.isFor topic)

def setLoopback (session : Session) (index : Nat) (loopback : Bool) : Session where
  subscriptions := session.subscriptions.modify index fun subscription =>
    { subscription with loopback := loopback }
  length_subscriptions := by
    rw [List.length_modify]
    exact session.length_subscriptions

def add (session : Session) (topic : Bytes) (loopback : Bool)
    (hroom : session.subscriptions.length < maxSubscriptions) : Session where
  subscriptions := session.subscriptions ++
    [⟨CString.copy (maxTopicPath - 1) topic, true, loopback⟩]
  length_subscriptions := by
    rw [List.length_append]
    exact hroom

def remove (session : Session) (index : Nat) : Session where
  subscriptions := session.subscriptions.eraseIdx index
  length_subscriptions :=
    Nat.le_trans (List.length_eraseIdx_le _ _) session.length_subscriptions

def activeTopics (session : Session) : List Bytes :=
  (session.subscriptions.filter (·.active)).map fun subscription => subscription.topicPath.bytes

end Session

/-- A manager, the sessions by their number, gone where there is none, and the registry. -/
structure Server (crypto : Crypto) where
  manager : Manager crypto
  sessions : List (Option Session)
  registry : List Nat

/-- A topic is a string in a buffer of any size. -/
inductive ClientStep where
  | connect
  | subscribe (client : Nat) {capacity : Nat} (topic : CString capacity) (loopback : Bool)
  | unsubscribe (client : Nat) {capacity : Nat} (topic : CString capacity)
  | disconnect (client : Nat)

namespace Server

variable {crypto : Crypto} (H : HashFn)

def session (server : Server crypto) (client : Nat) : Option Session :=
  server.sessions.getD client none

def setSession (server : Server crypto) (client : Nat) (session : Option Session) :
    Server crypto :=
  { server with sessions := server.sessions.set client session }

/-- The number of a new session, registered if the registry has room. -/
def connect (server : Server crypto) : Server crypto :=
  { server with
    sessions := server.sessions ++ [some Session.create]
    registry := if server.registry.length ≥ maxSessions then server.registry
      else server.registry ++ [server.sessions.length] }

def unregister (server : Server crypto) (client : Nat) : Server crypto :=
  match server.registry.findIdx? (· == client) with
  | none => server
  | some index => { server with registry := swapRemove server.registry index }

def hasOtherSubscriber (server : Server crypto) (topic : Bytes) (exclude : Nat) : Bool :=
  server.registry.any fun client =>
    client != exclude && (server.session client).any (·.isSubscribed topic)

/-- The dispatcher becomes the channel's message callback unless it has one. -/
def ensureCallback (channel : Channel crypto) : Channel crypto :=
  if channel.messageCallback then channel
  else
    { channel with
      messageCallback := true
      quasar := { channel.quasar with onMessage := true } }

def onChannel (manager : Manager crypto) (topic : Bytes)
    (change : Channel crypto → Channel crypto) : Manager crypto :=
  match manager.findByTopic topic with
  | none => manager
  | some channel => manager.updateChannel channel.address change

/-- `client_session_subscribe`, with its return code. -/
def subscribe (server : Server crypto) (client : Nat) (topic : Bytes) (loopback : Bool) :
    Int × Server crypto :=
  match server.session client with
  | none => (-1, server)
  | some session =>
      match session.find topic with
      | some index => (0, server.setSession client (session.setLoopback index loopback))
      | none =>
          if hroom : session.subscriptions.length < maxSubscriptions then
            -- the channel is subscribed once more for every session
            (0, { server.setSession client (session.add topic loopback hroom) with
              manager := onChannel server.manager topic fun channel =>
                ensureCallback (channel.subscribe H topic 0) })
          else (-1, server)

/-- The channel is unsubscribed unless another session wants the topic. -/
def release (server : Server crypto) (client : Nat) (manager : Manager crypto) (topic : Bytes) :
    Manager crypto :=
  if server.hasOtherSubscriber topic client then manager
  else onChannel manager topic fun channel => channel.unsubscribe H topic

def unsubscribe (server : Server crypto) (client : Nat) (topic : Bytes) : Int × Server crypto :=
  match server.session client with
  | none => (-1, server)
  | some session =>
      match session.find topic with
      | none => (-1, server)
      | some index =>
          let removed := server.setSession client (session.remove index)
          (0, { removed with manager := removed.release H client server.manager topic })

/-- `client_session_cleanup_subscriptions`. The subscriptions of the session stay as they are. -/
def cleanupSubscriptions (server : Server crypto) (client : Nat) : Server crypto :=
  match server.session client with
  | none => server
  | some session =>
      { server with
        manager := session.activeTopics.foldl (server.release H client) server.manager }

/-- What the transports do when a client is gone. -/
def disconnect (server : Server crypto) (client : Nat) : Server crypto :=
  ((server.cleanupSubscriptions H client).unregister client).setSession client none

def step (server : Server crypto) : ClientStep → Server crypto
  | .connect => server.connect
  | .subscribe client topic loopback => (server.subscribe H client topic.bytes loopback).2
  | .unsubscribe client topic => (server.unsubscribe H client topic.bytes).2
  | .disconnect client => server.disconnect H client

end Server

end Poseidon
