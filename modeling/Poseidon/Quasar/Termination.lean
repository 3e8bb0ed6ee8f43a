import Mathlib.Data.Fintype.Card
import Mathlib.Algebra.Order.BigOperators.Group.List
import Poseidon.Quasar.Network

/-!
# Routing of one message id terminates

A node that draws or processes an id puts it into its `seen` filter, and the filter never forgets
it. So no node gets past the duplicate check twice with one id, and none does with an id it
published itself: one id is processed at most once per node, whatever the network does.
-/

namespace Poseidon

variable {ι : Type}

/-- The event puts `id` into the `seen` filter of `node`. -/
def Event.Marks (node : ι) (id : MessageId) (event : Event ι) : Prop :=
  event = .published node id ∨ ∃ sends fanout, event = .processed node id sends fanout

def Event.Processes (node : ι) (id : MessageId) (event : Event ι) : Prop :=
  ∃ sends fanout, event = .processed node id sends fanout

structure Processing (ι : Type) where
  node : ι
  sends : Nat
  fanout : Nat

def Event.processingOf (id : MessageId) : Event ι → Option (Processing ι)
  | .processed node other sends fanout =>
      if other = id then some ⟨node, sends, fanout⟩ else none
  | _ => none

theorem Event.eq_of_processingOf {id : MessageId} {event : Event ι} {processing : Processing ι}
    (hprocessing : event.processingOf id = some processing) :
    event = .processed processing.node id processing.sends processing.fanout := by
  unfold Event.processingOf at hprocessing
  split at hprocessing
  · split_ifs at hprocessing with heq
    obtain rfl := Option.some.inj hprocessing
    rw [heq]
  · cases hprocessing

namespace Network

variable (H : HashFn)

/-- What the log says about the filters: marked ids are in them, so nothing is processed behind
a mark, and a node sends no more than its fan-out. -/
structure Logged (net : Network ι) : Prop where
  seen : ∀ event ∈ net.log, ∀ node id, event.Marks node id →
    (net.nodes node).seen.contains H id.key = true
  order : net.log.Pairwise fun earlier later =>
    ∀ node id, earlier.Marks node id → ¬later.Processes node id
  bounded : ∀ event ∈ net.log, ∀ node id sends fanout,
    event = .processed node id sends fanout → sends ≤ fanout

theorem logged_start (nodes : ι → Quasar) : Logged H (start nodes) where
  seen := by
    intro event hevent
    exact absurd hevent List.not_mem_nil
  order := List.Pairwise.nil
  bounded := by
    intro event hevent
    exact absurd hevent List.not_mem_nil

/-- New events keep the log in order if none of them processes an id that is marked already. -/
theorem Logged.append {net after : Network ι} (hlogged : Logged H net)
    {events : List (Event ι)} (hlog : after.log = net.log ++ events)
    (hmono : ∀ node key, (net.nodes node).seen.contains H key = true →
      (after.nodes node).seen.contains H key = true)
    (hseen : ∀ event ∈ events, ∀ node id, event.Marks node id →
      (after.nodes node).seen.contains H id.key = true)
    (horder : events.Pairwise fun earlier later =>
      ∀ node id, earlier.Marks node id → ¬later.Processes node id)
    (hunseen : ∀ event ∈ events, ∀ node id, event.Processes node id →
      (net.nodes node).seen.contains H id.key = false)
    (hbounded : ∀ event ∈ events, ∀ node id sends fanout,
      event = .processed node id sends fanout → sends ≤ fanout) :
    Logged H after where
  seen := by
    intro event hevent node id hmarks
    rw [hlog] at hevent
    rcases List.mem_append.mp hevent with hold | hnew
    · exact hmono node id.key (hlogged.seen event hold node id hmarks)
    · exact hseen event hnew node id hmarks
  order := by
    rw [hlog, List.pairwise_append]
    refine ⟨hlogged.order, horder, ?_⟩
    intro earlier hearlier later hlater node id hmarks hprocesses
    have hcontains := hlogged.seen earlier hearlier node id hmarks
    rw [hunseen later hlater node id hprocesses] at hcontains
    exact Bool.false_ne_true hcontains
  bounded := by
    intro event hevent
    rw [hlog] at hevent
    rcases List.mem_append.mp hevent with hold | hnew
    · exact hlogged.bounded event hold
    · exact hbounded event hnew

theorem not_marks_delivered {actor node : ι} {call : Nat} {id : MessageId} :
    ¬(Event.delivered actor call).Marks node id := by
  rintro (heq | ⟨sends, fanout, heq⟩) <;> cases heq

theorem mem_publish_events {events : List MessageId} {actor : ι} {count call : Nat}
    {event : Event ι}
    (hevent : event ∈ events.map (Event.published actor) ++
      List.replicate count (.delivered actor call)) :
    (∃ id ∈ events, event = .published actor id) ∨ event = .delivered actor call := by
  rcases List.mem_append.mp hevent with hpublished | hdelivered
  · obtain ⟨id, hid, rfl⟩ := List.mem_map.mp hpublished
    exact Or.inl ⟨id, hid, rfl⟩
  · exact Or.inr (List.eq_of_mem_replicate hdelivered)

variable [DecidableEq ι]

variable {net : Network ι}

theorem logged_publish (hlogged : Logged H net) (actor : ι) (ids : Nat → MessageId)
    (topic data : Bytes) : Logged H (net.step H (.publish actor ids topic data)) := by
  have hnone : ∀ event ∈ ((net.nodes actor).publishedIds ids topic).map (Event.published actor) ++
      List.replicate (((net.nodes actor).publish H ids topic data).2.countP Action.isCallback)
        (.delivered actor net.calls), ∀ node id, ¬event.Processes node id := by
    intro event hevent node id hprocesses
    obtain ⟨sends, fanout, rfl⟩ := hprocesses
    rcases mem_publish_events hevent with ⟨_, _, heq⟩ | heq <;> cases heq
  refine hlogged.append H rfl (fun node key => contains_seen_step H net _) ?_ ?_ ?_ ?_
  · intro event hevent node id hmarks
    rcases mem_publish_events hevent with ⟨published, hpublished, rfl⟩ | rfl
    · rcases hmarks with heq | ⟨_, _, heq⟩
      · cases heq
        simpa [step, publish, act, Quasar.publish] using
          Quasar.contains_seen_markSeen_of_mem H (net.nodes actor) hpublished
      · cases heq
    · exact absurd hmarks not_marks_delivered
  · exact List.pairwise_of_forall_mem_list fun _ _ later hlater node id _ =>
      hnone later hlater node id
  · intro event hevent node id hprocesses
    exact absurd hprocesses (hnone event hevent node id)
  · intro event hevent node id sends fanout heq
    exact absurd ⟨sends, fanout, heq⟩ (hnone event hevent node id)

theorem logged_receive (hlogged : Logged H net) (actor : ι) (index : Nat) :
    Logged H (net.step H (.receive actor index)) := by
  rcases receive_cases H net actor index with hsame | ⟨packet, -, msg, -, hunseen, hstep⟩
  · rw [step, hsame]
    exact hlogged
  have hmarked : (((net.step H (.receive actor index)).nodes actor).seen.contains H msg.id.key)
      = true := by
    rw [step, hstep, process_eq H hunseen]
    simpa [act] using
      Quasar.contains_seen_markSeen_of_mem H (net.nodes actor) (List.mem_singleton_self msg.id)
  refine hlogged.append H (by rw [step, hstep, process_eq H hunseen]; rfl)
    (fun node key => contains_seen_step H net _) ?_ ?_ ?_ ?_
  · intro event hevent node id hmarks
    rcases List.mem_append.mp hevent with hprocessed | hdelivered
    · obtain rfl := List.mem_singleton.mp hprocessed
      rcases hmarks with heq | ⟨_, _, heq⟩
      · cases heq
      · cases heq
        exact hmarked
    · rw [List.eq_of_mem_replicate hdelivered] at hmarks
      exact absurd hmarks not_marks_delivered
  · -- the one processing comes first, and what follows it only delivers
    refine List.pairwise_cons.mpr ⟨?_, ?_⟩
    · intro later hlater node id _ hprocesses
      rw [List.eq_of_mem_replicate hlater] at hprocesses
      exact not_marks_delivered (Or.inr hprocesses)
    · refine List.pairwise_of_forall_mem_list fun _ _ later hlater node id _ hprocesses => ?_
      rw [List.eq_of_mem_replicate hlater] at hprocesses
      exact not_marks_delivered (Or.inr hprocesses)
  · intro event hevent node id hprocesses
    rcases List.mem_append.mp hevent with hprocessed | hdelivered
    · obtain rfl := List.mem_singleton.mp hprocessed
      obtain ⟨_, _, heq⟩ := hprocesses
      cases heq
      exact hunseen
    · rw [List.eq_of_mem_replicate hdelivered] at hprocesses
      exact absurd (Or.inr hprocesses) not_marks_delivered
  · intro event hevent node id sends fanout heq
    rcases List.mem_append.mp hevent with hprocessed | hdelivered
    · obtain rfl := List.mem_singleton.mp hprocessed
      cases heq
      exact Quasar.countP_isSend_forward_le H (net.nodes actor) msg
    · rw [List.eq_of_mem_replicate hdelivered] at heq
      cases heq

theorem logged_step (label : Label ι) (hlogged : Logged H net) : Logged H (net.step H label) := by
  cases label with
  | publish actor ids topic data => exact logged_publish H hlogged actor ids topic data
  | receive actor index => exact logged_receive H hlogged actor index
  | perform actor operation =>
      refine ⟨?_, hlogged.order, hlogged.bounded⟩
      intro event hevent node id hmarks
      exact contains_seen_step H net (.perform actor operation)
        (hlogged.seen event hevent node id hmarks)

theorem logged_run (nodes : ι → Quasar) (labels : List (Label ι)) :
    Logged H (Runs.run (step H) (start nodes) labels) :=
  Runs.invariant (step H) (Logged H) (fun _ label hlogged => logged_step H label hlogged)
    (logged_start H nodes)

omit [DecidableEq ι] in
theorem Logged.nodup_processings {net : Network ι} (hlogged : Logged H net) (id : MessageId) :
    ((net.log.filterMap (Event.processingOf id)).map Processing.node).Nodup := by
  rw [List.Nodup, List.pairwise_map, List.pairwise_filterMap]
  apply hlogged.order.imp
  intro earlier later horder first hfirst second hsecond heq
  have hearlier := Event.eq_of_processingOf hfirst
  have hlater := Event.eq_of_processingOf hsecond
  exact horder first.node id (Or.inr ⟨_, _, hearlier⟩) ⟨_, _, heq ▸ hlater⟩

/-- **Routing of one id terminates.** In every run, each node processes an id at most once and
never behind its own publishing of it; so there are at most as many processings as nodes, and
together they send at most the sum of those nodes' fan-outs. -/
theorem routing_of_id_terminates [Fintype ι] (nodes : ι → Quasar) (labels : List (Label ι))
    (id : MessageId) :
    let log := (Runs.run (step H) (start nodes) labels).log
    let processings := log.filterMap (Event.processingOf id)
    (processings.map Processing.node).Nodup ∧
      (log.Pairwise fun earlier later =>
        ∀ node, earlier = .published node id → ¬later.Processes node id) ∧
      processings.length ≤ Fintype.card ι ∧
      (processings.map Processing.sends).sum ≤ (processings.map Processing.fanout).sum := by
  intro log processings
  have hlogged := logged_run H nodes labels
  have hnodup := hlogged.nodup_processings H id
  refine ⟨hnodup, ?_, ?_, ?_⟩
  · apply hlogged.order.imp
    intro earlier later horder node hpublished
    exact horder node id (Or.inl hpublished)
  · rw [← List.length_map (f := Processing.node)]
    exact hnodup.length_le_card
  · apply List.sum_le_sum
    intro processing hprocessing
    obtain ⟨event, hevent, hsome⟩ := List.mem_filterMap.mp hprocessing
    exact hlogged.bounded event hevent _ _ _ _ (Event.eq_of_processingOf hsome)

end Network

end Poseidon
