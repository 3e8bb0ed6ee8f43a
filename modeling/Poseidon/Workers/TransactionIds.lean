import Mathlib.Logic.Function.Basic
import Poseidon.Lib.ByteOrder
import Poseidon.Lib.Runs
import Poseidon.Quasar.MessageIds

/-!
# Transaction ids

A transaction id is a reading of the monotonic clock and the next number of a counter that all
threads share. Ids are compared field by field and stored with the most significant byte first, so
that their stored forms are ordered as the ids are. After a recovery, `transaction_id_advance_to`
raises the counter above the recovered ids by a loop of compare-and-exchange, while other threads
draw ids. The ids of messages have the same fields, the same order and the same stored form.
-/

namespace Poseidon

/-- `transaction_id_t`. -/
structure TransactionId where
  time : UInt64
  nanos : UInt64
  count : UInt64
deriving DecidableEq, Repr

namespace TransactionId

/-- `transaction_id_compare`. -/
def compare (id1 id2 : TransactionId) : Int :=
  if id1.time > id2.time then 1
  else if id1.time < id2.time then -1
  else if id1.nanos > id2.nanos then 1
  else if id1.nanos < id2.nanos then -1
  else if id1.count > id2.count then 1
  else if id1.count < id2.count then -1
  else 0

def toMessageId (id : TransactionId) : MessageId :=
  ⟨id.time, id.nanos, id.count⟩

/-- `transaction_id_serialize`, which does what `quasar_message_id_serialize` does. -/
def serialize (id : TransactionId) : Bytes :=
  id.toMessageId.serialize

/-- `transaction_id_deserialize`. -/
def deserialize (bytes : Bytes) : TransactionId :=
  let id := MessageId.deserialize bytes
  ⟨id.time, id.nanos, id.count⟩

end TransactionId

/-- `quasar_message_id_compare`, which does what `transaction_id_compare` does. -/
def MessageId.compare (a b : MessageId) : Int :=
  TransactionId.compare ⟨a.time, a.nanos, a.count⟩ ⟨b.time, b.nanos, b.count⟩

/-! ### The order of the stored forms -/

namespace MessageId

theorem beNat_word (word : UInt64) : beNat (beBytes 8 word.toNat) = word.toNat :=
  beNat_beBytes (Nat.lt_of_lt_of_eq word.toNat_lt (by norm_num))

theorem beNat_serialize (id : MessageId) :
    beNat id.serialize =
      id.time.toNat * 2 ^ 128 + (id.nanos.toNat * 2 ^ 64 + id.count.toNat) := by
  rw [serialize, beNat_append, beNat_append, beNat_word, beNat_word, beNat_word,
    List.length_append, length_beBytes, length_beBytes]
  norm_num

/-- **Order.** The comparison of two ids is that of their stored forms by `memcmp`. -/
theorem compare_eq_sign_memcmp (a b : MessageId) :
    a.compare b = Int.sign (memcmp a.serialize b.serialize) := by
  rw [sign_memcmp (by simp), beNat_serialize, beNat_serialize]
  have hbounds := And.intro a.nanos.toNat_lt (And.intro a.count.toNat_lt
    (And.intro b.nanos.toNat_lt b.count.toNat_lt))
  unfold compare TransactionId.compare
  simp only [gt_iff_lt, UInt64.lt_iff_toNat_lt]
  split_ifs
  · rw [Int.sign_eq_one_of_pos (by omega)]
  · rw [Int.sign_eq_neg_one_of_neg (by omega)]
  · rw [Int.sign_eq_one_of_pos (by omega)]
  · rw [Int.sign_eq_neg_one_of_neg (by omega)]
  · rw [Int.sign_eq_one_of_pos (by omega)]
  · rw [Int.sign_eq_neg_one_of_neg (by omega)]
  · rw [eq_comm, Int.sign_eq_zero_iff_zero]
    omega

end MessageId

namespace TransactionId

/-- **Stored ids.** The stored forms of ids are the strings of 24 bytes, reading one back gives the
id, and `memcmp` orders them as `transaction_id_compare` orders the ids. The same holds of the ids
of messages. -/
theorem transactionId_stored_order :
    ((∀ id : TransactionId, id.serialize.length = 24 ∧ deserialize id.serialize = id) ∧
      (∀ bytes : Bytes, bytes.length = 24 → (deserialize bytes).serialize = bytes) ∧
      ∀ a b : TransactionId, a.compare b = Int.sign (memcmp a.serialize b.serialize)) ∧
    (∀ id : MessageId, id.serialize.length = 24 ∧ MessageId.deserialize id.serialize = id) ∧
      (∀ bytes : Bytes, bytes.length = 24 → (MessageId.deserialize bytes).serialize = bytes) ∧
      ∀ a b : MessageId, a.compare b = Int.sign (memcmp a.serialize b.serialize) := by
  refine ⟨⟨fun id => ⟨MessageId.length_serialize _, ?_⟩, fun bytes hlength => ?_, fun a b => ?_⟩,
    fun id => ⟨id.length_serialize, id.deserialize_serialize⟩,
    fun bytes hlength => MessageId.serialize_deserialize hlength, MessageId.compare_eq_sign_memcmp⟩
  · rw [deserialize, serialize, MessageId.deserialize_serialize]
    rfl
  · exact MessageId.serialize_deserialize hlength
  · exact MessageId.compare_eq_sign_memcmp a.toMessageId b.toMessageId

end TransactionId

/-! ### Drawing ids and raising the counter -/

/-- `target->count + TXN_ID_BATCH_SIZE`. -/
def TransactionId.newCount (target : TransactionId) : UInt64 :=
  target.count + 1000

theorem TransactionId.toNat_newCount (target : TransactionId)
    (hroom : target.count.toNat + 1000 < 2 ^ 64) :
    target.newCount.toNat = target.count.toNat + 1000 := by
  rw [newCount, UInt64.toNat_add]
  exact Nat.mod_eq_of_lt hroom

/-- Where a thread is: outside, between reading the clock and drawing its number, or in the loop of
`transaction_id_advance_to` with the value of the counter it has last seen. -/
inductive TxnCall where
  | idle
  | reading (stamp : ClockStamp)
  | advancing (target : TransactionId) (current : UInt64)
deriving DecidableEq, Repr

/-- `g_global_count` and the threads, with the ids drawn, in their order, and the targets of the
calls of `transaction_id_advance_to` that have returned. -/
structure TxnIds (τ : Type*) where
  globalCount : UInt64
  calls : τ → TxnCall
  returned : List TransactionId
  advanced : List TransactionId

inductive TxnStep (τ : Type*) where
  | clockGettime (thread : τ) (stamp : ClockStamp)
  | fetchAdd (thread : τ)
  | load (thread : τ) (target : TransactionId)
  /-- One round of the loop; a weak exchange may fail although the value is the expected one. -/
  | exchange (thread : τ) (spurious : Bool)
deriving DecidableEq, Repr

namespace TxnIds

variable {τ : Type*}

def start : TxnIds τ := ⟨0, fun _ => .idle, [], []⟩

section Steps

variable [DecidableEq τ]

def setCall (ids : TxnIds τ) (thread : τ) (call : TxnCall) : TxnIds τ :=
  { ids with calls := Function.update ids.calls thread call }

def step (ids : TxnIds τ) : TxnStep τ → TxnIds τ
  | .clockGettime thread stamp =>
      match ids.calls thread with
      | .idle => ids.setCall thread (.reading stamp)
      | _ => ids
  | .fetchAdd thread =>
      match ids.calls thread with
      | .reading stamp =>
          { ids.setCall thread .idle with
            globalCount := ids.globalCount + 1
            returned := ids.returned ++ [⟨stamp.time, stamp.nanos, ids.globalCount⟩] }
      | _ => ids
  | .load thread target =>
      match ids.calls thread with
      | .idle => ids.setCall thread (.advancing target ids.globalCount)
      | _ => ids
  | .exchange thread spurious =>
      match ids.calls thread with
      | .advancing target current =>
          if target.newCount > current then
            if !spurious && ids.globalCount == current then
              { ids.setCall thread .idle with
                globalCount := target.newCount
                advanced := target :: ids.advanced }
            else ids.setCall thread (.advancing target ids.globalCount)
          else { ids.setCall thread .idle with advanced := target :: ids.advanced }
      | _ => ids

/-- No number is drawn that makes the counter start again at 0. -/
def NoWrap (ids : TxnIds τ) : TxnStep τ → Prop
  | .fetchAdd _ => ids.globalCount.toNat + 1 < 2 ^ 64
  | _ => True

instance (ids : TxnIds τ) : ∀ txnStep, Decidable (ids.NoWrap txnStep)
  | .clockGettime _ _ => isTrue trivial
  | .fetchAdd _ => inferInstanceAs (Decidable (_ < _))
  | .load _ _ => isTrue trivial
  | .exchange _ _ => isTrue trivial

omit [DecidableEq τ] in
/-- A thread in the loop has just seen the counter or is where it was. -/
def Follows (ids : TxnIds τ) (calls : τ → TxnCall) : Prop :=
  ∀ thread target current, calls thread = .advancing target current →
    current = ids.globalCount ∨ ids.calls thread = .advancing target current

/-- What a step does to the counter: nothing, a draw, or the end of an advance, which leaves the
counter or raises it. -/
theorem step_cases (ids : TxnIds τ) (txnStep : TxnStep τ) :
    (∃ calls, ids.step txnStep = { ids with calls := calls } ∧ ids.Follows calls) ∨
      (∃ thread, ∃ stamp : ClockStamp, txnStep = .fetchAdd thread ∧ ids.step txnStep =
        { ids.setCall thread .idle with
          globalCount := ids.globalCount + 1
          returned := ids.returned ++ [⟨stamp.time, stamp.nanos, ids.globalCount⟩] }) ∨
      ∃ thread target current count, ids.calls thread = .advancing target current ∧
        ids.step txnStep =
          { ids.setCall thread .idle with
            globalCount := count, advanced := target :: ids.advanced } ∧
        (count = ids.globalCount ∧ target.newCount ≤ current ∨
          count = target.newCount ∧ ids.globalCount < target.newCount) := by
  -- a step that only moves one thread
  have hmoved : ∀ thread call, ids.step txnStep = ids.setCall thread call →
      (∀ target current, call = .advancing target current → current = ids.globalCount) →
      ∃ calls, ids.step txnStep = { ids with calls := calls } ∧ ids.Follows calls := by
    intro thread call hstep hcall
    refine ⟨_, hstep, fun other target current hother => ?_⟩
    by_cases hsame : other = thread
    · subst hsame
      rw [Function.update_self] at hother
      exact Or.inl (hcall target current hother)
    · rw [Function.update_of_ne hsame] at hother
      exact Or.inr hother
  have hnone : ids.step txnStep = ids →
      ∃ calls, ids.step txnStep = { ids with calls := calls } ∧ ids.Follows calls :=
    fun hstep => ⟨ids.calls, hstep, fun _ _ _ hcall => Or.inr hcall⟩
  cases txnStep with
  | clockGettime thread stamp =>
      cases hcall : ids.calls thread with
      | idle => exact Or.inl (hmoved thread (.reading stamp) (by simp [step, hcall]) (by simp))
      | reading _ => exact Or.inl (hnone (by simp [step, hcall]))
      | advancing _ _ => exact Or.inl (hnone (by simp [step, hcall]))
  | fetchAdd thread =>
      cases hcall : ids.calls thread with
      | idle => exact Or.inl (hnone (by simp [step, hcall]))
      | reading stamp =>
          refine Or.inr (Or.inl ⟨thread, stamp, rfl, ?_⟩)
          simp only [step, hcall]
      | advancing _ _ => exact Or.inl (hnone (by simp [step, hcall]))
  | load thread target =>
      cases hcall : ids.calls thread with
      | idle =>
          refine Or.inl (hmoved thread (.advancing target ids.globalCount) ?_ ?_)
          · simp only [step, hcall]
          · exact fun _ _ heq => (TxnCall.advancing.inj heq).2.symm
      | reading _ => exact Or.inl (hnone (by simp [step, hcall]))
      | advancing _ _ => exact Or.inl (hnone (by simp [step, hcall]))
  | exchange thread spurious =>
      cases hcall : ids.calls thread with
      | idle => exact Or.inl (hnone (by simp [step, hcall]))
      | reading _ => exact Or.inl (hnone (by simp [step, hcall]))
      | advancing target current =>
          simp only [step, hcall]
          split_ifs with hmore hequal
          · rw [Bool.and_eq_true, beq_iff_eq] at hequal
            refine Or.inr (Or.inr ⟨thread, target, current, target.newCount, hcall, rfl, ?_⟩)
            exact Or.inr ⟨rfl, hequal.2 ▸ hmore⟩
          · have hstep : ids.step (.exchange thread spurious) =
                ids.setCall thread (.advancing target ids.globalCount) := by
              simp only [step, hcall, if_pos hmore, if_neg hequal]
            rw [← hstep]
            exact Or.inl (hmoved thread _ hstep fun _ _ heq => (TxnCall.advancing.inj heq).2.symm)
          · refine Or.inr (Or.inr ⟨thread, target, current, ids.globalCount, hcall, rfl, ?_⟩)
            exact Or.inl ⟨rfl, UInt64.not_lt.mp hmore⟩

end Steps

/-- The counter is above everything that was drawn, seen or asked for. -/
structure Ordered (ids : TxnIds τ) : Prop where
  increasing : ids.returned.Pairwise fun id next => id.count < next.count
  drawn : ∀ id ∈ ids.returned, id.count < ids.globalCount
  seen : ∀ thread target current, ids.calls thread = .advancing target current →
    current ≤ ids.globalCount
  asked : ∀ target ∈ ids.advanced, target.newCount ≤ ids.globalCount

theorem ordered_start : (start : TxnIds τ).Ordered :=
  ⟨List.Pairwise.nil, by simp [start], by simp [start], by simp [start]⟩

section Runs

variable [DecidableEq τ]

omit [DecidableEq τ] in
theorem lt_add_one_of_noWrap {ids : TxnIds τ} {thread : τ} (hwrap : ids.NoWrap (.fetchAdd thread)) :
    ids.globalCount < ids.globalCount + 1 := by
  have hnat : ids.globalCount.toNat + 1 < 2 ^ 64 := hwrap
  rw [UInt64.lt_iff_toNat_lt, UInt64.toNat_add, UInt64.toNat_one, Nat.mod_eq_of_lt hnat]
  exact Nat.lt_succ_self _

theorem Ordered.step {ids : TxnIds τ} (hids : ids.Ordered) {txnStep : TxnStep τ}
    (hwrap : ids.NoWrap txnStep) : (ids.step txnStep).Ordered := by
  -- the counter grows, and the threads that stay in the loop have seen no more than it
  have hothers : ∀ {thread : τ} {count}, ids.globalCount ≤ count →
      ∀ other target current, (ids.setCall thread .idle).calls other = .advancing target current →
        current ≤ count := by
    intro thread count hcount other target current hother
    by_cases hsame : other = thread
    · subst hsame
      simp [setCall] at hother
    · simp only [setCall, Function.update_of_ne hsame] at hother
      exact UInt64.le_trans (hids.seen other target current hother) hcount
  rcases ids.step_cases txnStep with ⟨calls, hstep, hseen⟩ | ⟨thread, stamp, rfl, hstep⟩ |
    ⟨thread, target, current, count, hcall, hstep, hcount⟩
  · rw [hstep]
    refine ⟨hids.increasing, hids.drawn, fun thread target current hcall => ?_, hids.asked⟩
    rcases hseen thread target current hcall with rfl | hbefore
    · exact UInt64.le_refl _
    · exact hids.seen thread target current hbefore
  · have hless := lt_add_one_of_noWrap hwrap
    rw [hstep]
    refine ⟨?_, ?_, hothers (UInt64.le_of_lt hless), fun target htarget => ?_⟩
    · refine List.pairwise_append.mpr ⟨hids.increasing, List.pairwise_singleton _ _, ?_⟩
      rintro id hid next hnext
      rw [List.mem_singleton.mp hnext]
      exact hids.drawn id hid
    · intro id hid
      rcases List.mem_append.mp hid with hbefore | hnew
      · exact UInt64.lt_trans (hids.drawn id hbefore) hless
      · rw [List.mem_singleton.mp hnew]
        exact hless
    · exact UInt64.le_trans (hids.asked target htarget) (UInt64.le_of_lt hless)
  · have hgrows : ids.globalCount ≤ count ∧ target.newCount ≤ count := by
      rcases hcount with ⟨rfl, hle⟩ | ⟨rfl, hlt⟩
      · exact ⟨UInt64.le_refl _, UInt64.le_trans hle (hids.seen thread target current hcall)⟩
      · exact ⟨UInt64.le_of_lt hlt, UInt64.le_refl _⟩
    rw [hstep]
    refine ⟨hids.increasing, fun id hid => UInt64.lt_of_lt_of_le (hids.drawn id hid) hgrows.1,
      hothers hgrows.1, List.forall_mem_cons.mpr ⟨hgrows.2, fun known hknown => ?_⟩⟩
    exact UInt64.le_trans (hids.asked known hknown) hgrows.1

/-- The counter is above `floor`, and so is what was drawn behind the first `known` ids. -/
structure Above (floor : UInt64) (known : Nat) (ids : TxnIds τ) : Prop where
  known_le : known ≤ ids.returned.length
  floor_le : floor ≤ ids.globalCount
  drawn : ∀ id ∈ ids.returned.drop known, floor ≤ id.count

theorem Above.step {floor : UInt64} {known : Nat} {ids : TxnIds τ} (hids : ids.Above floor known)
    {txnStep : TxnStep τ} (hwrap : ids.NoWrap txnStep) : (ids.step txnStep).Above floor known := by
  rcases ids.step_cases txnStep with ⟨calls, hstep, -⟩ | ⟨thread, stamp, rfl, hstep⟩ |
    ⟨thread, target, current, count, -, hstep, hcount⟩
  · rw [hstep]
    exact ⟨hids.known_le, hids.floor_le, hids.drawn⟩
  · rw [hstep]
    have hless := lt_add_one_of_noWrap hwrap
    refine ⟨?_, UInt64.le_trans hids.floor_le (UInt64.le_of_lt hless), fun id hid => ?_⟩
    · rw [List.length_append]
      exact Nat.le_add_right_of_le hids.known_le
    · rw [List.drop_append_of_le_length hids.known_le] at hid
      rcases List.mem_append.mp hid with hbefore | hnew
      · exact hids.drawn id hbefore
      · rw [List.mem_singleton.mp hnew]
        exact hids.floor_le
  · rw [hstep]
    refine ⟨hids.known_le, ?_, hids.drawn⟩
    rcases hcount with ⟨rfl, -⟩ | ⟨rfl, hlt⟩
    · exact hids.floor_le
    · exact UInt64.le_trans hids.floor_le (UInt64.le_of_lt hlt)

/-- **Unique ids across recoveries.** However the threads draw ids and advance the counter, as long
as the counter does not wrap: the numbers of the ids drawn increase, so that all ids differ; and
once an advance has returned whose target leaves room for the batch, every id drawn from then on
has a number at least a batch above that of the target, and so is none of the recovered ids. -/
theorem transactionIds_advance {steps : List (TxnStep τ)}
    (hwrap : Runs.Meets step NoWrap start steps) :
    (Runs.run step start steps).returned.Pairwise (fun id next => id.count < next.count) ∧
      ∀ front back target, steps = front ++ back →
        target ∈ (Runs.run step start front).advanced → target.count.toNat + 1000 < 2 ^ 64 →
        ∀ id ∈ (Runs.run step start steps).returned.drop
          (Runs.run step start front).returned.length,
          target.count.toNat + 1000 ≤ id.count.toNat := by
  have hordered : ∀ {steps : List (TxnStep τ)}, Runs.Meets step NoWrap start steps →
      (Runs.run step start steps).Ordered :=
    fun hmeets => Runs.invariant_of_meets step Ordered (fun _ _ hids hwrap => hids.step hwrap)
      ordered_start hmeets
  refine ⟨(hordered hwrap).increasing, ?_⟩
  rintro front back target rfl htarget hroom id hid
  obtain ⟨hfront, hback⟩ := (Runs.meets_append step).mp hwrap
  have hstart : (Runs.run step start front).Above target.newCount
      (Runs.run step start front).returned.length :=
    ⟨Nat.le_refl _, (hordered hfront).asked target htarget, by simp⟩
  rw [Runs.run_append] at hid
  have habove := Runs.invariant_of_meets step (Above target.newCount _)
    (fun _ _ hids hwrap => hids.step hwrap) hstart hback
  have hle := UInt64.le_iff_toNat_le.mp (habove.drawn id hid)
  rwa [target.toNat_newCount hroom] at hle

end Runs

/-- A thread draws an id, another one advances the counter over a draw that makes its first exchange
fail, and draws again. -/
def recovery : List (TxnStep Bool) :=
  [.clockGettime false ⟨5, 0⟩, .load true ⟨9, 0, 40⟩, .fetchAdd false, .exchange true false,
    .exchange true false, .clockGettime true ⟨5, 1⟩, .fetchAdd true]

theorem transactionIds_advance_recovery :
    (Runs.run step start recovery).returned = [⟨5, 0, 0⟩, ⟨5, 1, 1040⟩] ∧
      (Runs.run step start recovery).returned.Pairwise fun id next => id.count < next.count :=
  ⟨by decide +kernel, (transactionIds_advance (by decide +kernel)).1⟩

end TxnIds

end Poseidon
