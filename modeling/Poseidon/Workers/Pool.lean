import Mathlib.Data.Finset.Basic
import Mathlib.Data.Fin.Basic
import Mathlib.Algebra.Order.Ring.Int
import Poseidon.Lib.Threads

/-!
# The work pool

Work items go into sixteen queues in turn, and any number of workers take them out. A worker looks
through the queues without the lock of the pool first; only when they are empty does it take the
lock, look again and wait on the condition. Whoever enqueues reads the stop flag under the lock, and
appends and signals without it. After the shutdown the workers run out, and the destruction of the
pool aborts what is left.

The part of a function that is done under the lock of one queue is one step, as is everything a
thread does without another being able to notice.
-/

namespace Poseidon

open Threads (Instr)

/-- One of the `QUEUE_SHARDS` queues. -/
abbrev Shard := Fin 16

/-- The queue some places after another one, modulo `QUEUE_SHARDS`. -/
def shardAfter (start : Shard) (i : Nat) : Shard :=
  start + Fin.ofNat 16 i

/-- `work_pool_t` with its queues. Besides, it is recorded which threads wait on the condition and
which of them have a wake-up pending; how many items there are; what was appended to and taken from
each queue, run and aborted; for which items `work_pool_enqueue` has returned 0; which workers have
returned; and, once the pool is being destroyed, the thread that does it and the items accepted by
then. -/
structure WorkPool where
  size : Nat
  queues : Shard → List Nat
  nextShard : UInt64
  stop : Bool
  idleCount : Nat
  waiting : List Nat
  woken : Finset Nat
  created : Nat
  pushed : Shard → List Nat
  taken : Shard → List Nat
  executed : List Nat
  aborted : List Nat
  accepted : List Nat
  exited : Finset Nat
  draining : Option (Nat × List Nat)
  destroyed : Bool

/-- The three calls of `sharded_work_dequeue` in `workerFunction`. -/
inductive Scan where
  | fast
  | recheck
  | afterWait
deriving DecidableEq, Repr

/-- Where a thread is. A worker has its `start_shard` with it; `wakes` is the choice of the thread
that a signal wakes. -/
inductive PoolAction where
  -- `sharded_work_dequeue`, at the queue `i` places after the first one.
  | scan (phase : Scan) (start : Shard) (i : Nat)
  -- Nothing was found under the lock.
  | checkStop (start : Shard)
  -- `platform_condition_wait` is called.
  | wait (start : Shard)
  -- Blocked in `platform_condition_wait`.
  | park (start : Shard)
  -- `platform_condition_wait` has returned.
  | resume (start : Shard)
  -- The end of the part under the lock.
  | leave (start : Shard) (work : Option Nat)
  -- The worker has an item.
  | perform (start : Shard) (work : Nat)
  | exit
  -- `work_pool_enqueue` is called with a new item.
  | create (wakes : Nat)
  | readStop (work wakes : Nat)
  | takeShard (work wakes : Nat)
  | push (work : Nat) (shard : Shard) (wakes : Nat)
  | signal (work wakes : Nat)
  -- `work_pool_shutdown` under the lock.
  | shutdown
  -- `work_pool_join_all`.
  | join
  -- `work_pool_destroy` by the last owner of the pool.
  | destroy
  -- `sharded_work_queue_destroy`, from the queue `i` on.
  | drain (i : Nat)
  | abort (i work : Nat)
  -- A thread wakes up from the condition though nobody signalled it.
  | wakeUp (thread : Nat)
deriving DecidableEq, Repr

/-- The one lock that is held over several steps. -/
inductive PoolLock where
  | pool
deriving DecidableEq, Repr

abbrev PoolInstr := Instr PoolLock PoolAction

namespace WorkPool

/-- `work_pool_create`. -/
def create (size : Nat) : WorkPool where
  size := size
  queues := fun _ => []
  nextShard := 0
  stop := false
  idleCount := 0
  waiting := []
  woken := ∅
  created := 0
  pushed := fun _ => []
  taken := fun _ => []
  executed := []
  aborted := []
  accepted := []
  exited := ∅
  draining := none
  destroyed := false

/-- `work_enqueue` on one queue. -/
def enqueue (pool : WorkPool) (shard : Shard) (work : Nat) : WorkPool :=
  { pool with
    queues := Function.update pool.queues shard (pool.queues shard ++ [work])
    pushed := Function.update pool.pushed shard (pool.pushed shard ++ [work]) }

/-- `work_dequeue` on one queue. -/
def dequeue (pool : WorkPool) (shard : Shard) : Option (Nat × WorkPool) :=
  match pool.queues shard with
  | [] => none
  | work :: rest =>
      some (work,
        { pool with
          queues := Function.update pool.queues shard rest
          taken := Function.update pool.taken shard (pool.taken shard ++ [work]) })

/-- A thread that waits on the condition gets a wake-up. -/
def wake (pool : WorkPool) (thread : Nat) : WorkPool :=
  { pool with waiting := pool.waiting.erase thread, woken := insert thread pool.woken }

/-- `platform_signal_condition`: one of the waiting threads, if there is any. -/
def signal (pool : WorkPool) (wakes : Nat) : WorkPool :=
  match pool.waiting[wakes % pool.waiting.length]? with
  | none => pool
  | some thread => pool.wake thread

/-- `platform_broadcast_condition`. -/
def broadcast (pool : WorkPool) : WorkPool :=
  { pool with waiting := [], woken := pool.woken ∪ pool.waiting.toFinset }

end WorkPool

namespace PoolAction

def found (start : Shard) (work : Nat) : Scan → List PoolInstr
  | .fast => [.act (.perform start work)]
  | .recheck => [.act (.leave start (some work))]
  | .afterWait => [.act (.leave start (some work))]

/-- All queues were empty. The next call of `sharded_work_dequeue` starts one queue further. -/
def exhausted (start : Shard) : Scan → List PoolInstr
  | .fast => [.lock .pool, .act (.scan .recheck (shardAfter start 1) 0)]
  | .recheck => [.act (.checkStop start)]
  | .afterWait => [.act (.leave start none)]

/-- `sharded_work_dequeue`. -/
def scanFrom (pool : WorkPool) (phase : Scan) (start : Shard) (i : Nat) :
    WorkPool × List PoolInstr :=
  match pool.dequeue (shardAfter start i) with
  | some (work, pool) => (pool, found start work phase)
  | none =>
      (pool, if i + 1 < 16 then [.act (.scan phase start (i + 1))] else exhausted start phase)

/-- `sharded_work_queue_destroy`. -/
def drainFrom (pool : WorkPool) (i : Nat) : WorkPool × List PoolInstr :=
  if i < 16 then
    match pool.dequeue (Fin.ofNat 16 i) with
    | some (work, pool) => (pool, [.act (.abort i work)])
    | none => (pool, [.act (.drain (i + 1))])
  else
    ({ pool with destroyed := true }, [])

def exec (thread : Nat) : PoolAction → WorkPool → Option (WorkPool × List PoolInstr)
  | .scan phase start i, pool => some (scanFrom pool phase start i)
  | .checkStop start, pool =>
      some (if pool.stop then (pool, [.act (.leave start none)])
        else ({ pool with idleCount := pool.idleCount + 1 }, [.act (.wait start)]))
  | .wait start, pool =>
      some ({ pool with waiting := pool.waiting ++ [thread] },
        [.unlock .pool, .act (.park start)])
  | .park start, pool =>
      if thread ∈ pool.woken then
        some ({ pool with woken := pool.woken.erase thread }, [.lock .pool, .act (.resume start)])
      else
        none
  | .resume start, pool =>
      some ({ pool with idleCount := pool.idleCount - 1 },
        [.act (.scan .afterWait (shardAfter start 1) 0)])
  | .leave start (some work), pool => some (pool, [.unlock .pool, .act (.perform start work)])
  | .leave start none, pool =>
      some (pool, [.unlock .pool,
        .act (if pool.stop then .exit else .scan .fast (shardAfter start 1) 0)])
  | .perform start work, pool =>
      some (if pool.stop then { pool with aborted := pool.aborted ++ [work] }
        else { pool with executed := pool.executed ++ [work] },
        [.act (.scan .fast (shardAfter start 1) 0)])
  | .exit, pool => some ({ pool with exited := insert thread pool.exited }, [])
  | .create wakes, pool =>
      some ({ pool with created := pool.created + 1 },
        [.lock .pool, .act (.readStop pool.created wakes)])
  | .readStop work wakes, pool =>
      some (pool, .unlock .pool :: if pool.stop then [] else [.act (.takeShard work wakes)])
  | .takeShard work wakes, pool =>
      some ({ pool with nextShard := pool.nextShard + 1 },
        [.act (.push work (Fin.ofNat 16 pool.nextShard.toNat) wakes)])
  | .push work shard wakes, pool => some (pool.enqueue shard work, [.act (.signal work wakes)])
  | .signal work wakes, pool =>
      some ({ pool.signal wakes with accepted := pool.accepted ++ [work] }, [])
  | .shutdown, pool => some ({ pool.broadcast with stop := true }, [])
  | .join, pool =>
      if ∀ worker < pool.size, worker ∈ pool.exited then some (pool, [.act .destroy]) else none
  | .destroy, pool =>
      if pool.draining = none then
        some ({ pool with draining := some (thread, pool.accepted) }, [.act (.drain 0)])
      else
        none
  | .drain i, pool => some (drainFrom pool i)
  | .abort i work, pool =>
      some ({ pool with aborted := pool.aborted ++ [work] }, [.act (.drain i)])
  | .wakeUp sleeper, pool =>
      some (if sleeper ∈ pool.waiting then pool.wake sleeper else pool, [])

end PoolAction

/-- What a thread may start. The workers are running from the beginning. -/
inductive PoolCall where
  | enqueue (wakes : Nat)
  | shutdown
  | joinAndDestroy
  | wakeUp (thread : Nat)
deriving DecidableEq

def PoolCall.program : PoolCall → List PoolInstr
  | .enqueue wakes => [.act (.create wakes)]
  | .shutdown => [.lock .pool, .act .shutdown, .unlock .pool]
  | .joinAndDestroy => [.act .join]
  | .wakeUp thread => [.act (.wakeUp thread)]

def poolCode : Threads.Code PoolLock PoolAction WorkPool PoolCall where
  exec := PoolAction.exec
  program := PoolCall.program

abbrev PoolSystem := Threads.System PoolLock PoolAction WorkPool

namespace PoolSystem

/-- `work_pool_launch`: the threads below the size of the pool run `workerFunction`. -/
def launch (size : Nat) : PoolSystem where
  shared := .create size
  holder := fun _ => none
  todo := fun thread => if thread < size then [.act (.scan .fast 0 0)] else []

def run (s : PoolSystem) (turns : List (Threads.Turn PoolCall)) : PoolSystem :=
  Runs.run (Threads.step poolCode) s turns

end PoolSystem

end Poseidon
