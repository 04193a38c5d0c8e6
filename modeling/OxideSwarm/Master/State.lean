import OxideSwarm.Blob.Store
import OxideSwarm.Lib.Pool
import OxideSwarm.Queue.Runs
import OxideSwarm.Scheduler.Pass

/-!
# The master: its shared state and the atomic sections of its tasks

The master is a set of asynchronous tasks over four lock-protected structures: the worker registry, the
task queue, the waiter map and the blob store.  `MasterState` is what they share and `Section` lists their
lock holds, each with what its task carries into it; the code of a task is a list of sections
(`Lib/Pool.lean`).

A task's waiting is left out where it only restricts the interleavings: a connection handler does not
wait here for a result it handed to a task of its own, nor for the sweep of a superseded session.

Some fields record history and are read by no section: `handed`, `recorded`, `accepted`, `events` and the
`recorded` part of a `Delivery`.
-/

namespace OxideSwarm

/-! ## Data -/

/-- Who can cancel a task: nobody, the abort handle of a worker connection, or the end of the
connection whose frames it writes. -/
inductive Owner where
  | detached
  | handler (session : Nat)
  | writer (session : Nat)
deriving DecidableEq, Repr

/-- One `ScheduleAssignment`. -/
structure Assignment where
  taskId : TaskId
  workerId : Uuid
  sessionId : Nat
deriving DecidableEq, Repr

/-- What a worker sends. -/
inductive Inbound where
  | heartbeat (activeTasks : Nat) (cpuUsagePct : F32) (ramAvailableMb : Nat)
  | telemetry (status : MobileLiveStatus)
  | progress (t : TaskId)
  | result (r : TaskResult)
  | checkpoint (t : TaskId) (c : CheckpointData)
  | disconnecting (reason : String)
  | eof
  | readError (e : String)
  | ignored

/-- A `SubmitTask` message past its admission: `known` is what the first look at the queue said, `ids`
the blobs that were pinned. -/
structure Submission where
  task : Task
  wait : Bool
  known : Bool
  ids : List BlobId

/-- One side of a oneshot channel. -/
abbrev WaiterId := Nat

/-- A value sent to a waiter, with the result recorded for the task at that moment. -/
structure Delivery where
  waiter : WaiterId
  task : TaskId
  value : TaskResult
  recorded : Option TaskResult

/-- What the order of a worker's messages is about: a task was accepted or newly cancelled in the queue, or an
`AssignTask` (with a checkpoint or not) or a `CancelTask` was put on the channel of a session. -/
inductive Event where
  | accepted (t : TaskId)
  | cancelled (t : TaskId)
  | assignTask (a : Assignment)
  | cancelTask (t : TaskId) (session : Nat)
deriving DecidableEq, Repr

/-- Lock holds of the registry after which its task goes on as before. -/
inductive RegistryOp where
  | setRxClock (w : Uuid) (s : Nat)
  | heartbeat (w : Uuid) (s : Nat) (activeTasks : Nat) (cpuUsagePct : F32) (ramAvailableMb : Nat)
  | telemetry (w : Uuid) (s : Nat) (status : MobileLiveStatus)
  | prune
  | rejection (w : Uuid) (s : Nat)
  | clearRejections (w : Uuid)

/-- Lock holds of the blob store after which its task goes on as before. -/
inductive StoreOp where
  | unpin (t : TaskId)
  | commitOutputs (t : TaskId) (ids : List BlobId)
  | dropOutputs (ids : List BlobId)
  | sweepOutputs
  | index (id : BlobId) (size : Nat)
  | evict (keep : Option BlobId)

/-- The atomic sections. -/
inductive Section where
  -- worker connections (`handle_worker_connection`)
  | registry (op : RegistryOp)
  | spawnSweep (w : Uuid) (old : Nat)
  | ack (w : Uuid) (s : Nat)
  | serve (w : Uuid) (s : Nat)
  | progress (w : Uuid) (s : Nat) (t : TaskId)
  | checkpoint (w : Uuid) (s : Nat) (t : TaskId) (c : CheckpointData)
  | unregister (w : Uuid) (s : Nat) (reason : String) (immediate : Bool)
  | sweep (w : Uuid) (s : Nat) (reason : String) (immediate : Bool)
  | hangUp (s : Nat)
  -- the reaper
  | reapScan
  | reapWrite (candidates : List Uuid)
  -- waking clients (`resolve_terminal_waiters`)
  | resolve (t : TaskId) (fallback : Option Uuid)
  | resolveResult (t : TaskId) (info : TaskEntry) (fallback : Option Uuid)
  | wake (t : TaskId) (r : TaskResult)
  -- `apply_task_result`, `handle_oversized_master_message`, `cancel_task_and_notify`
  | pinOutputs (w : Uuid) (s : Nat) (r : TaskResult)
  | record (w : Uuid) (s : Nat) (r : TaskResult) (pin : Option (List BlobId))
  | giveBack (a : Assignment)
  | oversized (a : Assignment) (size : Nat)
  | store (op : StoreOp)
  | cancel (t : TaskId) (reason : String)
  | sendToWorker (w : Uuid) (t : TaskId)
  | sendCancel (s : Nat) (t : TaskId)
  -- `SubmitTask`
  | known (task : Task) (wait : Bool)
  | admitBlobTask (task : Task) (wait : Bool)
  | pin (task : Task) (wait : Bool) (ids : List BlobId)
  | enrol (sub : Submission)
  | submit (sub : Submission) (waiter : Option WaiterId)
  | pruneWaiters (t : TaskId)
  | await (t : TaskId) (waiter : WaiterId) (prune : Bool)
  -- `wait_task`
  | waitKnown (t : TaskId)
  | waitCheck (t : TaskId)
  | waitLock (t : TaskId)
  | waitRecheck (t : TaskId)
  | waitPush (t : TaskId)
  -- `schedule_batch` and `dispatch`
  | retries (maxBatchSize : Nat)
  | workers (maxBatchSize : Nat)
  | loads (workers : List WorkerInfo) (maxBatchSize : Nat)
  | demand (workers : List WorkerInfo) (loads : Uuid → Option AssignedLoad) (maxBatchSize : Nat)
  | page {n : Nat} (p : Pass n)
  | commit {n : Nat} (p : Pass n)
  | reserve (a : Assignment)
  | channel (a : Assignment)
  | deliver (a : Assignment)
  | release (a : Assignment)
  | rollback (a : Assignment)
  | requeue (a : Assignment)
  -- the blob sweeper, and retention
  | pinned
  | sweepPin (t : TaskId) (pinnedAt : Instant)
  | evictTasks (maxRetained : Nat)

structure MasterConfig where
  scheduler : SchedulerConfig
  reapTimeout : Nat
  staleWorkerTimeout : Option Nat
  blobMaxBytes : Nat
  outputPinRetention : Nat

structure MasterState where
  config : MasterConfig
  registry : WorkerRegistryInner
  queue : TaskQueueInner
  waiters : FMap TaskId (List WaiterId)
  /-- the waiter map's lock is held across an await (`wait_task`) -/
  waitersHeld : Bool
  /-- receivers that were dropped -/
  closed : Finset WaiterId
  nextWaiter : WaiterId
  store : BlobInner
  gpuDemand : GpuDemand
  rrCursor : Nat
  /-- assignments in the outbound channels -/
  outbox : List Assignment
  /-- connection tasks whose abort was requested -/
  aborting : Finset Nat
  /-- connections that ended -/
  hungUp : Finset Nat
  sent : List Delivery
  /-- assignments that were delivered and not given back -/
  handed : List Assignment
  /-- the result each task of the queue got when it finished, kept after its eviction -/
  recorded : FMap TaskId TaskResult
  /-- the input blobs that were resolved for each accepted task -/
  accepted : FMap TaskId (List BlobId)
  /-- what happened to tasks and channels, in this order -/
  events : List Event

abbrev MasterTask := Thread Owner Section
abbrev Master := Pool MasterState Owner Section

/-- What the environment decides in one step. -/
structure Choice where
  clock : Clock
  taskOrder : SetOrder TaskId
  workerOrder : SetOrder Uuid
  inbound : Inbound
  ok : Bool
  readings : BlobReadings

end OxideSwarm
