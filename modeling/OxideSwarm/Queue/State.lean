import Std.Data.ExtTreeSet.Lemmas
import OxideSwarm.Core.Task

/-!
# The task queue's data (`master/src/queue.rs:24-763`)

The lifecycle states, the queue's entries and its five indexes, the byte accounting, and the
private helpers that keep the retained terminal tasks within their limits.  The two `BTreeSet`s are
extensional tree sets under the source's own orders, hash maps and hash sets are finite maps and
finite sets, and byte counts are natural numbers (their sums are assumed to fit `usize`).
-/

namespace OxideSwarm

open Std

/-! ## Lifecycle states -/

inductive TaskState where
  | submitted | queued | scheduled | running | completed | failed | cancelled | retrying
deriving DecidableEq, Repr

namespace TaskState

def canTransitionTo : TaskState → TaskState → Bool
  | submitted, next => next ∈ [queued, cancelled, failed]
  | queued, next => next ∈ [scheduled, cancelled, failed]
  | scheduled, next => next ∈ [running, completed, failed, retrying, queued, cancelled]
  | running, next => next ∈ [completed, failed, retrying, queued, cancelled]
  | retrying, next => next ∈ [queued, failed, cancelled]
  | completed, _ | failed, _ | cancelled, _ => false

def isTerminal (s : TaskState) : Bool := s ∈ [completed, failed, cancelled]

def isActive (s : TaskState) : Bool := s ∈ [scheduled, running]

/-- The `Debug` form of a state, as it stands in error texts. -/
def debug : TaskState → String
  | submitted => "Submitted"
  | queued => "Queued"
  | scheduled => "Scheduled"
  | running => "Running"
  | completed => "Completed"
  | failed => "Failed"
  | cancelled => "Cancelled"
  | retrying => "Retrying"

end TaskState

/-! ## Index keys -/

/-- Key of `ready_queue`: higher priority first, then first come first served, then the id. -/
structure QueueOrderKey where
  priority : Nat
  sequence : Nat
  taskId : TaskId
deriving DecidableEq, Repr

/-- `QueueOrderKey::cmp`; the priority is compared in `Reverse`. -/
def QueueOrderKey.cmp (a b : QueueOrderKey) : Ordering :=
  (compare b.priority a.priority).then
    ((compare a.sequence b.sequence).then (compare a.taskId.uuid b.taskId.uuid))

/-- Key of `delayed_retries`. -/
structure DelayedRetryKey where
  retryAfter : Instant
  taskId : TaskId
deriving DecidableEq, Repr

def DelayedRetryKey.cmp (a b : DelayedRetryKey) : Ordering :=
  (compare a.retryAfter b.retryAfter).then (compare a.taskId.uuid b.taskId.uuid)

theorem TaskId.ext_uuid {t u : TaskId} (h : t.uuid = u.uuid) : t = u := by
  cases t; cases u; cases h; rfl

instance : TransCmp QueueOrderKey.cmp :=
  inferInstanceAs (TransCmp (compareLex
    (fun a b : QueueOrderKey => compareOn QueueOrderKey.priority b a)
    (compareLex (compareOn QueueOrderKey.sequence)
      (compareOn fun k : QueueOrderKey => k.taskId.uuid))))

instance : LawfulEqCmp QueueOrderKey.cmp where
  eq_of_compare {a b} h := by
    obtain ⟨p, s, t⟩ := a
    obtain ⟨p', s', t'⟩ := b
    simp only [QueueOrderKey.cmp, Ordering.then_eq_eq, Std.compare_eq_iff_eq] at h
    obtain ⟨hp, hs, ht⟩ := h
    subst hp; subst hs; cases TaskId.ext_uuid ht; rfl

instance : TransCmp DelayedRetryKey.cmp :=
  inferInstanceAs (TransCmp (compareLex (compareOn DelayedRetryKey.retryAfter)
    (compareOn fun k : DelayedRetryKey => k.taskId.uuid)))

instance : LawfulEqCmp DelayedRetryKey.cmp where
  eq_of_compare {a b} h := by
    obtain ⟨r, t⟩ := a
    obtain ⟨r', t'⟩ := b
    simp only [DelayedRetryKey.cmp, Ordering.then_eq_eq, Std.compare_eq_iff_eq] at h
    obtain ⟨hr, ht⟩ := h
    subst hr; cases TaskId.ext_uuid ht; rfl

abbrev ReadySet := ExtTreeSet QueueOrderKey QueueOrderKey.cmp
abbrev DelayedSet := ExtTreeSet DelayedRetryKey DelayedRetryKey.cmp

/-! ## Entries and policy -/

def defaultMaxFailovers : Nat := 10
/-- A task that workers keep handing back is failed after this many rejections. -/
def maxWorkerRejectionsPerTask : Nat := 3

structure RetryPolicy where
  maxRetries : Nat
  maxFailovers : Nat
  initialBackoffMs : Nat
  maxBackoffMs : Nat
  backoffMultiplier : F64
  retryOnExecutionFailure : Bool
  retryOnWorkerDisconnect : Bool
deriving DecidableEq, Repr

structure RetryAttempt where
  attempt : Nat
  timestampUtc : Nat
  failedWorkerId : Option Uuid
  reason : String
  exitCode : Option Int
  error : Option String
deriving DecidableEq, Repr

structure TaskEntry where
  task : Task
  priority : Nat
  sequence : Nat
  state : TaskState
  assignedWorkerId : Option Uuid
  submittedAtUtc : Nat
  submittedInstant : Instant
  scheduledInstant : Option Instant
  startedInstant : Option Instant
  retryAfterInstant : Option Instant
  retryCount : Nat
  failoverCount : Nat
  rejectionCount : Nat
  avoidWorkers : List Uuid
  assignedSession : Option Nat
  retryHistory : List RetryAttempt
  result : Option TaskResult
  errorMessage : Option String
deriving DecidableEq, Repr

/-- The ready-queue key of an entry stored under `id`. -/
def TaskEntry.readyKey (e : TaskEntry) (id : TaskId) : QueueOrderKey :=
  ⟨e.priority, e.sequence, id⟩

/-- The entry a submission creates. -/
def TaskEntry.fresh (task : Task) (priority sequence : Nat) (clock : Clock) : TaskEntry where
  task := task
  priority := priority
  sequence := sequence
  state := .queued
  assignedWorkerId := none
  submittedAtUtc := clock.epoch
  submittedInstant := clock.instant
  scheduledInstant := none
  startedInstant := none
  retryAfterInstant := none
  retryCount := 0
  failoverCount := 0
  rejectionCount := 0
  avoidWorkers := []
  assignedSession := none
  retryHistory := []
  result := none
  errorMessage := none

variable [Host]

namespace RetryPolicy

/-- `failover_budget`: whether `e` may be re-run once more, and the cap that applied. -/
def failoverBudget (p : RetryPolicy) (e : TaskEntry) : Bool × Nat :=
  match e.task.requirements.maxRetries with
  | some limit => (e.retryCount < limit, limit)
  | none =>
    let cap := if p.maxRetries = 0 then 0 else max p.maxFailovers p.maxRetries
    (e.failoverCount < cap, cap)

/-- `calculate_backoff` for a 1-based attempt, in milliseconds. -/
def calculateBackoff (p : RetryPolicy) (attempt : Nat) : Nat :=
  if attempt = 0 then 0
  else
    let factor := Host.powi p.backoffMultiplier (attempt - 1)
    let delay := Host.f64ToNat (Host.round (Host.mul (Host.natToF64 p.initialBackoffMs) factor))
    min delay p.maxBackoffMs

end RetryPolicy

/-- `owned_by`: `e` is assigned to `workerId` and, if both sides know it, to `sessionId`. -/
def ownedBy (e : TaskEntry) (workerId : Uuid) (sessionId : Option Nat) : Bool :=
  e.assignedWorkerId == some workerId &&
    match sessionId, e.assignedSession with
    | some claimed, some assigned => claimed == assigned
    | _, _ => true

def workerRejectionMarkers : List String :=
  ["rejected by worker", "exceed worker capabilities", "capabilities insufficient",
   "lacks gpu capability"]

/-- `is_worker_rejection`: the worker refused to run the task at all. -/
def isWorkerRejection (r : TaskResult) : Bool :=
  if r.exitCode = 0 ∨ r.exitCode = 130 ∨ r.executionTimeMs ≠ 0 ∨ r.stdout ≠ [] then false
  else
    let text := Text.toAsciiLowercase (r.error.getD "" ++ " " ++ Host.fromUtf8Lossy r.stderr)
    workerRejectionMarkers.any fun m => Text.contains m text

/-! ## Views for the scheduler -/

/-- `ProtocolCapabilities`, a set of feature bits (`protocol.rs:42`). -/
structure ProtocolCapabilities where
  bits : BitVec 64
deriving DecidableEq, Repr

namespace ProtocolCapabilities

def empty : ProtocolCapabilities := ⟨0⟩
def fileStaging : ProtocolCapabilities := ⟨1 <<< 6⟩
def blobTransfer : ProtocolCapabilities := ⟨1 <<< 9⟩
def contains (c other : ProtocolCapabilities) : Bool := c.bits &&& other.bits == other.bits
def insert (c other : ProtocolCapabilities) : ProtocolCapabilities := ⟨c.bits ||| other.bits⟩

end ProtocolCapabilities

structure TaskView where
  taskId : TaskId
  requirements : TaskRequirements
  requiresGpu : Bool
  heavy : Bool
  requiredFeatures : ProtocolCapabilities
  avoid : List Uuid
  placement : Except String Placement
deriving DecidableEq

def requiredFeatures (task : Task) : ProtocolCapabilities :=
  let staging := if !task.stagedFiles.isEmpty || !task.expectedOutputs.isEmpty then
    ProtocolCapabilities.empty.insert .fileStaging else .empty
  if task.usesBlobs then staging.insert .blobTransfer else staging

/-- `TaskView::of`: the view of `task` with no avoided workers. -/
def TaskView.of (task : Task) : TaskView where
  taskId := task.id
  requirements := task.requirements
  requiresGpu := task.requiresGpu
  heavy := task.spec.isHeavy
  requiredFeatures := OxideSwarm.requiredFeatures task
  avoid := []
  placement := task.placement

/-- What the queue's own books say a worker is carrying. -/
structure AssignedLoad where
  tasks : Nat := 0
  slots : Nat := 0
  unstartedRamMb : Nat := 0
deriving DecidableEq, Repr

/-! ## The queue -/

structure TaskQueueInner where
  tasks : FMap TaskId TaskEntry
  readyQueue : ReadySet
  delayedRetries : DelayedSet
  workerAssignments : FMap Uuid (Finset TaskId)
  nextSequence : Nat
  retryPolicy : RetryPolicy
  capacity : Option Nat
  maxTerminalTasks : Nat
  maxTerminalBytes : Nat
  maxActiveBytes : Nat
  terminalOrder : List TaskId
  terminalSizes : FMap TaskId Nat
  terminalBytes : Nat
  activeSizes : FMap TaskId Nat
  activeBytes : Nat

/-- `with_retention_limits`, which every constructor of the queue ends in. -/
def TaskQueueInner.withRetentionLimits (retryPolicy : RetryPolicy) (capacity : Option Nat)
    (maxTerminalTasks maxTerminalBytes maxActiveBytes : Nat) : TaskQueueInner where
  tasks := ∅
  readyQueue := ∅
  delayedRetries := ∅
  workerAssignments := ∅
  nextSequence := 1
  retryPolicy := retryPolicy
  capacity := capacity
  maxTerminalTasks := maxTerminalTasks
  maxTerminalBytes := maxTerminalBytes
  maxActiveBytes := maxActiveBytes
  terminalOrder := []
  terminalSizes := ∅
  terminalBytes := 0
  activeSizes := ∅
  activeBytes := 0

/-! ## Byte accounting -/

def retainedEntryOverheadBytes : Nat := 1024
/-- Bytes one blob reference is charged in addition to its path. -/
def blobRefBytes : Nat := 48

/-- Total length of a list of strings. -/
def textBytes (l : List String) : Nat := (l.map Text.len).sum
/-- Total length of a string map's keys and values. -/
def pairBytes (l : List (String × String)) : Nat := (l.map fun p => Text.len p.1 + Text.len p.2).sum

def specBytes : TaskSpec → Nat
  | .command program args env workingDir stdin =>
    Text.len program + textBytes args + pairBytes env + workingDir.elim 0 Text.len +
      stdin.elim 0 List.length
  | .shellScript script interpreter env =>
    Text.len script + interpreter.elim 0 Text.len + pairBytes env
  | .rustCompilation crateName sourceFiles compilerFlags targetDir =>
    Text.len crateName + pairBytes sourceFiles + textBytes compilerFlags + targetDir.elim 0 Text.len
  | .gpuCompute kernelName inputData .. => Text.len kernelName + inputData.length
  | .builtinTest testName .. => Text.len testName
  | .generative3D s =>
    s.prompt.elim 0 Text.len + s.imageData.elim 0 List.length + Text.len s.quality +
      s.enginePreference.elim 0 Text.len
  | .autoRig s =>
    s.inputMesh.length + Text.len s.rigPreset + textBytes s.embedAnimations +
      s.preferredProvider.elim 0 Text.len

/-- `task_active_bytes`: what a freshly submitted task is charged. -/
def taskActiveBytes (task : Task) : Nat :=
  retainedEntryOverheadBytes + specBytes task.spec +
    (task.stagedFiles.map fun f => Text.len f.path + f.data.length).sum +
    textBytes task.expectedOutputs +
    ((task.inputs.map fun i => Text.len i.path + blobRefBytes).sum + textBytes task.outputGlobs) +
    task.latestCheckpoint.elim 0 (fun c => c.deltaState.length) + textBytes task.tags

def resultBytes (r : TaskResult) : Nat :=
  r.stdout.length + r.stderr.length + r.error.elim 0 Text.len + r.deviceName.elim 0 Text.len +
    r.assetBytes.elim 0 List.length +
    (r.artifacts.map fun a => Text.len a.path + a.data.length).sum +
    (r.outputs.map fun o => Text.len o.path + blobRefBytes).sum

/-- `retained_bytes`: what a task entry keeps alive. -/
def retainedBytes (e : TaskEntry) : Nat :=
  taskActiveBytes e.task + e.result.elim 0 resultBytes +
    (e.retryHistory.map fun a => Text.len a.reason + a.error.elim 0 Text.len).sum +
    e.errorMessage.elim 0 Text.len

end OxideSwarm
