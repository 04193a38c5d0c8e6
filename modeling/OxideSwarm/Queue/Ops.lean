import OxideSwarm.Queue.State

/-!
# The task queue's operations (`master/src/queue.rs:676-2290`)

Every operation holds the queue's lock from start to end, so each is one function from the queue to
its result and the queue it leaves; operations that read a clock take the reading as an argument.

`handleSessionDisconnected` walks a hash set: its iteration order is the argument `order`.
-/

namespace OxideSwarm

open Std

variable [Host]

namespace TaskQueueInner

/-! ## Private helpers -/

def untrackActiveTask (q : TaskQueueInner) (t : TaskId) : TaskQueueInner :=
  match q.activeSizes.get t with
  | some size => { q with activeSizes := q.activeSizes.del t, activeBytes := q.activeBytes - size }
  | none => q

def updateActiveTask (q : TaskQueueInner) (t : TaskId) : TaskQueueInner :=
  let q := q.untrackActiveTask t
  match q.tasks.get t with
  | some e =>
    if e.state.isTerminal then q
    else
      let size := retainedBytes e
      { q with activeSizes := q.activeSizes.set t size, activeBytes := q.activeBytes + size }
  | none => q

/-- Drops a retained terminal task and its byte charge. -/
def removeRetained (q : TaskQueueInner) (t : TaskId) : TaskQueueInner :=
  let q := { q with tasks := q.tasks.del t }.untrackActiveTask t
  match q.terminalSizes.get t with
  | some size =>
    { q with terminalSizes := q.terminalSizes.del t, terminalBytes := q.terminalBytes - size }
  | none => q

/-- `evict_oldest_terminal`; `none` when no task is retained. -/
def evictOldestTerminal (q : TaskQueueInner) : Option TaskQueueInner :=
  match q.terminalOrder with
  | [] => none
  | oldest :: rest =>
    let q := { q with terminalOrder := rest }
    if (q.tasks.get oldest).any fun e => e.state.isTerminal then some (q.removeRetained oldest)
    else some { q with terminalSizes := q.terminalSizes.del oldest }

/-- `while exceeds { if !evict_oldest_terminal() { break } }`, for at most `fuel` rounds. -/
def evictWhile (exceeds : TaskQueueInner → Bool) : Nat → TaskQueueInner → TaskQueueInner
  | 0, q => q
  | fuel + 1, q =>
    if exceeds q then
      match q.evictOldestTerminal with
      | some q' => evictWhile exceeds fuel q'
      | none => q
    else q

def overCount (q : TaskQueueInner) : Bool := q.maxTerminalTasks < q.terminalOrder.length

def overBytes (q : TaskQueueInner) : Bool :=
  q.maxTerminalBytes < q.terminalBytes && 1 < q.terminalOrder.length

/-- `enforce_terminal_limits`.  A round takes one task off `terminal_order`, so as many rounds as
tasks are enough for each loop. -/
def enforceTerminalLimits (q : TaskQueueInner) : TaskQueueInner :=
  let q := evictWhile overCount q.terminalOrder.length q
  evictWhile overBytes q.terminalOrder.length q

def trackTerminalTask (q : TaskQueueInner) (t : TaskId) : TaskQueueInner :=
  let q := q.untrackActiveTask t
  if (q.terminalSizes.get t).isSome then q
  else
    let size := (q.tasks.get t).elim 0 retainedBytes
    enforceTerminalLimits
      { q with
        terminalSizes := q.terminalSizes.set t size
        terminalBytes := q.terminalBytes + size
        terminalOrder := q.terminalOrder ++ [t] }

/-- The loop of `evict_terminal_tasks`, counting the entries it drops. -/
def evictCounting (maxRetained : Nat) : Nat → Nat → TaskQueueInner → Nat × TaskQueueInner
  | 0, evicted, q => (evicted, q)
  | fuel + 1, evicted, q =>
    if maxRetained < q.terminalOrder.length then
      let hadEntry := (q.terminalOrder.head?.bind q.tasks.get).any fun e => e.state.isTerminal
      match q.evictOldestTerminal with
      | some q' => evictCounting maxRetained fuel (if hadEntry then evicted + 1 else evicted) q'
      | none => (evicted, q)
    else (evicted, q)

/-- `entries.entry(w).or_default().insert(t)`. -/
def assign (q : TaskQueueInner) (w : Uuid) (t : TaskId) : TaskQueueInner :=
  { q with
    workerAssignments := q.workerAssignments.set w (insert t ((q.workerAssignments.get w).getD ∅)) }

/-- `if let Some(tasks) = worker_assignments.get_mut(w) { tasks.remove(t) }`. -/
def unassign (q : TaskQueueInner) (w : Uuid) (t : TaskId) : TaskQueueInner :=
  match q.workerAssignments.get w with
  | some s => { q with workerAssignments := q.workerAssignments.set w (s.erase t) }
  | none => q

/-- `unassign` from the worker an entry names, if it names one. -/
def unassignFrom (q : TaskQueueInner) (w : Option Uuid) (t : TaskId) : TaskQueueInner :=
  match w with
  | some w => q.unassign w t
  | none => q

def setEntry (q : TaskQueueInner) (t : TaskId) (e : TaskEntry) : TaskQueueInner :=
  { q with tasks := q.tasks.set t e }

def insertReady (q : TaskQueueInner) (k : QueueOrderKey) : TaskQueueInner :=
  { q with readyQueue := q.readyQueue.insert k }

def removeReady (q : TaskQueueInner) (k : QueueOrderKey) : TaskQueueInner :=
  { q with readyQueue := q.readyQueue.erase k }

def insertDelayed (q : TaskQueueInner) (k : DelayedRetryKey) : TaskQueueInner :=
  { q with delayedRetries := q.delayedRetries.insert k }

def removeDelayed (q : TaskQueueInner) (k : DelayedRetryKey) : TaskQueueInner :=
  { q with delayedRetries := q.delayedRetries.erase k }

/-! ## Submission -/

/-- The refusal of an id the queue still knows. -/
def duplicateError (t : TaskId) (existing : TaskEntry) : GridError :=
  .config ("Task " ++ Host.displayUuid t.uuid ++ " already exists (state " ++ existing.state.debug ++
    "); task ids must be unique, query its outcome instead of resubmitting")

/-- The number of non-terminal entries. -/
def activeCount (q : TaskQueueInner) : Nat := q.tasks.count fun e => !e.state.isTerminal

/-- The error of a full queue, if its capacity is reached. -/
def capacityError (q : TaskQueueInner) : Option GridError :=
  match q.capacity with
  | some cap => if cap ≤ q.activeCount then some (.queueFull cap) else none
  | none => none

/-- The error of a task of `bytes` bytes that does not fit the active byte budget. -/
def byteLimitError (q : TaskQueueInner) (bytes : Nat) : Option GridError :=
  if q.maxActiveBytes < q.activeBytes + bytes then
    some (.queueByteLimitExceeded bytes q.activeBytes q.maxActiveBytes)
  else none

def checkRoom (q : TaskQueueInner) (bytes : Nat) : Except GridError Unit :=
  match q.capacityError with
  | some e => .error e
  | none =>
    match q.byteLimitError bytes with
    | some e => .error e
    | none => .ok ()

/-- Stores an accepted task charged `bytes` bytes. -/
def accept (q : TaskQueueInner) (t : TaskId) (e : TaskEntry) (bytes : Nat) : TaskQueueInner :=
  { q.setEntry t e with
    activeSizes := q.activeSizes.set t bytes
    activeBytes := q.activeBytes + bytes }.insertReady (e.readyKey t)

/-- `submit_with_priority`.  A task over the byte budget is refused only after its sequence number
was taken. -/
def submitWithPriority (q : TaskQueueInner) (task : Task) (priority : Nat) (clock : Clock) :
    Except GridError TaskId × TaskQueueInner :=
  match task.validate with
  | .error e => (.error (.config e), q)
  | .ok () =>
    match q.tasks.get task.id with
    | some existing => (.error (duplicateError task.id existing), q)
    | none =>
      match q.capacityError with
      | some e => (.error e, q)
      | none =>
        let entry := TaskEntry.fresh task priority q.nextSequence clock
        let q := { q with nextSequence := q.nextSequence + 1 }
        match q.byteLimitError (retainedBytes entry) with
        | some e => (.error e, q)
        | none => (.ok task.id, q.accept task.id entry (retainedBytes entry))

/-- `try_submit_slot`: the slot is emptied only when the task is accepted.  The check under the read
lock is repeated under the write lock, so it decides nothing by itself; it can see an earlier queue
`seen`. -/
def trySubmitSlot (q : TaskQueueInner) (slot : Option Task) (seen : TaskQueueInner) (clock : Clock) :
    Except GridError TaskId × Option Task × TaskQueueInner :=
  match slot with
  | none => (.error (.config "task_slot is empty"), none, q)
  | some task =>
    match task.validate with
    | .error e => (.error (.config e), slot, q)
    | .ok () =>
      let bytes := taskActiveBytes task
      match seen.checkRoom bytes with
      | .error e => (.error e, slot, q)
      | .ok () =>
        match q.tasks.get task.id with
        | some existing => (.error (duplicateError task.id existing), slot, q)
        | none =>
          match q.checkRoom bytes with
          | .error e => (.error e, slot, q)
          | .ok () =>
            let entry := TaskEntry.fresh task 0 q.nextSequence clock
            (.ok task.id, none,
              { q with nextSequence := q.nextSequence + 1 }.accept task.id entry bytes)

/-! ## Queries of the scheduler -/

/-- The entry of `t` while it is queued. -/
def queuedEntry (q : TaskQueueInner) (t : TaskId) : Option TaskEntry :=
  (q.tasks.get t).filter fun e => e.state = .queued

/-- The loop of `ready_views` over the keys still to visit. -/
def collectViews (q : TaskQueueInner) (limit : Nat) :
    List TaskView → List QueueOrderKey → List TaskView × Option QueueOrderKey
  | views, [] => (views, none)
  | views, key :: keys =>
    match q.queuedEntry key.taskId with
    | none => collectViews q limit views keys
    | some e =>
      let views := views ++ [{ TaskView.of e.task with avoid := e.avoidWorkers }]
      if limit ≤ views.length then (views, some key) else collectViews q limit views keys

/-- `ready_views`: up to `limit` queued tasks after the position `after`. -/
def readyViews (q : TaskQueueInner) (after : Option QueueOrderKey) (limit : Nat) :
    List TaskView × Option QueueOrderKey :=
  q.collectViews limit [] (q.readyQueue.toList.filter fun k =>
    after.all fun a => QueueOrderKey.cmp a k = .lt)

/-- The load a set of assigned tasks puts on its worker. -/
def loadOf (q : TaskQueueInner) (ids : Finset TaskId) : AssignedLoad :=
  let active := ids.filter fun t => (q.tasks.get t).any fun e => e.state.isActive
  { tasks := active.card
    slots := active.sum fun t => (q.tasks.get t).elim 0 fun e => max e.task.requirements.cpuCores 1
    unstartedRamMb := active.sum fun t =>
      (q.tasks.get t).elim 0 fun e => if e.state = .scheduled then e.task.requirements.ramMb else 0 }

/-- `assigned_loads`, as a partial function of the worker. -/
def assignedLoads (q : TaskQueueInner) (w : Uuid) : Option AssignedLoad :=
  ((q.workerAssignments.get w).map q.loadOf).filter fun l => decide (0 < l.tasks)

/-! ## Scheduling -/

/-- A queued entry handed to a worker. -/
def scheduledEntry (e : TaskEntry) (w : Uuid) (session : Option Nat) (now : Instant) : TaskEntry :=
  { e with
    state := .scheduled
    assignedWorkerId := some w
    assignedSession := session
    scheduledInstant := some now }

/-- The index updates of a task moved from `Queued` to `Scheduled`. -/
def scheduleEntry (q : TaskQueueInner) (t : TaskId) (e : TaskEntry) (w : Uuid)
    (session : Option Nat) (now : Instant) : TaskQueueInner :=
  ((q.removeReady (e.readyKey t)).setEntry t (scheduledEntry e w session now)).assign w t

/-- `pop_and_schedule`: the first queued task whose requirements `predicate` accepts. -/
def popAndSchedule (q : TaskQueueInner) (w : Uuid) (predicate : TaskRequirements → Bool)
    (now : Instant) : Option Task × TaskQueueInner :=
  match q.readyQueue.toList.find? fun k =>
      (q.queuedEntry k.taskId).any fun e => predicate e.task.requirements with
  | none => (none, q)
  | some key =>
    let q := q.removeReady key
    match q.tasks.get key.taskId with
    | none => (none, q)
    | some e =>
      (some e.task,
        (q.setEntry key.taskId (scheduledEntry e w none now)).assign w key.taskId)

def scheduleTask (q : TaskQueueInner) (t : TaskId) (w : Uuid) (now : Instant) :
    Option Task × TaskQueueInner :=
  match q.tasks.get t with
  | none => (none, q)
  | some e =>
    if e.state ≠ .queued then (none, q)
    else (some e.task, q.scheduleEntry t e w none now)

/-- One assignment of `schedule_batch_inner`'s loop. -/
def scheduleOne (q : TaskQueueInner) (t : TaskId) (w : Uuid) (session : Option Nat) (now : Instant) :
    Option (TaskId × Uuid × Task) × TaskQueueInner :=
  match q.tasks.get t with
  | none => (none, q)
  | some e =>
    if e.state = .queued then (some (t, w, e.task), q.scheduleEntry t e w session now)
    -- a ready key of a task that is not queued would be stale
    else (none, q.removeReady (e.readyKey t))

def scheduleBatchInner (now : Instant) :
    List (TaskId × Uuid × Option Nat) → TaskQueueInner → List (TaskId × Uuid × Task) × TaskQueueInner
  | [], q => ([], q)
  | (t, w, session) :: rest, q =>
    let (one, q) := q.scheduleOne t w session now
    let (scheduled, q) := scheduleBatchInner now rest q
    (one.toList ++ scheduled, q)

def scheduleTasksBatch (q : TaskQueueInner) (assignments : List (TaskId × Uuid)) (now : Instant) :
    List (TaskId × Uuid × Task) × TaskQueueInner :=
  scheduleBatchInner now (assignments.map fun a => (a.1, a.2, none)) q

def scheduleTasksBatchInSessions (q : TaskQueueInner) (assignments : List (TaskId × Uuid × Nat))
    (now : Instant) : List (TaskId × Uuid × Task) × TaskQueueInner :=
  scheduleBatchInner now (assignments.map fun a => (a.1, a.2.1, some a.2.2)) q

/-- The error of an operation a task's state does not allow. -/
def stateError (t : TaskId) (current attempted : String) : GridError :=
  .invalidTaskState t.uuid current attempted

def requeueTask (q : TaskQueueInner) (t : TaskId) : Except GridError Unit × TaskQueueInner :=
  match q.tasks.get t with
  | none => (.error (.taskNotFound t.uuid), q)
  | some e =>
    if e.state.isTerminal then (.error (stateError t e.state.debug "Queued"), q)
    else
      let e' := { e with
        assignedWorkerId := none, assignedSession := none, state := .queued, scheduledInstant := none }
      (.ok (), ((q.unassignFrom e.assignedWorkerId t).setEntry t e').insertReady (e'.readyKey t))

/-- `deliver_if_scheduled`: `deliver` acts on whatever it captured, here the state `σ`. -/
def deliverIfScheduled {R σ : Type} (q : TaskQueueInner) (t : TaskId) (w : Uuid) (session : Nat)
    (deliver : σ → R × σ) (captured : σ) : Option R × σ :=
  match q.tasks.get t with
  | none => (none, captured)
  | some e =>
    if e.state ≠ .scheduled ∨ !ownedBy e w (some session) then (none, captured)
    else
      let (r, captured) := deliver captured
      (some r, captured)

def requeueDispatchFailure (q : TaskQueueInner) (t : TaskId) (w : Uuid) (session : Nat) :
    Except GridError Bool × TaskQueueInner :=
  match q.tasks.get t with
  | none => (.error (.taskNotFound t.uuid), q)
  | some e =>
    if e.state ≠ .scheduled ∨ !ownedBy e w (some session) then (.ok false, q)
    else
      let e' := { e with
        state := .queued, assignedWorkerId := none, assignedSession := none, scheduledInstant := none }
      (.ok true, ((q.setEntry t e').unassign w t).insertReady (e'.readyKey t))

/-! ## Worker reports -/

def markRunningFrom (q : TaskQueueInner) (w : Uuid) (session : Option Nat) (t : TaskId)
    (now : Instant) : Except GridError Unit × TaskQueueInner :=
  match q.tasks.get t with
  | none => (.error (.taskNotFound t.uuid), q)
  | some e =>
    if !ownedBy e w session then
      (.error (stateError t (e.state.debug ++ " (not assigned to this worker/session)") "Running"), q)
    else if !e.state.canTransitionTo .running then
      (.error (stateError t e.state.debug "Running"), q)
    else (.ok (), q.setEntry t { e with state := .running, startedInstant := some now })

def isNewerCheckpoint (e : TaskEntry) (c : CheckpointData) : Bool :=
  match e.task.latestCheckpoint with
  | some existing => existing.sequence < c.sequence
  | none => true

def checkpointExceedsActiveCap (e : TaskEntry) (c : CheckpointData) (activeBytes maxActiveBytes : Nat) :
    Option Nat :=
  if !isNewerCheckpoint e c then none
  else
    let oldCp := e.task.latestCheckpoint.elim 0 fun c => c.deltaState.length
    let newCp := c.deltaState.length
    if oldCp < newCp ∧ maxActiveBytes < activeBytes - oldCp + newCp then
      some (retainedBytes e - oldCp + newCp)
    else none

/-- The common tail of `record_checkpoint` and `record_checkpoint_from`: the byte check, then
`apply_checkpoint`. -/
def storeCheckpoint (q : TaskQueueInner) (t : TaskId) (e : TaskEntry) (c : CheckpointData) :
    Except GridError Bool × TaskQueueInner :=
  match checkpointExceedsActiveCap e c q.activeBytes q.maxActiveBytes with
  | some bytes => (.error (.queueByteLimitExceeded bytes q.activeBytes q.maxActiveBytes), q)
  | none =>
    if isNewerCheckpoint e c then
      (.ok true,
        (q.setEntry t { e with task := { e.task with latestCheckpoint := some c } }).updateActiveTask t)
    else (.ok false, q)

def recordCheckpoint (q : TaskQueueInner) (t : TaskId) (c : CheckpointData) :
    Except GridError Unit × TaskQueueInner :=
  match q.tasks.get t with
  | none => (.error (.taskNotFound t.uuid), q)
  | some e =>
    if e.state.isTerminal then (.ok (), q)
    else
      let (r, q) := q.storeCheckpoint t e c
      (r.map fun _ => (), q)

def recordCheckpointFrom (q : TaskQueueInner) (w : Uuid) (session : Option Nat) (t : TaskId)
    (c : CheckpointData) : Except GridError Bool × TaskQueueInner :=
  match q.tasks.get t with
  | none => (.error (.taskNotFound t.uuid), q)
  | some e =>
    if !e.state.isActive || !ownedBy e w session then (.ok false, q)
    else q.storeCheckpoint t e c

/-! ## Results -/

/-- What `record_result_from` did with a worker's result. -/
inductive ResultDisposition where
  | terminal | requeued | late | stale
deriving DecidableEq, Repr

structure ResultOutcome where
  disposition : ResultDisposition
  state : TaskState
  rejected : Bool
deriving DecidableEq, Repr

/-- The entry a result leads to, with the index keys to insert for it. -/
structure ResultEffect where
  entry : TaskEntry
  delayKey : Option DelayedRetryKey := none
  readyKey : Option QueueOrderKey := none
  disposition : ResultDisposition

/-- A worker's refusal hands the task to somebody else. -/
def rejectedEntry (e : TaskEntry) (w : Uuid) (r : TaskResult) (clock : Clock) : TaskEntry :=
  { e with
    rejectionCount := e.rejectionCount + 1
    failoverCount := e.failoverCount + 1
    retryCount := e.retryCount + 1
    avoidWorkers := if e.avoidWorkers.contains w then e.avoidWorkers else e.avoidWorkers ++ [w]
    retryHistory := e.retryHistory ++ [{
      attempt := e.retryCount + 1
      timestampUtc := clock.epoch
      failedWorkerId := some w
      reason := "Worker rejected the task without running it"
      exitCode := some r.exitCode
      error := r.error }]
    state := .queued
    assignedWorkerId := none
    assignedSession := none
    scheduledInstant := none
    startedInstant := none }

/-- An execution failure that is retried after a backoff. -/
def retriedEntry (p : RetryPolicy) (e : TaskEntry) (w : Uuid) (r : TaskResult) (clock : Clock) :
    TaskEntry :=
  { e with
    retryCount := e.retryCount + 1
    state := .retrying
    assignedWorkerId := none
    assignedSession := none
    retryAfterInstant := some (clock.instant.plusMillis (p.calculateBackoff (e.retryCount + 1)))
    retryHistory := e.retryHistory ++ [{
      attempt := e.retryCount + 1
      timestampUtc := clock.epoch
      failedWorkerId := some w
      reason := "Non-zero exit code execution failure"
      exitCode := some r.exitCode
      error := r.error }] }

/-- The state machine of `record_result_from` on an owned, non-terminal entry; `none` when a success
is not allowed in the entry's state. -/
def applyResult (p : RetryPolicy) (e : TaskEntry) (w : Uuid) (r : TaskResult) (clock : Clock) :
    Option ResultEffect :=
  if r.isSuccess then
    if !e.state.canTransitionTo .completed then none
    else some { entry := { e with state := .completed, result := some r }, disposition := .terminal }
  else if r.exitCode = 130 then
    some {
      entry := { e with
        state := .cancelled, errorMessage := r.error <|> some "Cancelled", result := some r }
      disposition := .terminal }
  else if isWorkerRejection r && p.retryOnWorkerDisconnect &&
      decide (e.rejectionCount < maxWorkerRejectionsPerTask) && (p.failoverBudget e).1 then
    some {
      entry := rejectedEntry e w r clock
      readyKey := some (e.readyKey r.taskId)
      disposition := .requeued }
  else if p.retryOnExecutionFailure && decide (e.retryCount - e.failoverCount < p.maxRetries) then
    some {
      entry := retriedEntry p e w r clock
      delayKey := some ⟨clock.instant.plusMillis (p.calculateBackoff (e.retryCount + 1)), r.taskId⟩
      disposition := .requeued }
  else
    some {
      entry := { e with state := .failed, errorMessage := r.error, result := some r }
      disposition := .terminal }

/-- Stores a result's entry and its index keys. -/
def storeEffect (q : TaskQueueInner) (t : TaskId) (f : ResultEffect) : TaskQueueInner :=
  let q := q.setEntry t f.entry
  let q := match f.delayKey with
    | some k => q.insertDelayed k
    | none => q
  let q := match f.readyKey with
    | some k => q.insertReady k
    | none => q
  if f.entry.state.isTerminal then q.trackTerminalTask t else q.updateActiveTask t

/-- `record_result_from`: the assignment is dropped before the state is looked at. -/
def recordResultFrom (q : TaskQueueInner) (w : Uuid) (session : Option Nat) (r : TaskResult)
    (clock : Clock) : Except GridError ResultOutcome × TaskQueueInner :=
  match q.tasks.get r.taskId with
  | none => (.error (.taskNotFound r.taskId.uuid), q)
  | some e =>
    if !ownedBy e w session then (.ok ⟨.stale, e.state, false⟩, q)
    else
      let q := q.unassign w r.taskId
      if e.state.isTerminal then (.ok ⟨.late, e.state, false⟩, q)
      else
        match applyResult q.retryPolicy e w r clock with
        | none => (.error (stateError r.taskId e.state.debug "Completed"), q)
        | some f =>
          (.ok ⟨f.disposition, f.entry.state, isWorkerRejection r⟩, q.storeEffect r.taskId f)

def failUnsendableAssignment (q : TaskQueueInner) (w : Uuid) (session : Option Nat) (r : TaskResult) :
    Except GridError ResultDisposition × TaskQueueInner :=
  match q.tasks.get r.taskId with
  | none => (.error (.taskNotFound r.taskId.uuid), q)
  | some e =>
    if !ownedBy e w session then (.ok .stale, q)
    else
      let q := q.unassign w r.taskId
      if e.state.isTerminal then (.ok .late, q)
      else if !e.state.canTransitionTo .failed then
        (.error (stateError r.taskId e.state.debug "Failed"), q)
      else
        let e' := { e with state := .failed, errorMessage := r.error, result := some r }
        (.ok .terminal, (q.setEntry r.taskId e').trackTerminalTask r.taskId)

/-! ## Failover -/

/-- What a sweep does to one task of the lost connection. -/
inductive SweepFate where
  | ready (key : QueueOrderKey)
  | delayed (key : DelayedRetryKey)
  | failed
deriving DecidableEq, Repr

/-- The backoff before a swept task runs again. -/
def sweepDelayMs (p : RetryPolicy) (e : TaskEntry) (immediateReschedule : Bool) : Nat :=
  if immediateReschedule then 0 else p.calculateBackoff (e.failoverCount + 1)

/-- The swept entry and where it goes. -/
def sweepEntry (p : RetryPolicy) (e : TaskEntry) (t : TaskId) (w : Uuid) (reason : String)
    (immediateReschedule : Bool) (clock : Clock) : TaskEntry × SweepFate :=
  let (budgetLeft, cap) := p.failoverBudget e
  if p.retryOnWorkerDisconnect && budgetLeft then
    let delayMs := sweepDelayMs p e immediateReschedule
    let e : TaskEntry := { e with
      retryCount := e.retryCount + 1
      failoverCount := e.failoverCount + 1
      assignedWorkerId := none
      assignedSession := none
      retryHistory := e.retryHistory ++ [{
        attempt := e.retryCount + 1
        timestampUtc := clock.epoch
        failedWorkerId := some w
        reason := reason
        exitCode := none
        error := some ("Worker evicted (" ++ reason ++ ")") }] }
    if delayMs = 0 then
      ({ e with
          state := .queued
          scheduledInstant := none
          startedInstant := none
          retryAfterInstant := none },
        .ready (e.readyKey t))
    else
      ({ e with state := .retrying, retryAfterInstant := some (clock.instant.plusMillis delayMs) },
        .delayed ⟨clock.instant.plusMillis delayMs, t⟩)
  else
    let used := if e.task.requirements.maxRetries.isSome then e.retryCount else e.failoverCount
    let message := "Task execution failed: maximum retry limit (" ++ toString cap ++
      ") reached after worker eviction (Worker disconnected and retries exhausted (" ++ toString used ++
      "/" ++ toString cap ++ "), last failure on worker " ++ Host.displayUuid w ++ ": " ++ reason ++ ")"
    ({ e with
        state := .failed
        assignedWorkerId := none
        assignedSession := none
        errorMessage := some message
        result := some (TaskResult.failure w t 1 [] [] 0 (some message)) },
      .failed)

/-- A sweep of `session` touches this entry of worker `w`. -/
def sweeps (w : Uuid) (session : Option Nat) (e : TaskEntry) : Bool :=
  e.state.isActive && e.assignedWorkerId == some w &&
    match session, e.assignedSession with
    | some swept, some assigned => assigned ≤ swept
    | _, _ => true

/-- The first loop of `handle_session_disconnected`: entries are rewritten, index insertions are
collected. -/
def sweepTasks (w : Uuid) (session : Option Nat) (reason : String) (immediateReschedule : Bool)
    (clock : Clock) : List TaskId → TaskQueueInner → List (TaskId × SweepFate) × TaskQueueInner
  | [], q => ([], q)
  | t :: rest, q =>
    match q.tasks.get t with
    | none => sweepTasks w session reason immediateReschedule clock rest q
    | some e =>
      if sweeps w session e then
        let (e', fate) := sweepEntry q.retryPolicy e t w reason immediateReschedule clock
        let (fates, q) := sweepTasks w session reason immediateReschedule clock rest
          ((q.unassign w t).setEntry t e')
        ((t, fate) :: fates, q)
      else sweepTasks w session reason immediateReschedule clock rest q

/-- `if worker_assignments.get(w).is_some_and(|tasks| tasks.is_empty()) { remove(w) }`. -/
def dropEmptyAssignments (q : TaskQueueInner) (w : Uuid) : TaskQueueInner :=
  if q.workerAssignments.get w = some ∅ then
    { q with workerAssignments := q.workerAssignments.del w }
  else q

def insertDelays (fates : List (TaskId × SweepFate)) (q : TaskQueueInner) : TaskQueueInner :=
  fates.foldl (fun q f => match f.2 with
    | .delayed k => (q.insertDelayed k).updateActiveTask k.taskId
    | _ => q) q

def insertReadies (fates : List (TaskId × SweepFate)) (q : TaskQueueInner) : TaskQueueInner :=
  fates.foldl (fun q f => match f.2 with
    | .ready k => (q.insertReady k).updateActiveTask k.taskId
    | _ => q) q

def trackFailures (fates : List (TaskId × SweepFate)) (q : TaskQueueInner) : TaskQueueInner :=
  fates.foldl (fun q f => match f.2 with
    | .failed => q.trackTerminalTask f.1
    | _ => q) q

/-- The tasks a sweep of `w` visits: its assignment set and every active entry that names it. -/
def sweptCandidates (q : TaskQueueInner) (w : Uuid) : Finset TaskId :=
  (q.workerAssignments.get w).getD ∅ ∪
    q.tasks.keys.filter fun t =>
      (q.tasks.get t).any fun e => e.assignedWorkerId == some w && e.state.isActive

/-- `handle_session_disconnected`; returns the affected tasks. -/
def handleSessionDisconnected (q : TaskQueueInner) (w : Uuid) (session : Option Nat)
    (reason : String) (immediateReschedule : Bool) (order : SetOrder TaskId) (clock : Clock) :
    List TaskId × TaskQueueInner :=
  let (fates, q) := sweepTasks w session reason immediateReschedule clock
    (order.list (q.sweptCandidates w)) q
  let q := q.dropEmptyAssignments w
  (fates.map Prod.fst, trackFailures fates (insertReadies fates (insertDelays fates q)))

/-! ## Backoff, cancellation, retention -/

/-- One task whose backoff elapsed. -/
def readyRetry (q : TaskQueueInner) (t : TaskId) : TaskQueueInner :=
  match q.tasks.get t with
  | some e =>
    if e.state = .retrying then
      let e' := { e with state := .queued, retryAfterInstant := none }
      (q.setEntry t e').insertReady (e'.readyKey t)
    else q
  | none => q

/-- The keys `process_delayed_retries` takes: the leading ones that are due. -/
def dueRetries (q : TaskQueueInner) (now : Instant) : List DelayedRetryKey :=
  q.delayedRetries.toList.takeWhile fun k => decide (k.retryAfter ≤ now)

/-- `process_delayed_retries`; returns how many keys were due. -/
def processDelayedRetries (q : TaskQueueInner) (now : Instant) : Nat × TaskQueueInner :=
  let due := q.dueRetries now
  let q := due.foldl removeDelayed q
  (due.length, due.foldl (fun q k => q.readyRetry k.taskId) q)

structure CancelOutcome where
  newlyCancelled : Bool
  workerToNotify : Option Uuid
  result : Option TaskResult
deriving DecidableEq, Repr

/-- The index a cancelled task leaves. -/
def dropFromIndex (q : TaskQueueInner) (t : TaskId) (e : TaskEntry) : TaskQueueInner :=
  match e.state with
  | .queued => q.removeReady (e.readyKey t)
  | .retrying =>
    match e.retryAfterInstant with
    | some after => q.removeDelayed ⟨after, t⟩
    | none => q
  | .scheduled | .running => q.unassignFrom e.assignedWorkerId t
  | _ => q

/-- The entry of a cancelled task; an earlier result is kept. -/
def cancelledEntry (e : TaskEntry) (t : TaskId) (reason : Option String) : TaskEntry :=
  let cancelReason := reason <|> some "Cancelled by user"
  let cancelResult :=
    TaskResult.failure (e.assignedWorkerId.getD Uuid.nil) t 130 [] [] 0 cancelReason
  { e with
    state := .cancelled
    errorMessage := cancelReason
    result := if e.result.isNone then some cancelResult else e.result }

def cancelTaskDetailed (q : TaskQueueInner) (t : TaskId) (reason : Option String) :
    Except GridError CancelOutcome × TaskQueueInner :=
  match q.tasks.get t with
  | none => (.error (.taskNotFound t.uuid), q)
  | some e =>
    if e.state.isTerminal then (.ok ⟨false, none, e.result⟩, q)
    else
      let e' := cancelledEntry e t reason
      (.ok ⟨true, if e.state.isActive then e.assignedWorkerId else none, e'.result⟩,
        ((q.dropFromIndex t e).setEntry t e').trackTerminalTask t)

def setMaxTerminalTasks (q : TaskQueueInner) (limit : Nat) : TaskQueueInner :=
  enforceTerminalLimits { q with maxTerminalTasks := limit }

def setMaxTerminalBytes (q : TaskQueueInner) (limit : Nat) : TaskQueueInner :=
  enforceTerminalLimits { q with maxTerminalBytes := limit }

/-- `evict_terminal_tasks`; returns how many entries were dropped. -/
def evictTerminalTasks (q : TaskQueueInner) (maxRetained : Nat) : Nat × TaskQueueInner :=
  evictCounting maxRetained q.terminalOrder.length 0 q

/-! ## Queries of the server -/

def getState (q : TaskQueueInner) (t : TaskId) : Option TaskState :=
  (q.tasks.get t).map fun e => e.state

def getResult (q : TaskQueueInner) (t : TaskId) : Option TaskResult :=
  (q.tasks.get t).bind fun e => e.result

end TaskQueueInner

end OxideSwarm
