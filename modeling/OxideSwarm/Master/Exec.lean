import OxideSwarm.Master.State

/-!
# What the sections of the master do

`exec` runs one section: the new shared state, the sections its task continues with, and the tasks it
starts.  `step` is one step of the whole master.
-/

namespace OxideSwarm

variable [Host]

/-! ## Registry and store -/

/-- The connection task a section runs in, as `abort_unless_current` sees it. -/
def Owner.conn : Owner → Option ConnId
  | .handler s => some s
  | _ => none

def blobSweepInterval : Nat := seconds 30

def RegistryOp.apply (c : Choice) (config : MasterConfig) (r : WorkerRegistryInner) :
    RegistryOp → WorkerRegistryInner
  | .setRxClock w s => r.setRxClock w s c.clock.instant
  | .heartbeat w s active cpu ram =>
    (r.recordHeartbeatSession w active cpu ram (some s) c.clock.instant).2
  | .telemetry w s status => (r.updateMobileTelemetry w (some s) status).2
  | .prune =>
    match config.staleWorkerTimeout with
    | some timeout => r.pruneStaleWorkers c.workerOrder c.clock.instant timeout
    | none => r
  | .rejection w s => (r.recordRejection w (some s) c.clock.instant).2
  | .clearRejections w => r.clearRejections w

def StoreOp.apply (c : Choice) (config : MasterConfig) (store : BlobInner) : StoreOp → BlobInner
  | .unpin t => store.unpinTask t
  | .commitOutputs t ids =>
    store.commitTerminal c.taskOrder config.blobMaxBytes c.clock.instant t ids
  | .dropOutputs ids => store.releasePins ids
  | .sweepOutputs => store.sweepExpiredOutputPins c.taskOrder c.clock.instant config.outputPinRetention
  | .index id size => store.insert id size
  | .evict keep => store.removeAll (store.evictionBatch config.blobMaxBytes keep)

namespace MasterState

abbrev Out := Outcome MasterState Owner Section

def withRegistry (s : MasterState) (r : WorkerRegistryInner) : MasterState := { s with registry := r }
def withQueue (s : MasterState) (q : TaskQueueInner) : MasterState := { s with queue := q }
def withStore (s : MasterState) (b : BlobInner) : MasterState := { s with store := b }
def withRecorded (s : MasterState) (m : FMap TaskId TaskResult) : MasterState := { s with recorded := m }

def note (s : MasterState) (e : Event) : MasterState := { s with events := s.events ++ [e] }

/-- The section is over and its task goes on with `code`. -/
def next (s : MasterState) (code : List Section) : Out := ⟨s, code, []⟩

/-! ## Worker connections -/

/-- `handle_worker_disconnect_with_broadcast` up to the sweep. -/
def unregister (s : MasterState) (k : Owner) (w : Uuid) (session : Nat) (reason : String)
    (immediate : Bool) : Out :=
  let r := s.registry.unregister w (some session) k.conn
  next { s with registry := r.2, aborting := s.aborting ∪ r.1.2.toFinset }
    (if r.1.1 then [.sweep w session reason immediate] else [])

/-- The results a sweep writes, as they stand before retention limits can evict them. -/
def sweptResults (q : TaskQueueInner) (w : Uuid) (session : Option Nat) (reason : String)
    (immediate : Bool) (order : SetOrder TaskId) (clock : Clock) : List (TaskId × TaskResult) :=
  let swept := TaskQueueInner.sweepTasks w session reason immediate clock
    (order.list (q.sweptCandidates w)) q
  swept.1.filterMap fun f =>
    if f.2 = .failed then (swept.2.getResult f.1).map fun r => (f.1, r) else none

/-- `failover_session_tasks`. -/
def sweep (s : MasterState) (c : Choice) (w : Uuid) (session : Nat) (reason : String)
    (immediate : Bool) : Out :=
  let swept := s.queue.handleSessionDisconnected w (some session) reason immediate c.taskOrder c.clock
  let results := sweptResults s.queue w (some session) reason immediate c.taskOrder c.clock
  next ((s.withQueue swept.2).withRecorded (results.foldl (fun m r => m.set r.1 r.2) s.recorded))
    (swept.1.map fun t => .resolve t (some w))

/-- What the end of a connection runs. -/
def closing (w : Uuid) (session : Nat) (reason : String) (immediate : Bool) : List Section :=
  [.unregister w session reason immediate, .unregister w session "Connection terminated" false,
    .hangUp session]

/-- One message of the inbound loop. -/
def serve (s : MasterState) (c : Choice) (w : Uuid) (session : Nat) : Out :=
  match c.inbound with
  | .heartbeat active cpu ram => s.next [.registry (.heartbeat w session active cpu ram), .serve w session]
  | .telemetry status => s.next [.registry (.telemetry w session status), .serve w session]
  | .progress t => s.next [.progress w session t, .serve w session]
  -- a result is applied by a task of its own, which survives the connection
  | .result r => ⟨s, [.serve w session], [⟨.detached, [.pinOutputs w session { r with workerId := w }]⟩]⟩
  | .checkpoint t cp => s.next [.checkpoint w session t cp, .serve w session]
  | .disconnecting reason =>
    s.next (closing w session ("Worker graceful disconnect: " ++ reason) true)
  | .eof => s.next (closing w session "TCP connection EOF" false)
  | .readError e => s.next (closing w session ("Inbound socket error: " ++ e) false)
  | .ignored => s.next [.serve w session]

/-- Phase 2 of a reap, and what the reaper does next. -/
def reapWrite (s : MasterState) (c : Choice) (k : Owner) (candidates : List Uuid) : Out :=
  let r := s.registry.reapStaleSessions c.clock.instant s.config.reapTimeout k.conn candidates
  next { s with registry := r.2, aborting := s.aborting ∪ r.1.2.toFinset }
    (.registry .prune ::
      r.1.1.map fun reaped => .sweep reaped.1 reaped.2 "Heartbeat timeout (reaper detected)" false)

/-! ## Waking clients -/

/-- The failure `terminal_result` makes up when a terminal task has no recorded result. -/
def fallbackResult (t : TaskId) (info : TaskEntry) (fallback : Option Uuid) : TaskResult :=
  TaskResult.failure ((info.assignedWorkerId <|> fallback).getD Uuid.nil) t
    (if info.state = .cancelled then 130 else 1) [] [] 0
    (info.errorMessage <|> some "Task terminated")

/-- Takes the senders of `t` out of the map and sends to those whose receiver is still there. -/
def wake (s : MasterState) (t : TaskId) (r : TaskResult) : Out :=
  if s.waitersHeld then s.next [.wake t r]
  else
    let live := ((s.waiters.get t).getD []).filter fun k => k ∉ s.closed
    next { s with
        waiters := s.waiters.del t
        sent := s.sent ++ live.map fun k => ⟨k, t, r, s.recorded.get t⟩ } []

def resolve (s : MasterState) (t : TaskId) (fallback : Option Uuid) : Out :=
  match s.queue.tasks.get t with
  | some info => s.next (if info.state.isTerminal then [.resolveResult t info fallback] else [])
  | none => s.next []

/-- Puts a new sender for `t` into the map. -/
def push (s : MasterState) (t : TaskId) : MasterState :=
  { s with
    waiters := s.waiters.set t ((s.waiters.get t).getD [] ++ [s.nextWaiter])
    nextWaiter := s.nextWaiter + 1 }

def close (s : MasterState) (k : WaiterId) : MasterState := { s with closed := insert k s.closed }

/-- `prune_closed_waiters`. -/
def pruneWaiters (s : MasterState) (t : TaskId) : Out :=
  if s.waitersHeld then s.next [.pruneWaiters t]
  else
    match s.waiters.get t with
    | none => s.next []
    | some senders =>
      let kept := senders.filter fun k => k ∉ s.closed
      next { s with waiters := if kept = [] then s.waiters.del t else s.waiters.set t kept } []

/-! ## Results, oversized assignments and cancellations -/

/-- The note `apply_task_result` adds to a result whose outputs are missing. -/
def noteMissing (r : TaskResult) (missing : List BlobId) : TaskResult :=
  let problem := match r.outputs.find? fun f => f.id ∈ missing with
    | some first => "output '" ++ first.path ++ "' (blob " ++ first.id.toHex ++
        ") is not in the master's blob store (" ++ toString missing.length ++ " of " ++
        toString r.outputs.length ++ " outputs missing)"
    | none => ""
  { r with error := some (match r.error with
    | some error => error ++ "; " ++ problem
    | none => problem) }

def pinOutputs (s : MasterState) (w : Uuid) (session : Nat) (r : TaskResult) : Out :=
  if r.outputs = [] then s.next [.record w session r none]
  else
    let pinned := s.store.checkAndPinOutputs (r.outputs.map BlobFile.id)
    match pinned.1 with
    | .ok ids => next (s.withStore pinned.2) [.record w session r (some ids)]
    | .error missing => next (s.withStore pinned.2) [.record w session (noteMissing r missing) none]

/-- The pin guard of a result that does not finish its task is dropped. -/
def dropGuard (pin : Option (List BlobId)) : List Section :=
  (pin.map fun ids => .store (.dropOutputs ids)).toList

/-- What follows a recorded result. -/
def afterRecord (a : Assignment) (r : TaskResult) (pin : Option (List BlobId)) (o : TaskQueueInner.ResultOutcome) :
    List Section :=
  .giveBack a ::
    (if o.rejected then [.registry (.rejection a.workerId a.sessionId)]
      else if o.disposition ≠ .late then [.registry (.clearRejections a.workerId)] else []) ++
    if o.disposition = .terminal then
      .store (.unpin a.taskId) ::
        (pin.map fun ids => .store (.commitOutputs a.taskId ids)).toList ++ [.wake a.taskId r]
    else dropGuard pin

/-- What follows the queue's answer to a result. -/
def recordedCode (a : Assignment) (r : TaskResult) (pin : Option (List BlobId)) :
    Except GridError TaskQueueInner.ResultOutcome → List Section
  | .ok o => if o.disposition = .stale then dropGuard pin else afterRecord a r pin o
  | .error _ => dropGuard pin

/-- The history of results after `t` finished with `r`. -/
def recordIf (s : MasterState) (finished : Bool) (t : TaskId) (r : TaskResult) :
    FMap TaskId TaskResult :=
  if finished then s.recorded.set t r else s.recorded

def record (s : MasterState) (c : Choice) (w : Uuid) (session : Nat) (r : TaskResult)
    (pin : Option (List BlobId)) : Out :=
  let recorded := s.queue.recordResultFrom w (some session) r c.clock
  next ((s.withQueue recorded.2).withRecorded
      (s.recordIf (ResultOutcome.finished recorded.1) r.taskId r))
    (recordedCode ⟨r.taskId, w, session⟩ r pin recorded.1)

/-- The failure of an assignment that does not fit a frame. -/
def oversizedResult (a : Assignment) (size : Nat) : TaskResult :=
  let reason := "Task assignment frame (" ++ toString size ++
    " bytes) exceeds maximum protocol frame limit (" ++ toString maxFrameSize ++ " bytes)"
  TaskResult.failure a.workerId a.taskId 1 [] ("[rusty_grid: " ++ reason ++ "]\n").toUTF8.toList 0
    (some reason)

/-- What follows the queue's answer to an oversized assignment. -/
def oversizedCode (a : Assignment) (r : TaskResult) :
    Except GridError TaskQueueInner.ResultDisposition → List Section
  | .ok .terminal => [.giveBack a, .store (.unpin a.taskId), .wake a.taskId r]
  | .ok .stale | .error _ => []
  | .ok _ => [.giveBack a]

/-- `handle_oversized_master_message`. -/
def oversized (s : MasterState) (a : Assignment) (size : Nat) : Out :=
  let r := oversizedResult a size
  let failed := s.queue.failUnsendableAssignment a.workerId (some a.sessionId) r
  next ((s.withQueue failed.2).withRecorded (s.recordIf (failed.1 = .ok .terminal) a.taskId r))
    (oversizedCode a r failed.1)

/-- `cancel_task_and_notify` up to the message to the worker. -/
def cancel (s : MasterState) (t : TaskId) (reason : String) : Out :=
  let cancelled := s.queue.cancelTaskDetailed t (some reason)
  match cancelled.1 with
  | .ok o =>
    if o.newlyCancelled then
      let r := o.result.getD
        (TaskResult.failure (o.workerToNotify.getD Uuid.nil) t 130 [] [] 0 (some reason))
      next (((s.withQueue cancelled.2).withRecorded (s.recorded.set t r)).note (.cancelled t))
        ((o.workerToNotify.map fun w => .sendToWorker w t).toList ++ [.wake t r])
    else next (s.withQueue cancelled.2) []
  | .error _ => next (s.withQueue cancelled.2) []

/-- `send_to_worker` finds the channel of the worker's session. -/
def sendToWorker (s : MasterState) (w : Uuid) (t : TaskId) : Out :=
  s.next (match s.registry.senderOf w with
    | .ok session => [.sendCancel session t]
    | .error _ => [])

/-- The `CancelTask` is put on the channel, unless the channel is dead. -/
def sendCancel (s : MasterState) (c : Choice) (session : Nat) (t : TaskId) : Out :=
  next { s with events := if c.ok then s.events ++ [.cancelTask t session] else s.events } []

/-- `decrement_active_tasks` after a result or an oversized assignment. -/
def giveBack (s : MasterState) (a : Assignment) : Out :=
  next { s with
    registry := (s.registry.decrementActiveTasks a.workerId).2
    handed := s.handed.erase a } []

/-! ## Submissions and waits -/

/-- The section after a submission's admission. -/
def admitted (sub : Submission) : List Section :=
  [if sub.wait then .enrol sub else .submit sub none]

/-- `admit_blob_task` up to the pin. -/
def admitBlobTask (s : MasterState) (c : Choice) (task : Task) (wait : Bool) : Out :=
  if !task.usesBlobs then s.next (admitted ⟨task, wait, false, []⟩)
  else
    match task.validate with
    | .error _ => s.next []
    | .ok () =>
      match resolveInputs c.readings task.inputs with
      | .error _ => s.next []
      | .ok [] => s.next (admitted ⟨task, wait, false, []⟩)
      | .ok ids => s.next [.pin task wait ids]

/-- `pin_task`, and the undo when a blob was evicted meanwhile. -/
def pin (s : MasterState) (c : Choice) (task : Task) (wait : Bool) (ids : List BlobId) : Out :=
  let pinned := s.store.pinTask c.clock.instant task.id ids
  next (s.withStore pinned.2)
    (if pinned.1 = [] then admitted ⟨task, wait, false, ids⟩ else [.store (.unpin task.id)])

def enrol (s : MasterState) (sub : Submission) : Out :=
  if s.waitersHeld then s.next [.enrol sub]
  else next (s.push sub.task.id) [.submit sub (some s.nextWaiter)]

/-- `queue.submit` and its error path. -/
def submit (s : MasterState) (c : Choice) (sub : Submission) (waiter : Option WaiterId) : Out :=
  let submitted := s.queue.submitWithPriority sub.task 0 c.clock
  match submitted.1 with
  | .ok t =>
    next { s with
        queue := submitted.2
        recorded := s.recorded.del t
        accepted := s.accepted.set t sub.ids
        events := s.events ++ [.accepted t] }
      (waiter.map fun k => .await t k false).toList
  | .error _ =>
    next { s with queue := submitted.2, closed := s.closed ∪ waiter.toFinset }
      (.pruneWaiters sub.task.id :: if sub.known then [] else [.store (.unpin sub.task.id)])

/-- A wait ends when its receiver is dropped (a timeout, or the caller going away). -/
def await (s : MasterState) (c : Choice) (t : TaskId) (k : WaiterId) (prune : Bool) : Out :=
  if c.ok then s.next [.await t k prune]
  else next (s.close k) (if prune then [.pruneWaiters t] else [])

def isFinished (s : MasterState) (t : TaskId) : Bool :=
  (s.queue.tasks.get t).any fun e => e.state.isTerminal

/-- The check of `wait_task` under the waiter lock. -/
def waitRecheck (s : MasterState) (t : TaskId) : Out :=
  if s.isFinished t then next { s with waitersHeld := false } [] else s.next [.waitPush t]

/-! ## Scheduling -/

/-- The assignments of a pass: for each scheduled task the first triple that names it. -/
def assignmentsOf : List TaskId → List (TaskId × Uuid × Nat) → List Assignment
  | _, [] => []
  | scheduled, (t, w, session) :: rest =>
    if t ∈ scheduled then ⟨t, w, session⟩ :: assignmentsOf (scheduled.filter fun u => u ≠ t) rest
    else assignmentsOf scheduled rest

def workers (s : MasterState) (c : Choice) (maxBatchSize : Nat) : Out :=
  let listed := (s.registry.listSchedulableWorkers c.workerOrder c.clock.instant).insertionSort
    fun a b => a.workerId.toNat ≤ b.workerId.toNat
  s.next (if listed = [] then [] else [.loads listed maxBatchSize])

/-- The GPU demand is asked and the engine is built. -/
def demand (s : MasterState) (c : Choice) (listed : List WorkerInfo)
    (loads : Uuid → Option AssignedLoad) (maxBatchSize : Nat) : Out :=
  let asked := s.gpuDemand.ask s.config.scheduler s.queue listed c.clock.instant
  let p := Pass.start s.config.scheduler listed loads asked.1 s.rrCursor maxBatchSize
  next { s with gpuDemand := asked.2 }
    [if p.engine.freeSlots > 0 ∧ maxBatchSize > 0 then .page p else .commit p]

def page {n : Nat} (s : MasterState) (c : Choice) (p : Pass n) : Out :=
  let s' := if p.notesGpu s.queue then { s with gpuDemand := s.gpuDemand.note c.clock.instant } else s
  if (p.page s.queue).1 then next s' [.page (p.page s.queue).2]
  else next { s' with rrCursor := (p.page s.queue).2.engine.rrCursor } [.commit (p.page s.queue).2]

def commit {n : Nat} (s : MasterState) (c : Choice) (p : Pass n) : Out :=
  let batch := s.queue.scheduleTasksBatchInSessions p.triples c.clock.instant
  next (s.withQueue batch.2)
    ((assignmentsOf (batch.1.map Prod.fst) p.triples).map .reserve)

def reserve (s : MasterState) (a : Assignment) : Out :=
  let reserved := s.registry.reserveDispatch a.workerId a.sessionId
  next (s.withRegistry reserved.2)
    (match reserved.1 with
      | .ok () => [.channel a]
      | .error _ => [.requeue a])

/-- The worker's channel has room, or is dead. -/
def channel (s : MasterState) (c : Choice) (a : Assignment) : Out :=
  s.next (if c.ok then [.deliver a]
    else [.rollback a, .requeue a,
      .unregister a.workerId a.sessionId "Failed to deliver AssignTask message" false])

def deliver (s : MasterState) (a : Assignment) : Out :=
  let sent := s.queue.deliverIfScheduled a.taskId a.workerId a.sessionId
    (fun out => ((), out ++ [a])) s.outbox
  match sent.1 with
  | some () =>
    next { s with
      outbox := sent.2
      handed := s.handed ++ [a]
      events := s.events ++ [.assignTask a] } []
  | none => s.next [.release a]

/-- A pin the sweeper releases: its task is over, or was never submitted. -/
def isAbandoned (s : MasterState) (now : Instant) (t : TaskId) (pinnedAt : Instant) : Bool :=
  match s.queue.tasks.get t with
  | some e => e.state.isTerminal
  | none => decide (now - pinnedAt > blobSweepInterval)

def sweepPin (s : MasterState) (c : Choice) (t : TaskId) (pinnedAt : Instant) : Out :=
  s.next (if s.isAbandoned c.clock.instant t pinnedAt then [.store (.unpin t)] else [])

/-! ## All sections -/

def exec (c : Choice) (k : Owner) (a : Section) (s : MasterState) : Out :=
  match a with
  | .registry op => next (s.withRegistry (op.apply c s.config s.registry)) []
  | .spawnSweep w old => ⟨s, [],
      [⟨.detached, [.sweep w old "Superseded by a new session of the same worker" true]⟩]⟩
  | .ack w session =>
    s.next (if c.ok then [.serve w session]
      else [.unregister w session "RegisterAck delivery failed" true, .hangUp session])
  | .serve w session => s.serve c w session
  | .progress w session t =>
    next (s.withQueue (s.queue.markRunningFrom w (some session) t c.clock.instant).2) []
  | .checkpoint w session t cp =>
    next (s.withQueue (s.queue.recordCheckpointFrom w (some session) t cp).2) []
  | .unregister w session reason immediate => s.unregister k w session reason immediate
  | .sweep w session reason immediate => s.sweep c w session reason immediate
  | .hangUp session => next { s with hungUp := insert session s.hungUp } []
  | .reapScan => s.next [.reapWrite (s.registry.reapCandidates c.workerOrder c.clock.instant
      s.config.reapTimeout)]
  | .reapWrite candidates => s.reapWrite c k candidates
  | .resolve t fallback => s.resolve t fallback
  | .resolveResult t info fallback =>
    s.next [.wake t ((s.queue.getResult t).getD (fallbackResult t info fallback))]
  | .wake t r => s.wake t r
  | .pinOutputs w session r => s.pinOutputs w session r
  | .record w session r pin => s.record c w session r pin
  | .giveBack a => s.giveBack a
  | .oversized a size => s.oversized a size
  | .store op => next (s.withStore (op.apply c s.config s.store)) []
  | .cancel t reason => s.cancel t reason
  | .sendToWorker w t => s.sendToWorker w t
  | .sendCancel session t => s.sendCancel c session t
  | .known task wait =>
    s.next (if (s.queue.tasks.get task.id).isSome then admitted ⟨task, wait, true, []⟩
      else [.admitBlobTask task wait])
  | .admitBlobTask task wait => s.admitBlobTask c task wait
  | .pin task wait ids => s.pin c task wait ids
  | .enrol sub => s.enrol sub
  | .submit sub waiter => s.submit c sub waiter
  | .pruneWaiters t => s.pruneWaiters t
  | .await t waiter prune => s.await c t waiter prune
  | .waitKnown t => s.next (if (s.queue.tasks.get t).isSome then [.waitCheck t] else [])
  | .waitCheck t => s.next (if s.isFinished t then [] else [.waitLock t])
  | .waitLock t =>
    if s.waitersHeld then s.next [.waitLock t] else next { s with waitersHeld := true } [.waitRecheck t]
  | .waitRecheck t => s.waitRecheck t
  | .waitPush t => next { s.push t with waitersHeld := false } [.await t s.nextWaiter true]
  | .retries maxBatchSize =>
    next (s.withQueue (s.queue.processDelayedRetries c.clock.instant).2) [.workers maxBatchSize]
  | .workers maxBatchSize => s.workers c maxBatchSize
  | .loads listed maxBatchSize => s.next [.demand listed s.queue.assignedLoads maxBatchSize]
  | .demand listed loads maxBatchSize => s.demand c listed loads maxBatchSize
  | .page p => s.page c p
  | .commit p => s.commit c p
  | .reserve a => s.reserve a
  | .channel a => s.channel c a
  | .deliver a => s.deliver a
  | .release a => next (s.withRegistry (s.registry.releaseDispatch a.workerId a.sessionId)) []
  | .rollback a => next (s.withRegistry (s.registry.decrementActiveTasks a.workerId).2) []
  | .requeue a =>
    next (s.withQueue (s.queue.requeueDispatchFailure a.taskId a.workerId a.sessionId).2) []
  | .pinned => s.next ((s.store.pinnedTasks c.taskOrder).map fun p => .sweepPin p.1 p.2)
  | .sweepPin t pinnedAt => s.sweepPin c t pinnedAt
  | .evictTasks maxRetained => next (s.withQueue (s.queue.evictTerminalTasks maxRetained).2) []

end MasterState

/-! ## Steps of the master -/

/-- What the outside world starts in the master. -/
inductive Request where
  | submitTask (task : Task) (wait : Bool)
  | waitTask (t : TaskId)
  | cancelTask (t : TaskId) (reason : String)
  | scheduleBatch (maxBatchSize : Nat)
  | reaperTick
  | blobSweepTick
  | evictTerminalTasks (maxRetained : Nat)
  | storeBlob (id : BlobId) (size : Nat)
  | evictBlobs

/-- The sections of the task a request starts. -/
def Request.code : Request → List Section
  | .submitTask task wait => [.known task wait]
  | .waitTask t => [.waitKnown t]
  | .cancelTask t reason => [.cancel t reason]
  | .scheduleBatch maxBatchSize => [.retries maxBatchSize]
  | .reaperTick => [.reapScan]
  | .blobSweepTick => [.store .sweepOutputs, .pinned]
  | .evictTerminalTasks maxRetained => [.evictTasks maxRetained]
  | .storeBlob id size => [.store (.index id size), .store (.evict (some id))]
  | .evictBlobs => [.store (.evict none)]

inductive Label where
  /-- a worker's `Register` message -/
  | connect (w : Uuid) (capabilities : WorkerCapabilities) (features : ProtocolCapabilities)
      (now : Instant)
  | start (r : Request)
  /-- task `i` runs its next section -/
  | advance (i : Nat) (c : Choice)
  /-- a requested abort of a connection task takes effect -/
  | abort (session : Nat)
  /-- the writer of a connection that ended is dropped -/
  | dropWriter (session : Nat)
  /-- the writer takes the `i`-th assignment out of the channel; `size` is its frame's -/
  | transmit (i : Nat) (size : Nat)

namespace Master

/-- `register_session`, and the connection task that made it. -/
def connect (m : Master) (w : Uuid) (capabilities : WorkerCapabilities)
    (features : ProtocolCapabilities) (now : Instant) : Master :=
  let session := m.shared.registry.nextSessionId
  let r := m.shared.registry.registerSession w capabilities features (some session) (some session) now
  m.spawn { m.shared with registry := r.2, aborting := m.shared.aborting ∪ r.1.2.toFinset }
    ⟨.handler session,
      .registry (.setRxClock w session) ::
        (r.1.1.supersededSession.map fun old => .spawnSweep w old).toList ++ [.ack w session]⟩

/-- An aborted connection takes its writer along. -/
def abort (m : Master) (session : Nat) : Master :=
  if session ∈ m.shared.aborting then
    ({ m with shared := { m.shared with hungUp := insert session m.shared.hungUp } } : Master).kill
      fun k => k = .handler session ∨ k = .writer session
  else m

def dropWriter (m : Master) (session : Nat) : Master :=
  if session ∈ m.shared.hungUp then m.kill fun k => k = .writer session else m

def transmit (m : Master) (i size : Nat) : Master :=
  match m.shared.outbox[i]? with
  | none => m
  | some a =>
    let s := { m.shared with outbox := m.shared.outbox.eraseIdx i }
    if size > maxFrameSize ∧ a.sessionId ∉ s.hungUp then
      m.spawn s ⟨.writer a.sessionId, [.oversized a size]⟩
    else { m with shared := s }

def step (m : Master) : Label → Master
  | .connect w capabilities features now => m.connect w capabilities features now
  | .start r => m.spawn m.shared ⟨.detached, r.code⟩
  | .advance i c => m.advance MasterState.exec i c
  | .abort session => m.abort session
  | .dropWriter session => m.dropWriter session
  | .transmit i size => m.transmit i size

/-- A master that was just started. -/
def init (config : MasterConfig) (queue : QueueConfig) : Master where
  shared :=
    { config := config
      registry := .new
      queue := queue.start
      waiters := ∅
      waitersHeld := false
      closed := ∅
      nextWaiter := 0
      store := .empty
      gpuDemand := ⟨none, false, none⟩
      rrCursor := 0
      outbox := []
      aborting := ∅
      hungUp := ∅
      sent := []
      handed := []
      recorded := ∅
      accepted := ∅
      events := [] }
  threads := []

/-- The master after the steps `labels`. -/
def run (m : Master) (labels : List Label) : Master := runFrom Master.step m labels

end Master

/-! ## Concrete surroundings -/

/-- A choice at time `now`: nothing arrives, nothing fails, sets are walked by id, the store answers no
reading. -/
def Choice.at (now : Instant) : Choice where
  clock := ⟨now, 0⟩
  taskOrder := SetOrder.byKey (fun t => t.uuid.toNat) fun t u h => by
    cases t
    cases u
    exact congrArg TaskId.mk (BitVec.eq_of_toNat_eq h)
  workerOrder := SetOrder.byKey BitVec.toNat fun _ _ h => BitVec.eq_of_toNat_eq h
  inbound := .ignored
  ok := true
  readings := ⟨fun _ _ => none, fun _ => .error ""⟩

def Choice.receiving (now : Instant) (inbound : Inbound) : Choice := { Choice.at now with inbound := inbound }

def Choice.failing (now : Instant) : Choice := { Choice.at now with ok := false }

def MasterConfig.default : MasterConfig where
  scheduler := .default
  reapTimeout := seconds 15
  staleWorkerTimeout := none
  blobMaxBytes := 1000000
  outputPinRetention := seconds 600

/-- `n` sections of task `i` in a row. -/
def Label.advances (i n : Nat) (c : Choice) : List Label := List.replicate n (.advance i c)

/-- Worker 7 is connected and task 1 is queued. -/
def connectedRun : List Label :=
  .connect 7 (.plain 4) .empty 0 :: Label.advances 0 2 (.at 0) ++
    .start (.submitTask (Task.echo 1) false) :: Label.advances 1 3 (.at 1)

end OxideSwarm
