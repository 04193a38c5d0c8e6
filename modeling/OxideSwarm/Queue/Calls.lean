import OxideSwarm.Queue.Ops

/-!
# Calls of the queue

`Op` lists the queue's public operations with their arguments; `apply` and `refusal` are the queue a call leaves
and the error it returns.  `Performs` says, once for all proofs about single calls, every way in which a call
can end and what it writes then; `apply_performs` says that there is no other.
-/

namespace OxideSwarm

open Std TaskQueueInner

section

variable {q : TaskQueueInner} {e : TaskEntry}

theorem ownedBy_worker {w : Uuid} {session : Option Nat} (ho : ownedBy e w session) :
    e.assignedWorkerId = some w := by
  simp only [ownedBy, Bool.and_eq_true, beq_iff_eq] at ho
  exact ho.1

theorem not_terminal_of_active (h : e.state.isActive) : e.state.isTerminal = false := by
  cases hs : e.state <;> simp_all [TaskState.isActive, TaskState.isTerminal]

theorem active_to_completed {s : TaskState} (h : s.isActive) : s.canTransitionTo .completed := by
  cases s <;> simp_all [TaskState.isActive, TaskState.canTransitionTo]

theorem active_to_failed {s : TaskState} (h : s.isActive) : s.canTransitionTo .failed := by
  cases s <;> simp_all [TaskState.isActive, TaskState.canTransitionTo]

theorem retainedBytes_fresh (task : Task) (priority sequence : Nat) (clock : Clock) :
    retainedBytes (TaskEntry.fresh task priority sequence clock) = taskActiveBytes task := by
  simp [retainedBytes, TaskEntry.fresh]

/-- The two orders in which the code writes a task's entry and drops its assignment. -/
theorem unassign_setEntry (q : TaskQueueInner) (w : Uuid) (t : TaskId) (e : TaskEntry) :
    (q.setEntry t e).unassign w t = (q.unassign w t).setEntry t e := by
  unfold unassign setEntry
  dsimp only
  split <;> rfl

theorem unassign_retryPolicy (q : TaskQueueInner) (w : Uuid) (t : TaskId) :
    (q.unassign w t).retryPolicy = q.retryPolicy := by
  unfold unassign
  split <;> rfl

end

variable [Host] {q : TaskQueueInner} {e : TaskEntry}

/-- Every active task may complete, so a success is never refused. -/
theorem applyResult_of_active {p : RetryPolicy} (hact : e.state.isActive) (w : Uuid)
    (r : TaskResult) (clock : Clock) : applyResult p e w r clock ≠ none := by
  unfold applyResult
  rw [active_to_completed hact]
  split
  · exact Option.some_ne_none _
  split
  · exact Option.some_ne_none _
  · split
    · exact Option.some_ne_none _
    · split <;> exact Option.some_ne_none _

/-- A call of one of the queue's operations. -/
inductive Op where
  | submitWithPriority (task : Task) (priority : Nat) (clock : Clock)
  | trySubmitSlot (slot : Option Task) (seen : TaskQueueInner) (clock : Clock)
  | popAndSchedule (w : Uuid) (predicate : TaskRequirements → Bool) (now : Instant)
  | scheduleTask (t : TaskId) (w : Uuid) (now : Instant)
  | scheduleTasksBatch (assignments : List (TaskId × Uuid)) (now : Instant)
  | scheduleTasksBatchInSessions (assignments : List (TaskId × Uuid × Nat)) (now : Instant)
  | requeueTask (t : TaskId)
  | requeueDispatchFailure (t : TaskId) (w : Uuid) (session : Nat)
  | markRunningFrom (w : Uuid) (session : Option Nat) (t : TaskId) (now : Instant)
  | recordCheckpoint (t : TaskId) (c : CheckpointData)
  | recordCheckpointFrom (w : Uuid) (session : Option Nat) (t : TaskId) (c : CheckpointData)
  | recordResultFrom (w : Uuid) (session : Option Nat) (r : TaskResult) (clock : Clock)
  | failUnsendableAssignment (w : Uuid) (session : Option Nat) (r : TaskResult)
  | handleSessionDisconnected (w : Uuid) (session : Option Nat) (reason : String)
      (immediateReschedule : Bool) (order : SetOrder TaskId) (clock : Clock)
  | processDelayedRetries (now : Instant)
  | cancelTaskDetailed (t : TaskId) (reason : Option String)
  | setMaxTerminalTasks (limit : Nat)
  | setMaxTerminalBytes (limit : Nat)
  | evictTerminalTasks (maxRetained : Nat)

namespace TaskQueueInner

/-- The queue an operation leaves. -/
def apply (q : TaskQueueInner) : Op → TaskQueueInner
  | .submitWithPriority task priority clock => (q.submitWithPriority task priority clock).2
  | .trySubmitSlot slot seen clock => (q.trySubmitSlot slot seen clock).2.2
  | .popAndSchedule w predicate now => (q.popAndSchedule w predicate now).2
  | .scheduleTask t w now => (q.scheduleTask t w now).2
  | .scheduleTasksBatch assignments now => (q.scheduleTasksBatch assignments now).2
  | .scheduleTasksBatchInSessions assignments now => (q.scheduleTasksBatchInSessions assignments now).2
  | .requeueTask t => (q.requeueTask t).2
  | .requeueDispatchFailure t w session => (q.requeueDispatchFailure t w session).2
  | .markRunningFrom w session t now => (q.markRunningFrom w session t now).2
  | .recordCheckpoint t c => (q.recordCheckpoint t c).2
  | .recordCheckpointFrom w session t c => (q.recordCheckpointFrom w session t c).2
  | .recordResultFrom w session r clock => (q.recordResultFrom w session r clock).2
  | .failUnsendableAssignment w session r => (q.failUnsendableAssignment w session r).2
  | .handleSessionDisconnected w session reason immediate order clock =>
    (q.handleSessionDisconnected w session reason immediate order clock).2
  | .processDelayedRetries now => (q.processDelayedRetries now).2
  | .cancelTaskDetailed t reason => (q.cancelTaskDetailed t reason).2
  | .setMaxTerminalTasks limit => q.setMaxTerminalTasks limit
  | .setMaxTerminalBytes limit => q.setMaxTerminalBytes limit
  | .evictTerminalTasks maxRetained => (q.evictTerminalTasks maxRetained).2

/-- The queue after a list of operations. -/
def run (q : TaskQueueInner) (ops : List Op) : TaskQueueInner := ops.foldl apply q

end TaskQueueInner

/-- The error in a result, if it is one. -/
def errorOf {α : Type} : Except GridError α → Option GridError
  | .error e => some e
  | .ok _ => none

/-- The error that an operation returns, if it does. -/
def TaskQueueInner.refusal (q : TaskQueueInner) : Op → Option GridError
  | .submitWithPriority task priority clock => errorOf (q.submitWithPriority task priority clock).1
  | .trySubmitSlot slot seen clock => errorOf (q.trySubmitSlot slot seen clock).1
  | .requeueTask t => errorOf (q.requeueTask t).1
  | .requeueDispatchFailure t w session => errorOf (q.requeueDispatchFailure t w session).1
  | .markRunningFrom w session t now => errorOf (q.markRunningFrom w session t now).1
  | .recordCheckpoint t c => errorOf (q.recordCheckpoint t c).1
  | .recordCheckpointFrom w session t c => errorOf (q.recordCheckpointFrom w session t c).1
  | .recordResultFrom w session r clock => errorOf (q.recordResultFrom w session r clock).1
  | .failUnsendableAssignment w session r => errorOf (q.failUnsendableAssignment w session r).1
  | .cancelTaskDetailed t reason => errorOf (q.cancelTaskDetailed t reason).1
  | _ => none

/-- `op` puts task `t` back without charging it. -/
def Op.requeues (t : TaskId) : Op → Bool
  | .requeueTask u | .requeueDispatchFailure u .. => decide (u = t)
  | _ => false

/-- The task that `op` offers to the queue. -/
def Op.submits : Op → Option Task
  | .submitWithPriority task .. => some task
  | .trySubmitSlot slot .. => slot
  | _ => none

/-- The checkpoint that `op` offers for task `t`. -/
def Op.checkpoints (t : TaskId) : Op → Option CheckpointData
  | .recordCheckpoint u c | .recordCheckpointFrom _ _ u c => if u = t then some c else none
  | _ => none

/-- A dispatched task that goes back to the ready queue as it is. -/
def takenBack (e : TaskEntry) : TaskEntry :=
  { e with assignedWorkerId := none, assignedSession := none, state := .queued, scheduledInstant := none }

/-- What a submission was checked against before it was stored. -/
structure Fits (q : TaskQueueInner) (task : Task) : Prop where
  free : q.tasks.get task.id = none
  capacity : ∀ cap, q.capacity = some cap → q.activeCount < cap
  bytes : q.activeBytes + taskActiveBytes task ≤ q.maxActiveBytes

omit [Host] in
theorem capacity_of_no_error (h : q.capacityError = none) : ∀ cap, q.capacity = some cap → q.activeCount < cap := by
  intro cap hcap
  unfold capacityError at h
  rw [hcap] at h
  dsimp only at h
  split at h
  · cases h
  · next hlt => exact Nat.lt_of_not_le hlt

omit [Host] in
theorem bytes_of_no_error {n : Nat} (h : q.byteLimitError n = none) : q.activeBytes + n ≤ q.maxActiveBytes := by
  unfold byteLimitError at h
  split at h
  · cases h
  · next hle => exact Nat.le_of_not_lt hle

/-- The result that `op` reports, with the worker and the session it comes from. -/
def Op.reports : Op → Option (Uuid × Option Nat × TaskResult)
  | .recordResultFrom w session r _ | .failUnsendableAssignment w session r => some (w, session, r)
  | _ => none

/-- The entry with a checkpoint stored. -/
def checkpointed (e : TaskEntry) (c : CheckpointData) : TaskEntry :=
  { e with task := { e.task with latestCheckpoint := some c } }

/-- What a checkpoint was checked against before it was stored. -/
structure Stores (q : TaskQueueInner) (e : TaskEntry) (c : CheckpointData) : Prop where
  unfinished : e.state.isTerminal = false
  newer : isNewerCheckpoint e c
  room : checkpointExceedsActiveCap e c q.activeBytes q.maxActiveBytes = none

namespace TaskQueueInner

/-- The queue with a task accepted under the next sequence number. -/
def acceptNext (q : TaskQueueInner) (task : Task) (priority : Nat) (clock : Clock) : TaskQueueInner :=
  ({ q with nextSequence := q.nextSequence + 1 } : TaskQueueInner).accept task.id
    (TaskEntry.fresh task priority q.nextSequence clock) (taskActiveBytes task)

/-- The queue with a dispatched task back in the ready queue. -/
def putBack (q : TaskQueueInner) (t : TaskId) (e : TaskEntry) : TaskQueueInner :=
  ((q.unassignFrom e.assignedWorkerId t).setEntry t (takenBack e)).insertReady (e.readyKey t)

end TaskQueueInner

/-- A call of `op` ends with this error or none, and leaves this queue. -/
inductive Performs (q : TaskQueueInner) : Op → Option GridError → TaskQueueInner → Prop where
  | error {op : Op} {err : GridError} (unknown : ∀ w session r, op.reports = some (w, session, r) →
      err = .taskNotFound r.taskId.uuid ∧ q.tasks.get r.taskId = none) : Performs q op (some err) q
  | idle {op : Op} (quiet : op.submits = none) : Performs q op none q
  | number {task : Task} {priority : Nat} {clock : Clock} {err : GridError} {n : Nat} (grown : q.nextSequence ≤ n) :
      Performs q (.submitWithPriority task priority clock) (some err) { q with nextSequence := n }
  | submit {task : Task} {priority : Nat} {clock : Clock} (fits : Fits q task) :
      Performs q (.submitWithPriority task priority clock) none (q.acceptNext task priority clock)
  | fill {task : Task} {seen : TaskQueueInner} {clock : Clock} (fits : Fits q task) :
      Performs q (.trySubmitSlot (some task) seen clock) none (q.acceptNext task 0 clock)
  | pop {w : Uuid} {predicate : TaskRequirements → Bool} {now : Instant} {key : QueueOrderKey} {e : TaskEntry}
      (ready : key ∈ q.readyQueue) (get : q.tasks.get key.taskId = some e) (queued : e.state = .queued) :
      Performs q (.popAndSchedule w predicate now) none
        (((q.removeReady key).setEntry key.taskId (scheduledEntry e w none now)).assign w key.taskId)
  | schedule {t : TaskId} {w : Uuid} {now : Instant} {e : TaskEntry} (get : q.tasks.get t = some e)
      (queued : e.state = .queued) : Performs q (.scheduleTask t w now) none (q.scheduleEntry t e w none now)
  | batch {assignments : List (TaskId × Uuid)} {now : Instant} :
      Performs q (.scheduleTasksBatch assignments now) none (q.scheduleTasksBatch assignments now).2
  | batchInSessions {assignments : List (TaskId × Uuid × Nat)} {now : Instant} :
      Performs q (.scheduleTasksBatchInSessions assignments now) none (q.scheduleTasksBatchInSessions assignments now).2
  | requeue {t : TaskId} {e : TaskEntry} (get : q.tasks.get t = some e) (unfinished : e.state.isTerminal = false) :
      Performs q (.requeueTask t) none (q.putBack t e)
  | takeBack {t : TaskId} {w : Uuid} {session : Nat} {e : TaskEntry} (get : q.tasks.get t = some e)
      (scheduled : e.state = .scheduled) : Performs q (.requeueDispatchFailure t w session) none (q.putBack t e)
  | start {w : Uuid} {session : Option Nat} {t : TaskId} {now : Instant} {e : TaskEntry}
      (get : q.tasks.get t = some e) (scheduled : e.state = .scheduled) (owned : ownedBy e w session) :
      Performs q (.markRunningFrom w session t now) none
        (q.setEntry t { e with state := .running, startedInstant := some now })
  | checkpoint {t : TaskId} {c : CheckpointData} {e : TaskEntry} (get : q.tasks.get t = some e)
      (stored : Stores q e c) : Performs q (.recordCheckpoint t c) none
        ((q.setEntry t (checkpointed e c)).updateActiveTask t)
  | checkpointFrom {w : Uuid} {session : Option Nat} {t : TaskId} {c : CheckpointData} {e : TaskEntry}
      (get : q.tasks.get t = some e) (stored : Stores q e c) : Performs q (.recordCheckpointFrom w session t c) none
        ((q.setEntry t (checkpointed e c)).updateActiveTask t)
  -- the two that drop the assignment before they look at the state
  | dropResult {w : Uuid} {session : Option Nat} {r : TaskResult} {clock : Clock} {e : TaskEntry}
      {err : Option GridError} (get : q.tasks.get r.taskId = some e) (owned : ownedBy e w session)
      (inactive : ¬ e.state.isActive) (late : e.state.isTerminal = err.isNone) :
      Performs q (.recordResultFrom w session r clock) err (q.unassign w r.taskId)
  | dropUnsendable {w : Uuid} {session : Option Nat} {r : TaskResult} {e : TaskEntry} {err : Option GridError}
      (get : q.tasks.get r.taskId = some e) (owned : ownedBy e w session) (inactive : ¬ e.state.isActive)
      (late : e.state.isTerminal = err.isNone) :
      Performs q (.failUnsendableAssignment w session r) err (q.unassign w r.taskId)
  | result {w : Uuid} {session : Option Nat} {r : TaskResult} {clock : Clock} {e : TaskEntry} {f : ResultEffect}
      (get : q.tasks.get r.taskId = some e) (owned : ownedBy e w session) (unfinished : e.state.isTerminal = false)
      (effect : applyResult q.retryPolicy e w r clock = some f) : Performs q (.recordResultFrom w session r clock) none
        ((q.unassign w r.taskId).storeEffect r.taskId f)
  | unsendable {w : Uuid} {session : Option Nat} {r : TaskResult} {e : TaskEntry} (get : q.tasks.get r.taskId = some e)
      (owned : ownedBy e w session) (unfinished : e.state.isTerminal = false) :
      Performs q (.failUnsendableAssignment w session r) none (((q.unassign w r.taskId).setEntry r.taskId
        { e with state := .failed, errorMessage := r.error, result := some r }).trackTerminalTask r.taskId)
  | sweep {w : Uuid} {session : Option Nat} {reason : String} {immediate : Bool} {order : SetOrder TaskId}
      {clock : Clock} : Performs q (.handleSessionDisconnected w session reason immediate order clock) none
        (q.handleSessionDisconnected w session reason immediate order clock).2
  | wake {now : Instant} : Performs q (.processDelayedRetries now) none (q.processDelayedRetries now).2
  | cancel {t : TaskId} {reason : Option String} {e : TaskEntry} (get : q.tasks.get t = some e)
      (unfinished : e.state.isTerminal = false) : Performs q (.cancelTaskDetailed t reason) none
        (((q.dropFromIndex t e).setEntry t (cancelledEntry e t reason)).trackTerminalTask t)
  | limitTasks {limit : Nat} : Performs q (.setMaxTerminalTasks limit) none (q.setMaxTerminalTasks limit)
  | limitBytes {limit : Nat} : Performs q (.setMaxTerminalBytes limit) none (q.setMaxTerminalBytes limit)
  | evict {maxRetained : Nat} :
      Performs q (.evictTerminalTasks maxRetained) none (q.evictTerminalTasks maxRetained).2

theorem submitWithPriority_cases (q : TaskQueueInner) (task : Task) (priority : Nat) (clock : Clock) :
    (∃ err n, q.nextSequence ≤ n ∧
      q.submitWithPriority task priority clock = (.error err, { q with nextSequence := n })) ∨
    Fits q task ∧ q.submitWithPriority task priority clock = (.ok task.id, q.acceptNext task priority clock) := by
  unfold submitWithPriority
  split
  · exact .inl ⟨_, _, Nat.le_refl _, rfl⟩
  split
  · exact .inl ⟨_, _, Nat.le_refl _, rfl⟩
  next hnone =>
  split
  · exact .inl ⟨_, _, Nat.le_refl _, rfl⟩
  next hcap =>
  dsimp only
  rw [retainedBytes_fresh]
  split
  · -- the sequence number is gone by then
    exact .inl ⟨_, _, Nat.le_succ _, rfl⟩
  · next hbytes => exact .inr ⟨⟨hnone, capacity_of_no_error hcap, bytes_of_no_error hbytes⟩, rfl⟩

theorem trySubmitSlot_cases (q : TaskQueueInner) (slot : Option Task) (seen : TaskQueueInner) (clock : Clock) :
    (∃ err, q.trySubmitSlot slot seen clock = (.error err, slot, q)) ∨
    ∃ task, slot = some task ∧ Fits q task ∧
      q.trySubmitSlot slot seen clock = (.ok task.id, none, q.acceptNext task 0 clock) := by
  unfold trySubmitSlot
  split
  · exact .inl ⟨_, rfl⟩
  next task =>
  split
  · exact .inl ⟨_, rfl⟩
  dsimp only
  split
  · exact .inl ⟨_, rfl⟩
  split
  · exact .inl ⟨_, rfl⟩
  next hnone =>
  split
  · exact .inl ⟨_, rfl⟩
  next hroom =>
  unfold checkRoom at hroom
  split at hroom
  · cases hroom
  next hcap =>
  split at hroom
  · cases hroom
  · next hbytes =>
    exact .inr ⟨task, rfl, ⟨hnone, capacity_of_no_error hcap, bytes_of_no_error hbytes⟩, rfl⟩

omit [Host] in
theorem popped_queued {predicate : TaskRequirements → Bool} {key : QueueOrderKey}
    (hfind : (q.readyQueue.toList.find? fun k =>
      (q.queuedEntry k.taskId).any fun e => predicate e.task.requirements) = some key)
    (he : q.tasks.get key.taskId = some e) : e.state = .queued := by
  have hkey := List.find?_some hfind
  unfold queuedEntry at hkey
  rw [he] at hkey
  by_contra hne
  simp [Option.filter, hne] at hkey

omit [Host] in
theorem storeCheckpoint_cases (q : TaskQueueInner) (t : TaskId) {e : TaskEntry} (hopen : e.state.isTerminal = false)
    (c : CheckpointData) :
    (∃ r, q.storeCheckpoint t e c = (r, q) ∧ r.toOption ≠ some true) ∨
    Stores q e c ∧
      q.storeCheckpoint t e c = (.ok true, (q.setEntry t (checkpointed e c)).updateActiveTask t) := by
  unfold storeCheckpoint
  split
  · exact .inl ⟨_, rfl, nofun⟩
  next hroom =>
  split
  · next hnewer => exact .inr ⟨⟨hopen, hnewer, hroom⟩, rfl⟩
  · exact .inl ⟨_, rfl, nofun⟩

/-- **What a call does.** -/
theorem apply_performs (q : TaskQueueInner) (op : Op) : Performs q op (q.refusal op) (q.apply op) := by
  have herror : ∀ {op : Op} {err : GridError}, op.reports = none → Performs q op (some err) q := by
    refine fun hreports => .error fun _ _ _ h => ?_
    cases hreports.symm.trans h
  cases op with
  | submitWithPriority task priority clock =>
    dsimp only [refusal, apply]
    rcases submitWithPriority_cases q task priority clock with ⟨err, n, hgrown, hout⟩ | ⟨hfits, hout⟩
    · rw [hout]
      exact .number hgrown
    · rw [hout]
      exact .submit hfits
  | trySubmitSlot slot seen clock =>
    dsimp only [refusal, apply]
    rcases trySubmitSlot_cases q slot seen clock with ⟨err, hout⟩ | ⟨task, hslot, hfits, hout⟩
    · rw [hout]
      exact herror rfl
    · rw [hout]
      subst hslot
      exact .fill hfits
  | popAndSchedule w predicate now =>
    dsimp only [refusal, apply]
    unfold popAndSchedule
    split
    · exact .idle rfl
    next key hfind =>
    have hready : key ∈ q.readyQueue := by simpa using List.mem_of_find?_eq_some hfind
    have hqueued := List.find?_some hfind
    cases hget : q.tasks.get key.taskId with
    | none => simp [queuedEntry, hget] at hqueued
    | some e =>
      have hget' : (q.removeReady key).tasks.get key.taskId = some e := hget
      dsimp only
      rw [hget']
      exact .pop hready hget (popped_queued hfind hget)
  | scheduleTask t w now =>
    dsimp only [refusal, apply]
    unfold scheduleTask
    split
    · exact .idle rfl
    next e hget =>
    split
    · exact .idle rfl
    · next hqueued => exact .schedule hget (not_not.mp hqueued)
  | scheduleTasksBatch => exact .batch
  | scheduleTasksBatchInSessions => exact .batchInSessions
  | requeueTask t =>
    dsimp only [refusal, apply]
    unfold requeueTask
    split
    · exact herror rfl
    next e hget =>
    split
    · exact herror rfl
    · next hterm => exact .requeue hget (by simpa using hterm)
  | requeueDispatchFailure t w session =>
    dsimp only [refusal, apply]
    unfold requeueDispatchFailure
    split
    · exact herror rfl
    next e hget =>
    split
    · exact .idle rfl
    · next hguard =>
      rw [not_or, not_not] at hguard
      have hw : e.assignedWorkerId = some w := ownedBy_worker (by simpa using hguard.2)
      have htake : Performs q (.requeueDispatchFailure t w session) none _ := .takeBack hget hguard.1
      unfold putBack at htake
      rw [hw] at htake
      dsimp only
      rw [unassign_setEntry]
      exact htake
  | markRunningFrom w session t now =>
    dsimp only [refusal, apply]
    unfold markRunningFrom
    split
    · exact herror rfl
    next e hget =>
    split
    · exact herror rfl
    next howned =>
    split
    · exact herror rfl
    · next hcan =>
      -- only a scheduled task may start running
      refine .start hget ?_ (by simpa using howned)
      cases hs : e.state <;> simp [hs, TaskState.canTransitionTo] at hcan ⊢
  | recordCheckpoint t c =>
    dsimp only [refusal, apply]
    unfold recordCheckpoint
    split
    · exact herror rfl
    next e hget =>
    split
    · exact .idle rfl
    · next hterm =>
      rcases storeCheckpoint_cases q t (by simpa using hterm) c with ⟨r, hout, -⟩ | ⟨hstored, hout⟩
      · rw [hout]
        cases r with
        | error err => exact herror rfl
        | ok => exact .idle rfl
      · rw [hout]
        exact .checkpoint hget hstored
  | recordCheckpointFrom w session t c =>
    dsimp only [refusal, apply]
    unfold recordCheckpointFrom
    split
    · exact herror rfl
    next e hget =>
    split
    · exact .idle rfl
    · next hguard =>
      have hact : e.state.isActive := by
        by_contra hact
        simp [hact] at hguard
      rcases storeCheckpoint_cases q t (not_terminal_of_active hact) c with ⟨r, hout, -⟩ | ⟨hstored, hout⟩
      · rw [hout]
        cases r with
        | error err => exact herror rfl
        | ok => exact .idle rfl
      · rw [hout]
        exact .checkpointFrom hget hstored
  | recordResultFrom w session r clock =>
    dsimp only [refusal, apply]
    unfold recordResultFrom
    split
    · next hnone =>
      refine .error ?_
      rintro _ _ _ ⟨⟩
      exact ⟨rfl, hnone⟩
    next e hget =>
    split
    · exact .idle rfl
    next howned =>
    have hown : ownedBy e w session := by simpa using howned
    dsimp only
    split
    · next hterm => exact .dropResult hget hown (fun hact => by simp [not_terminal_of_active hact] at hterm) hterm
    next hterm =>
    rw [Bool.not_eq_true] at hterm
    rw [unassign_retryPolicy]
    split
    · next hnone => exact .dropResult hget hown (fun hact => applyResult_of_active hact w r clock hnone) hterm
    · next f hf => exact .result hget hown hterm hf
  | failUnsendableAssignment w session r =>
    dsimp only [refusal, apply]
    unfold failUnsendableAssignment
    split
    · next hnone =>
      refine .error ?_
      rintro _ _ _ ⟨⟩
      exact ⟨rfl, hnone⟩
    next e hget =>
    split
    · exact .idle rfl
    next howned =>
    have hown : ownedBy e w session := by simpa using howned
    dsimp only
    split
    · next hterm => exact .dropUnsendable hget hown (fun hact => by simp [not_terminal_of_active hact] at hterm) hterm
    next hterm =>
    rw [Bool.not_eq_true] at hterm
    split
    · next hcannot => exact .dropUnsendable hget hown (fun hact => by simp [active_to_failed hact] at hcannot) hterm
    · exact .unsendable hget hown hterm
  | handleSessionDisconnected => exact .sweep
  | processDelayedRetries => exact .wake
  | cancelTaskDetailed t reason =>
    dsimp only [refusal, apply]
    unfold cancelTaskDetailed
    split
    · exact herror rfl
    next e hget =>
    split
    · exact .idle rfl
    · next hterm => exact .cancel hget (by simpa using hterm)
  | setMaxTerminalTasks => exact .limitTasks
  | setMaxTerminalBytes => exact .limitBytes
  | evictTerminalTasks => exact .evict

end OxideSwarm
