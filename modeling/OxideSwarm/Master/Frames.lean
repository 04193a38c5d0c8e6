import OxideSwarm.Master.Exec
import OxideSwarm.Registry.Tended

/-!
# What a section can change

A section holds one lock, so it changes at most one of the four shared structures (`Section.changes`,
`exec_same`).  `QueueStep` says what a section can do to
the tasks of the queue: accept a task, assign the tasks of a pass, start a scheduled one, or settle.
-/

namespace OxideSwarm

variable [Host]

/-- The four structures behind a lock. -/
inductive Part where
  | registry
  | queue
  | waiters
  | store
deriving DecidableEq, Repr

omit [Host] in
/-- The structure a section may change. -/
def Section.changes : Section → Option Part
  | .registry _ | .unregister .. | .reapWrite _ | .giveBack _ | .reserve _ | .release _ | .rollback _ =>
    some .registry
  | .progress .. | .checkpoint .. | .sweep .. | .record .. | .oversized .. | .cancel .. | .submit ..
  | .retries _ | .commit _ | .requeue _ | .evictTasks _ => some .queue
  | .wake .. | .enrol _ | .pruneWaiters _ | .waitLock _ | .waitRecheck _ | .waitPush _ => some .waiters
  | .pinOutputs .. | .store _ | .pin .. => some .store
  | _ => none

namespace MasterState

/-! ## Frames -/

section Frames

variable (c : Choice) (k : Owner) (a : Section) (s : MasterState)

/-- The parts of the state that stay the same. -/
structure Same (s s' : MasterState) (x : Option Part) : Prop where
  registry : x ≠ some .registry → s'.registry = s.registry ∧ s'.aborting = s.aborting
  queue : x ≠ some .queue → s'.queue = s.queue ∧ s'.recorded = s.recorded ∧ s'.accepted = s.accepted
  waiters : x ≠ some .waiters → s'.waiters = s.waiters ∧ s'.waitersHeld = s.waitersHeld ∧
    s'.nextWaiter = s.nextWaiter ∧ s'.sent = s.sent
  store : x ≠ some .store → s'.store = s.store
  config : s'.config = s.config
  closed : s.closed ⊆ s'.closed

section

omit [Host]

theorem Same.refl (x : Option Part) : Same s s x :=
  ⟨fun _ => ⟨rfl, rfl⟩, fun _ => ⟨rfl, rfl, rfl⟩, fun _ => ⟨rfl, rfl, rfl, rfl⟩,
   fun _ => rfl, rfl, Finset.Subset.refl _⟩

theorem same_registry {s s' : MasterState} (r : WorkerRegistryInner) (aborting : Finset Nat)
    (handed : List Assignment)
    (h : s' = { s with registry := r, aborting := aborting, handed := handed }) :
    Same s s' (some .registry) := by
  subst h
  exact ⟨fun h => absurd rfl h, fun _ => ⟨rfl, rfl, rfl⟩, fun _ => ⟨rfl, rfl, rfl, rfl⟩,
    fun _ => rfl, rfl, Finset.Subset.refl _⟩

theorem same_queue {s s' : MasterState} (q : TaskQueueInner) (recorded : FMap TaskId TaskResult)
    (accepted : FMap TaskId (List BlobId)) (closed : Finset WaiterId) (events : List Event) (h : s' = { s with
      queue := q, recorded := recorded, accepted := accepted, closed := closed, events := events })
    (hclosed : s.closed ⊆ closed) : Same s s' (some .queue) := by
  subst h
  exact ⟨fun _ => ⟨rfl, rfl⟩, fun h => absurd rfl h, fun _ => ⟨rfl, rfl, rfl, rfl⟩,
    fun _ => rfl, rfl, hclosed⟩

theorem same_waiters {s s' : MasterState} (waiters : FMap TaskId (List WaiterId)) (held : Bool)
    (next : WaiterId) (sent : List Delivery)
    (h : s' = { s with waiters := waiters, waitersHeld := held, nextWaiter := next, sent := sent }) :
    Same s s' (some .waiters) := by
  subst h
  exact ⟨fun _ => ⟨rfl, rfl⟩, fun _ => ⟨rfl, rfl, rfl⟩, fun h => absurd rfl h, fun _ => rfl, rfl, Finset.Subset.refl _⟩

theorem same_store (b : BlobInner) : Same s (s.withStore b) (some .store) :=
  ⟨fun _ => ⟨rfl, rfl⟩, fun _ => ⟨rfl, rfl, rfl⟩, fun _ => ⟨rfl, rfl, rfl, rfl⟩,
   fun h => absurd rfl h, rfl, Finset.Subset.refl _⟩

theorem same_private {s s' : MasterState} (gpuDemand : GpuDemand) (rrCursor : Nat)
    (outbox handed : List Assignment) (hungUp : Finset Nat) (closed : Finset WaiterId) (events : List Event)
    (h : s' = { s with
      gpuDemand := gpuDemand, rrCursor := rrCursor, outbox := outbox, handed := handed, hungUp := hungUp,
      closed := closed, events := events })
    (hclosed : s.closed ⊆ closed) : Same s s' none := by
  subst h
  exact ⟨fun _ => ⟨rfl, rfl⟩, fun _ => ⟨rfl, rfl, rfl⟩, fun _ => ⟨rfl, rfl, rfl, rfl⟩,
    fun _ => rfl, rfl, hclosed⟩

theorem serve_shared (w : Uuid) (session : Nat) : (s.serve c w session).shared = s := by
  unfold serve
  split <;> rfl

theorem resolve_shared (t : TaskId) (fallback : Option Uuid) : (s.resolve t fallback).shared = s := by
  unfold resolve
  split <;> rfl

end

theorem admitBlobTask_shared (task : Task) (wait : Bool) : (s.admitBlobTask c task wait).shared = s := by
  unfold admitBlobTask
  split
  · rfl
  · split
    · rfl
    · split <;> rfl

/-- **One lock.**  A section leaves all structures but one alone. -/
theorem exec_same : Same s (exec c k a s).shared a.changes := by
  cases a with
  | registry | unregister | reapWrite | giveBack | reserve | release | rollback => exact same_registry _ _ _ rfl
  | spawnSweep | ack | reapScan | resolveResult | sendToWorker | known | waitKnown | waitCheck | workers | loads
  | channel | pinned | sweepPin => exact .refl s _
  | serve w session =>
    show Same s (s.serve c w session).shared none
    rw [serve_shared]
    exact .refl s _
  | progress | checkpoint | sweep | record | oversized | retries | commit | requeue | evictTasks =>
    exact same_queue _ _ _ _ _ rfl (Finset.Subset.refl _)
  | hangUp | sendCancel | demand => exact same_private _ _ _ _ _ _ _ rfl (Finset.Subset.refl _)
  | resolve t fallback =>
    show Same s (s.resolve t fallback).shared none
    rw [resolve_shared]
    exact .refl s _
  | wake t r =>
    show Same s (s.wake t r).shared (some .waiters)
    unfold wake
    split
    · exact .refl s _
    · exact same_waiters _ _ _ _ rfl
  | pinOutputs w session r =>
    show Same s (s.pinOutputs w session r).shared (some .store)
    unfold pinOutputs
    split
    · exact .refl s _
    · dsimp only
      split <;> exact same_store s _
  | store | pin => exact same_store s _
  | cancel t reason =>
    show Same s (s.cancel t reason).shared (some .queue)
    unfold cancel
    dsimp only
    split
    · split <;> exact same_queue _ _ _ _ _ rfl (Finset.Subset.refl _)
    · exact same_queue _ _ _ _ _ rfl (Finset.Subset.refl _)
  | admitBlobTask task wait =>
    show Same s (s.admitBlobTask c task wait).shared none
    rw [admitBlobTask_shared]
    exact .refl s _
  | enrol sub =>
    show Same s (s.enrol sub).shared (some .waiters)
    unfold enrol
    split
    · exact .refl s _
    · exact same_waiters _ _ _ _ rfl
  | submit sub waiter =>
    show Same s (s.submit c sub waiter).shared (some .queue)
    unfold submit
    dsimp only
    split
    · exact same_queue _ _ _ _ _ rfl (Finset.Subset.refl _)
    · exact same_queue _ _ _ _ _ rfl Finset.subset_union_left
  | pruneWaiters t =>
    show Same s (s.pruneWaiters t).shared (some .waiters)
    unfold pruneWaiters
    split
    · exact .refl s _
    · split
      · exact .refl s _
      · exact same_waiters _ _ _ _ rfl
  | await t waiter prune =>
    show Same s (s.await c t waiter prune).shared none
    unfold await
    split
    · exact .refl s _
    · exact same_private _ _ _ _ _ _ _ rfl (Finset.subset_insert _ _)
  | waitLock t =>
    simp only [exec]
    split
    · exact .refl s _
    · exact same_waiters _ _ _ _ rfl
  | waitRecheck t =>
    show Same s (s.waitRecheck t).shared (some .waiters)
    unfold waitRecheck
    split
    · exact same_waiters _ _ _ _ rfl
    · exact .refl s _
  | waitPush t => exact same_waiters _ _ _ _ rfl
  | page p =>
    show Same s (s.page c p).shared none
    unfold page
    dsimp only
    split <;> split <;> exact same_private _ _ _ _ _ _ _ rfl (Finset.Subset.refl _)
  | deliver a =>
    show Same s (s.deliver a).shared none
    unfold deliver
    dsimp only
    split
    · exact same_private _ _ _ _ _ _ _ rfl (Finset.Subset.refl _)
    · exact .refl s _

end Frames

/-! ## What a section does to the tasks -/

/-- The tasks a section finishes. -/
def finishes (c : Choice) (s : MasterState) : Section → Set TaskId
  | .record w session r _ => {u | u = r.taskId ∧
      ResultOutcome.finished (s.queue.recordResultFrom w (some session) r c.clock).1 = true}
  | .oversized a size => {u | u = a.taskId ∧
      (s.queue.failUnsendableAssignment a.workerId (some a.sessionId) (oversizedResult a size)).1 =
        .ok .terminal}
  | .cancel t reason => {u | u = t ∧ ∃ o, (s.queue.cancelTaskDetailed t (some reason)).1 = .ok o ∧
      o.newlyCancelled = true}
  | .sweep w session reason immediate => {u | u ∈ (s.queue.handleSessionDisconnected w (some session) reason
      immediate c.taskOrder c.clock).1}
  | _ => ∅

/-- What a section does to the tasks of the queue. -/
inductive QueueStep (c : Choice) (s : MasterState) (q' : TaskQueueInner) : Section → Prop where
  | accept {sub : Submission} {waiter : Option WaiterId} {sequence : Nat}
      (ok : (s.queue.submitWithPriority sub.task 0 c.clock).1 = .ok sub.task.id)
      (free : s.queue.tasks.get sub.task.id = none)
      (entered : q'.tasks = s.queue.tasks.set sub.task.id (TaskEntry.fresh sub.task 0 sequence c.clock)) :
      QueueStep c s q' (.submit sub waiter)
  | assign {n : Nat} {p : Pass n}
      (batch : q' = (s.queue.scheduleTasksBatchInSessions p.triples c.clock.instant).2) :
      QueueStep c s q' (.commit p)
  | start {w : Uuid} {session : Nat} {t : TaskId} {e : TaskEntry} (get : s.queue.tasks.get t = some e)
      (scheduled : e.state = .scheduled) (owned : ownedBy e w (some session) = true)
      (started : q'.tasks = s.queue.tasks.set t
        { e with state := .running, startedInstant := some c.clock.instant }) :
      QueueStep c s q' (.progress w session t)
  | settle {a : Section} (settles : Settles s.queue q' (finishes c s a)) : QueueStep c s q' a

section

variable (c : Choice) (k : Owner) (s : MasterState)

theorem submit_cases (sub : Submission) (waiter : Option WaiterId) :
    ((∃ err, (s.queue.submitWithPriority sub.task 0 c.clock).1 = .error err) ∧
      (s.queue.submitWithPriority sub.task 0 c.clock).2.tasks = s.queue.tasks ∧ s.submit c sub waiter = next { s with
          queue := (s.queue.submitWithPriority sub.task 0 c.clock).2
          closed := s.closed ∪ waiter.toFinset }
        (.pruneWaiters sub.task.id :: if sub.known then [] else [.store (.unpin sub.task.id)])) ∨
    ((s.queue.submitWithPriority sub.task 0 c.clock).1 = .ok sub.task.id ∧
      s.queue.tasks.get sub.task.id = none ∧
      (∃ sequence, (s.queue.submitWithPriority sub.task 0 c.clock).2.tasks =
        s.queue.tasks.set sub.task.id (TaskEntry.fresh sub.task 0 sequence c.clock)) ∧
      s.submit c sub waiter = next { s with
          queue := (s.queue.submitWithPriority sub.task 0 c.clock).2
          recorded := s.recorded.del sub.task.id
          accepted := s.accepted.set sub.task.id sub.ids
          events := s.events ++ [.accepted sub.task.id] }
        (waiter.map fun k => .await sub.task.id k false).toList) := by
  unfold submit
  generalize hout : s.queue.submitWithPriority sub.task 0 c.clock = out
  obtain ⟨r, q'⟩ := out
  rcases submitWithPriority_entries hout with ⟨⟨err, rfl⟩, htasks⟩ | ⟨rfl, hfree, hentered⟩
  · exact .inl ⟨⟨err, rfl⟩, htasks, rfl⟩
  · exact .inr ⟨rfl, hfree, hentered, rfl⟩

theorem submit_queueStep (sub : Submission) (waiter : Option WaiterId) :
    QueueStep c s (s.submit c sub waiter).shared.queue (.submit sub waiter) := by
  rcases submit_cases c s sub waiter with ⟨-, htasks, heq⟩ | ⟨hok, hfree, ⟨sequence, htasks⟩, heq⟩
  · rw [heq]
    exact .settle (Settles.of_tasks htasks)
  · rw [heq]
    exact .accept hok hfree htasks

omit [Host] in
theorem cancel_queue (t : TaskId) (reason : String) :
    (s.cancel t reason).shared.queue = (s.queue.cancelTaskDetailed t (some reason)).2 := by
  unfold cancel
  dsimp only
  split
  · split <;> rfl
  · rfl

theorem cancel_queueStep (t : TaskId) (reason : String) :
    QueueStep c s (s.cancel t reason).shared.queue (.cancel t reason) := by
  rw [cancel_queue]
  generalize hout : s.queue.cancelTaskDetailed t (some reason) = out
  obtain ⟨r, q'⟩ := out
  rcases cancelTaskDetailed_entries hout with ⟨hq, -⟩ | ⟨hsettles, -, o, hok, hnew, -, -⟩
  · exact .settle (Settles.of_tasks (congrArg TaskQueueInner.tasks hq))
  · refine .settle (hsettles.mono ?_)
    rintro u ⟨⟩
    exact ⟨rfl, o, by rw [hout]; exact hok, hnew⟩

/-- **Tasks.**  Every section is one of the four. -/
theorem exec_queueStep (a : Section) : QueueStep c s (exec c k a s).shared.queue a := by
  by_cases hchanges : a.changes = some .queue
  · cases a with
    | progress w session t =>
      rcases markRunningFrom_entries s.queue w (some session) t c.clock.instant with
        hsame | ⟨e, he, hscheduled, howned, hstarted⟩
      · exact .settle (Settles.of_tasks (congrArg TaskQueueInner.tasks hsame))
      · exact .start he hscheduled howned hstarted
    | checkpoint w session t cp => exact .settle (recordCheckpointFrom_settles ..)
    | sweep w session reason immediate => exact .settle (handleSessionDisconnected_settles ..)
    | record w session r pin => exact .settle (recordResultFrom_settles ..)
    | oversized a size => exact .settle (failUnsendableAssignment_settles ..)
    | cancel t reason => exact cancel_queueStep c s t reason
    | submit sub waiter => exact submit_queueStep c s sub waiter
    | retries maxBatchSize => exact .settle (processDelayedRetries_settles ..)
    | commit p => exact .assign rfl
    | requeue a => exact .settle (requeueDispatchFailure_settles ..)
    | evictTasks maxRetained => exact .settle (evictTerminalTasks_settles ..)
    | _ => cases hchanges
  · rw [((exec_same c k a s).queue hchanges).1]
    exact .settle (Settles.of_tasks rfl)

/-- What a section does to the entry of `t`. -/
inductive EntryStep (c : Choice) (s : MasterState) (a : Section) (t : TaskId) :
    Option TaskEntry → Option TaskEntry → Prop where
  | same {o : Option TaskEntry} : EntryStep c s a t o o
  | accept {sub : Submission} {waiter : Option WaiterId} {sequence : Nat} (runs : a = .submit sub waiter)
      (id : t = sub.task.id) (ok : (s.queue.submitWithPriority sub.task 0 c.clock).1 = .ok sub.task.id) :
      EntryStep c s a t none (some (TaskEntry.fresh sub.task 0 sequence c.clock))
  | assign {e : TaskEntry} {w : Uuid} {session : Option Nat} (queued : e.state = .queued) :
      EntryStep c s a t (some e) (some (TaskQueueInner.scheduledEntry e w session c.clock.instant))
  | start {e : TaskEntry} (scheduled : e.state = .scheduled) :
      EntryStep c s a t (some e) (some { e with state := .running, startedInstant := some c.clock.instant })
  | settle {e e' : TaskEntry} (kept : Kept e e') (unfinished : t ∉ finishes c s a → e.state.isTerminal = false →
      e'.state.isTerminal = false) : EntryStep c s a t (some e) (some e')
  | evict {e : TaskEntry} (finished : t ∉ finishes c s a → e.state.isTerminal = true) : EntryStep c s a t (some e) none

variable {c s} in
theorem QueueStep.entry {q' : TaskQueueInner} {a : Section} (h : QueueStep c s q' a) (t : TaskId) :
    EntryStep c s a t (s.queue.tasks.get t) (q'.tasks.get t) := by
  cases h with
  | accept ok free entered =>
    rw [entered, FMap.get_set]
    split
    · next hid =>
      subst hid
      rw [free]
      exact .accept rfl rfl ok
    · exact .same
  | assign batch =>
    subst batch
    unfold TaskQueueInner.scheduleTasksBatchInSessions
    rcases scheduleBatchInner_entries c.clock.instant _ s.queue t with hsame | ⟨e, w, session, -, he, hqueued, hnew⟩
    · rw [hsame]
      exact .same
    · rw [he, hnew]
      exact .assign hqueued
  | start get scheduled owned started =>
    rw [started, FMap.get_set]
    split
    · next hid =>
      subst hid
      rw [get]
      exact .start scheduled
    · exact .same
  | settle settles =>
    cases he : s.queue.tasks.get t with
    | none =>
      rw [settles.absent t he]
      exact .same
    | some e =>
      cases he' : q'.tasks.get t with
      | none =>
        refine .evict fun hfin => ?_
        by_contra hopen
        obtain ⟨e', hsome, -⟩ := settles.unfinished t e hfin he (Bool.eq_false_iff.mpr hopen)
        cases he'.symm.trans hsome
      | some e' =>
        refine .settle (settles.kept t e e' he he') fun hfin hopen => ?_
        obtain ⟨e1, he1, hopen1⟩ := settles.unfinished t e hfin he hopen
        cases he'.symm.trans he1
        exact hopen1

end

/-! ## What a section does to the workers -/

/-- The sessions a section disconnects. -/
def disconnects (c : Choice) (k : Owner) (s : MasterState) : Section → Set (Uuid × Nat)
  | .unregister w n _ _ => {x | x = (w, n) ∧ (s.registry.unregister w (some n) k.conn).1.1 = true}
  | .reapWrite candidates => {x | x ∈ (s.registry.reapStaleSessions c.clock.instant s.config.reapTimeout
      k.conn candidates).1.1}
  | _ => ∅

section

open WorkerRegistryInner

variable (c : Choice) (k : Owner) (s : MasterState)

omit [Host] in
theorem registryOp_tended {D : Set (Uuid × Nat)} (op : RegistryOp) :
    Tended s.registry (op.apply c s.config s.registry) D := by
  cases op with
  | setRxClock w n => exact setRxClock_tended ..
  | heartbeat w n active cpu ram => exact recordHeartbeatSession_tended ..
  | telemetry w n status => exact updateMobileTelemetry_tended ..
  | prune =>
    unfold RegistryOp.apply
    dsimp only
    split
    · exact pruneStaleWorkers_tended ..
    · exact .refl _
  | rejection w n => exact recordRejection_tended ..
  | clearRejections w => exact clearRejections_tended ..

omit [Host] in
theorem unregister_tended (w : Uuid) (n : Nat) (reason : String) (immediate : Bool) :
    Tended s.registry (s.registry.unregister w (some n) k.conn).2
      (disconnects c k s (.unregister w n reason immediate)) := by
  rcases unregister_cases s.registry w n k.conn with heq | ⟨e, he, hn, -, heq⟩
  · rw [heq]
    exact .refl _
  · rw [heq]
    refine tended_disconnect he ⟨by rw [hn], ?_⟩
    rw [heq]

/-- **Workers.**  No section registers a worker, and each says which sessions it disconnects. -/
theorem exec_tended (a : Section) : Tended s.registry (exec c k a s).shared.registry (disconnects c k s a) := by
  by_cases hchanges : a.changes = some .registry
  · cases a with
    | registry op => exact registryOp_tended c s op
    | unregister w n reason immediate => exact unregister_tended c k s w n reason immediate
    | reapWrite candidates => exact reapStaleSessions_tended ..
    | giveBack | rollback => exact decrementActiveTasks_tended ..
    | reserve a => exact reserveDispatch_tended ..
    | release a => exact releaseDispatch_tended ..
    | _ => cases hchanges
  · rw [((exec_same c k a s).registry hchanges).1]
    exact .refl _

/-- A section requests the abort of a connection task only when it disconnects its session. -/
theorem exec_aborting (a : Section) {h : Nat} (hmem : h ∈ (exec c k a s).shared.aborting) :
    h ∈ s.aborting ∨ ∃ w e, s.registry.workers.get w = some e ∧ e.abortHandle = some h ∧
      (w, e.sessionId) ∈ disconnects c k s a := by
  by_cases hchanges : a.changes = some .registry
  · cases a with
    | unregister w n reason immediate =>
      rcases Finset.mem_union.mp hmem with hold | hnew
      · exact .inl hold
      rcases unregister_cases s.registry w n k.conn with heq | ⟨e, he, hn, -, heq⟩
      · rw [heq] at hnew
        cases Option.mem_toFinset.mp hnew
      rw [heq, Option.mem_toFinset] at hnew
      refine .inr ⟨w, e, he, ?_, by rw [hn], by rw [heq]⟩
      dsimp only [abortUnlessCurrent] at hnew
      split at hnew
      · cases hnew
      · exact hnew
    | reapWrite candidates =>
      rcases Finset.mem_union.mp hmem with hold | hnew
      · exact .inl hold
      · exact .inr (reapStaleSessions_aborted _ _ _ candidates s.registry h (List.mem_toFinset.mp hnew))
    | registry | giveBack | reserve | release | rollback => exact .inl hmem
    | _ => cases hchanges
  · rw [((exec_same c k a s).registry hchanges).2] at hmem
    exact .inl hmem

theorem disconnects_sweep {a : Section} {w : Uuid} {n : Nat} (h : (w, n) ∈ disconnects c k s a) :
    ∃ reason immediate, .sweep w n reason immediate ∈ (exec c k a s).code := by
  cases a with
  | unregister u l reason immediate =>
    obtain ⟨heq, hgone⟩ := h
    cases heq
    refine ⟨reason, immediate, ?_⟩
    simp only [exec, unregister, next, hgone, if_true]
    exact List.mem_cons_self
  | reapWrite candidates =>
    exact ⟨_, _, List.mem_cons_of_mem _ (List.mem_map_of_mem h)⟩
  | _ => cases h

end

end MasterState

end OxideSwarm
