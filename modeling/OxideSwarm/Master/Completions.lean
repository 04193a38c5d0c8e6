import OxideSwarm.Master.MapReduce
import OxideSwarm.Master.Status
import OxideSwarm.Queue.Retention
import OxideSwarm.Queue.Room

/-!
# A result with exit code 0 and the state its task ended in

The waiters of a task are given a result and no state.  `Vouched m log t` says that whatever the master has
recorded for `t`, is about to send or has sent to its waiters with exit code 0 is in `log`, the results with
which the queue completed tasks.  A step of the master keeps it (`Vouched.step`), provided that a result with
exit code 0 that the step records for `t` carries no error; the results that the master makes up itself have
other exit codes.

`SenderOf s k t` is what makes `k` a sender of task `t` alone.
-/

namespace OxideSwarm

open TaskQueueInner MasterState

variable [Host]

/-! ## Sections and operations of the queue -/

/-- The operation of the queue that a section performs. -/
def Section.queueOp (c : Choice) : Section → Option Op
  | .progress w n t => some (.markRunningFrom w (some n) t c.clock.instant)
  | .checkpoint w n t cp => some (.recordCheckpointFrom w (some n) t cp)
  | .sweep w n reason immediate => some (.handleSessionDisconnected w (some n) reason immediate c.taskOrder c.clock)
  | .record w n r _ => some (.recordResultFrom w (some n) r c.clock)
  | .oversized a size => some (.failUnsendableAssignment a.workerId (some a.sessionId) (oversizedResult a size))
  | .cancel t reason => some (.cancelTaskDetailed t (some reason))
  | .submit sub _ => some (.submitWithPriority sub.task 0 c.clock)
  | .retries _ => some (.processDelayedRetries c.clock.instant)
  | .commit p => some (.scheduleTasksBatchInSessions p.triples c.clock.instant)
  | .requeue a => some (.requeueDispatchFailure a.taskId a.workerId a.sessionId)
  | .evictTasks maxRetained => some (.evictTerminalTasks maxRetained)
  | _ => none

theorem exec_queueOp (c : Choice) (k : Owner) (a : Section) (s : MasterState) :
    (exec c k a s).shared.queue = (a.queueOp c).elim s.queue s.queue.apply := by
  by_cases hchanges : a.changes = some .queue
  · cases a with
    | cancel t reason =>
      show (s.cancel t reason).shared.queue = (s.queue.cancelTaskDetailed t (some reason)).2
      unfold cancel
      dsimp only
      split
      · split <;> rfl
      · rfl
    | submit sub waiter =>
      show (s.submit c sub waiter).shared.queue = (s.queue.submitWithPriority sub.task 0 c.clock).2
      unfold submit
      dsimp only
      split <;> rfl
    | progress | checkpoint | sweep | record | oversized | retries | commit | requeue | evictTasks => rfl
    | _ => cases hchanges
  rw [((exec_same c k a s).queue hchanges).1]
  cases a with
  | progress | checkpoint | sweep | record | oversized | cancel | submit | retries | commit | requeue
  | evictTasks => exact absurd rfl hchanges
  | _ => rfl

theorem exec_coherent {s : MasterState} (h : Coherent s.queue) (c : Choice) (k : Owner) (a : Section) :
    Coherent (exec c k a s).shared.queue := by
  rw [exec_queueOp]
  cases a.queueOp c with
  | none => exact h
  | some op => exact (apply_evolves h op).coherent h

theorem Master.coherent_step {m : Master} (h : Coherent m.shared.queue) (l : Label) :
    Coherent (m.step l).shared.queue := by
  rcases m.step_shared l with ⟨c, k, a, -, hfires⟩ | ⟨_, _, _, _, -, hs⟩ | ⟨_, _, hs⟩
  · rw [hfires.shared]
    exact exec_coherent h c k a
  · rw [hs]
    exact h
  · rw [hs]
    exact h

theorem Master.queue_step (m : Master) (l : Label) :
    ∃ ops, (m.step l).shared.queue = m.shared.queue.run ops ∧ ops.length ≤ 1 := by
  rcases m.step_shared l with ⟨c, k, a, -, hfires⟩ | ⟨_, _, _, _, -, hs⟩ | ⟨_, _, hs⟩
  · rw [hfires.shared, exec_queueOp]
    cases a.queueOp c with
    | none => exact ⟨[], rfl, Nat.zero_le _⟩
    | some op => exact ⟨[op], rfl, Nat.le_refl _⟩
  · rw [hs]
    exact ⟨[], rfl, Nat.zero_le _⟩
  · rw [hs]
    exact ⟨[], rfl, Nat.zero_le _⟩

theorem Master.queue_run (labels : List Label) : ∀ m : Master,
    ∃ ops, (runFrom Master.step m labels).shared.queue = m.shared.queue.run ops ∧ ops.length ≤ labels.length := by
  induction labels with
  | nil => exact fun m => ⟨[], rfl, Nat.le_refl _⟩
  | cons l rest ih =>
    intro m
    obtain ⟨first, hfirst, hone⟩ := m.queue_step l
    obtain ⟨later, hlater, hle⟩ := ih (m.step l)
    refine ⟨first ++ later, ?_, ?_⟩
    · rw [TaskQueueInner.run, List.foldl_append]
      exact hlater.trans (congrArg (TaskQueueInner.run · later) hfirst)
    · rw [List.length_append, List.length_cons]
      omega

/-- **The master drives the queue through its operations only.**  However the sections of its connections, its
scheduler, its reaper and its sweepers interleave, whatever the workers send and whichever tasks are cancelled, the
queue is one that a sequence of public operations leaves, at most one for each step: its indexes are coherent, its
books exact, and the capacity and both retention limits hold at every moment. -/
theorem master_refines_queue (c : QueueConfig) (s : MasterState) (threads : List MasterTask) (labels : List Label) :
    let q := (runFrom Master.step ⟨{ s with queue := c.start }, threads⟩ labels).shared.queue
    (∃ ops, q = c.start.run ops ∧ ops.length ≤ labels.length) ∧ Coherent q ∧ Booked q ∧ WithinLimits q ∧
      ∀ cap, c.capacity = some cap → q.activeCount ≤ cap := by
  intro q
  obtain ⟨ops, hq, hle⟩ := Master.queue_run labels ⟨{ s with queue := c.start }, threads⟩
  have hrun : q = c.start.run ops := hq
  have hstart := start_coherent c
  refine ⟨⟨ops, hrun, hle⟩, ?_⟩
  rw [hrun]
  exact ⟨run_coherent ops _ hstart, (run_booked ops _ hstart (start_booked c)).1,
    run_within ops _ hstart (start_within c), fun cap hcap =>
    run_activeCount ops _ hstart (start_booked c) hcap (Nat.zero_le _)⟩

/-! ## The results that finish a task -/

variable {r : TaskResult} {w : Uuid}

section

variable {q : TaskQueueInner} {t : TaskId}

theorem recordResultFrom_completed {session : Option Nat} {clock : Clock}
    {o : ResultOutcome} (ho : (q.recordResultFrom w session r clock).1 = .ok o) (hterm : o.disposition = .terminal)
    (hsuccess : r.isSuccess = true) : o.state = .completed := by
  unfold recordResultFrom at ho
  split at ho
  next => cases ho
  next e he =>
    split at ho
    next =>
      cases ho
      cases hterm
    next =>
      dsimp only at ho
      split at ho
      next =>
        cases ho
        cases hterm
      next =>
        unfold applyResult at ho
        rw [if_pos hsuccess] at ho
        split at ho
        next => cases ho
        next f hf =>
          split at hf
          next => cases hf
          next =>
            cases hf
            cases ho
            rfl

omit [Host] in
theorem cancelTaskDetailed_exitCode (hq : Coherent q) {reason : Option String} {o : CancelOutcome}
    (ho : (q.cancelTaskDetailed t reason).1 = .ok o) (hnew : o.newlyCancelled = true) (hr : o.result = some r) :
    r.exitCode = 130 := by
  unfold cancelTaskDetailed at ho
  split at ho
  next => cases ho
  next e he =>
    split at ho
    next =>
      cases ho
      cases hnew
    next hopen =>
      have hnone := (hq.entries t e he).result_none (by simpa using hopen)
      cases ho
      unfold cancelledEntry at hr
      rw [hnone] at hr
      cases hr
      rfl

theorem sweptResults_exitCode {n : Option Nat} {reason : String} {immediate : Bool}
    {order : SetOrder TaskId} {clock : Clock}
    (h : (t, r) ∈ sweptResults q w n reason immediate order clock) : r.exitCode = 1 := by
  obtain ⟨hfate, hresult⟩ := mem_sweptResults.1 h
  obtain ⟨hswept, -⟩ := sweepTasks_swept w n reason immediate clock (order.list (q.sweptCandidates w)) q
    (order.nodup _)
  obtain ⟨e, e', -, -, hentry, hfacet⟩ := hswept.swept t .failed hfate
  have he' := congrArg Facet.entry hfacet
  replace he' : (sweepTasks w n reason immediate clock (order.list (q.sweptCandidates w)) q).2.tasks.get t = some e' :=
    he'
  unfold getResult at hresult
  rw [he'] at hresult
  replace hresult : e'.result = some r := hresult
  unfold sweepEntry at hentry
  dsimp only at hentry
  split at hentry
  next => split at hentry <;> cases hentry
  next =>
    cases hentry
    cases hresult
    rfl

end

/-! ## The invariant -/

/-- The result that a section is about to record. -/
def Section.records : Section → Option TaskResult
  | .record _ _ r _ => some r
  | _ => none

/-- A result that the section records for a task of `ids` carries no error if its exit code is 0. -/
def Section.Candid (ids : List TaskId) (a : Section) : Prop :=
  ∀ r ∈ a.records, r.taskId ∈ ids → r.exitCode = 0 → r.error = none

instance (ids : List TaskId) (a : Section) : Decidable (a.Candid ids) :=
  inferInstanceAs (Decidable (∀ r ∈ a.records, r.taskId ∈ ids → r.exitCode = 0 → r.error = none))

/-- What the master knows of `t` with exit code 0 is in the log of completions. -/
structure Vouched (m : Master) (log : List (TaskId × TaskResult)) (t : TaskId) : Prop where
  history : ∀ r, m.shared.recorded.get t = some r → r.exitCode = 0 → (t, r) ∈ log
  sends : m.All fun _ a => ∀ x ∈ a.sends, x.1 = t → x.2.exitCode = 0 → x ∈ log
  sent : ∀ d ∈ m.shared.sent, d.task = t → d.value.exitCode = 0 → (t, d.value) ∈ log

section

variable {m : Master} {l : Label} {log : List (TaskId × TaskResult)} {t : TaskId} {c : Choice} {k : Owner}

theorem completion_record {n : Nat} {pin : Option (List BlobId)} (hruns : m.Runs l c k (.record w n r pin))
    (hfin : ResultOutcome.finished (m.shared.queue.recordResultFrom w (some n) r c.clock).1 = true)
    (hcandid : r.exitCode = 0 → r.error = none) (hzero : r.exitCode = 0) :
    Grid.completion m l = some (r.taskId, r) := by
  have hsuccess : r.isSuccess = true := by
    unfold TaskResult.isSuccess
    rw [hzero, hcandid hzero]
    rfl
  obtain ⟨i, rfl, hnext⟩ := hruns
  unfold Grid.completion
  simp only [hnext]
  cases ho : (m.shared.queue.recordResultFrom w (some n) r c.clock).1 with
  | error e =>
    rw [ho] at hfin
    cases hfin
  | ok o =>
    rw [ho] at hfin
    have hterm : o.disposition = .terminal := eq_of_beq hfin
    exact if_pos ⟨hterm, recordResultFrom_completed ho hterm hsuccess⟩

/-- What is logged: the entry of the task, unless it is evicted at once, is in the state `Completed`. -/
theorem completion_state (h : Grid.completion m l = some (t, r)) {e : TaskEntry}
    (he : (m.step l).shared.queue.tasks.get t = some e) : e.state = .completed ∧ e.result = some r := by
  unfold Grid.completion at h
  split at h
  · next i c =>
    split at h
    · next k w n r' pin hnext =>
      have hruns : m.Runs (.advance i c) c k (.record w n r' pin) := ⟨i, rfl, hnext⟩
      rw [hruns.fires.shared] at he
      split at h
      · next o ho =>
        split at h
        · next hdone =>
          cases h
          obtain ⟨-, hresult, hstate⟩ := recordResultFrom_recorded (q := m.shared.queue) (Prod.ext ho rfl)
            (by rw [ResultOutcome.finished, hdone.1]; rfl) he
          exact ⟨(hstate o rfl).symm.trans hdone.2, hresult⟩
        · cases h
      · cases h
    · cases h
  · cases h

/-- What is recorded with exit code 0 when a task finishes is logged. -/
theorem finishes_logged (hq : Coherent m.shared.queue) (hrecorded : Recorded m.shared.queue m.shared.recorded) {a : Section} (hruns : m.Runs l c k a)
    (hcandid : a.Candid [t]) (hfin : t ∈ finishes c m.shared a)
    (hr : (exec c k a m.shared).shared.recorded.get t = some r) (hzero : r.exitCode = 0) :
    Grid.completion m l = some (t, r) := by
  cases a with
  | record w n r' pin =>
    obtain ⟨rfl, hfinished⟩ := hfin
    have hset : (exec c k (.record w n r' pin) m.shared).shared.recorded = m.shared.recorded.set r'.taskId r' :=
      if_pos hfinished
    rw [hset, FMap.get_set, if_pos rfl] at hr
    cases hr
    exact completion_record hruns hfinished (hcandid _ rfl (List.mem_singleton_self _)) hzero
  | oversized x size =>
    obtain ⟨rfl, hfailed⟩ := hfin
    have hset : (exec c k (.oversized x size) m.shared).shared.recorded =
        m.shared.recorded.set x.taskId (oversizedResult x size) := if_pos (by rw [hfailed]; rfl)
    rw [hset, FMap.get_set, if_pos rfl] at hr
    cases hr
    exact absurd hzero Int.one_ne_zero
  | cancel u reason =>
    obtain ⟨rfl, o, ho, hnew⟩ := hfin
    obtain ⟨r', hr', hset, -, -⟩ := cancel_finished m.shared ho hnew
    replace hr : (m.shared.cancel t reason).shared.recorded.get t = some r := hr
    rw [hset, FMap.get_set, if_pos rfl] at hr
    cases hr
    rw [cancelTaskDetailed_exitCode hq ho hnew hr'] at hzero
    exact absurd hzero (by decide)
  | sweep w n reason immediate =>
    replace hr : ((sweptResults m.shared.queue w (some n) reason immediate c.taskOrder c.clock).foldl
      (fun h r => h.set r.1 r.2) m.shared.recorded).get t = some r := hr
    rcases FMap.get_foldl_set (sweptResults m.shared.queue w (some n) reason immediate c.taskOrder c.clock) t
      m.shared.recorded with ⟨r', hr', hget⟩ | ⟨-, hget⟩
    · cases hget.symm.trans hr
      rw [sweptResults_exitCode hr'] at hzero
      exact absurd hzero Int.one_ne_zero
    · obtain ⟨e, he, hopen⟩ := swept_open hfin
      cases (hget.symm.trans hr).symm.trans ((hrecorded t e he).2 hopen)
  | _ => cases hfin

theorem sends_logged (hq : Coherent m.shared.queue) (hrecorded : Recorded m.shared.queue m.shared.recorded)
    (h : Vouched m log t) {a : Section} (hruns : m.Runs l c k a) (hcandid : a.Candid [t])
    (hfollows : Follows c k m.shared a (.wake t r)) (hzero : r.exitCode = 0) :
    (t, r) ∈ log ∨ Grid.completion m l = some (t, r) := by
  cases hfollows with
  | resolveResult_wake =>
    rename_i info fallback
    cases hresult : m.shared.queue.getResult t with
    | none =>
      rw [hresult] at hzero
      unfold Option.getD fallbackResult at hzero
      dsimp only [TaskResult.failure] at hzero
      split at hzero <;> exact absurd hzero (by decide)
    | some r =>
      rw [hresult] at hzero
      obtain ⟨e, he, hr⟩ := Option.bind_eq_some_iff.1 hresult
      have hterm : e.state.isTerminal = true := by
        rw [← (hq.entries t e he).result, hr]
        rfl
      exact .inl (h.history r (((hrecorded t e he).1 hterm).2.symm.trans hr) hzero)
  | wake_wake held =>
    exact .inl (hruns.fires.all_head h.sends (t, r) rfl rfl hzero)
  | record_wake finished =>
    exact .inr (completion_record hruns finished (hcandid _ rfl (List.mem_singleton_self _)) hzero)
  | oversized_wake finished => exact absurd hzero Int.one_ne_zero
  | cancel_wake cancelled newly result =>
    obtain ⟨r', hr', -⟩ := cancel_finished m.shared cancelled newly
    rw [result r' hr', cancelTaskDetailed_exitCode hq cancelled newly hr'] at hzero
    exact absurd hzero (by decide)

/-- **One step.**  What the master knows of a task with exit code 0 stays logged. -/
theorem Vouched.step (hq : Coherent m.shared.queue) (hrecorded : Recorded m.shared.queue m.shared.recorded)
    (h : Vouched m log t) (hcandid : ∀ a ∈ m.ran l, a.Candid [t]) :
    Vouched (m.step l) (log ++ (Grid.completion m l).toList) t := by
  have hlogged : ∀ r, Grid.completion m l = some (t, r) → (t, r) ∈ log ++ (Grid.completion m l).toList := by
    intro r hr
    rw [hr]
    exact List.mem_append_right _ (List.mem_singleton_self _)
  have hsame : (m.step l).shared.recorded = m.shared.recorded → (m.step l).shared.sent = m.shared.sent →
      (∀ r, (m.step l).shared.recorded.get t = some r → r.exitCode = 0 → (t, r) ∈ log) ∧
      ∀ d ∈ (m.step l).shared.sent, d.task = t → d.value.exitCode = 0 → (t, d.value) ∈ log := by
    intro hrec hsent
    rw [hrec, hsent]
    exact ⟨h.history, h.sent⟩
  have hlog : log ⊆ log ++ (Grid.completion m l).toList := List.subset_append_left _ _
  refine ⟨fun r hr hzero => ?_, ?_, fun d hd ht hzero => ?_⟩
  · rcases m.step_shared l with ⟨c, k, a, hruns, hfires⟩ | ⟨_, _, _, _, -, hs⟩ | ⟨_, _, hs⟩
    · rw [hfires.shared] at hr
      by_cases hfin : t ∈ finishes c m.shared a
      · exact hlogged r (finishes_logged hq hrecorded hruns (hcandid a hruns.ran) hfin hr hzero)
      by_cases hsub : ∃ sub waiter, a = .submit sub waiter ∧
          (m.shared.queue.submitWithPriority sub.task 0 c.clock).1 = .ok sub.task.id ∧ t = sub.task.id
      · -- an accepted id has no history
        obtain ⟨sub, waiter, rfl, hok, rfl⟩ := hsub
        replace hr : (m.shared.submit c sub waiter).shared.recorded.get sub.task.id = some r := hr
        rcases submit_cases c m.shared sub waiter with ⟨⟨err, herr⟩, -⟩ | ⟨-, -, -, heq⟩
        · cases herr.symm.trans hok
        rw [heq] at hr
        replace hr : (m.shared.recorded.del sub.task.id).get sub.task.id = some r := hr
        rw [FMap.get_del, if_pos rfl] at hr
        cases hr
      · rw [exec_recorded c k m.shared hfin fun sub waiter ha hok ht => hsub ⟨sub, waiter, ha, hok, ht⟩] at hr
        exact hlog (h.history r hr hzero)
    · exact hlog ((hsame (by rw [hs]) (by rw [hs])).1 r hr hzero)
    · exact hlog ((hsame (by rw [hs]) (by rw [hs])).1 r hr hzero)
  · refine Master.step_all h.sends (fun _ _ ha x hx ht hzero => hlog (ha x hx ht hzero)) (fun k a hbegins => ?_)
      (fun c k a b hruns ha hfollows x hx ht hzero => ?_) (fun c k a u _ _ hstarts b hb => ?_)
    · cases hbegins <;> exact nofun
    · cases b with
      | wake u r =>
        cases hx
        cases ht
        rcases sends_logged hq hrecorded h hruns (hcandid a hruns.ran) hfollows hzero with hold | hnew
        · exact hlog hold
        · exact hlogged r hnew
      | _ => cases hx
    · cases hstarts <;> rw [List.mem_singleton.mp hb] <;> exact nofun
  rcases m.step_shared l with ⟨c, k, a, hruns, hfires⟩ | ⟨_, _, _, _, -, hs⟩ | ⟨_, _, hs⟩
  · rw [hfires.shared] at hd
    rcases exec_sent hd with hold | ⟨rfl, -, -⟩
    · exact hlog (h.sent d hold ht hzero)
    · subst ht
      exact hlog (hruns.fires.all_head h.sends (d.task, d.value) rfl rfl hzero)
  · exact hlog ((hsame (by rw [hs]) (by rw [hs])).2 d hd ht hzero)
  · exact hlog ((hsame (by rw [hs]) (by rw [hs])).2 d hd ht hzero)

end

/-! ## Senders -/

section

variable {c : Choice} {k : Owner} {a : Section} {s : MasterState} {m : Master} {l : Label}

theorem exec_nextWaiter : s.nextWaiter ≤ (exec c k a s).shared.nextWaiter := by
  by_cases hchanges : a.changes = some .waiters
  · cases a with
    | wake t r =>
      show _ ≤ (s.wake t r).shared.nextWaiter
      unfold wake
      split <;> exact le_rfl
    | enrol sub =>
      show _ ≤ (s.enrol sub).shared.nextWaiter
      unfold enrol
      split
      · exact le_rfl
      · exact Nat.le_succ _
    | pruneWaiters t =>
      show _ ≤ (s.pruneWaiters t).shared.nextWaiter
      unfold pruneWaiters
      split
      · exact le_rfl
      · split <;> exact le_rfl
    | waitLock t =>
      simp only [exec]
      split <;> exact le_rfl
    | waitRecheck t =>
      show _ ≤ (s.waitRecheck t).shared.nextWaiter
      unfold waitRecheck
      split <;> exact le_rfl
    | waitPush t => exact Nat.le_succ _
    | _ => cases hchanges
  · rw [((exec_same c k a s).waiters hchanges).2.2.1]

variable {j : WaiterId}

/-- A live sender was there before the section, or its number is new. -/
theorem exec_waits_new {t : TaskId} (h : (exec c k a s).shared.Waits t j) :
    s.Waits t j ∨ (s.nextWaiter ≤ j ∧ j < (exec c k a s).shared.nextWaiter) := by
  rcases exec_waits h with hold | ⟨sub, -, rfl, hheld, rfl⟩ | ⟨rfl, rfl⟩
  · exact .inl hold
  · refine .inr ⟨le_rfl, ?_⟩
    show _ < (s.enrol sub).shared.nextWaiter
    rw [enrol, if_neg (by rw [hheld]; exact Bool.false_ne_true)]
    exact Nat.lt_succ_self _
  · exact .inr ⟨le_rfl, Nat.lt_succ_self _⟩

omit [Host] in
/-- The senders that are in the map or were used have a number. -/
structure Issued (s : MasterState) : Prop where
  waits : ∀ t j, s.Waits t j → j < s.nextWaiter
  sent : ∀ d ∈ s.sent, d.waiter < s.nextWaiter

omit [Host] in
/-- `j` is a sender of task `t` alone. -/
structure SenderOf (s : MasterState) (j : WaiterId) (t : TaskId) : Prop where
  issued : j < s.nextWaiter
  waits : ∀ u, s.Waits u j → u = t
  sent : ∀ d ∈ s.sent, d.waiter = j → d.task = t

theorem Issued.exec (h : Issued s) : Issued (exec c k a s).shared where
  waits t j hj := by
    rcases exec_waits_new hj with hold | ⟨-, hnew⟩
    · exact lt_of_lt_of_le (h.waits t j hold) exec_nextWaiter
    · exact hnew
  sent d hd := by
    rcases exec_sent hd with hold | ⟨-, -, hwaits⟩
    · exact lt_of_lt_of_le (h.sent d hold) exec_nextWaiter
    · exact lt_of_lt_of_le (h.waits _ _ hwaits) exec_nextWaiter

theorem SenderOf.exec {t : TaskId} (h : SenderOf s j t) : SenderOf (exec c k a s).shared j t where
  issued := lt_of_lt_of_le h.issued exec_nextWaiter
  waits u hu := by
    rcases exec_waits_new hu with hold | ⟨hnew, -⟩
    · exact h.waits u hold
    · exact absurd h.issued (Nat.not_lt.2 hnew)
  sent d hd hj := by
    rcases exec_sent hd with hold | ⟨-, -, hwaits⟩
    · exact h.sent d hold hj
    · exact h.waits _ (hj ▸ hwaits)

theorem Issued.step (h : Issued m.shared) (l : Label) : Issued (m.step l).shared := by
  rcases m.step_shared l with ⟨c, k, a, -, hfires⟩ | ⟨_, _, _, _, -, hs⟩ | ⟨_, _, hs⟩
  · rw [hfires.shared]
    exact h.exec
  · rw [hs]
    exact ⟨h.waits, h.sent⟩
  · rw [hs]
    exact ⟨h.waits, h.sent⟩

theorem SenderOf.step {t : TaskId} (h : SenderOf m.shared j t) (l : Label) : SenderOf (m.step l).shared j t := by
  rcases m.step_shared l with ⟨c, k, a, -, hfires⟩ | ⟨_, _, _, _, -, hs⟩ | ⟨_, _, hs⟩
  · rw [hfires.shared]
    exact h.exec
  · rw [hs]
    exact ⟨h.issued, h.waits, h.sent⟩
  · rw [hs]
    exact ⟨h.issued, h.waits, h.sent⟩

end

/-! ## Runs of the master -/

/-- What every master has that is reached from its start. -/
structure WellKept (m : Master) : Prop where
  coherent : Coherent m.shared.queue
  recorded : Recorded m.shared.queue m.shared.recorded
  issued : Issued m.shared

theorem WellKept.step {m : Master} (h : WellKept m) (l : Label) : WellKept (m.step l) :=
  ⟨Master.coherent_step h.coherent l, h.recorded.step l, h.issued.step l⟩

theorem wellKept_run (config : MasterConfig) (queue : QueueConfig) (labels : List Label) :
    WellKept ((Master.init config queue).run labels) := by
  refine runFrom_invariant (fun m l (h : WellKept m) => h.step l) ?_ labels
  refine ⟨start_coherent queue, fun t e he => absurd he (Option.some_ne_none e).symm, ?_, ?_⟩
  · exact fun t j hj => absurd hj.1 List.not_mem_nil
  · exact List.forall_mem_nil _

end OxideSwarm
