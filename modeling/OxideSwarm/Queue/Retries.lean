import OxideSwarm.Queue.Accounting
import OxideSwarm.Lib.Pool

/-!
# Retry budgets

Three branches raise `retry_count`: a worker's refusal and a lost connection, which both ask
`failover_budget`, and an execution failure, which looks at the policy alone.  `Effect` says what a turn
does to the counters of an entry, and `Dispatches` counts how often a task was handed to a worker and
started.

* Without a limit of its own a task stays within the separate budgets of the policy
  (`separate_retry_budgets`).
* A limit of its own is meant to bound every re-run, but an execution failure does not look at it
  (`retry_limit_can_be_exceeded`).  `LimitHeeded` excludes that, and `retry_limit_bounds` is what holds then.
-/

namespace OxideSwarm

open Std TaskQueueInner

section Budgets

variable [Host]

/-! ## What a turn does to the counters -/

structure SameCounters (e e' : TaskEntry) : Prop where
  retryCount : e'.retryCount = e.retryCount
  failoverCount : e'.failoverCount = e.failoverCount
  rejectionCount : e'.rejectionCount = e.rejectionCount
  retryHistory : e'.retryHistory = e.retryHistory

/-- How the state of task `t` moves when no counter does. -/
inductive StateMove (op : Op) (t : TaskId) : TaskState → TaskState → Prop where
  | schedule : StateMove op t .queued .scheduled
  | takeBack {s : TaskState} (requeues : op.requeues t = true) (unfinished : s.isTerminal = false) :
      StateMove op t s .queued
  | start : StateMove op t .scheduled .running
  | stay {s : TaskState} : StateMove op t s s
  | wake : StateMove op t .retrying .queued
  | finish {s s' : TaskState} (terminal : s'.isTerminal) : StateMove op t s s'

/-- One more run is charged. -/
structure Rerun (e e' : TaskEntry) : Prop where
  active : e.state.isActive
  waits : e'.state = .queued ∨ e'.state = .retrying
  retryCount : e'.retryCount = e.retryCount + 1
  retryHistory : e'.retryHistory.map RetryAttempt.attempt =
    e.retryHistory.map RetryAttempt.attempt ++ [e.retryCount + 1]

/-- What a turn does to the counters. -/
inductive Effect (op : Op) (p : RetryPolicy) (t : TaskId) (e e' : TaskEntry) : Prop where
  | free (same : SameCounters e e') (move : StateMove op t e.state e'.state)
  | failover (rerun : Rerun e e') (budget : (p.failoverBudget e).1 = true)
      (failovers : e'.failoverCount = e.failoverCount + 1)
      (rejections : e'.rejectionCount = e.rejectionCount ∨
        e'.rejectionCount = e.rejectionCount + 1 ∧ e.rejectionCount < maxWorkerRejectionsPerTask)
  | execution {w : Uuid} {session : Option Nat} {r : TaskResult} {clock : Clock} (rerun : Rerun e e')
      (call : op = .recordResultFrom w session r clock) (id : r.taskId = t) (failed : r.isSuccess = false)
      (exitCode : r.exitCode ≠ 130) (retries : p.retryOnExecutionFailure = true)
      (budget : e.retryCount - e.failoverCount < p.maxRetries)
      (failovers : e'.failoverCount = e.failoverCount) (rejections : e'.rejectionCount = e.rejectionCount)

section

variable {op : Op} {p : RetryPolicy} {t : TaskId} {e e' : TaskEntry}

theorem applyResult_effect {w : Uuid} {session : Option Nat} {r : TaskResult} {clock : Clock} {f : ResultEffect}
    (hop : op = .recordResultFrom w session r clock) (hid : r.taskId = t) (hact : e.state.isActive)
    (h : applyResult p e w r clock = some f) : Effect op p t e f.entry := by
  unfold applyResult at h
  split at h
  · split at h
    · cases h
    · cases h
      exact .free ⟨rfl, rfl, rfl, rfl⟩ (.finish rfl)
  next hsuccess =>
  split at h
  · cases h
    exact .free ⟨rfl, rfl, rfl, rfl⟩ (.finish rfl)
  next hcode =>
  split at h
  · next hcond =>
    cases h
    simp only [Bool.and_eq_true, decide_eq_true_eq] at hcond
    obtain ⟨⟨-, hrejections⟩, hbudget⟩ := hcond
    refine .failover ⟨hact, Or.inl rfl, rfl, ?_⟩ hbudget rfl (Or.inr ⟨rfl, hrejections⟩)
    simp [rejectedEntry]
  split at h
  · next hcond =>
    cases h
    simp only [Bool.and_eq_true, decide_eq_true_eq] at hcond
    refine .execution ⟨hact, Or.inr rfl, rfl, ?_⟩ hop hid (by simpa using hsuccess) hcode hcond.1 hcond.2
      rfl rfl
    simp [retriedEntry]
  · cases h
    exact .free ⟨rfl, rfl, rfl, rfl⟩ (.finish rfl)

theorem sweepEntry_effect (hact : e.state.isActive) (w : Uuid) (reason : String) (immediate : Bool)
    (clock : Clock) : Effect op p t e (sweepEntry p e t w reason immediate clock).1 := by
  unfold sweepEntry
  dsimp only
  split
  · next hcond =>
    rw [Bool.and_eq_true] at hcond
    split
    · refine .failover ⟨hact, Or.inl rfl, rfl, ?_⟩ hcond.2 rfl (Or.inl rfl)
      simp
    · refine .failover ⟨hact, Or.inr rfl, rfl, ?_⟩ hcond.2 rfl (Or.inl rfl)
      simp
  · exact .free ⟨rfl, rfl, rfl, rfl⟩ (.finish rfl)

theorem Turn.effect (h : Turn op p t e e') : Effect op p t e e' := by
  cases h with
  | schedule queued =>
    refine .free ⟨rfl, rfl, rfl, rfl⟩ ?_
    rw [queued]
    exact .schedule
  | takeBack requeues unfinished => exact .free ⟨rfl, rfl, rfl, rfl⟩ (.takeBack requeues unfinished)
  | start scheduled =>
    refine .free ⟨rfl, rfl, rfl, rfl⟩ ?_
    rw [scheduled]
    exact .start
  | checkpoint => exact .free ⟨rfl, rfl, rfl, rfl⟩ .stay
  | result call id active effect => exact applyResult_effect call id active effect
  | unsendable | cancel => exact .free ⟨rfl, rfl, rfl, rfl⟩ (.finish rfl)
  | sweep w reason immediate clock active => exact sweepEntry_effect active w reason immediate clock
  | wake retrying =>
    refine .free ⟨rfl, rfl, rfl, rfl⟩ ?_
    rw [retrying]
    exact .wake

theorem Turn.requirements (h : Turn op p t e e') : e'.task.requirements = e.task.requirements := by
  cases h with
  | result call id active effect => rw [(applyResult_entry effect).1]
  | sweep w reason immediate clock active => rw [(sweepEntry_released p e t w reason immediate clock).1]
  | schedule | takeBack | start | checkpoint | unsendable | wake | cancel => rfl

/-! ## Budgets of one entry -/

/-- The failovers a policy allows a task without a limit of its own. -/
def RetryPolicy.failoverCap (p : RetryPolicy) : Nat :=
  if p.maxRetries = 0 then 0 else max p.maxFailovers p.maxRetries

/-- The counters of an entry are within the budgets of the policy. -/
structure Budgeted (p : RetryPolicy) (e : TaskEntry) : Prop where
  failovers : e.task.requirements.maxRetries = none → e.failoverCount ≤ p.failoverCap
  charged : e.failoverCount ≤ e.retryCount
  executions : e.retryCount - e.failoverCount ≤ p.maxRetries
  rejections : e.rejectionCount ≤ maxWorkerRejectionsPerTask
  rejected : e.rejectionCount ≤ e.failoverCount
  history : e.retryHistory.map RetryAttempt.attempt = List.range' 1 e.retryCount

section

omit [Host]

theorem budgeted_fresh (p : RetryPolicy) (task : Task) (priority sequence : Nat) (clock : Clock) :
    Budgeted p (TaskEntry.fresh task priority sequence clock) :=
  ⟨fun _ => Nat.zero_le _, Nat.le_refl _, Nat.zero_le _, Nat.zero_le _, Nat.le_refl _, rfl⟩

theorem Rerun.history (h : Rerun e e') (he : e.retryHistory.map RetryAttempt.attempt = List.range' 1 e.retryCount) :
    e'.retryHistory.map RetryAttempt.attempt = List.range' 1 e'.retryCount := by
  rw [h.retryHistory, h.retryCount, he, List.range'_concat, Nat.one_mul, Nat.add_comm 1]

theorem Budgeted.effect (h : Budgeted p e) (heffect : Effect op p t e e')
    (htask : e'.task.requirements = e.task.requirements) : Budgeted p e' := by
  cases heffect with
  | free same move =>
    refine ⟨?_, ?_, ?_, ?_, ?_, ?_⟩
    · rw [htask, same.failoverCount]
      exact h.failovers
    · rw [same.failoverCount, same.retryCount]
      exact h.charged
    · rw [same.failoverCount, same.retryCount]
      exact h.executions
    · rw [same.rejectionCount]
      exact h.rejections
    · rw [same.rejectionCount, same.failoverCount]
      exact h.rejected
    · rw [same.retryHistory, same.retryCount]
      exact h.history
  | failover rerun budget failovers rejections =>
    have hcharged := h.charged
    have hexecutions := h.executions
    have hrejections := h.rejections
    have hrejected := h.rejected
    refine ⟨fun hnone => ?_, ?_, ?_, ?_, ?_, rerun.history h.history⟩
    · rw [htask] at hnone
      unfold RetryPolicy.failoverBudget at budget
      rw [hnone] at budget
      rw [failovers]
      exact of_decide_eq_true budget
    · rw [failovers, rerun.retryCount]
      exact Nat.succ_le_succ hcharged
    · rw [failovers, rerun.retryCount, Nat.add_sub_add_right]
      exact hexecutions
    · rcases rejections with hsame | ⟨hone, hlt⟩
      · rw [hsame]
        exact hrejections
      · rw [hone]
        exact hlt
    rw [failovers]
    rcases rejections with hsame | ⟨hone, -⟩
    · rw [hsame]
      exact Nat.le_succ_of_le hrejected
    · rw [hone]
      exact Nat.succ_le_succ hrejected
  | execution rerun call id failed exitCode retries budget failovers rejections =>
    have hcharged := h.charged
    refine ⟨?_, ?_, ?_, ?_, ?_, rerun.history h.history⟩
    · rw [htask, failovers]
      exact h.failovers
    · rw [failovers, rerun.retryCount]
      exact Nat.le_succ_of_le hcharged
    · rw [failovers, rerun.retryCount]
      omega
    · rw [rejections]
      exact h.rejections
    · rw [rejections, failovers]
      exact h.rejected

end

/-- The limit a task carries itself. -/
def Limited (e : TaskEntry) : Prop := ∀ n ∈ e.task.requirements.maxRetries, e.retryCount ≤ n

/-- An execution failure is recorded for task `t` only while its own limit leaves a run, unless the result
is one that the policy does not retry. -/
def LimitHeeded (t : TaskId) (q : TaskQueueInner) : Op → Prop
  | .recordResultFrom _ _ r _ => r.taskId = t → ∀ e ∈ q.tasks.get t, ∀ n ∈ e.task.requirements.maxRetries,
      e.retryCount < n ∨ r.isSuccess = true ∨ r.exitCode = 130 ∨
      q.retryPolicy.retryOnExecutionFailure = false ∨
      q.retryPolicy.maxRetries ≤ e.retryCount - e.failoverCount
  | _ => True

instance (t : TaskId) (q : TaskQueueInner) : ∀ op, Decidable (LimitHeeded t q op)
  | .recordResultFrom .. => inferInstanceAs (Decidable (_ → _))
  | .submitWithPriority .. | .trySubmitSlot .. | .popAndSchedule .. | .scheduleTask .. | .scheduleTasksBatch ..
  | .scheduleTasksBatchInSessions .. | .requeueTask .. | .requeueDispatchFailure .. | .markRunningFrom ..
  | .recordCheckpoint .. | .recordCheckpointFrom .. | .failUnsendableAssignment ..
  | .handleSessionDisconnected .. | .processDelayedRetries .. | .cancelTaskDetailed .. | .setMaxTerminalTasks ..
  | .setMaxTerminalBytes .. | .evictTerminalTasks .. => inferInstanceAs (Decidable True)

omit [Host] in
theorem Limited.effect {q : TaskQueueInner} (h : Limited e) (heffect : Effect op q.retryPolicy t e e')
    (htask : e'.task.requirements = e.task.requirements) (hget : q.tasks.get t = some e)
    (hheeded : LimitHeeded t q op) : Limited e' := by
  intro n hn
  rw [htask] at hn
  cases heffect with
  | free same move =>
    rw [same.retryCount]
    exact h n hn
  | failover rerun budget failovers rejections =>
    unfold RetryPolicy.failoverBudget at budget
    rw [Option.mem_def.mp hn] at budget
    rw [rerun.retryCount]
    exact of_decide_eq_true budget
  | execution rerun call id failed exitCode retries budget failovers rejections =>
    subst call
    rw [rerun.retryCount]
    rcases hheeded id e hget n hn with hlt | hsuccess | hcode | hretries | hspent
    · exact hlt
    · cases failed.symm.trans hsuccess
    · exact absurd hcode exitCode
    · cases retries.symm.trans hretries
    · exact absurd hspent (Nat.not_le_of_lt budget)

/-! ## Dispatches of one task -/

/-- How often a task was scheduled, started, taken back by a requeue while it was dispatched, and taken
back while it was running, since it was submitted. -/
structure Dispatches where
  scheduled : Nat
  started : Nat
  takenBack : Nat
  stopped : Nat
deriving DecidableEq, Repr

def Dispatches.zero : Dispatches := ⟨0, 0, 0, 0⟩

/-- The counts after an operation that moved the task from state `s` to `s'`. -/
def Dispatches.next (d : Dispatches) (requeued : Bool) (s s' : TaskState) : Dispatches where
  scheduled := d.scheduled + if s = .queued ∧ s' = .scheduled then 1 else 0
  started := d.started + if s = .scheduled ∧ s' = .running then 1 else 0
  takenBack := d.takenBack + if requeued = true ∧ s.isActive = true ∧ s' = .queued then 1 else 0
  stopped := d.stopped + if requeued = true ∧ s = .running ∧ s' = .queued then 1 else 0

/-- A task that is not in the queue has no counts. -/
def Dispatches.step (d : Dispatches) (requeued : Bool) (o o' : Option TaskEntry) : Dispatches :=
  match o, o' with
  | some e, some e' => d.next requeued e.state e'.state
  | _, _ => .zero

/-- The queue with the counts of task `t`. -/
def meter (t : TaskId) (s : TaskQueueInner × Dispatches) (op : Op) : TaskQueueInner × Dispatches :=
  (s.1.apply op, s.2.step (op.requeues t) (s.1.tasks.get t) ((s.1.apply op).tasks.get t))

/-- The counts of task `t` after a run from `q`. -/
def TaskQueueInner.dispatches (q : TaskQueueInner) (t : TaskId) (ops : List Op) : Dispatches :=
  (runFrom (meter t) (q, .zero) ops).2

/-- The dispatch that a state belongs to. -/
def TaskState.dispatched : TaskState → Nat
  | .submitted | .queued | .retrying => 0
  | .scheduled | .running | .completed | .failed | .cancelled => 1

/-- The start that a state belongs to. -/
def TaskState.begun : TaskState → Nat
  | .submitted | .queued | .retrying | .scheduled => 0
  | .running | .completed | .failed | .cancelled => 1

/-- Every earlier dispatch was charged, or was taken back by a requeue. -/
structure Dispatches.Covered (d : Dispatches) (retryCount : Nat) (s : TaskState) : Prop where
  scheduled : d.scheduled ≤ d.takenBack + retryCount + s.dispatched
  started : d.started ≤ d.stopped + retryCount + s.begun

/-- What an operation counts, weighed against the dispatch its states belong to. -/
def Dispatches.Fair (requeued : Bool) (s s' : TaskState) : Prop :=
  (zero.next requeued s s').scheduled + s.dispatched ≤ (zero.next requeued s s').takenBack + s'.dispatched ∧
    (zero.next requeued s s').started + s.begun ≤ (zero.next requeued s s').stopped + s'.begun

instance (requeued : Bool) (s s' : TaskState) : Decidable (Dispatches.Fair requeued s s') :=
  inferInstanceAs (Decidable (_ ∧ _))

section

omit [Host]

/-- A move that charges nothing does not dispatch a task for free. -/
theorem StateMove.fair {s s' : TaskState} (h : StateMove op t s s') : Dispatches.Fair (op.requeues t) s s' := by
  generalize hrequeued : op.requeues t = requeued
  cases h with
  | schedule | start | wake => cases requeued <;> decide
  | stay => cases requeued <;> cases s <;> decide
  | takeBack requeues unfinished =>
    obtain rfl := hrequeued.symm.trans requeues
    revert unfinished
    cases s <;> decide
  | finish terminal =>
    revert terminal
    cases requeued <;> cases s <;> cases s' <;> decide

theorem Dispatches.Covered.fair {d : Dispatches} {n : Nat} {requeued : Bool} {s s' : TaskState}
    (h : d.Covered n s) (hfair : Fair requeued s s') : (d.next requeued s s').Covered n s' := by
  obtain ⟨hscheduled, hstarted⟩ := h
  obtain ⟨hdispatch, hbegin⟩ := hfair
  simp only [next, zero, Nat.zero_add] at hdispatch hbegin
  constructor
  · simp only [next]
    omega
  · simp only [next]
    omega

theorem Dispatches.Covered.rerun {d : Dispatches} (h : d.Covered e.retryCount e.state) (hrerun : Rerun e e')
    (requeued : Bool) : (d.next requeued e.state e'.state).Covered e'.retryCount e'.state := by
  obtain ⟨hscheduled, hstarted⟩ := h
  have hdispatched : e.state.dispatched ≤ 1 := by cases e.state <;> decide
  have hbegun : e.state.begun ≤ 1 := by cases e.state <;> decide
  rw [hrerun.retryCount]
  unfold next
  rcases hrerun.waits with hs | hs
  · rw [hs]
    constructor <;> simp [TaskState.dispatched, TaskState.begun] <;> omega
  · rw [hs]
    constructor <;> simp [TaskState.dispatched, TaskState.begun] <;> omega

theorem Dispatches.Covered.effect {d : Dispatches} (h : d.Covered e.retryCount e.state)
    (heffect : Effect op p t e e') : (d.next (op.requeues t) e.state e'.state).Covered e'.retryCount e'.state := by
  cases heffect with
  | failover rerun | execution rerun => exact h.rerun rerun _
  | free same move =>
    rw [same.retryCount]
    exact h.fair move.fair

end

end

/-! ## Runs -/

/-- The queue, and the counts of task `t`, after a run of a queue with policy `p`. -/
structure Metered (p : RetryPolicy) (t : TaskId) (s : TaskQueueInner × Dispatches) : Prop where
  coherent : Coherent s.1
  booked : Booked s.1
  policy : s.1.retryPolicy = p
  budgeted : ∀ e, s.1.tasks.get t = some e → Budgeted p e
  covered : ∀ e, s.1.tasks.get t = some e → s.2.Covered e.retryCount e.state

section

variable {op : Op} {p : RetryPolicy} {t : TaskId} {s : TaskQueueInner × Dispatches}

omit [Host] in
theorem start_get {c : QueueConfig} {e : TaskEntry} : c.start.tasks.get t ≠ some e :=
  (Option.some_ne_none e).symm

omit [Host] in
theorem metered_start (c : QueueConfig) (t : TaskId) : Metered c.retryPolicy t (c.start, .zero) :=
  ⟨start_coherent c, start_booked c, rfl, fun _ h => (start_get h).elim, fun _ h => (start_get h).elim⟩

/-- The counts of a task after an operation. -/
theorem Metered.outcome (h : Metered p t s) (op : Op) {e' : TaskEntry} (he' : (meter t s op).1.tasks.get t = some e') :
    Budgeted p e' ∧ (meter t s op).2.Covered e'.retryCount e'.state := by
  have hout := apply_outcome h.coherent op t
  have hcounts : (meter t s op).2 =
    s.2.step (op.requeues t) (s.1.tasks.get t) ((s.1.apply op).tasks.get t) := rfl
  change (s.1.apply op).tasks.get t = some e' at he'
  rw [h.policy] at hout
  generalize hget : s.1.tasks.get t = o at hout hcounts
  rw [he'] at hout hcounts
  rw [hcounts]
  cases hout with
  | same =>
    have hstay : StateMove op t e'.state e'.state := .stay
    exact ⟨h.budgeted e' hget, (h.covered e' hget).fair hstay.fair⟩
  | accepted offered id => exact ⟨budgeted_fresh p _ _ _ _, ⟨Nat.zero_le _, Nat.zero_le _⟩⟩
  | turned turn =>
    exact ⟨(h.budgeted _ hget).effect turn.effect turn.requirements, (h.covered _ hget).effect turn.effect⟩

theorem Metered.step (h : Metered p t s) (op : Op) : Metered p t (meter t s op) where
  coherent := (apply_evolves h.coherent op).coherent h.coherent
  booked := (apply_posting h.coherent h.booked op).booked
  policy := (apply_posting h.coherent h.booked op).posts.limits.retryPolicy.trans h.policy
  budgeted := fun _ he' => (h.outcome op he').1
  covered := fun _ he' => (h.outcome op he').2

theorem Metered.run (ops : List Op) : ∀ {s}, Metered p t s → Metered p t (runFrom (meter t) s ops) := by
  induction ops with
  | nil => exact fun h => h
  | cons op rest ih => exact fun h => ih (h.step op)

/-- Counting does not disturb the queue. -/
theorem meter_queue (ops : List Op) : ∀ s, (runFrom (meter t) s ops).1 = s.1.run ops := by
  induction ops with
  | nil => exact fun _ => rfl
  | cons op rest ih => exact fun s => ih (meter t s op)

theorem run_metered (c : QueueConfig) (t : TaskId) (ops : List Op) :
    Metered c.retryPolicy t (c.start.run ops, c.start.dispatches t ops) := by
  have h := (metered_start c t).run ops
  rw [← Prod.mk.eta (p := runFrom _ _ _), meter_queue] at h
  exact h

theorem limited_step {q : TaskQueueInner} (hq : Coherent q) (h : ∀ e, q.tasks.get t = some e → Limited e)
    (hheeded : LimitHeeded t q op) : ∀ e, (q.apply op).tasks.get t = some e → Limited e := by
  intro e' he'
  have hout := apply_outcome hq op t
  generalize hget : q.tasks.get t = o at hout
  rw [he'] at hout
  cases hout with
  | same => exact h e' hget
  | accepted offered id => exact fun _ _ => Nat.zero_le _
  | turned turn => exact (h _ hget).effect turn.effect turn.requirements hget hheeded

theorem run_limited (c : QueueConfig) {ops : List Op} (h : Within TaskQueueInner.apply (LimitHeeded t) c.start ops) :
    ∀ e, (c.start.run ops).tasks.get t = some e → Limited e := by
  have hstep : ∀ (q : TaskQueueInner) (op : Op),
      (Coherent q ∧ ∀ e, q.tasks.get t = some e → Limited e) → LimitHeeded t q op →
        Coherent (q.apply op) ∧ ∀ e, (q.apply op).tasks.get t = some e → Limited e :=
    fun q op hq hheeded => ⟨(apply_evolves hq.1 op).coherent hq.1, limited_step hq.1 hq.2 hheeded⟩
  exact (Within.invariant hstep ⟨start_coherent c, fun _ he => (start_get he).elim⟩ h).2

end

/-- **The limit of a task bounds its re-runs**, in every run whose execution failures heed it: the task is
re-run at most `n` times, and dispatched at most once more, apart from the dispatches that were taken
back. -/
theorem retry_limit_bounds (c : QueueConfig) (ops : List Op) (t : TaskId) (e : TaskEntry) (n : Nat)
    (h : Within TaskQueueInner.apply (LimitHeeded t) c.start ops)
    (hget : (c.start.run ops).tasks.get t = some e) (hlimit : e.task.requirements.maxRetries = some n) :
    e.retryCount ≤ n ∧ (c.start.dispatches t ops).scheduled ≤ n + 1 + (c.start.dispatches t ops).takenBack := by
  have hcount : e.retryCount ≤ n := run_limited c h e hget n hlimit
  have hcovered := ((run_metered c t ops).covered e hget).scheduled
  have hone : e.state.dispatched ≤ 1 := by cases e.state <;> decide
  refine ⟨hcount, ?_⟩
  dsimp only at hcovered
  omega

/-- **Separate budgets.**  In every state a run reaches, a task without a limit of its own is within the
failover budget and the execution budget of the policy, its refusals are within their bound, and its
history has one record for each re-run, numbered in order.  A worker therefore starts it at most once more
than the two budgets allow, apart from the runs that a requeue took back. -/
theorem separate_retry_budgets (c : QueueConfig) (ops : List Op) (t : TaskId) (e : TaskEntry)
    (hget : (c.start.run ops).tasks.get t = some e) (hlimit : e.task.requirements.maxRetries = none) :
    e.failoverCount ≤ c.retryPolicy.failoverCap ∧
    e.failoverCount ≤ e.retryCount ∧ e.retryCount - e.failoverCount ≤ c.retryPolicy.maxRetries ∧
    e.rejectionCount ≤ 3 ∧ e.rejectionCount ≤ e.failoverCount ∧ e.retryHistory.length = e.retryCount ∧
    e.retryHistory.map RetryAttempt.attempt = List.range' 1 e.retryCount ∧ (c.start.dispatches t ops).started ≤
      c.retryPolicy.failoverCap + c.retryPolicy.maxRetries + 1 + (c.start.dispatches t ops).stopped ∧
    (c.start.dispatches t ops).scheduled ≤
      c.retryPolicy.failoverCap + c.retryPolicy.maxRetries + 1 + (c.start.dispatches t ops).takenBack := by
  have hmetered := run_metered c t ops
  have hb := hmetered.budgeted e hget
  have hfailovers := hb.failovers hlimit
  have hcharged := hb.charged
  have hexecutions := hb.executions
  obtain ⟨hscheduled, hstarted⟩ := hmetered.covered e hget
  have hdispatched : e.state.dispatched ≤ 1 := by cases e.state <;> decide
  have hbegun : e.state.begun ≤ 1 := by cases e.state <;> decide
  have hlength : e.retryHistory.length = e.retryCount := by
    rw [← List.length_map RetryAttempt.attempt, hb.history, List.length_range']
  dsimp only at hscheduled hstarted
  exact ⟨hfailovers, hcharged, hexecutions, hb.rejections, hb.rejected, hlength, hb.history, by omega, by omega⟩

end Budgets

section Concrete

attribute [local instance] Host.blank

/-- A queue that retries execution failures. -/
def QueueConfig.retrying : QueueConfig :=
  { QueueConfig.small 10 with retryPolicy := ⟨3, 10, 0, 0, ⟨0⟩, true, true⟩ }

/-- A task that may be re-run at most `limit` times. -/
def Task.limited (limit : Option Nat) : Task :=
  { Task.echo 1 with requirements := { (Task.echo 1).requirements with maxRetries := limit } }

/-- Task 1 fails on worker 7 and is dispatched a second time. -/
def failedOnce (limit : Option Nat) : List Op :=
  [.submitWithPriority (Task.limited limit) 0 ⟨0, 0⟩, .scheduleTask ⟨1⟩ 7 5, .markRunningFrom 7 none ⟨1⟩ 6,
   .recordResultFrom 7 none { TaskResult.done 7 ⟨1⟩ with exitCode := 1 } ⟨7, 0⟩, .processDelayedRetries 8,
   .scheduleTask ⟨1⟩ 7 9]

/-- A task that must not be re-run at all is. -/
theorem retry_limit_can_be_exceeded : ∃ (c : QueueConfig) (ops : List Op) (t : TaskId) (e : TaskEntry) (n : Nat),
      (c.start.run ops).tasks.get t = some e ∧ e.task.requirements.maxRetries = some n ∧
      n < e.retryCount ∧ n + 1 + (c.start.dispatches t ops).takenBack < (c.start.dispatches t ops).scheduled := by
  have hrun : ((QueueConfig.retrying.start.run (failedOnce (some 0))).tasks.get ⟨1⟩).map
      (fun e => (e.task.requirements.maxRetries, e.retryCount)) = some (some 0, 1) := by decide
  have hdispatches : QueueConfig.retrying.start.dispatches ⟨1⟩ (failedOnce (some 0)) = ⟨2, 1, 0, 0⟩ := by decide
  obtain ⟨e, he, hcounts⟩ := Option.map_eq_some_iff.mp hrun
  obtain ⟨hlimit, hcount⟩ := Prod.mk.inj hcounts
  refine ⟨QueueConfig.retrying, failedOnce (some 0), ⟨1⟩, e, 0, he, hlimit, ?_, ?_⟩
  · rw [hcount]
    decide
  · rw [hdispatches]
    decide

/-- A task with one re-run left fails once. -/
theorem retry_limit_bounds_once : ∃ e, (QueueConfig.retrying.start.run (failedOnce (some 1))).tasks.get ⟨1⟩ = some e ∧
      Within TaskQueueInner.apply (LimitHeeded ⟨1⟩) QueueConfig.retrying.start (failedOnce (some 1)) ∧
      e.retryCount ≤ 1 ∧ (QueueConfig.retrying.start.dispatches ⟨1⟩ (failedOnce (some 1))).scheduled ≤
        1 + 1 + (QueueConfig.retrying.start.dispatches ⟨1⟩ (failedOnce (some 1))).takenBack := by
  have hrun : ((QueueConfig.retrying.start.run (failedOnce (some 1))).tasks.get ⟨1⟩).map
      (fun e => e.task.requirements.maxRetries) = some (some 1) := by decide
  have hheeded : Within TaskQueueInner.apply (LimitHeeded ⟨1⟩) QueueConfig.retrying.start
      (failedOnce (some 1)) := by decide
  obtain ⟨e, he, hlimit⟩ := Option.map_eq_some_iff.mp hrun
  exact ⟨e, he, hheeded, retry_limit_bounds _ _ _ e 1 hheeded he hlimit⟩

/-- A task without a limit fails once and is started again within the budgets. -/
theorem separate_retry_budgets_once :
    ∃ e, (QueueConfig.retrying.start.run (failedOnce none)).tasks.get ⟨1⟩ = some e ∧ e.retryCount = 1 ∧
      (QueueConfig.retrying.start.dispatches ⟨1⟩ (failedOnce none)).started ≤
        10 + 3 + 1 + (QueueConfig.retrying.start.dispatches ⟨1⟩ (failedOnce none)).stopped := by
  have hrun : ((QueueConfig.retrying.start.run (failedOnce none)).tasks.get ⟨1⟩).map
      (fun e => (e.task.requirements.maxRetries, e.retryCount)) = some (none, 1) := by decide
  obtain ⟨e, he, hcounts⟩ := Option.map_eq_some_iff.mp hrun
  obtain ⟨hlimit, hcount⟩ := Prod.mk.inj hcounts
  obtain ⟨-, -, -, -, -, -, -, hstarted, -⟩ := separate_retry_budgets QueueConfig.retrying _ _ e he hlimit
  exact ⟨e, he, hcount, hstarted⟩

end Concrete

end OxideSwarm
