import OxideSwarm.Queue.Turns

/-!
# The answer to a status request (`server.rs:2672`)

`task_status_response` reads the entry in one hold of the queue's lock and the result in another, and
takes the status from the exit code of the result where there is one.  The queue's state machine goes
by `TaskResult::is_success`, which also asks that there is no error: the two agree as long as a
recorded result with exit code 0 carries none (`status_agrees`), and only then
(`failed_task_reported_completed`).
-/

namespace OxideSwarm

open TaskQueueInner

/-- `TaskStatus` (`task.rs:2431`). -/
inductive TaskStatus where
  | queued | assigned | running | completed | failed | retried | timedOut | cancelled
deriving DecidableEq, Repr

structure TaskStatusInfo where
  taskId : TaskId
  status : TaskStatus
  stateName : String
  assignedWorker : Option Uuid
  error : Option String
deriving DecidableEq, Repr

/-- The status of a task whose result is `r`. -/
def TaskResult.status (r : TaskResult) : TaskStatus :=
  if r.exitCode = 0 then .completed else if r.exitCode = 130 then .cancelled else .failed

/-- The status of a task without a result. -/
def TaskState.status : TaskState → TaskStatus
  | .submitted | .queued | .scheduled | .retrying => .queued
  | .running => .running
  | .completed => .completed
  | .failed => .failed
  | .cancelled => .cancelled

/-- The error reported for a task without a result. -/
def TaskEntry.statusError (e : TaskEntry) : Option String :=
  match e.state with
  | .failed | .cancelled => e.errorMessage
  | _ => none

section Reads

variable [Host]

/-- `task_status_response`: `get_task` sees the queue `seen`, `get_result` the queue `later`. -/
def taskStatusResponse (seen later : TaskQueueInner) (t : TaskId) : Except String TaskStatusInfo :=
  match seen.tasks.get t with
  | some info =>
    let (status, error) := match later.getResult t with
      | some r => (r.status, r.error)
      | none => (info.state.status, info.statusError)
    .ok ⟨t, status, info.state.debug, info.assignedWorkerId, error⟩
  | none => .error ("Task " ++ Host.displayUuid t.uuid ++ " not found")

/-! ## Exit codes and states -/

/-- The exit code of a recorded failure tells it from a success, and that of an unsendable
assignment from a cancellation too. -/
def Op.Telling : Op → Prop
  | .recordResultFrom _ _ r _ => r.exitCode = 0 → r.error = none
  | .failUnsendableAssignment _ _ r => r.exitCode ≠ 0 ∧ r.exitCode ≠ 130
  | _ => True

omit [Host] in
/-- The stored result says what the state says. -/
def TaskEntry.Told (e : TaskEntry) : Prop := ∀ r, e.result = some r → r.status = e.state.status

/-- Every stored result says what the state of its entry says. -/
structure Told (q : TaskQueueInner) : Prop where
  coherent : Coherent q
  entries : ∀ t e, q.tasks.get t = some e → e.Told

variable {op : Op} {p : RetryPolicy} {t : TaskId} {e e' : TaskEntry}

omit [Host] in
theorem TaskEntry.told_of_none (h : e.result = none) : e.Told := by
  intro r hr
  rw [h] at hr
  cases hr

omit [Host] in
theorem EntryOk.result_none (h : EntryOk t e) (hterm : e.state.isTerminal = false) : e.result = none := by
  rw [← Option.not_isSome_iff_eq_none, h.result, hterm]
  exact Bool.false_ne_true

theorem applyResult_told {w : Uuid} {r : TaskResult} {clock : Clock} {f : ResultEffect}
    (hnone : e.result = none) (htelling : r.exitCode = 0 → r.error = none)
    (h : applyResult p e w r clock = some f) : f.entry.Told := by
  unfold applyResult at h
  split at h
  next hsuccess =>
    split at h
    · cases h
    cases h
    intro r' hr'
    cases hr'
    unfold TaskResult.isSuccess at hsuccess
    rw [Bool.and_eq_true, beq_iff_eq] at hsuccess
    unfold TaskResult.status
    rw [if_pos hsuccess.1]
    rfl
  next hsuccess =>
    have hcode : r.exitCode ≠ 0 := by
      intro hzero
      refine hsuccess ?_
      unfold TaskResult.isSuccess
      rw [hzero, htelling hzero]
      rfl
    split at h
    next hcancelled =>
      cases h
      intro r' hr'
      cases hr'
      unfold TaskResult.status
      rw [if_neg hcode, if_pos hcancelled]
      rfl
    next hcancelled =>
      split at h
      · cases h
        exact TaskEntry.told_of_none hnone
      split at h
      · cases h
        exact TaskEntry.told_of_none hnone
      cases h
      intro r' hr'
      cases hr'
      unfold TaskResult.status
      rw [if_neg hcode, if_neg hcancelled]
      rfl

theorem sweepEntry_told (hnone : e.result = none) (w : Uuid) (reason : String) (immediate : Bool) (clock : Clock) :
    (sweepEntry p e t w reason immediate clock).1.Told := by
  unfold sweepEntry
  dsimp only
  split
  · split
    · exact TaskEntry.told_of_none hnone
    · exact TaskEntry.told_of_none hnone
  · intro r hr
    cases hr
    rfl

/-- A turn leaves a result that says what the state says. -/
theorem Turn.told (h : Turn op p t e e') (hop : op.Telling) (hok : EntryOk t e) : e'.Told := by
  cases h with
  | schedule queued => exact TaskEntry.told_of_none (hok.result_none (by rw [queued]; rfl))
  | takeBack _ unfinished | checkpoint _ unfinished => exact TaskEntry.told_of_none (hok.result_none unfinished)
  | start scheduled => exact TaskEntry.told_of_none (hok.result_none (by rw [scheduled]; rfl))
  | result call id active effect =>
    subst call
    exact applyResult_told (hok.result_none (not_terminal_of_active active)) hop effect
  | unsendable active call =>
    subst call
    intro r hr
    cases hr
    unfold TaskResult.status
    rw [if_neg hop.1, if_neg hop.2]
    rfl
  | sweep w reason immediate clock active =>
    exact sweepEntry_told (hok.result_none (not_terminal_of_active active)) w reason immediate clock
  | wake retrying => exact TaskEntry.told_of_none (hok.result_none (by rw [retrying]; rfl))
  | cancel reason unfinished =>
    intro r hr
    unfold cancelledEntry at hr
    rw [hok.result_none unfinished] at hr
    cases hr
    rfl

theorem Told.apply {q : TaskQueueInner} (h : Told q) (hop : op.Telling) : Told (q.apply op) where
  coherent := (apply_evolves h.coherent op).coherent h.coherent
  entries t e' he' := by
    have houtcome := apply_outcome h.coherent op t
    rw [he'] at houtcome
    cases hget : q.tasks.get t with
    | none =>
      rw [hget] at houtcome
      cases houtcome
      exact TaskEntry.told_of_none rfl
    | some e =>
      rw [hget] at houtcome
      cases houtcome with
      | same => exact h.entries t _ hget
      | turned turn => exact turn.told hop (h.coherent.entries t e hget)

omit [Host] in
theorem told_start (c : QueueConfig) : Told c.start where
  coherent := start_coherent c
  entries t e h := by simp [QueueConfig.start, withRetentionLimits] at h

theorem Told.run (ops : List Op) : ∀ {q : TaskQueueInner}, Told q → (∀ op ∈ ops, op.Telling) → Told (q.run ops) := by
  induction ops with
  | nil =>
    intro q h _
    exact h
  | cons op ops ih =>
    intro q h hops
    exact ih (h.apply (hops op List.mem_cons_self)) fun op' hop' => hops op' (List.mem_cons_of_mem op hop')

omit [Host] in
/-- What a stored result says is the state of its task. -/
theorem Told.state_of_result {q : TaskQueueInner} (h : Told q) {r : TaskResult} (hr : q.getResult t = some r) :
    ∃ s, q.getState t = some s ∧ s.isTerminal ∧ r.status = s.status := by
  obtain ⟨e, he, hresult⟩ := Option.bind_eq_some_iff.1 hr
  refine ⟨e.state, ?_, ?_, h.entries t e he r hresult⟩
  · unfold getState
    rw [he]
    rfl
  · rw [← (h.coherent.entries t e he).result, hresult]
    rfl

omit [Host] in
/-- Different terminal states are reported differently, and other states not as terminal ones. -/
theorem TaskState.eq_of_status {s s' : TaskState} (hs : s.isTerminal) (h : s'.status = s.status) : s' = s := by
  cases s <;> cases s' <;>
    first | rfl | exact absurd hs (by decide) | exact absurd h (by decide)

/-! ## The answer -/

/-- **Status answers agree with the state machine.**  `ops` lead to the queue that `get_task` sees and
`during` happens before `get_result`.  A status that names a terminal state names one that the task had
during the call; a task that is in a terminal state throughout is answered with that state, in the
status as in the name. -/
theorem status_agrees (c : QueueConfig) (ops during : List Op) (t : TaskId)
    (htelling : ∀ op ∈ ops ++ during, op.Telling) :
    (∀ info s, taskStatusResponse (c.start.run ops) ((c.start.run ops).run during) t = .ok info →
      s.isTerminal → info.status = s.status →
        ∃ pre, pre <+: during ∧ ((c.start.run ops).run pre).getState t = some s) ∧
    (∀ s, s.isTerminal → (∀ pre, pre <+: during → ((c.start.run ops).run pre).getState t = some s) →
      ∃ info, taskStatusResponse (c.start.run ops) ((c.start.run ops).run during) t = .ok info ∧
        info.status = s.status ∧ info.stateName = s.debug) := by
  have hlater : Told ((c.start.run ops).run during) := by
    have hfirst := (told_start c).run ops fun op hop => htelling op (List.mem_append_left during hop)
    exact hfirst.run during fun op hop => htelling op (List.mem_append_right ops hop)
  generalize c.start.run ops = q at hlater
  refine ⟨fun info s hinfo hs hstatus => ?_, fun s hs hstays => ?_⟩
  · unfold taskStatusResponse at hinfo
    cases hseen : q.tasks.get t with
    | none => rw [hseen] at hinfo; cases hinfo
    | some e =>
      rw [hseen] at hinfo
      cases hresult : (q.run during).getResult t with
      | some r =>
        -- the result was read last: the task is finished at that moment
        rw [hresult] at hinfo
        cases hinfo
        obtain ⟨s', hstate, -, hsame⟩ := hlater.state_of_result hresult
        refine ⟨during, List.prefix_rfl, ?_⟩
        rw [hstate, TaskState.eq_of_status hs (hsame.symm.trans hstatus)]
      | none =>
        rw [hresult] at hinfo
        cases hinfo
        refine ⟨[], List.nil_prefix, ?_⟩
        show q.getState t = some s
        unfold getState
        rw [hseen, ← TaskState.eq_of_status hs hstatus]
        rfl
  have hfirst : q.getState t = some s := hstays [] List.nil_prefix
  have hlast := hstays during List.prefix_rfl
  obtain ⟨e, hseen, hstate⟩ := Option.map_eq_some_iff.1 hfirst
  subst hstate
  unfold taskStatusResponse
  rw [hseen]
  refine ⟨_, rfl, ?_, rfl⟩
  cases hresult : (q.run during).getResult t with
  | some r =>
    obtain ⟨s', hstate', -, hsame⟩ := hlater.state_of_result hresult
    cases hstate'.symm.trans hlast
    exact hsame
  | none => rfl

end Reads

/-! ### A failure that is reported as completed -/

section Concrete

attribute [local instance] Host.blank

/-- Task 0 is submitted, handed to worker 7 and answered with `r`. -/
def answeredWith (r : TaskResult) : List Op :=
  [.submitWithPriority (Task.echo 0) 1 ⟨0, 0⟩, .scheduleTask ⟨0⟩ 7 0, .recordResultFrom 7 none r ⟨0, 0⟩]

theorem status_agrees_done : ∃ info, taskStatusResponse ((QueueConfig.small 3).start.run (answeredWith (.done 7 ⟨0⟩)))
      (((QueueConfig.small 3).start.run (answeredWith (.done 7 ⟨0⟩))).run []) ⟨0⟩ = .ok info ∧
        info.status = .completed ∧ info.stateName = "Completed" := by
  refine (status_agrees (QueueConfig.small 3) (answeredWith (.done 7 ⟨0⟩)) [] ⟨0⟩ ?_).2 .completed rfl ?_
  · intro op hop
    rw [List.append_nil] at hop
    simp only [answeredWith, List.mem_cons, List.not_mem_nil, or_false] at hop
    rcases hop with rfl | rfl | rfl
    · trivial
    · trivial
    · exact fun _ => rfl
  · intro pre hpre
    cases List.prefix_nil.1 hpre
    decide +kernel

/-- A result with exit code 0 and an error fails its task, and is reported as `Completed`. -/
theorem failed_task_reported_completed :
    let r : TaskResult := { TaskResult.done 7 ⟨0⟩ with error := some "output file missing" }
    let q := (QueueConfig.small 3).start.run (answeredWith r)
    q.getState ⟨0⟩ = some .failed ∧
      taskStatusResponse q q ⟨0⟩ =
        .ok ⟨⟨0⟩, .completed, "Failed", some 7, some "output file missing"⟩ := by
  decide +kernel

end Concrete

end OxideSwarm
