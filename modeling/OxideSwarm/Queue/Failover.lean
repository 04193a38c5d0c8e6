import OxideSwarm.Queue.Retention

/-!
# The sweep of a lost session

`handle_session_disconnected(w, Some(s), ..)` takes every active task off worker `w` that was handed
over on session `s`, on an older one or on an unknown one, and leaves the tasks of newer sessions
alone.  What one sweep does to each entry is read off `Swept`; `session_sweep` puts it together with
the returned list, the retention of finished tasks and the fact that a second sweep finds nothing.
-/

namespace OxideSwarm

open Std TaskQueueInner

/-- The index updates of a sweep leave the assignment sets as they are. -/
theorem settleFates_assignments (fates : List (TaskId × SweepFate)) (q : TaskQueueInner) :
    (trackFailures fates (insertReadies fates (insertDelays fates q))).workerAssignments = q.workerAssignments := by
  have hmoves := ((Moves.insertDelays (P := (· ≠ .assignments)) rfl rfl fates q).trans
    (.insertReadies rfl rfl fates _)).trans (.trackFailures rfl rfl fates _)
  exact hmoves.assignments_eq rfl

/-! ## One sweep -/

section

variable [Host]

/-- The task may not be handed out again after worker `w` is lost. -/
def failoverExhausted (p : RetryPolicy) (e : TaskEntry) : Bool :=
  !(p.retryOnWorkerDisconnect && (p.failoverBudget e).1)

theorem sweepEntry_state (p : RetryPolicy) (e : TaskEntry) (t : TaskId) (w : Uuid) (reason : String)
    (immediate : Bool) (clock : Clock) : (sweepEntry p e t w reason immediate clock).1.state =
      if failoverExhausted p e then .failed else if sweepDelayMs p e immediate = 0 then .queued else .retrying := by
  cases hbudget : p.retryOnWorkerDisconnect && (p.failoverBudget e).1 with
  | true =>
    have hleft : failoverExhausted p e = false := by rw [failoverExhausted, hbudget]; rfl
    rw [hleft, if_neg Bool.false_ne_true]
    unfold sweepEntry
    dsimp only
    rw [if_pos hbudget]
    split
    · rfl
    · rfl
  | false =>
    have hexhausted : failoverExhausted p e = true := by rw [failoverExhausted, hbudget]; rfl
    rw [hexhausted, if_pos rfl]
    unfold sweepEntry
    dsimp only
    rw [hbudget]
    rfl

theorem sweepEntry_failed_iff {p : RetryPolicy} {e e' : TaskEntry} {t : TaskId} {w : Uuid} {reason : String}
    {immediate : Bool} {clock : Clock} {fate : SweepFate}
    (h : sweepEntry p e t w reason immediate clock = (e', fate)) : (fate == .failed) = failoverExhausted p e := by
  unfold sweepEntry at h
  unfold failoverExhausted
  dsimp only at h
  split at h
  next hbudget =>
    rw [hbudget]
    split at h <;> cases h <;> rfl
  next hbudget =>
    rw [Bool.eq_false_iff.2 hbudget]
    cases h
    rfl

theorem sweepTasks_idle (w : Uuid) (session : Option Nat) (reason : String) (immediate : Bool) (clock : Clock)
    (l : List TaskId) {q : TaskQueueInner} (h : ∀ t e, q.tasks.get t = some e → sweeps w session e = false) :
    sweepTasks w session reason immediate clock l q = ([], q) := by
  induction l with
  | nil => rfl
  | cons t rest ih =>
    unfold sweepTasks
    cases he : q.tasks.get t with
    | none => exact ih
    | some e =>
      dsimp only
      rw [h t e he]
      exact ih

variable {q : TaskQueueInner} {w : Uuid} {session : Option Nat} {reason : String} {immediate : Bool}
  {order : SetOrder TaskId} {clock : Clock}

/-- What became of a task: an unvisited one is kept unless it is evicted, a swept one has its new
entry unless it failed and is evicted. -/
theorem handleSessionDisconnected_get (q : TaskQueueInner) (w : Uuid) (session : Option Nat) (reason : String)
    (immediate : Bool) (order : SetOrder TaskId) (clock : Clock) (t : TaskId) :
    let out := q.handleSessionDisconnected w session reason immediate order clock
    (t ∉ out.1 ∧ (out.2.tasks.get t = q.tasks.get t ∨
      ∃ e, q.tasks.get t = some e ∧ e.state.isTerminal ∧ out.2.tasks.get t = none)) ∨
    (t ∈ out.1 ∧ ∃ e, q.tasks.get t = some e ∧ sweeps w session e ∧
      (out.2.tasks.get t = some (sweepEntry q.retryPolicy e t w reason immediate clock).1 ∨
        failoverExhausted q.retryPolicy e = true ∧ out.2.tasks.get t = none)) := by
  obtain ⟨hs, -⟩ := sweepTasks_swept w session reason immediate clock
    (order.list (q.sweptCandidates w)) q (order.nodup _)
  unfold handleSessionDisconnected
  generalize sweepTasks w session reason immediate clock (order.list (q.sweptCandidates w)) q = out at hs
  have hpruned := settleFates_pruned out.1 w out.2 t
  by_cases ht : t ∈ out.1.map Prod.fst
  · refine .inr ⟨ht, ?_⟩
    obtain ⟨⟨u, fate⟩, hmem, rfl⟩ := List.mem_map.mp ht
    obtain ⟨e, e', he, hsweeps, hse, hf⟩ := hs.swept u fate hmem
    have he' : out.2.tasks.get u = some e' := congrArg Facet.entry hf
    refine ⟨e, he, hsweeps, ?_⟩
    rcases hpruned with hsame | ⟨e1, he1, hterm, hgone⟩
    · refine .inl ?_
      rw [hsame, he', hse]
    cases he'.symm.trans he1
    refine .inr ⟨?_, hgone⟩
    have hstate := sweepEntry_state q.retryPolicy e u w reason immediate clock
    rw [hse] at hstate
    rw [hstate] at hterm
    by_contra hleft
    rw [if_neg hleft] at hterm
    split at hterm <;> cases hterm
  refine .inl ⟨ht, ?_⟩
  have hsame : out.2.tasks.get t = q.tasks.get t := get_congr (hs.other t ht)
  rw [← hsame]
  exact hpruned

/-- **The returned tasks** are those the sweep is for, each once. -/
theorem mem_handleSessionDisconnected_iff (t : TaskId) :
    t ∈ (q.handleSessionDisconnected w session reason immediate order clock).1 ↔
      ∃ e, q.tasks.get t = some e ∧ sweeps w session e := by
  constructor
  · intro ht
    rcases handleSessionDisconnected_get q w session reason immediate order clock t with ⟨hnot, -⟩ | ⟨-, e, he, hsweeps, -⟩
    · exact absurd ht hnot
    · exact ⟨e, he, hsweeps⟩
  rintro ⟨e, he, hsweeps⟩
  by_contra hnot
  rcases handleSessionDisconnected_get q w session reason immediate order clock t with ⟨-, hkept | ⟨e', he', hterm, -⟩⟩ | ⟨ht, -⟩
  · have hclear := handleSessionDisconnected_clears q w session reason immediate order clock (hkept.trans he)
    rw [hsweeps] at hclear
    cases hclear
  · cases he.symm.trans he'
    rw [not_terminal_of_active (sweeps_iff.mp hsweeps).1] at hterm
    cases hterm
  · exact hnot ht

theorem handleSessionDisconnected_nodup :
    (q.handleSessionDisconnected w session reason immediate order clock).1.Nodup :=
  (sweepTasks_swept w session reason immediate clock (order.list (q.sweptCandidates w)) q (order.nodup _)).1.nodup

/-- The finished tasks after a sweep: the newest of those that were finished and those that fail now. -/
theorem handleSessionDisconnected_terminalOrder (hq : Coherent q) :
    let out := q.handleSessionDisconnected w session reason immediate order clock
    out.2.terminalOrder <:+
      q.terminalOrder ++ out.1.filter fun t => (q.tasks.get t).any (failoverExhausted q.retryPolicy) := by
  have hretires := handleSessionDisconnected_retires hq w session reason immediate order clock
  obtain ⟨hs, -⟩ := sweepTasks_swept w session reason immediate clock
    (order.list (q.sweptCandidates w)) q (order.nodup _)
  unfold handleSessionDisconnected at hretires ⊢
  dsimp only at hretires ⊢
  generalize sweepTasks w session reason immediate clock (order.list (q.sweptCandidates w)) q = out at hs hretires
  have hfailed : failedTasks out.1 =
      (out.1.map Prod.fst).filter fun t => (q.tasks.get t).any (failoverExhausted q.retryPolicy) := by
    unfold failedTasks
    rw [List.filter_map]
    congr 1
    refine List.filter_congr fun f hf => ?_
    obtain ⟨e, e', he, -, hse, -⟩ := hs.swept f.1 f.2 hf
    rw [sweepEntry_failed_iff hse, Function.comp_apply, he]
    rfl
  rw [← hfailed]
  exact hretires.order

theorem handleSessionDisconnected_again (q : TaskQueueInner) (w : Uuid) (session : Option Nat) (reason reason' : String)
    (immediate immediate' : Bool) (order order' : SetOrder TaskId) (clock clock' : Clock) :
    let swept := (q.handleSessionDisconnected w session reason immediate order clock).2
    swept.handleSessionDisconnected w session reason' immediate' order' clock' = ([], swept) := by
  intro swept
  have hclear : ∀ t e, swept.tasks.get t = some e → sweeps w session e = false :=
    fun t e he => handleSessionDisconnected_clears q w session reason immediate order clock he
  have hset : swept.workerAssignments.get w ≠ some ∅ := by
    show (q.handleSessionDisconnected w session reason immediate order clock).2.workerAssignments.get w ≠ some ∅
    unfold handleSessionDisconnected
    rw [settleFates_assignments]
    unfold dropEmptyAssignments
    split
    · rw [FMap.get_del, if_pos rfl]
      exact nofun
    next hne => exact hne
  unfold handleSessionDisconnected
  rw [sweepTasks_idle w session reason' immediate' clock' _ hclear]
  dsimp only
  unfold dropEmptyAssignments
  rw [if_neg hset]
  rfl

/-! ## The sweep of a session -/

/-- The task is handed to `w` on session `s`, on an older or on an unknown one. -/
def TaskEntry.OnSession (e : TaskEntry) (w : Uuid) (s : Nat) : Prop :=
  (e.state = .scheduled ∨ e.state = .running) ∧ e.assignedWorkerId = some w ∧
    (e.assignedSession = none ∨ ∃ s', e.assignedSession = some s' ∧ s' ≤ s)

omit [Host] in
theorem sweeps_iff_onSession {e : TaskEntry} {s : Nat} : sweeps w (some s) e ↔ e.OnSession w s := by
  rw [sweeps_iff, TaskState.isActive_iff]
  refine and_congr_right fun _ => and_congr_right fun _ => ?_
  cases e.assignedSession with
  | none | some => simp

/-- **Session sweep.**  After `handle_session_disconnected(w, Some(s), ..)` on any reachable queue:
no active task is left on `w` with session `s`, an older or an unknown one; the entries of newer
sessions of `w`, of other workers and of nobody are unchanged unless they were finished and are
evicted, oldest first; the returned list is exactly the tasks that were on the session, each once;
each of them is queued, waits for its backoff or has failed as its failover budget says, and only a
failed one may have been evicted at once; and the sweep a second time returns nothing and changes
nothing. -/
theorem session_sweep (c : QueueConfig) (ops : List Op) (w : Uuid) (s : Nat) (reason : String) (immediate : Bool)
    (order : SetOrder TaskId) (clock : Clock) :
    let q := c.start.run ops
    let out := q.handleSessionDisconnected w (some s) reason immediate order clock
    (∀ t e, out.2.tasks.get t = some e → ¬ e.OnSession w s) ∧
    (∀ t e, q.tasks.get t = some e →
      (e.assignedWorkerId ≠ some w ∨ ∃ s', e.assignedSession = some s' ∧ s < s') →
        out.2.tasks.get t = some e ∨ e.state.isTerminal ∧ out.2.tasks.get t = none) ∧
    (∀ t, q.tasks.get t = none → out.2.tasks.get t = none) ∧
    out.2.terminalOrder <:+
      q.terminalOrder ++ out.1.filter (fun t => (q.tasks.get t).any (failoverExhausted q.retryPolicy)) ∧
    out.1.Nodup ∧
    (∀ t, t ∈ out.1 ↔ ∃ e, q.tasks.get t = some e ∧ e.OnSession w s) ∧
    (∀ t ∈ out.1, ∃ e, q.tasks.get t = some e ∧
      if failoverExhausted q.retryPolicy e then
        (∃ e', out.2.tasks.get t = some e' ∧ e'.state = .failed) ∨ out.2.tasks.get t = none
      else ∃ e', out.2.tasks.get t = some e' ∧
        e'.state = if sweepDelayMs q.retryPolicy e immediate = 0 then .queued else .retrying) ∧
    ∀ reason' immediate' order' clock',
      out.2.handleSessionDisconnected w (some s) reason' immediate' order' clock' = ([], out.2) := by
  intro q out
  have hq : Coherent q := run_coherent ops _ (start_coherent c)
  refine ⟨fun t e he hon => ?_, fun t e he hother => ?_, fun t hnone => ?_,
    handleSessionDisconnected_terminalOrder hq, handleSessionDisconnected_nodup, fun t => ?_, fun t ht => ?_,
    fun reason' immediate' order' clock' =>
      handleSessionDisconnected_again q w (some s) reason reason' immediate immediate' order order' clock clock'⟩
  · have hclear := handleSessionDisconnected_clears q w (some s) reason immediate order clock he
    rw [sweeps_iff_onSession.2 hon] at hclear
    cases hclear
  · have hnot : ¬ e.OnSession w s := by
      rintro ⟨-, hw, hsession⟩
      rcases hother with hother | ⟨s', hs', hlt⟩
      · exact hother hw
      rcases hsession with hnone | ⟨s'', hs'', hle⟩
      · cases hs'.symm.trans hnone
      · cases hs'.symm.trans hs''
        omega
    rcases handleSessionDisconnected_get q w (some s) reason immediate order clock t with
      ⟨-, hkept | ⟨e', he', hterm, hgone⟩⟩ | ⟨-, e', he', hsweeps, -⟩
    · exact .inl (hkept.trans he)
    · cases he.symm.trans he'
      exact .inr ⟨hterm, hgone⟩
    · cases he.symm.trans he'
      exact absurd (sweeps_iff_onSession.1 hsweeps) hnot
  · rcases handleSessionDisconnected_get q w (some s) reason immediate order clock t with
      ⟨-, hkept | ⟨e', he', -, -⟩⟩ | ⟨-, e', he', -, -⟩
    · exact hkept.trans hnone
    · cases hnone.symm.trans he'
    · cases hnone.symm.trans he'
  · rw [mem_handleSessionDisconnected_iff]
    simp only [sweeps_iff_onSession]
  rcases handleSessionDisconnected_get q w (some s) reason immediate order clock t with
    ⟨hnot, -⟩ | ⟨-, e, he, -, hafter⟩
  · exact absurd ht hnot
  refine ⟨e, he, ?_⟩
  have hstate := sweepEntry_state q.retryPolicy e t w reason immediate clock
  split
  next hexhausted =>
    rw [if_pos hexhausted] at hstate
    rcases hafter with hsome | ⟨-, hgone⟩
    · exact .inl ⟨_, hsome, hstate⟩
    · exact .inr hgone
  next hbudget =>
    rw [if_neg hbudget] at hstate
    rcases hafter with hsome | ⟨hexhausted, -⟩
    · exact ⟨_, hsome, hstate⟩
    · exact absurd hexhausted hbudget

end

/-! ### A failed task that is not kept -/

section Concrete

attribute [local instance] Host.blank

/-- A queue that retains no finished task and hands no task out twice. -/
def QueueConfig.forgetful : QueueConfig :=
  { QueueConfig.small 0 with retryPolicy := ⟨0, 0, 0, 0, ⟨0⟩, false, false⟩ }

def onSessionOne : List Op :=
  [.submitWithPriority (Task.echo 0) 1 ⟨0, 0⟩, .scheduleTasksBatchInSessions [(⟨0⟩, 7, 1)] 0]

/-- The swept task fails, and is gone when the call returns. -/
theorem swept_task_gone :
    let q := QueueConfig.forgetful.start.run onSessionOne
    let out := q.handleSessionDisconnected 7 (some 1) "" false
      (.byKey (fun t => t.uuid.toNat) fun _ _ h => TaskId.ext_uuid (BitVec.eq_of_toNat_eq h)) ⟨0, 0⟩
    q.getState ⟨0⟩ = some .scheduled ∧ out.1 = [⟨0⟩] ∧ out.2.getState ⟨0⟩ = none := by
  decide +kernel

end Concrete

end OxideSwarm
