import OxideSwarm.Queue.Runs

/-!
# What one operation does to one task

`Turn op p t e e'` lists the ways in which operation `op` rewrites the entry `e` of task `t`, with the
guard under which it does, and `TaskOutcome` adds submission and eviction.  `apply_outcome` says that this
is all: what the counters of an entry, its checkpoint or its backoff may do is read off the constructors
from here on.
-/

namespace OxideSwarm

open Std TaskQueueInner

variable [Host]

/-- `op` rewrites the entry `e` of task `t`. -/
inductive Turn (op : Op) (p : RetryPolicy) (t : TaskId) (e : TaskEntry) : TaskEntry → Prop where
  | schedule {w : Uuid} {session : Option Nat} {now : Instant} (queued : e.state = .queued) :
      Turn op p t e (scheduledEntry e w session now)
  | takeBack (requeues : op.requeues t = true) (unfinished : e.state.isTerminal = false)
      (dispatched : e.state = .scheduled ∨ op = .requeueTask t) : Turn op p t e (takenBack e)
  | start {now : Instant} (scheduled : e.state = .scheduled) :
      Turn op p t e { e with state := .running, startedInstant := some now }
  | checkpoint {c : CheckpointData} (offered : op.checkpoints t = some c)
      (unfinished : e.state.isTerminal = false) (newer : isNewerCheckpoint e c = true) :
      Turn op p t e { e with task := { e.task with latestCheckpoint := some c } }
  | result {w : Uuid} {session : Option Nat} {r : TaskResult} {clock : Clock} {f : ResultEffect}
      (call : op = .recordResultFrom w session r clock) (id : r.taskId = t) (active : e.state.isActive)
      (effect : applyResult p e w r clock = some f) : Turn op p t e f.entry
  | unsendable {w : Uuid} {session : Option Nat} {r : TaskResult} (active : e.state.isActive)
      (call : op = .failUnsendableAssignment w session r) :
      Turn op p t e { e with state := .failed, errorMessage := r.error, result := some r }
  | sweep (w : Uuid) {session : Option Nat} (reason : String) (immediate : Bool) {order : SetOrder TaskId}
      (clock : Clock) (active : e.state.isActive)
      (call : op = .handleSessionDisconnected w session reason immediate order clock) :
      Turn op p t e (sweepEntry p e t w reason immediate clock).1
  | wake {now : Instant} (retrying : e.state = .retrying) (call : op = .processDelayedRetries now) :
      Turn op p t e (woken e)
  | cancel (reason : Option String) (unfinished : e.state.isTerminal = false)
      (call : op = .cancelTaskDetailed t reason) : Turn op p t e (cancelledEntry e t reason)

/-- What `op` makes of task `t`. -/
inductive TaskOutcome (op : Op) (p : RetryPolicy) (t : TaskId) : Option TaskEntry → Option TaskEntry → Prop where
  | same {o : Option TaskEntry} : TaskOutcome op p t o o
  | accepted {task : Task} {priority sequence : Nat} {clock : Clock} (offered : op.submits = some task)
      (id : task.id = t) : TaskOutcome op p t none (some (TaskEntry.fresh task priority sequence clock))
  | turned {e e' : TaskEntry} (turn : Turn op p t e e') : TaskOutcome op p t (some e) (some e')
  | finished {e e' : TaskEntry} (turn : Turn op p t e e') (terminal : e'.state.isTerminal) :
      TaskOutcome op p t (some e) none
  | evicted {e : TaskEntry} (terminal : e.state.isTerminal) : TaskOutcome op p t (some e) none

section

variable {op : Op} {p : RetryPolicy} {q q' mid : TaskQueueInner} {t : TaskId} {e e' : TaskEntry}

theorem Pruned.outcome (h : Pruned q q') (u : TaskId) : TaskOutcome op p u (q.tasks.get u) (q'.tasks.get u) := by
  rcases h u with hsame | ⟨e, he, hterm, hgone⟩
  · rw [hsame]
    exact .same
  · rw [he, hgone]
    exact .evicted hterm

theorem outcome_of_tasks (h : q'.tasks = q.tasks) (u : TaskId) :
    TaskOutcome op p u (q.tasks.get u) (q'.tasks.get u) :=
  (Pruned.of_tasks h).outcome u

/-- An operation that rewrites one entry, and then perhaps evicts. -/
theorem outcome_of_turn (hget : q.tasks.get t = some e) (hturn : Turn op p t e e')
    (hset : mid.tasks = q.tasks.set t e') (h : Pruned mid q') (u : TaskId) :
    TaskOutcome op p u (q.tasks.get u) (q'.tasks.get u) := by
  have hmid : mid.tasks.get u = if u = t then some e' else q.tasks.get u := by rw [hset, FMap.get_set]
  by_cases hu : u = t
  · subst hu
    rw [if_pos rfl] at hmid
    rw [hget]
    rcases h u with hsame | ⟨e1, he1, hterm, hgone⟩
    · rw [hsame, hmid]
      exact .turned hturn
    · cases hmid.symm.trans he1
      rw [hgone]
      exact .finished hturn hterm
  · rw [if_neg hu] at hmid
    rw [← hmid]
    exact h.outcome u

theorem outcome_of_set (hget : q.tasks.get t = some e) (hturn : Turn op p t e e')
    (hset : q'.tasks = q.tasks.set t e') (u : TaskId) : TaskOutcome op p u (q.tasks.get u) (q'.tasks.get u) :=
  outcome_of_turn hget hturn hset (Pruned.of_tasks rfl) u

theorem outcome_of_accept {task : Task} {priority sequence : Nat} {clock : Clock} (hfree : q.tasks.get task.id = none)
    (hop : op.submits = some task) (hset : q'.tasks = q.tasks.set task.id (TaskEntry.fresh task priority sequence clock))
    (u : TaskId) : TaskOutcome op p u (q.tasks.get u) (q'.tasks.get u) := by
  rw [hset, FMap.get_set]
  split
  · next hu =>
    rw [hu, hfree]
    exact .accepted hop rfl
  · exact .same

omit [Host] in
theorem putBack_tasks (q : TaskQueueInner) : (q.putBack t e).tasks = q.tasks.set t (takenBack e) := by
  unfold putBack
  simp

theorem scheduleBatchInner_outcome (now : Instant) (l : List (TaskId × Uuid × Option Nat)) (q : TaskQueueInner)
    (u : TaskId) : TaskOutcome op p u (q.tasks.get u) ((scheduleBatchInner now l q).2.tasks.get u) := by
  rcases scheduleBatchInner_entries now l q u with hsame | ⟨e, w, session, -, he, hqueued, hnew⟩
  · rw [hsame]
    exact .same
  · rw [he, hnew]
    exact .turned (.schedule hqueued)

theorem handleSessionDisconnected_outcome (q : TaskQueueInner) (w : Uuid) (session : Option Nat)
    (reason : String) (immediate : Bool) (order : SetOrder TaskId) (clock : Clock) (u : TaskId) :
    TaskOutcome (.handleSessionDisconnected w session reason immediate order clock) q.retryPolicy u (q.tasks.get u)
      ((q.handleSessionDisconnected w session reason immediate order clock).2.tasks.get u) := by
  generalize hop : Op.handleSessionDisconnected w session reason immediate order clock = op
  obtain ⟨hs, -⟩ := sweepTasks_swept w session reason immediate clock
    (order.list (q.sweptCandidates w)) q (order.nodup _)
  unfold handleSessionDisconnected
  generalize sweepTasks w session reason immediate clock (order.list (q.sweptCandidates w)) q = out at hs
  have hpruned := settleFates_pruned out.1 w out.2
  by_cases hu : u ∈ out.1.map Prod.fst
  · obtain ⟨⟨v, fate⟩, hmem, rfl⟩ := List.mem_map.mp hu
    obtain ⟨e, e', he, hsweeps, hse, hf⟩ := hs.swept v fate hmem
    have he' : out.2.tasks.get v = some e' := congrArg Facet.entry hf
    have hturn : Turn op q.retryPolicy v e e' := by
      have hsweep : Turn op q.retryPolicy v e (sweepEntry q.retryPolicy e v w reason immediate clock).1 :=
        .sweep w reason immediate clock (sweeps_iff.mp hsweeps).1 hop.symm
      rw [hse] at hsweep
      exact hsweep
    rw [he]
    rcases hpruned v with hsame | ⟨e1, he1, hterm, hgone⟩
    · rw [hsame, he']
      exact .turned hturn
    · cases he'.symm.trans he1
      rw [hgone]
      exact .finished hturn hterm
  · have hsame : out.2.tasks.get u = q.tasks.get u := get_congr (hs.other u hu)
    rw [← hsame]
    exact hpruned.outcome u

theorem processDelayedRetries_outcome (q : TaskQueueInner) (now : Instant) (u : TaskId) :
    TaskOutcome (.processDelayedRetries now) p u (q.tasks.get u) ((q.processDelayedRetries now).2.tasks.get u) := by
  rw [processDelayedRetries_entries]
  cases q.tasks.get u with
  | none => exact .same
  | some e =>
    rw [Option.map_some]
    split
    · next hdue => exact .turned (.wake hdue.2 rfl)
    · exact .same

end

/-- **One operation, one task.** -/
theorem apply_outcome {q : TaskQueueInner} (hq : Coherent q) (op : Op) (u : TaskId) :
    TaskOutcome op q.retryPolicy u (q.tasks.get u) ((q.apply op).tasks.get u) := by
  have hcall := apply_performs q op
  generalize q.apply op = q', q.refusal op = err at hcall ⊢
  have hactive : ∀ {t e w session}, q.tasks.get t = some e → ownedBy e w session → e.state.isTerminal = false →
      e.state.isActive := fun get owned unfinished => (hq.entries _ _ get).active_of_owned owned unfinished
  cases hcall with
  | error | idle | number => exact .same
  | submit fits | fill fits => exact outcome_of_accept fits.free rfl rfl u
  | pop _ get queued | schedule get queued => exact outcome_of_set get (.schedule queued) rfl u
  | batch | batchInSessions => exact scheduleBatchInner_outcome _ _ q u
  | requeue get unfinished =>
    exact outcome_of_set get (.takeBack (by simp [Op.requeues]) unfinished (.inr rfl)) (putBack_tasks q) u
  | takeBack get scheduled =>
    exact outcome_of_set get (.takeBack (by simp [Op.requeues]) (by rw [scheduled]; rfl) (.inl scheduled))
      (putBack_tasks q) u
  | start get scheduled => exact outcome_of_set get (.start scheduled) rfl u
  | checkpoint get stored | checkpointFrom get stored =>
    exact outcome_of_set get (.checkpoint (by simp [Op.checkpoints]) stored.unfinished stored.newer)
      (updateActiveTask_tasks _ _) u
  | dropResult | dropUnsendable => exact outcome_of_tasks (unassign_tasks q _ _) u
  | result get owned unfinished effect =>
    exact outcome_of_turn get (.result rfl rfl (hactive get owned unfinished) effect) (by simp)
      (storeEffect_pruned _ _ _) u
  | unsendable get owned unfinished =>
    exact outcome_of_turn get (.unsendable (hactive get owned unfinished) rfl) (by simp)
      (trackTerminalTask_pruned _ _) u
  | sweep => exact handleSessionDisconnected_outcome q _ _ _ _ _ _ u
  | wake => exact processDelayedRetries_outcome q _ u
  | cancel get unfinished =>
    exact outcome_of_turn get (.cancel _ unfinished rfl) (by simp) (trackTerminalTask_pruned _ _) u
  | @limitTasks limit =>
    exact (enforceTerminalLimits_evictions { q with maxTerminalTasks := limit }).pruned.outcome u
  | @limitBytes limit =>
    exact (enforceTerminalLimits_evictions { q with maxTerminalBytes := limit }).pruned.outcome u
  | evict => exact (evictCounting_evictions _ _ _ _ .refl).pruned.outcome u

end OxideSwarm
