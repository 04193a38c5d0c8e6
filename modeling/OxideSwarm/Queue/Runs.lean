import OxideSwarm.Queue.Sweep

/-!
# Runs of the queue: index coherence and the task lifecycle

Every run of calls keeps the queue coherent (`run_coherent`, from the step lemma `apply_evolves`), which gives

* `indexes_match_entries`: the ready queue, the assignment sets and the terminal list say exactly
  what the entries say;
* `lifecycle_of_entries`: entries only move along `TaskState.canTransitionTo`, a terminal entry stays
  as it is until it is evicted, and results are recorded exactly in the terminal states.
-/

namespace OxideSwarm

open Std TaskQueueInner

variable [Host]

/-- What a queue is created with. -/
structure QueueConfig where
  retryPolicy : RetryPolicy
  capacity : Option Nat
  maxTerminalTasks : Nat
  maxTerminalBytes : Nat
  maxActiveBytes : Nat

/-- A new queue. -/
def QueueConfig.start (c : QueueConfig) : TaskQueueInner :=
  withRetentionLimits c.retryPolicy c.capacity c.maxTerminalTasks c.maxTerminalBytes c.maxActiveBytes

/-- A small queue without backoff, for concrete runs. -/
def QueueConfig.small (maxTerminalTasks : Nat) : QueueConfig where
  retryPolicy := ⟨3, 10, 0, 0, ⟨0⟩, false, true⟩
  capacity := none
  maxTerminalTasks := maxTerminalTasks
  maxTerminalBytes := 1000000
  maxActiveBytes := 1000000

/-! ## Every step and every run -/

theorem apply_evolves {q : TaskQueueInner} (hq : Coherent q) (op : Op) : Evolving q (q.apply op) ∅ := by
  have hcall := apply_performs q op
  generalize q.apply op = q', q.refusal op = err at hcall ⊢
  have hkeep := Evolving.refl hq
  cases hcall with
  | error | idle => exact hkeep
  | number => exact hkeep.congr fun _ => rfl
  | submit fits | fill fits => exact accept_evolves hq fits.free (fresh_ok ..) rfl _ _
  | pop ready get => exact popped_evolves hq ready get _ _
  | schedule get queued => exact scheduleEntry_evolves hq get queued _ none _
  | batch | batchInSessions => exact scheduleBatchInner_evolves _ _ q hq
  | requeue get unfinished => exact putBack_evolves hq get unfinished
  | takeBack get scheduled => exact putBack_evolves hq get (by rw [scheduled]; rfl)
  | start get scheduled => exact started_evolves hq get scheduled _
  | checkpoint get stored | checkpointFrom get stored => exact checkpointed_evolves hq get stored.unfinished _
  | dropResult get owned inactive | dropUnsendable get owned inactive =>
    exact hkeep.congr (facet_unassign_inactive hq get owned inactive)
  | result get owned unfinished effect =>
    have hact := (hq.entries _ _ get).active_of_owned owned unfinished
    obtain ⟨hcase, hmove⟩ := applyResult_cases (hq.entries _ _ get) hact effect
    exact storeEffect_evolves hq get hact (ownedBy_worker owned) hcase hmove
  | @unsendable _ _ r e get owned unfinished =>
    have hok := hq.entries _ _ get
    exact storeEffect_evolves hq get (hok.active_of_owned owned unfinished) (ownedBy_worker owned)
      (f := {
        entry := { e with state := .failed, errorMessage := r.error, result := some r }
        disposition := .terminal })
      (.finished rfl rfl rfl)
      (Or.inr ⟨unfinished, hok.finished rfl rfl rfl, Or.inr (hok.to_terminal unfinished (Or.inl rfl))⟩)
  | sweep => exact handleSessionDisconnected_evolves hq _ _ _ _ _ _
  | wake => exact processDelayedRetries_evolves hq _
  | cancel get unfinished => exact cancelled_evolves hq get unfinished _
  | limitTasks | limitBytes => exact limited_evolves hq fun _ => rfl
  | evict => exact hkeep.trim ((evictCounting_evictions _ _ _ q .refl).trims hkeep.retained)

omit [Host] in
theorem start_coherent (c : QueueConfig) : Coherent c.start where
  facets t := by
    ext x <;> simp [facet, QueueConfig.start, withRetentionLimits, Facet.of]
  entries t e h := by simp [QueueConfig.start, withRetentionLimits] at h

theorem run_coherent (ops : List Op) : ∀ q : TaskQueueInner, Coherent q → Coherent (q.run ops) := by
  induction ops with
  | nil => intro q hq; exact hq
  | cons op rest ih =>
    intro q hq
    exact ih (q.apply op) ((apply_evolves hq op).coherent hq)

/-! ## What coherence says about each index -/

section

omit [Host]
variable {q : TaskQueueInner} (hq : Coherent q)
include hq

theorem Coherent.mem_ready_iff (k : QueueOrderKey) : k ∈ q.readyQueue ↔
      ∃ e, q.tasks.get k.taskId = some e ∧ e.state = .queued ∧ k = e.readyKey k.taskId := by
  have hmem : k ∈ q.readyQueue ↔ k ∈ (facet q k.taskId).ready := by simp [facet]
  rw [hmem, hq.facets k.taskId]
  cases h : q.tasks.get k.taskId with
  | none => simp [Facet.of]
  | some e =>
    by_cases hs : e.state = .queued
    · simp [Facet.of, hs]
    · simp [Facet.of, hs]

theorem Coherent.mem_assignments_iff (t : TaskId) (w : Uuid) : (∃ s, q.workerAssignments.get w = some s ∧ t ∈ s) ↔
      ∃ e, q.tasks.get t = some e ∧ e.assignedWorkerId = some w ∧ e.state.isActive := by
  have hmem : (∃ s, q.workerAssignments.get w = some s ∧ t ∈ s) ↔ w ∈ (facet q t).holders := Iff.rfl
  rw [hmem, hq.facets t]
  cases h : q.tasks.get t with
  | none => simp [Facet.of]
  | some e =>
    by_cases hs : e.state.isActive
    · simp [Facet.of, hs]
    · simp [Facet.of, hs]

theorem Coherent.count_terminalOrder (t : TaskId) :
    q.terminalOrder.count t = if (q.tasks.get t).any (fun e => e.state.isTerminal) then 1 else 0 := by
  have hcount : q.terminalOrder.count t = (facet q t).retained := rfl
  rw [hcount, hq.facets t]
  cases h : q.tasks.get t with
  | none | some => simp [Facet.of]

theorem Coherent.sized_iff (t : TaskId) :
    (q.terminalSizes.get t).isSome ↔ ∃ e, q.tasks.get t = some e ∧ e.state.isTerminal := by
  have hsized : ((q.terminalSizes.get t).isSome : Prop) ↔ (facet q t).sized := Iff.rfl
  rw [hsized, hq.facets t]
  cases h : q.tasks.get t with
  | none | some => simp [Facet.of]

theorem Coherent.terminalOrder_nodup : q.terminalOrder.Nodup := by
  rw [List.nodup_iff_count_le_one]
  intro t
  rw [hq.count_terminalOrder t]
  split <;> omega

theorem Coherent.mem_terminalOrder_iff (t : TaskId) :
    t ∈ q.terminalOrder ↔ ∃ e, q.tasks.get t = some e ∧ e.state.isTerminal := by
  rw [← List.count_pos_iff, hq.count_terminalOrder t]
  cases h : q.tasks.get t with
  | none => simp
  | some e => by_cases hs : e.state.isTerminal <;> simp [hs]

end

omit [Host] in
theorem TaskState.isActive_iff {s : TaskState} : s.isActive ↔ s = .scheduled ∨ s = .running := by
  cases s <;> simp [TaskState.isActive]

/-- **Index coherence.**  After any operations, the ready queue holds exactly the keys of the queued
entries, the assignment sets exactly the active tasks of their workers, unassigned tasks name no
worker and no session, and the terminal list holds each terminal entry once, with the same ids as the
terminal sizes. -/
theorem indexes_match_entries (c : QueueConfig) (ops : List Op) :
    (∀ k, k ∈ (c.start.run ops).readyQueue ↔ ∃ e, (c.start.run ops).tasks.get k.taskId = some e ∧
        e.state = .queued ∧ k = ⟨e.priority, e.sequence, k.taskId⟩) ∧
    (∀ t w, (∃ s, (c.start.run ops).workerAssignments.get w = some s ∧ t ∈ s) ↔
      ∃ e, (c.start.run ops).tasks.get t = some e ∧ e.assignedWorkerId = some w ∧
        (e.state = .scheduled ∨ e.state = .running)) ∧
    (∀ t e, (c.start.run ops).tasks.get t = some e → e.state.isTerminal = false →
      e.state ≠ .scheduled → e.state ≠ .running → e.assignedWorkerId = none ∧ e.assignedSession = none) ∧
    (c.start.run ops).terminalOrder.Nodup ∧ (∀ t, t ∈ (c.start.run ops).terminalOrder ↔
      ∃ e, (c.start.run ops).tasks.get t = some e ∧ e.state.isTerminal) ∧
    (∀ t, ((c.start.run ops).terminalSizes.get t).isSome ↔ t ∈ (c.start.run ops).terminalOrder) := by
  have hq := run_coherent ops _ (start_coherent c)
  refine ⟨hq.mem_ready_iff, fun t w => ?_, fun t e h hterm hs hr => ?_, hq.terminalOrder_nodup,
    hq.mem_terminalOrder_iff, fun t => ?_⟩
  · rw [hq.mem_assignments_iff t w]
    simp only [TaskState.isActive_iff]
  · have hact : e.state.isActive = false := by
      rw [← Bool.not_eq_true, TaskState.isActive_iff]
      exact fun h => h.elim hs hr
    exact (hq.entries t e h).free hterm hact
  · rw [hq.sized_iff t, hq.mem_terminalOrder_iff t]

/-! ## Lifecycle -/

theorem apply_terminal {q : TaskQueueInner} (hq : Coherent q) {t : TaskId} {e : TaskEntry}
    (h : q.tasks.get t = some e) (hterm : e.state.isTerminal) (op : Op) :
    (q.apply op).tasks.get t = some e ∨ (q.apply op).tasks.get t = none := by
  have hc := (apply_evolves hq op).change t
  rw [h] at hc
  generalize (q.apply op).tasks.get t = o at hc
  cases hc with
  | move hm =>
    rcases hm with rfl | ⟨hnot, -⟩
    · exact .inl rfl
    · simp [hterm] at hnot
  | drop _ _ => exact .inr rfl

theorem run_terminal {t : TaskId} {e : TaskEntry} (hterm : e.state.isTerminal) (later : List Op) :
    ∀ q : TaskQueueInner, Coherent q → q.tasks.get t = some e →
      (∀ pre, pre <+: later → ((q.run pre).tasks.get t).isSome) → (q.run later).tasks.get t = some e := by
  induction later with
  | nil => intro q _ h _; exact h
  | cons op rest ih =>
    intro q hq h hstay
    refine ih (q.apply op) ((apply_evolves hq op).coherent hq) ?_ ?_
    · rcases apply_terminal hq h hterm op with hkeep | hgone
      · exact hkeep
      · have hsome := hstay [op] (by simp)
        have hone : (q.run [op]).tasks.get t = none := hgone
        simp [hone] at hsome
    · intro pre hpre
      exact hstay (op :: pre) (List.cons_prefix_cons.mpr ⟨rfl, hpre⟩)

/-- **Task lifecycle.**  An operation that changes the state of an entry follows the state machine;
a terminal entry is the same after any later operations while it is retained; an entry has a result
exactly when it is terminal. -/
theorem lifecycle_of_entries (c : QueueConfig) (ops : List Op) (t : TaskId) :
    (∀ op e e', (c.start.run ops).tasks.get t = some e → ((c.start.run ops).apply op).tasks.get t = some e' →
        e'.state ≠ e.state → e.state.canTransitionTo e'.state) ∧
    (∀ later e, (c.start.run ops).tasks.get t = some e → e.state.isTerminal →
      (∀ pre, pre <+: later → (((c.start.run ops).run pre).tasks.get t).isSome) →
        ((c.start.run ops).run later).tasks.get t = some e) ∧
    (∀ e, (c.start.run ops).tasks.get t = some e → (e.result.isSome ↔ e.state.isTerminal)) := by
  have hq := run_coherent ops _ (start_coherent c)
  refine ⟨fun op e e' h h' hne => ?_, fun later e h hterm hstay => ?_, fun e h => ?_⟩
  · have hc := (apply_evolves hq op).change t
    rw [h, h'] at hc
    cases hc with
    | move hm =>
      rcases hm with rfl | ⟨-, -, hsame | hcan⟩
      · exact absurd rfl hne
      · exact absurd hsame hne
      · exact hcan
  · exact run_terminal hterm later _ hq h hstay
  · exact (hq.entries t e h).result

end OxideSwarm
