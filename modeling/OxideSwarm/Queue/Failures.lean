import OxideSwarm.Queue.Runs

/-!
# Operations that fail (`master/src/queue.rs:876-1030, 1327-1563, 1635-1850, 2088-2113`)

An operation that returns an error leaves the queue as it was, up to the sequence number a refused submission
may have used up.  For most operations the code checks before it writes.  `record_result_from` and
`fail_unsendable_assignment` take the task out of the assignment set before their last check; there the reason
is that an owned, unfinished task is `Scheduled` or `Running`, from where the check cannot fail.
-/

namespace OxideSwarm

open Std TaskQueueInner

/-- `q'` is `q`, up to sequence numbers that were used up. -/
def Unaffected (q q' : TaskQueueInner) : Prop :=
  q.nextSequence ≤ q'.nextSequence ∧ q' = { q with nextSequence := q'.nextSequence }

theorem Unaffected.refl (q : TaskQueueInner) : Unaffected q q := ⟨Nat.le_refl _, rfl⟩

theorem apply_refused [Host] {q : TaskQueueInner} (hq : Coherent q) {op : Op} {err : GridError}
    (h : q.refusal op = some err) : Unaffected q (q.apply op) ∧ ∀ w session r, op.reports = some (w, session, r) →
      err = .taskNotFound r.taskId.uuid ∧ q.tasks.get r.taskId = none := by
  have hcall := apply_performs q op
  rw [h] at hcall
  generalize q.apply op = q' at hcall ⊢
  cases hcall with
  | error unknown => exact ⟨.refl q, unknown⟩
  | number grown => exact ⟨⟨grown, rfl⟩, nofun⟩
  -- the two that write before their last check: an owned, unfinished task is active
  | dropResult get owned inactive late | dropUnsendable get owned inactive late =>
    exact absurd ((hq.entries _ _ get).active_of_owned owned late) inactive

/-- **Failed operations have no effect.**  After any operations, an operation that returns an error leaves the
queue as it is, except that `next_sequence` may have grown, and a refused task stays in its slot.  The only
error of the two operations that write before their last check is that of an unknown task, which they return
before they write. -/
theorem failed_operations_have_no_effect [Host] (c : QueueConfig) (ops : List Op) :
    let q := c.start.run ops
    (∀ op err, q.refusal op = some err → q.nextSequence ≤ (q.apply op).nextSequence ∧
      q.apply op = { q with nextSequence := (q.apply op).nextSequence }) ∧
    (∀ slot seen clock err, q.refusal (.trySubmitSlot slot seen clock) = some err →
      (q.trySubmitSlot slot seen clock).2.1 = slot) ∧
    (∀ w session r clock err, q.refusal (.recordResultFrom w session r clock) = some err →
      err = .taskNotFound r.taskId.uuid ∧ q.tasks.get r.taskId = none) ∧
    ∀ w session r err, q.refusal (.failUnsendableAssignment w session r) = some err →
      err = .taskNotFound r.taskId.uuid ∧ q.tasks.get r.taskId = none := by
  intro q
  have hq : Coherent q := run_coherent ops _ (start_coherent c)
  refine ⟨fun op err h => (apply_refused hq h).1, fun slot seen clock err h => ?_, fun w session r clock err h => ?_,
    fun w session r err h => ?_⟩
  · rcases trySubmitSlot_cases q slot seen clock with ⟨err', hout⟩ | ⟨task, -, -, hout⟩
    · rw [hout]
    · dsimp only [TaskQueueInner.refusal] at h
      rw [hout] at h
      cases h
  · exact (apply_refused hq h).2 w session r rfl
  · exact (apply_refused hq h).2 w session r rfl

end OxideSwarm
