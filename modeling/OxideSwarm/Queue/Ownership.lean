import OxideSwarm.Queue.Runs

/-!
# Only the owner of a task can report on it

Results, progress, checkpoints, assignment failures and deliveries name a task and the connection
they come from.  `reports_inert` says that for a task that is assigned to another worker or session,
or that is already finished, each of them leaves the whole queue as it is: entries, indexes and byte
counters.  For a finished task this rests on index coherence, because `record_result_from` edits the
assignment set before it looks at the state.
-/

namespace OxideSwarm

open Std TaskQueueInner

section

variable [Host]

/-- `e` is not assigned to the connection `s` of worker `w`. -/
def Foreign (e : TaskEntry) (w : Uuid) (s : Nat) : Prop :=
  e.assignedWorkerId ≠ some w ∨ ∃ s', e.assignedSession = some s' ∧ s' ≠ s

/-- No report on `t` from the connection `s` of worker `w` changes the queue, and no assignment of
`t` is delivered to it. -/
structure Inert (q : TaskQueueInner) (t : TaskId) (w : Uuid) (s : Nat) : Prop where
  recordResultFrom : ∀ r clock, r.taskId = t → (q.recordResultFrom w (some s) r clock).2 = q
  markRunningFrom : ∀ now, (q.markRunningFrom w (some s) t now).2 = q
  recordCheckpointFrom : ∀ c, (q.recordCheckpointFrom w (some s) t c).2 = q
  failUnsendableAssignment : ∀ r, r.taskId = t → (q.failUnsendableAssignment w (some s) r).2 = q
  requeueDispatchFailure : (q.requeueDispatchFailure t w s).2 = q
  deliverIfScheduled : ∀ (R σ : Type) (deliver : σ → R × σ) (captured : σ),
    q.deliverIfScheduled t w s deliver captured = (none, captured)

variable {q : TaskQueueInner} {t : TaskId} {e : TaskEntry} {w : Uuid} {s : Nat}

omit [Host] in
theorem Foreign.not_owned (h : Foreign e w s) : ownedBy e w (some s) = false := by
  unfold ownedBy
  rcases h with hw | ⟨s', hs, hne⟩
  · simp [hw]
  · simp [hs, Ne.symm hne]

theorem inert_of_not_owned (h : q.tasks.get t = some e) (ho : ownedBy e w (some s) = false) :
    Inert q t w s where
  recordResultFrom r clock hr := by subst hr; simp [recordResultFrom, h, ho]
  markRunningFrom now := by simp [markRunningFrom, h, ho]
  recordCheckpointFrom c := by simp [recordCheckpointFrom, h, ho]
  failUnsendableAssignment r hr := by subst hr; simp [failUnsendableAssignment, h, ho]
  requeueDispatchFailure := by simp [requeueDispatchFailure, h, ho]
  deliverIfScheduled R σ deliver captured := by simp [deliverIfScheduled, h, ho]

omit [Host] in
theorem Coherent.unassign_terminal (hq : Coherent q) (h : q.tasks.get t = some e)
    (hterm : e.state.isTerminal) (w : Uuid) : q.unassign w t = q := by
  unfold unassign
  split
  · next held hget =>
    have hnot : t ∉ held := by
      intro ht
      obtain ⟨e', he', -, hact⟩ := (hq.mem_assignments_iff t w).mp ⟨held, hget, ht⟩
      cases h.symm.trans he'
      simp [not_terminal_of_active hact] at hterm
    rw [Finset.erase_eq_of_notMem hnot, FMap.set_eq_self hget]
  · rfl

theorem inert_of_terminal (hq : Coherent q) (h : q.tasks.get t = some e)
    (hterm : e.state.isTerminal) : Inert q t w s := by
  have hact : e.state.isActive = false := by
    by_contra ha
    simp [not_terminal_of_active (by simpa using ha)] at hterm
  have hrun : e.state.canTransitionTo .running = false := by
    cases hs : e.state <;> simp_all [TaskState.isTerminal, TaskState.canTransitionTo]
  have hsched : e.state ≠ .scheduled := by rintro hs; simp [hs, TaskState.isTerminal] at hterm
  have hun := hq.unassign_terminal h hterm w
  refine ⟨?_, ?_, ?_, ?_, ?_, ?_⟩
  · rintro r clock rfl
    simp only [recordResultFrom, h, hun, hterm, if_true]
    split <;> rfl
  · intro now
    simp only [markRunningFrom, h, hrun]
    split <;> rfl
  · intro c
    simp [recordCheckpointFrom, h, hact]
  · rintro r rfl
    simp only [failUnsendableAssignment, h, hun, hterm, if_true]
    split <;> rfl
  · simp [requeueDispatchFailure, h, hsched]
  · intro R σ deliver captured
    simp [deliverIfScheduled, h, hsched]

/-- **Reports of others, and on finished tasks, change nothing.** -/
theorem reports_inert (c : QueueConfig) (ops : List Op) (t : TaskId) (e : TaskEntry) (w : Uuid) (s : Nat)
    (h : (c.start.run ops).tasks.get t = some e) (hreport : Foreign e w s ∨ e.state.isTerminal) :
    Inert (c.start.run ops) t w s := by
  rcases hreport with hf | hterm
  · exact inert_of_not_owned h hf.not_owned
  · exact inert_of_terminal (run_coherent ops _ (start_coherent c)) h hterm

end

section

attribute [local instance] Host.blank

/-- Task 1 running on session 1 of worker 7. -/
def assignedOps : List Op :=
  [.submitWithPriority (Task.echo 1) 0 ⟨0, 0⟩, .scheduleTasksBatchInSessions [(⟨1⟩, 7, 1)] 5,
   .markRunningFrom 7 (some 1) ⟨1⟩ 6]

/-- A stranger's reports on a running task, and the owner's reports after its result. -/
theorem reports_inert_assigned :
    (∃ e, ((QueueConfig.small 10).start.run assignedOps).tasks.get ⟨1⟩ = some e ∧ Foreign e 8 1 ∧
      Inert ((QueueConfig.small 10).start.run assignedOps) ⟨1⟩ 8 1) ∧ ∃ e, ((QueueConfig.small 10).start.run
        (assignedOps ++ [.recordResultFrom 7 (some 1) (.done 7 ⟨1⟩) ⟨7, 0⟩])).tasks.get ⟨1⟩ = some e ∧
      e.state = .completed ∧ Inert ((QueueConfig.small 10).start.run
        (assignedOps ++ [.recordResultFrom 7 (some 1) (.done 7 ⟨1⟩) ⟨7, 0⟩])) ⟨1⟩ 7 1 := by
  have h1 : (((QueueConfig.small 10).start.run assignedOps).tasks.get ⟨1⟩).map
      (fun e => e.assignedWorkerId) = some (some 7) := by decide
  have h2 : (((QueueConfig.small 10).start.run
      (assignedOps ++ [.recordResultFrom 7 (some 1) (.done 7 ⟨1⟩) ⟨7, 0⟩])).tasks.get ⟨1⟩).map
      (fun e => e.state) = some .completed := by decide
  obtain ⟨e, he, hw⟩ := Option.map_eq_some_iff.mp h1
  obtain ⟨e', he', hs⟩ := Option.map_eq_some_iff.mp h2
  have hforeign : Foreign e 8 1 := Or.inl (by rw [hw]; decide)
  exact ⟨⟨e, he, hforeign, reports_inert _ _ _ e _ _ he (Or.inl hforeign)⟩,
    ⟨e', he', hs, reports_inert _ _ _ e' _ _ he' (Or.inr (by rw [hs]; rfl))⟩⟩

end

end OxideSwarm
