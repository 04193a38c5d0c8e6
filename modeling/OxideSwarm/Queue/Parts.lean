import OxideSwarm.Queue.Runs

/-!
# Which parts of the queue an operation touches

Every operation is a sequence of elementary updates (`Moves`), each of which writes one part of the queue, and
`Op.touches` says which parts these are (`apply_moves`).  Whatever an operation does not touch is then the same after
it, by one induction for each part.
-/

namespace OxideSwarm

open Std TaskQueueInner

/-- The parts of the queue that an update writes. -/
inductive QueuePart where
  | entries
  | ready
  | delayed
  | assignments
  | sequence
  | active
  | retained
  | limits
deriving DecidableEq, Repr

/-- `q'` comes out of `q` by updates of the parts in `P`. -/
inductive Moves (P : QueuePart → Bool) : TaskQueueInner → TaskQueueInner → Prop where
  | refl (q) : Moves P q q
  | trans {q q' q''} (h : Moves P q q') (h' : Moves P q' q'') : Moves P q q''
  | entry (hp : P .entries) (q t e) : Moves P q (q.setEntry t e)
  | ready (hp : P .ready) (q : TaskQueueInner) (readyQueue) : Moves P q { q with readyQueue }
  | delayed (hp : P .delayed) (q : TaskQueueInner) (delayedRetries) : Moves P q { q with delayedRetries }
  | assignments (hp : P .assignments) (q : TaskQueueInner) (workerAssignments) : Moves P q { q with workerAssignments }
  | sequence (hp : P .sequence) (q : TaskQueueInner) (nextSequence) : Moves P q { q with nextSequence }
  | active (hp : P .active) (q : TaskQueueInner) (activeSizes activeBytes) :
      Moves P q { q with activeSizes, activeBytes }
  | retained (hp : P .retained) (q : TaskQueueInner) (terminalOrder terminalSizes terminalBytes) :
      Moves P q { q with terminalOrder, terminalSizes, terminalBytes }
  | evict (hp : P .retained) (q : TaskQueueInner) (t) : Moves P q { q with tasks := q.tasks.del t }
  | limits (hp : P .limits) (q : TaskQueueInner) (maxTerminalTasks maxTerminalBytes) :
      Moves P q { q with maxTerminalTasks, maxTerminalBytes }

namespace Moves

variable {P : QueuePart → Bool} {q q' : TaskQueueInner}

/-! ## What is left alone -/

theorem tasks_eq (h : Moves P q q') (he : P .entries = false) (hr : P .retained = false) : q'.tasks = q.tasks := by
  induction h with
  | trans _ _ ih ih' => exact ih'.trans ih
  | entry hp => exact absurd hp (by simp [he])
  | evict hp => exact absurd hp (by simp [hr])
  | _ => rfl

theorem delayed_eq (h : Moves P q q') (hd : P .delayed = false) : q'.delayedRetries = q.delayedRetries := by
  induction h with
  | trans _ _ ih ih' => exact ih'.trans ih
  | delayed hp => exact absurd hp (by simp [hd])
  | _ => rfl

theorem assignments_eq (h : Moves P q q') (ha : P .assignments = false) :
    q'.workerAssignments = q.workerAssignments := by
  induction h with
  | trans _ _ ih ih' => exact ih'.trans ih
  | assignments hp => exact absurd hp (by simp [ha])
  | _ => rfl

theorem sequence_eq (h : Moves P q q') (hs : P .sequence = false) : q'.nextSequence = q.nextSequence := by
  induction h with
  | trans _ _ ih ih' => exact ih'.trans ih
  | sequence hp => exact absurd hp (by simp [hs])
  | _ => rfl

theorem active_eq (h : Moves P q q') (ha : P .active = false) :
    q'.activeSizes = q.activeSizes ∧ q'.activeBytes = q.activeBytes := by
  induction h with
  | trans _ _ ih ih' => exact ⟨ih'.1.trans ih.1, ih'.2.trans ih.2⟩
  | active hp => exact absurd hp (by simp [ha])
  | _ => exact ⟨rfl, rfl⟩

theorem retained_eq (h : Moves P q q') (hr : P .retained = false) :
    q'.terminalOrder = q.terminalOrder ∧ q'.terminalSizes = q.terminalSizes ∧ q'.terminalBytes = q.terminalBytes := by
  induction h with
  | trans _ _ ih ih' => exact ⟨ih'.1.trans ih.1, ih'.2.1.trans ih.2.1, ih'.2.2.trans ih.2.2⟩
  | retained hp => exact absurd hp (by simp [hr])
  | _ => exact ⟨rfl, rfl, rfl⟩

theorem limits_eq (h : Moves P q q') (hl : P .limits = false) :
    q'.maxTerminalTasks = q.maxTerminalTasks ∧ q'.maxTerminalBytes = q.maxTerminalBytes := by
  induction h with
  | trans _ _ ih ih' => exact ⟨ih'.1.trans ih.1, ih'.2.trans ih.2⟩
  | limits hp => exact absurd hp (by simp [hl])
  | _ => exact ⟨rfl, rfl⟩

/-- What no operation touches. -/
theorem fixed_eq (h : Moves P q q') :
    q'.retryPolicy = q.retryPolicy ∧ q'.capacity = q.capacity ∧ q'.maxActiveBytes = q.maxActiveBytes := by
  induction h with
  | trans _ _ ih ih' => exact ⟨ih'.1.trans ih.1, ih'.2.1.trans ih.2.1, ih'.2.2.trans ih.2.2⟩
  | _ => exact ⟨rfl, rfl, rfl⟩

/-- Only an eviction removes an entry. -/
theorem entries_kept (h : Moves P q q') (hr : P .retained = false) (t : TaskId) :
    (q.tasks.get t).isSome → (q'.tasks.get t).isSome := by
  induction h with
  | trans _ _ ih ih' => exact fun ht => ih' (ih ht)
  | entry hp q u e =>
    intro ht
    unfold TaskQueueInner.setEntry
    rw [FMap.get_set]
    split
    · rfl
    · exact ht
  | evict hp => exact absurd hp (by simp [hr])
  | _ => exact id

theorem foldl {α : Type} {step : TaskQueueInner → α → TaskQueueInner} (hstep : ∀ q a, Moves P q (step q a)) (l : List α) :
    ∀ q, Moves P q (l.foldl step q) := by
  induction l with
  | nil => exact refl
  | cons a rest ih => exact fun q => (hstep q a).trans (ih (step q a))

/-! ## The helpers of the operations -/

theorem unassign (hp : P .assignments) (q : TaskQueueInner) (w : Uuid) (t : TaskId) : Moves P q (q.unassign w t) := by
  unfold TaskQueueInner.unassign
  split
  · exact .assignments hp q _
  · exact .refl q

theorem unassignFrom (hp : P .assignments) (q : TaskQueueInner) (w : Option Uuid) (t : TaskId) :
    Moves P q (q.unassignFrom w t) := by
  cases w with
  | none => exact .refl q
  | some w => exact .unassign hp q w t

theorem dropEmptyAssignments (hp : P .assignments) (q : TaskQueueInner) (w : Uuid) :
    Moves P q (q.dropEmptyAssignments w) := by
  unfold TaskQueueInner.dropEmptyAssignments
  split
  · exact .assignments hp q _
  · exact .refl q

theorem untrackActiveTask (hp : P .active) (q : TaskQueueInner) (t : TaskId) : Moves P q (q.untrackActiveTask t) := by
  unfold TaskQueueInner.untrackActiveTask
  split
  · exact .active hp q _ _
  · exact .refl q

theorem updateActiveTask (hp : P .active) (q : TaskQueueInner) (t : TaskId) : Moves P q (q.updateActiveTask t) := by
  refine (untrackActiveTask hp q t).trans ?_
  unfold TaskQueueInner.updateActiveTask
  dsimp only
  split
  · split
    · exact .refl _
    · exact .active hp _ _ _
  · exact .refl _

theorem evictOldestTerminal (ha : P .active) (hr : P .retained) (h : q.evictOldestTerminal = some q') : Moves P q q' := by
  unfold TaskQueueInner.evictOldestTerminal at h
  split at h
  · cases h
  next oldest rest _ =>
  dsimp only at h
  split at h
  · cases h
    obtain ⟨sizes, bytes, tbytes, hq⟩ := ({ q with terminalOrder := rest } : TaskQueueInner).removeRetained_eq oldest
    rw [hq]
    exact ((Moves.evict hr q oldest).trans (.active ha _ sizes bytes)).trans (.retained hr _ rest _ tbytes)
  · cases h
    exact .retained hr q rest _ _

theorem evictions (ha : P .active) (hr : P .retained) (h : Evictions q q') : Moves P q q' := by
  induction h with
  | refl => exact .refl q
  | tail _ hstep ih => exact ih.trans (evictOldestTerminal ha hr hstep)

theorem trackTerminalTask (ha : P .active) (hr : P .retained) (q : TaskQueueInner) (t : TaskId) :
    Moves P q (q.trackTerminalTask t) := by
  refine (untrackActiveTask ha q t).trans ?_
  unfold TaskQueueInner.trackTerminalTask
  dsimp only
  split
  · exact .refl _
  · exact (Moves.retained hr _ _ _ _).trans (evictions ha hr (enforceTerminalLimits_evictions _))

theorem dropFromIndex (hr : P .ready) (hd : P .delayed) (ha : P .assignments) (q : TaskQueueInner) (t : TaskId)
    (e : TaskEntry) : Moves P q (q.dropFromIndex t e) := by
  unfold TaskQueueInner.dropFromIndex
  split
  · exact .ready hr q _
  · split
    · exact .delayed hd q _
    · exact .refl q
  · exact unassignFrom ha q _ t
  · exact unassignFrom ha q _ t
  · exact .refl q

theorem insertDelays (hd : P .delayed) (ha : P .active) (fates : List (TaskId × SweepFate)) :
    ∀ q, Moves P q (insertDelays fates q) := by
  refine foldl (fun q f => ?_) fates
  split
  · exact (Moves.delayed hd q _).trans (updateActiveTask ha _ _)
  · exact .refl q

theorem insertReadies (hr : P .ready) (ha : P .active) (fates : List (TaskId × SweepFate)) :
    ∀ q, Moves P q (insertReadies fates q) := by
  refine foldl (fun q f => ?_) fates
  split
  · exact (Moves.ready hr q _).trans (updateActiveTask ha _ _)
  · exact .refl q

theorem trackFailures (ha : P .active) (hr : P .retained) (fates : List (TaskId × SweepFate)) :
    ∀ q, Moves P q (trackFailures fates q) := by
  refine foldl (fun q f => ?_) fates
  split
  · exact trackTerminalTask ha hr q _
  · exact .refl q

theorem readyRetry (he : P .entries) (hr : P .ready) (q : TaskQueueInner) (t : TaskId) : Moves P q (q.readyRetry t) := by
  unfold TaskQueueInner.readyRetry
  split
  · split
    · exact (Moves.entry he q _ _).trans (.ready hr _ _)
    · exact .refl q
  · exact .refl q

theorem scheduleBatchInner (he : P .entries) (hr : P .ready) (ha : P .assignments) (now : Instant)
    (l : List (TaskId × Uuid × Option Nat)) : ∀ q, Moves P q (scheduleBatchInner now l q).2 := by
  induction l with
  | nil => exact refl
  | cons a rest ih =>
    refine fun q => Moves.trans ?_ (ih (q.scheduleOne a.1 a.2.1 a.2.2 now).2)
    unfold scheduleOne
    split
    · exact .refl q
    · split
      · exact ((Moves.ready hr q _).trans (.entry he _ _ _)).trans (.assignments ha _ _)
      · exact .ready hr q _

variable [Host]

theorem sweepTasks (he : P .entries) (ha : P .assignments) (w : Uuid) (session : Option Nat) (reason : String)
    (immediate : Bool) (clock : Clock) (l : List TaskId) :
    ∀ q, Moves P q (sweepTasks w session reason immediate clock l q).2 := by
  induction l with
  | nil => exact refl
  | cons t rest ih =>
    intro q
    unfold TaskQueueInner.sweepTasks
    split
    · exact ih q
    · split
      · exact ((unassign ha q w t).trans (.entry he _ t _)).trans (ih _)
      · exact ih q

end Moves

/-! ## The operations -/

variable [Host]

/-- The parts of the queue that an operation may write. -/
def Op.touches : Op → QueuePart → Bool
  | .submitWithPriority .. => (· ∈ [.entries, .ready, .sequence, .active])
  | .trySubmitSlot slot .. => fun p => slot.isSome && p ∈ [.entries, .ready, .sequence, .active]
  | .popAndSchedule .. | .scheduleTask .. | .scheduleTasksBatch .. | .scheduleTasksBatchInSessions .. | .requeueTask ..
  | .requeueDispatchFailure .. => (· ∈ [.entries, .ready, .assignments])
  | .markRunningFrom .. | .recordCheckpoint .. | .recordCheckpointFrom .. => (· ∈ [.entries, .active])
  | .failUnsendableAssignment .. => (· ∈ [.entries, .assignments, .active, .retained])
  | .processDelayedRetries .. => (· ∈ [.entries, .ready, .delayed])
  | .recordResultFrom .. | .handleSessionDisconnected .. | .cancelTaskDetailed .. =>
    (· ∈ [.entries, .ready, .delayed, .assignments, .active, .retained])
  | .setMaxTerminalTasks .. | .setMaxTerminalBytes .. => (· ∈ [.active, .retained, .limits])
  | .evictTerminalTasks .. => (· ∈ [.active, .retained])

omit [Host] in
theorem accept_moves {P : QueuePart → Bool} (he : P .entries) (hr : P .ready) (hs : P .sequence) (ha : P .active)
    (q : TaskQueueInner) (t : TaskId) (e : TaskEntry) (bytes n : Nat) :
    Moves P q (({ q with nextSequence := n } : TaskQueueInner).accept t e bytes) :=
  (((Moves.sequence hs q n).trans (.entry he _ t e)).trans (.active ha _ _ _)).trans (.ready hr _ _)

omit [Host] in
theorem storeEffect_moves {P : QueuePart → Bool} (he : P .entries) (hr : P .ready) (hd : P .delayed) (ha : P .active)
    (ht : P .retained) (q : TaskQueueInner) (t : TaskId) (f : ResultEffect) : Moves P q (q.storeEffect t f) := by
  have hend : ∀ q', Moves P q q' →
      Moves P q (if f.entry.state.isTerminal then q'.trackTerminalTask t else q'.updateActiveTask t) := by
    intro q' h
    split
    · exact h.trans (.trackTerminalTask ha ht q' t)
    · exact h.trans (.updateActiveTask ha q' t)
  have hset := Moves.entry he q t f.entry
  unfold storeEffect
  cases f.delayKey with
  | none =>
    cases f.readyKey with
    | none => exact hend _ hset
    | some k => exact hend _ (hset.trans (.ready hr _ _))
  | some d =>
    cases f.readyKey with
    | none => exact hend _ (hset.trans (.delayed hd _ _))
    | some k => exact hend _ ((hset.trans (.delayed hd _ _)).trans (.ready hr _ _))

/-- **What an operation writes.** -/
theorem apply_moves (q : TaskQueueInner) (op : Op) : Moves op.touches q (q.apply op) := by
  have hcall := apply_performs q op
  generalize q.apply op = q', q.refusal op = err at hcall ⊢
  cases hcall with
  | error | idle => exact .refl q
  | number => exact .sequence rfl q _
  | submit | fill => exact accept_moves rfl rfl rfl rfl q _ _ _ _
  | pop | schedule => exact ((Moves.ready rfl q _).trans (.entry rfl _ _ _)).trans (.assignments rfl _ _)
  | batch | batchInSessions => exact .scheduleBatchInner rfl rfl rfl _ _ q
  | requeue | takeBack => exact ((Moves.unassignFrom rfl q _ _).trans (.entry rfl _ _ _)).trans (.ready rfl _ _)
  | start => exact .entry rfl q _ _
  | checkpoint | checkpointFrom => exact (Moves.entry rfl q _ _).trans (.updateActiveTask rfl _ _)
  | dropResult | dropUnsendable => exact .unassign rfl q _ _
  | result => exact (Moves.unassign rfl q _ _).trans (storeEffect_moves rfl rfl rfl rfl rfl _ _ _)
  | unsendable =>
    exact ((Moves.unassign rfl q _ _).trans (.entry rfl _ _ _)).trans (.trackTerminalTask rfl rfl _ _)
  | @sweep w session reason immediate order clock =>
    exact ((((Moves.sweepTasks rfl rfl w session reason immediate clock _ q).trans
      (.dropEmptyAssignments rfl _ w)).trans (.insertDelays rfl rfl _ _)).trans
      (.insertReadies rfl rfl _ _)).trans (.trackFailures rfl rfl _ _)
  | wake =>
    exact (Moves.foldl (fun q _ => .delayed rfl q _) _ q).trans
      (.foldl (fun q (k : DelayedRetryKey) => .readyRetry rfl rfl q k.taskId) _ _)
  | cancel =>
    exact ((Moves.dropFromIndex rfl rfl rfl q _ _).trans (.entry rfl _ _ _)).trans (.trackTerminalTask rfl rfl _ _)
  | limitTasks | limitBytes =>
    exact (Moves.limits rfl q _ _).trans (.evictions rfl rfl (enforceTerminalLimits_evictions _))
  | evict => exact .evictions rfl rfl (evictCounting_evictions _ _ _ _ .refl)

end OxideSwarm
