import OxideSwarm.Queue.Calls
import OxideSwarm.Queue.Facet

/-!
# What the operations do to the entries

`Settles q q' T` describes an operation that neither accepts, assigns nor starts tasks, as seen by somebody
who only looks tasks up: no entry appears, an entry that stays is the same task with the same
assignment as long as it is active (`Kept`), and only the tasks `T` may finish.  Entries that were
terminal already may be evicted.  There is one lemma `<operation>_settles` for each such operation;
`submitWithPriority_entries` and `scheduleBatchInner_entries` are the counterparts for the two that
do accept and assign.
-/

namespace OxideSwarm

open TaskQueueInner

/-- How an entry may change without being assigned anew. -/
structure Kept (e e' : TaskEntry) : Prop where
  task : e'.task = { e.task with latestCheckpoint := e'.task.latestCheckpoint }
  assigned : e'.state.isActive → e.state.isActive ∧ e'.assignedWorkerId = e.assignedWorkerId ∧
    e'.assignedSession = e.assignedSession
  running : e'.state = .running → e.state = .running
  settled : e.state.isTerminal → e' = e

theorem Kept.refl (e : TaskEntry) : Kept e e :=
  ⟨rfl, fun h => ⟨h, rfl, rfl⟩, fun h => h, fun _ => rfl⟩

theorem Kept.trans {e e' e'' : TaskEntry} (h : Kept e e') (h' : Kept e' e'') : Kept e e'' where
  task := by rw [h'.task, h.task]
  assigned hact := by
    obtain ⟨hact', hw', hs'⟩ := h'.assigned hact
    obtain ⟨hact0, hw, hs⟩ := h.assigned hact'
    exact ⟨hact0, hw'.trans hw, hs'.trans hs⟩
  running hrun := h.running (h'.running hrun)
  settled hterm := by
    have heq := h.settled hterm
    subst heq
    exact h'.settled hterm

theorem Kept.released {e e' : TaskEntry} (htask : e'.task = e.task) (hact : e'.state.isActive = false)
    (hterm : e.state.isTerminal = false) : Kept e e' where
  task := by rw [htask]
  assigned h := by rw [hact] at h; cases h
  running h := by rw [h] at hact; cases hact
  settled h := by rw [hterm] at h; cases h

/-- The entries after an operation that neither accepts nor assigns tasks and finishes at most `T`. -/
structure Settles (q q' : TaskQueueInner) (T : Set TaskId) : Prop where
  absent : ∀ u, q.tasks.get u = none → q'.tasks.get u = none
  kept : ∀ u e e', q.tasks.get u = some e → q'.tasks.get u = some e' → Kept e e'
  unfinished : ∀ u e, u ∉ T → q.tasks.get u = some e → e.state.isTerminal = false →
    ∃ e', q'.tasks.get u = some e' ∧ e'.state.isTerminal = false

section

variable {q q' q'' : TaskQueueInner} {T : Set TaskId} {t : TaskId} {e e' : TaskEntry}

theorem Settles.of_tasks (h : q'.tasks = q.tasks) : Settles q q' T where
  absent u hu := by rw [h]; exact hu
  kept u e e' he he' := by
    rw [h] at he'
    cases he.symm.trans he'
    exact .refl e
  unfinished u e _ he hterm := ⟨e, by rw [h]; exact he, hterm⟩

theorem Settles.trans (h : Settles q q' T) (h' : Settles q' q'' T) : Settles q q'' T where
  absent u hu := h'.absent u (h.absent u hu)
  kept u e e'' he he'' := by
    cases hmid : q'.tasks.get u with
    | none => cases (h'.absent u hmid).symm.trans he''
    | some e' => exact (h.kept u e e' he hmid).trans (h'.kept u e' e'' hmid he'')
  unfinished u e hu he hterm := by
    obtain ⟨e', he', hterm'⟩ := h.unfinished u e hu he hterm
    exact h'.unfinished u e' hu he' hterm'

theorem Settles.mono {T' : Set TaskId} (h : Settles q q' T) (hT : T ⊆ T') : Settles q q' T' :=
  ⟨h.absent, h.kept, fun u e hu => h.unfinished u e fun hu' => hu (hT hu')⟩

/-- An operation whose indexes are up to date is no different for the entries. -/
theorem Settles.congr (h : Settles q q' T) (htasks : q''.tasks = q'.tasks) : Settles q q'' T :=
  h.trans (Settles.of_tasks htasks)

theorem settles_of_set (h : q'.tasks = q.tasks.set t e') (hget : q.tasks.get t = some e)
    (hk : Kept e e') (hT : t ∈ T ∨ e'.state.isTerminal = false) : Settles q q' T where
  absent u hu := by
    have hne : u ≠ t := by
      rintro rfl
      cases hget.symm.trans hu
    rw [h, FMap.get_set, if_neg hne]
    exact hu
  kept u e1 e2 he1 he2 := by
    rw [h, FMap.get_set] at he2
    by_cases hu : u = t
    · subst hu
      cases hget.symm.trans he1
      rw [if_pos rfl] at he2
      cases he2
      exact hk
    · rw [if_neg hu] at he2
      cases he1.symm.trans he2
      exact .refl e1
  unfinished u e1 hu he1 hterm := by
    by_cases hut : u = t
    · subst hut
      exact ⟨e', by rw [h, FMap.get_set, if_pos rfl], hT.resolve_left hu⟩
    · exact ⟨e1, by rw [h, FMap.get_set, if_neg hut]; exact he1, hterm⟩

end

/-! ## Index updates leave the entries alone -/

namespace TaskQueueInner

variable (q : TaskQueueInner) (t : TaskId) (w : Uuid)

@[simp] theorem unassign_tasks : (q.unassign w t).tasks = q.tasks := by
  unfold unassign
  split <;> rfl

@[simp] theorem unassignFrom_tasks (o : Option Uuid) : (q.unassignFrom o t).tasks = q.tasks := by
  unfold unassignFrom
  split
  · exact unassign_tasks q t _
  · rfl

@[simp] theorem insertReady_tasks (k : QueueOrderKey) : (q.insertReady k).tasks = q.tasks := rfl

@[simp] theorem removeReady_tasks (k : QueueOrderKey) : (q.removeReady k).tasks = q.tasks := rfl

@[simp] theorem insertDelayed_tasks (k : DelayedRetryKey) : (q.insertDelayed k).tasks = q.tasks := rfl

@[simp] theorem removeDelayed_tasks (k : DelayedRetryKey) : (q.removeDelayed k).tasks = q.tasks := rfl

@[simp] theorem assign_tasks : (q.assign w t).tasks = q.tasks := rfl

@[simp] theorem setEntry_tasks (e : TaskEntry) : (q.setEntry t e).tasks = q.tasks.set t e := rfl

@[simp] theorem updateActiveTask_tasks : (q.updateActiveTask t).tasks = q.tasks := by
  unfold updateActiveTask
  rw [← q.untrackActiveTask_tasks t]
  dsimp only
  split
  · split <;> rfl
  · rfl

@[simp] theorem dropEmptyAssignments_tasks : (q.dropEmptyAssignments w).tasks = q.tasks := by
  unfold dropEmptyAssignments
  split <;> rfl

@[simp] theorem dropFromIndex_tasks (e : TaskEntry) : (q.dropFromIndex t e).tasks = q.tasks := by
  unfold dropFromIndex
  split
  · rfl
  · split <;> rfl
  · exact unassignFrom_tasks q t _
  · exact unassignFrom_tasks q t _
  · rfl

end TaskQueueInner

/-! ## Eviction -/

section

variable {q q' : TaskQueueInner} {T : Set TaskId}

/-- `q'` has the entries of `q` without some terminal ones. -/
def Pruned (q q' : TaskQueueInner) : Prop :=
  ∀ u, q'.tasks.get u = q.tasks.get u ∨
    ∃ e, q.tasks.get u = some e ∧ e.state.isTerminal ∧ q'.tasks.get u = none

theorem Pruned.of_tasks (h : q'.tasks = q.tasks) : Pruned q q' := fun u => Or.inl (by rw [h])

theorem Pruned.trans {q'' : TaskQueueInner} (h : Pruned q q') (h' : Pruned q' q'') : Pruned q q'' := by
  intro u
  rcases h u with hsame | ⟨e, he, hterm, hgone⟩
  · rcases h' u with hsame' | ⟨e, he, hterm, hgone⟩
    · exact .inl (hsame'.trans hsame)
    · exact .inr ⟨e, hsame.symm.trans he, hterm, hgone⟩
  refine .inr ⟨e, he, hterm, ?_⟩
  rcases h' u with hsame' | ⟨e', he', -, -⟩
  · exact hsame'.trans hgone
  · cases hgone.symm.trans he'

theorem Pruned.settles (h : Pruned q q') : Settles q q' T where
  absent u hu := by
    rcases h u with hsame | ⟨e, he, -, -⟩
    · exact hsame.trans hu
    · cases hu.symm.trans he
  kept u e e' he he' := by
    rcases h u with hsame | ⟨e1, -, -, hgone⟩
    · cases (he'.symm.trans hsame).trans he
      exact .refl e
    · cases hgone.symm.trans he'
  unfinished u e _ he hopen := by
    rcases h u with hsame | ⟨e1, he1, hterm, -⟩
    · exact ⟨e, hsame.trans he, hopen⟩
    · cases he.symm.trans he1
      rw [hterm] at hopen
      cases hopen

theorem evictOldestTerminal_pruned (h : q.evictOldestTerminal = some q') : Pruned q q' := by
  unfold evictOldestTerminal at h
  split at h
  · cases h
  next t rest _ =>
  dsimp only at h
  split at h
  · next hterm =>
    cases h
    obtain ⟨sizes, bytes, tbytes, hq⟩ :=
      ({ q with terminalOrder := rest } : TaskQueueInner).removeRetained_eq t
    intro u
    rw [hq]
    by_cases hu : u = t
    · subst hu
      cases he : q.tasks.get u with
      | none => exact .inl (by simp)
      | some e => exact .inr ⟨e, rfl, by simpa [he] using hterm, by simp⟩
    · exact .inl (by simp [hu])
  · cases h
    exact .of_tasks rfl

theorem Evictions.pruned (h : Evictions q q') : Pruned q q' := by
  induction h with
  | refl => exact .of_tasks rfl
  | tail _ hstep ih => exact ih.trans (evictOldestTerminal_pruned hstep)

theorem trackTerminalTask_pruned (q : TaskQueueInner) (t : TaskId) : Pruned q (q.trackTerminalTask t) := by
  have huntrack : Pruned q (q.untrackActiveTask t) := Pruned.of_tasks (untrackActiveTask_tasks q t)
  unfold trackTerminalTask
  dsimp only
  split
  · exact huntrack
  · refine huntrack.trans (Pruned.trans ?_ (enforceTerminalLimits_evictions _).pruned)
    exact .of_tasks rfl

theorem trackTerminalTask_settles (q : TaskQueueInner) (t : TaskId) : Settles q (q.trackTerminalTask t) T :=
  (trackTerminalTask_pruned q t).settles

/-- A terminal entry that is still there after it was tracked is unchanged. -/
theorem trackTerminalTask_get {t : TaskId} {e e' : TaskEntry} (he : q.tasks.get t = some e)
    (he' : (q.trackTerminalTask t).tasks.get t = some e') : e' = e := by
  rcases trackTerminalTask_pruned q t t with hsame | ⟨-, -, -, hgone⟩
  · exact Option.some.inj ((he'.symm.trans hsame).trans he)
  · cases hgone.symm.trans he'

theorem evictTerminalTasks_settles (q : TaskQueueInner) (maxRetained : Nat) :
    Settles q (q.evictTerminalTasks maxRetained).2 T :=
  (evictCounting_evictions maxRetained _ 0 q .refl).pruned.settles

end

/-! ## Submission and scheduling -/

section

variable [Host] {q : TaskQueueInner} {T : Set TaskId}

/-- A submission is refused and no entry changes, or its id was free and gets a queued entry. -/
theorem submitWithPriority_entries {q' : TaskQueueInner} {task : Task} {priority : Nat} {clock : Clock}
    {r : Except GridError TaskId} (h : q.submitWithPriority task priority clock = (r, q')) :
    ((∃ err, r = .error err) ∧ q'.tasks = q.tasks) ∨ (r = .ok task.id ∧ q.tasks.get task.id = none ∧
      ∃ sequence, q'.tasks = q.tasks.set task.id (TaskEntry.fresh task priority sequence clock)) := by
  rcases submitWithPriority_cases q task priority clock with ⟨err, n, -, hout⟩ | ⟨hfits, hout⟩
  · cases hout.symm.trans h
    exact .inl ⟨⟨err, rfl⟩, rfl⟩
  · cases hout.symm.trans h
    exact .inr ⟨rfl, hfits.free, q.nextSequence, rfl⟩

section

omit [Host]

/-- One assignment of a batch: nothing happens to the entries, or a queued task is scheduled. -/
theorem scheduleOne_entries (q : TaskQueueInner) (t : TaskId) (w : Uuid) (session : Option Nat) (now : Instant) :
    ((q.scheduleOne t w session now).1 = none ∧ (q.scheduleOne t w session now).2.tasks = q.tasks ∧
      ∀ e, q.tasks.get t = some e → e.state ≠ .queued) ∨ ∃ e, q.tasks.get t = some e ∧ e.state = .queued ∧
      (q.scheduleOne t w session now).1 = some (t, w, e.task) ∧
      (q.scheduleOne t w session now).2.tasks = q.tasks.set t (scheduledEntry e w session now) := by
  unfold scheduleOne
  cases h : q.tasks.get t with
  | none =>
    refine .inl ⟨rfl, rfl, ?_⟩
    intro e he
    exact absurd he (Option.some_ne_none e).symm
  | some e =>
    dsimp only
    split
    · next hqueued => exact .inr ⟨e, rfl, hqueued, rfl, rfl⟩
    next hqueued =>
    refine .inl ⟨rfl, rfl, ?_⟩
    rintro e' ⟨⟩
    exact hqueued

/-- A batch changes an entry only by scheduling a queued task as one of its assignments says. -/
theorem scheduleBatchInner_entries (now : Instant) (l : List (TaskId × Uuid × Option Nat)) :
    ∀ (q : TaskQueueInner) (u : TaskId), (scheduleBatchInner now l q).2.tasks.get u = q.tasks.get u ∨
      ∃ e w session, (u, w, session) ∈ l ∧ q.tasks.get u = some e ∧ e.state = .queued ∧
        (scheduleBatchInner now l q).2.tasks.get u = some (scheduledEntry e w session now) := by
  induction l with
  | nil => exact fun q u => Or.inl rfl
  | cons a rest ih =>
    intro q u
    obtain ⟨t, w, session⟩ := a
    have hrest := ih (q.scheduleOne t w session now).2 u
    rcases scheduleOne_entries q t w session now with ⟨-, htasks, -⟩ | ⟨e, he, hqueued, -, htasks⟩
    · rw [htasks] at hrest
      rcases hrest with hsame | ⟨e, w', session', hmem, hget, hqueued, hnew⟩
      · exact .inl hsame
      · exact .inr ⟨e, w', session', List.mem_cons_of_mem _ hmem, hget, hqueued, hnew⟩
    rw [htasks, FMap.get_set] at hrest
    by_cases hu : u = t
    · subst hu
      rw [if_pos rfl] at hrest
      rcases hrest with hsame | ⟨e', w', session', -, hget, hqueued', -⟩
      · exact .inr ⟨e, w, session, List.mem_cons_self, he, hqueued, hsame⟩
      · -- the task was just scheduled, so a later assignment does not find it queued
        cases hget
        cases hqueued'
    rw [if_neg hu] at hrest
    rcases hrest with hsame | ⟨e', w', session', hmem, hget, hqueued', hnew⟩
    · exact .inl hsame
    · exact .inr ⟨e', w', session', List.mem_cons_of_mem _ hmem, hget, hqueued', hnew⟩

/-- The entry of a task whose backoff elapsed. -/
def woken (e : TaskEntry) : TaskEntry := { e with state := .queued, retryAfterInstant := none }

theorem readyRetry_entries (q : TaskQueueInner) (t u : TaskId) : (q.readyRetry t).tasks.get u =
      (q.tasks.get u).map fun e => if t = u ∧ e.state = .retrying then woken e else e := by
  unfold readyRetry
  split
  · next e he =>
    by_cases hu : t = u
    · subst hu
      split
      · next hretrying => simp [he, hretrying, woken]
      · next hother => simp [he, hother]
    · have hne : u ≠ t := fun h => hu h.symm
      split <;> simp [hu, hne]
  next hnone =>
  by_cases hu : t = u
  · subst hu
    simp [hnone]
  · simp [hu]

/-- A loop over due retries wakes the tasks of its keys that wait. -/
theorem readyRetries_entries (keys : List DelayedRetryKey) : ∀ (q : TaskQueueInner) (u : TaskId),
    (keys.foldl (fun q k => q.readyRetry k.taskId) q).tasks.get u =
      (q.tasks.get u).map fun e => if (∃ k ∈ keys, k.taskId = u) ∧ e.state = .retrying then woken e else e := by
  induction keys with
  | nil => intro q u; simp
  | cons k rest ih =>
    intro q u
    rw [List.foldl_cons, ih, readyRetry_entries, Option.map_map]
    congr 1
    funext e
    by_cases hretrying : e.state = .retrying
    · by_cases hu : k.taskId = u
      · -- a task that was woken is not woken again
        simp [hu, hretrying, woken]
      · simp [hu, hretrying]
    · simp [hretrying]

theorem removeDelays_tasks (keys : List DelayedRetryKey) :
    ∀ q : TaskQueueInner, (keys.foldl removeDelayed q).tasks = q.tasks := by
  induction keys with
  | nil => exact fun _ => rfl
  | cons k rest ih => exact fun q => ih (q.removeDelayed k)

theorem processDelayedRetries_entries (q : TaskQueueInner) (now : Instant) (u : TaskId) :
    (q.processDelayedRetries now).2.tasks.get u = (q.tasks.get u).map fun e =>
      if (∃ k ∈ q.dueRetries now, k.taskId = u) ∧ e.state = .retrying then woken e else e := by
  unfold processDelayedRetries
  rw [readyRetries_entries, removeDelays_tasks]

theorem processDelayedRetries_settles (q : TaskQueueInner) (now : Instant) :
    Settles q (q.processDelayedRetries now).2 T where
  absent u hu := by rw [processDelayedRetries_entries, hu, Option.map_none]
  kept u e e' he he' := by
    rw [processDelayedRetries_entries, he, Option.map_some, Option.some.injEq] at he'
    subst he'
    split
    · next hdue => exact .released rfl rfl (by rw [hdue.2]; rfl)
    · exact .refl e
  unfinished u e _ he hopen := by
    refine ⟨_, by rw [processDelayedRetries_entries, he, Option.map_some], ?_⟩
    split
    · rfl
    · exact hopen

/-! ## Worker reports -/

theorem requeueDispatchFailure_settles (q : TaskQueueInner) (t : TaskId) (w : Uuid) (session : Nat) :
    Settles q (q.requeueDispatchFailure t w session).2 T := by
  unfold requeueDispatchFailure
  split
  · exact .of_tasks rfl
  next e he =>
  split
  · exact .of_tasks rfl
  next hcond =>
  rw [not_or, not_not] at hcond
  refine settles_of_set (unassign_tasks _ _ _) he (Kept.released rfl rfl ?_) (Or.inr rfl)
  rw [hcond.1]
  rfl

theorem requeueDispatchFailure_clears {q : TaskQueueInner} {t : TaskId} {w : Uuid} {session : Nat}
    {e e' : TaskEntry} (he : q.tasks.get t = some e) (hs : e.state = .scheduled)
    (howned : ownedBy e w (some session) = true)
    (he' : (q.requeueDispatchFailure t w session).2.tasks.get t = some e') : e'.state.isActive = false := by
  unfold requeueDispatchFailure at he'
  rw [he] at he'
  dsimp only at he'
  rw [if_neg (by simp [hs, howned])] at he'
  simp only [insertReady_tasks, unassign_tasks, setEntry_tasks, FMap.get_set, if_pos] at he'
  cases he'
  rfl

theorem markRunningFrom_entries (q : TaskQueueInner) (w : Uuid) (session : Option Nat) (t : TaskId) (now : Instant) :
    (q.markRunningFrom w session t now).2 = q ∨
    ∃ e, q.tasks.get t = some e ∧ e.state = .scheduled ∧ ownedBy e w session = true ∧
      (q.markRunningFrom w session t now).2.tasks =
        q.tasks.set t { e with state := .running, startedInstant := some now } := by
  unfold markRunningFrom
  split
  · exact .inl rfl
  next e he =>
  split
  · exact .inl rfl
  next howned =>
  split
  · exact .inl rfl
  · next hcan =>
    refine .inr ⟨e, he, ?_, by simpa using howned, rfl⟩
    cases hstate : e.state <;> simp [hstate, TaskState.canTransitionTo] at hcan ⊢

theorem recordCheckpointFrom_settles (q : TaskQueueInner) (w : Uuid) (session : Option Nat) (t : TaskId)
    (c : CheckpointData) : Settles q (q.recordCheckpointFrom w session t c).2 T := by
  unfold recordCheckpointFrom
  split
  · exact .of_tasks rfl
  next e he =>
  split
  · exact .of_tasks rfl
  next hcond =>
  have hact : e.state.isActive := by
    by_contra hact
    simp [hact] at hcond
  have hopen : e.state.isTerminal = false := by
    cases hs : e.state <;> simp [hs, TaskState.isActive, TaskState.isTerminal] at hact ⊢
  unfold storeCheckpoint
  split
  · exact .of_tasks rfl
  split
  · refine settles_of_set (updateActiveTask_tasks _ _) he
      ⟨rfl, fun _ => ⟨hact, rfl, rfl⟩, fun hrun => hrun, fun hterm => ?_⟩ (Or.inr hopen)
    rw [hopen] at hterm
    cases hterm
  · exact .of_tasks rfl

end

variable {f : ResultEffect} {r : TaskResult}

/-- The entry a result leads to is no longer active, and holds the result if it is terminal. -/
theorem applyResult_entry {p : RetryPolicy} {e : TaskEntry} {w : Uuid} {clock : Clock} (h : applyResult p e w r clock = some f) :
    f.entry.task = e.task ∧ f.entry.state.isActive = false ∧
      ((f.disposition = .terminal ∧ f.entry.state.isTerminal ∧ f.entry.result = some r) ∨
        (f.disposition = .requeued ∧ f.entry.state.isTerminal = false)) := by
  unfold applyResult at h
  split at h
  · split at h
    · cases h
    · cases h
      exact ⟨rfl, rfl, Or.inl ⟨rfl, rfl, rfl⟩⟩
  split at h
  · cases h
    exact ⟨rfl, rfl, Or.inl ⟨rfl, rfl, rfl⟩⟩
  split at h
  · cases h
    exact ⟨rfl, rfl, Or.inr ⟨rfl, rfl⟩⟩
  split at h
  · cases h
    exact ⟨rfl, rfl, Or.inr ⟨rfl, rfl⟩⟩
  · cases h
    exact ⟨rfl, rfl, Or.inl ⟨rfl, rfl, rfl⟩⟩

omit [Host] in
/-- Storing a result's entry: the entry is set, and the task is tracked if it is finished. -/
theorem storeEffect_pruned (q : TaskQueueInner) (t : TaskId) (f : ResultEffect) :
    Pruned (q.setEntry t f.entry) (q.storeEffect t f) := by
  have hkeys : ∀ q1 : TaskQueueInner, q1.tasks = (q.setEntry t f.entry).tasks →
      Pruned (q.setEntry t f.entry) (if f.entry.state.isTerminal then q1.trackTerminalTask t
        else q1.updateActiveTask t) := by
    intro q1 hq1
    split
    · exact (Pruned.of_tasks hq1).trans (trackTerminalTask_pruned q1 t)
    · exact .of_tasks ((updateActiveTask_tasks q1 t).trans hq1)
  apply hkeys
  cases f.readyKey <;> cases f.delayKey <;> rfl

omit [Host] in
theorem storeEffect_settles {q : TaskQueueInner} {t : TaskId} {e : TaskEntry} (he : q.tasks.get t = some e)
    (hk : Kept e f.entry) (hT : t ∈ T ∨ f.entry.state.isTerminal = false) : Settles q (q.storeEffect t f) T :=
  have hset : Settles q (q.setEntry t f.entry) T := settles_of_set rfl he hk hT
  hset.trans (storeEffect_pruned q t f).settles

omit [Host] in
theorem storeEffect_terminal {q : TaskQueueInner} (t : TaskId)
    (hterm : f.entry.state.isTerminal) (e' : TaskEntry) (he' : (q.storeEffect t f).tasks.get t = some e') :
    e' = f.entry := by
  unfold storeEffect at he'
  rw [if_pos hterm] at he'
  refine trackTerminalTask_get ?_ he'
  cases f.readyKey <;> cases f.delayKey <;> simp

/-- Whether the recorded result finished the task. -/
def ResultOutcome.finished : Except GridError ResultOutcome → Bool
  | .ok o => o.disposition == .terminal
  | .error _ => false

theorem recordResultFrom_settles (q : TaskQueueInner) (w : Uuid) (session : Option Nat) (r : TaskResult)
    (clock : Clock) : Settles q (q.recordResultFrom w session r clock).2
      {u | u = r.taskId ∧ ResultOutcome.finished (q.recordResultFrom w session r clock).1 = true} := by
  unfold recordResultFrom
  split
  · exact .of_tasks rfl
  next e he =>
  split
  · exact .of_tasks rfl
  dsimp only
  split
  · exact .of_tasks (unassign_tasks _ _ _)
  next hterm =>
  split
  · exact .of_tasks (unassign_tasks _ _ _)
  next f hf =>
  obtain ⟨htask, hact, hend⟩ := applyResult_entry hf
  have hopen : e.state.isTerminal = false := by simpa using hterm
  have hun : Settles q (q.unassign w r.taskId)
      {u | u = r.taskId ∧ ResultOutcome.finished
        (.ok ⟨f.disposition, f.entry.state, isWorkerRejection r⟩) = true} :=
    Settles.of_tasks (unassign_tasks _ _ _)
  refine hun.trans (storeEffect_settles (e := e) (by simpa using he)
    (Kept.released htask hact hopen) ?_)
  rcases hend with ⟨hdisp, -, -⟩ | ⟨-, hstate⟩
  · left
    rw [hdisp]
    exact ⟨rfl, rfl⟩
  · exact .inr hstate

/-- A recorded result that finished its task stands in the task's entry, unless that is evicted. -/
theorem recordResultFrom_recorded {q' : TaskQueueInner} {w : Uuid} {session : Option Nat}
    {clock : Clock} {out : Except GridError ResultOutcome}
    (h : q.recordResultFrom w session r clock = (out, q')) (hfin : ResultOutcome.finished out) {e' : TaskEntry}
    (he' : q'.tasks.get r.taskId = some e') :
    e'.state.isTerminal ∧ e'.result = some r ∧ ∀ o, out = .ok o → o.state = e'.state := by
  unfold recordResultFrom at h
  split at h
  · cases h
    cases hfin
  next e he =>
  split at h
  · cases h
    cases hfin
  dsimp only at h
  split at h
  · cases h
    cases hfin
  split at h
  · cases h
    cases hfin
  next f hf =>
  cases h
  obtain ⟨-, -, ⟨-, hterm, hres⟩ | ⟨hdisp, -⟩⟩ := applyResult_entry hf
  · have hstored := storeEffect_terminal (q := q.unassign w r.taskId) r.taskId hterm
    cases hstored e' he'
    refine ⟨hterm, hres, ?_⟩
    rintro o ⟨⟩
    rfl
  · simp [ResultOutcome.finished, hdisp] at hfin

theorem recordResultFrom_open {w : Uuid} {session : Option Nat} {clock : Clock}
    (h : ResultOutcome.finished (q.recordResultFrom w session r clock).1) :
    ∃ e, q.tasks.get r.taskId = some e ∧ e.state.isTerminal = false := by
  unfold recordResultFrom at h
  split at h
  · cases h
  next e he =>
  split at h
  · cases h
  split at h
  · cases h
  · next hterm => exact ⟨e, he, by simpa using hterm⟩

section

omit [Host]

theorem failUnsendableAssignment_settles (q : TaskQueueInner) (w : Uuid) (session : Option Nat)
    (r : TaskResult) : Settles q (q.failUnsendableAssignment w session r).2
      {u | u = r.taskId ∧ (q.failUnsendableAssignment w session r).1 = .ok .terminal} := by
  unfold failUnsendableAssignment
  split
  · exact .of_tasks rfl
  next e he =>
  split
  · exact .of_tasks rfl
  split
  · exact .of_tasks (unassign_tasks _ _ _)
  next hterm =>
  split
  · exact .of_tasks (unassign_tasks _ _ _)
  have hopen : e.state.isTerminal = false := by simpa using hterm
  have hun : Settles q (q.unassign w r.taskId) {u | u = r.taskId ∧
      (Except.ok ResultDisposition.terminal : Except GridError ResultDisposition) = .ok .terminal} :=
    Settles.of_tasks (unassign_tasks _ _ _)
  refine (hun.trans ?_).trans (trackTerminalTask_settles _ _)
  exact settles_of_set (e := e) rfl (by simpa using he) (Kept.released rfl rfl hopen)
    (Or.inl ⟨rfl, rfl⟩)

theorem failUnsendableAssignment_recorded {q' : TaskQueueInner} {w : Uuid} {session : Option Nat} (h : q.failUnsendableAssignment w session r = (.ok .terminal, q')) {e' : TaskEntry}
    (he' : q'.tasks.get r.taskId = some e') : e'.state.isTerminal ∧ e'.result = some r := by
  unfold failUnsendableAssignment at h
  split at h
  · cases h
  next e he =>
  split at h
  · cases h
  split at h
  · cases h
  split at h
  · cases h
  cases h
  cases trackTerminalTask_get (e := { e with
    state := .failed, errorMessage := r.error, result := some r }) (by simp) he'
  exact ⟨rfl, rfl⟩

theorem failUnsendableAssignment_open {w : Uuid} {session : Option Nat}
    (h : (q.failUnsendableAssignment w session r).1 = .ok .terminal) :
    ∃ e, q.tasks.get r.taskId = some e ∧ e.state.isTerminal = false := by
  unfold failUnsendableAssignment at h
  split at h
  · cases h
  next e he =>
  split at h
  · cases h
  split at h
  · cases h
  · next hterm => exact ⟨e, he, by simpa using hterm⟩

/-! ## Cancellation -/

theorem cancelTaskDetailed_entries {q' : TaskQueueInner} {t : TaskId} {reason : Option String}
    {out : Except GridError CancelOutcome} (h : q.cancelTaskDetailed t reason = (out, q')) :
    (q' = q ∧ ∀ o, out = .ok o → o.newlyCancelled = false) ∨
    (Settles q q' {t} ∧ (∃ e, q.tasks.get t = some e ∧ e.state.isTerminal = false) ∧
      ∃ o, out = .ok o ∧ o.newlyCancelled = true ∧ o.result.isSome ∧
      ∀ e', q'.tasks.get t = some e' → e'.state.isTerminal ∧ e'.result = o.result) := by
  unfold cancelTaskDetailed at h
  split at h
  · cases h
    exact .inl ⟨rfl, nofun⟩
  next e he =>
  split at h
  · cases h
    refine .inl ⟨rfl, ?_⟩
    rintro o ⟨⟩
    rfl
  next hterm =>
  cases h
  have hopen : e.state.isTerminal = false := by simpa using hterm
  have hidx : Settles q (q.dropFromIndex t e) {t} := Settles.of_tasks (dropFromIndex_tasks _ _ _)
  refine .inr ⟨(hidx.trans ?_).trans (trackTerminalTask_settles _ _), ⟨e, he, hopen⟩, _, rfl, rfl,
    ?_, ?_⟩
  · exact settles_of_set (e := e) rfl (by simpa using he) (Kept.released rfl rfl hopen) (Or.inl rfl)
  · unfold cancelledEntry
    dsimp only
    split
    · rfl
    · next hsome => exact Option.isSome_iff_ne_none.mpr (by simpa using hsome)
  · intro e' he'
    cases trackTerminalTask_get (e := cancelledEntry e t reason) (by simp) he'
    exact ⟨rfl, rfl⟩

end

/-! ## Failover -/

theorem sweepEntry_released (p : RetryPolicy) (e : TaskEntry) (t : TaskId) (w : Uuid) (reason : String)
    (immediate : Bool) (clock : Clock) : (sweepEntry p e t w reason immediate clock).1.task = e.task ∧
      (sweepEntry p e t w reason immediate clock).1.state.isActive = false := by
  unfold sweepEntry
  dsimp only
  split
  · split <;> exact ⟨rfl, rfl⟩
  · exact ⟨rfl, rfl⟩

theorem sweepTasks_settles (w : Uuid) (session : Option Nat) (reason : String) (immediate : Bool)
    (clock : Clock) (l : List TaskId) : ∀ q : TaskQueueInner,
      Settles q (sweepTasks w session reason immediate clock l q).2
        {u | u ∈ (sweepTasks w session reason immediate clock l q).1.map Prod.fst} := by
  induction l with
  | nil => exact fun _ => Settles.of_tasks rfl
  | cons t rest ih =>
    intro q
    unfold sweepTasks
    cases he : q.tasks.get t with
    | none => exact ih q
    | some e =>
      dsimp only
      split
      · next hsweeps =>
        obtain ⟨htask, hact⟩ := sweepEntry_released q.retryPolicy e t w reason immediate clock
        have hopen : e.state.isTerminal = false := by
          unfold sweeps at hsweeps
          cases hs : e.state <;> simp [hs, TaskState.isActive, TaskState.isTerminal] at hsweeps ⊢
        have hhead : Settles q ((q.unassign w t).setEntry t
            (sweepEntry q.retryPolicy e t w reason immediate clock).1) {t} :=
          settles_of_set (by simp) he (Kept.released htask hact hopen) (Or.inl rfl)
        refine (hhead.mono ?_).trans ((ih _).mono ?_)
        · intro u hu
          cases hu
          exact List.mem_cons_self
        · intro u hu
          exact List.mem_cons_of_mem _ hu
      · exact ih q

/-- After the first loop no visited task is left for the sweep. -/
theorem sweepTasks_clears (w : Uuid) (session : Option Nat) (reason : String) (immediate : Bool)
    (clock : Clock) (u : TaskId) (l : List TaskId) : ∀ q : TaskQueueInner,
      (u ∈ l ∨ ∀ e, q.tasks.get u = some e → sweeps w session e = false) →
      ∀ e, (sweepTasks w session reason immediate clock l q).2.tasks.get u = some e → sweeps w session e = false := by
  induction l with
  | nil => exact fun q h => h.resolve_left List.not_mem_nil
  | cons t rest ih =>
    intro q h
    -- once `u` is visited, it is not swept a second time
    have hvisited : ∀ q1 : TaskQueueInner, (∀ e, q1.tasks.get t = some e → sweeps w session e = false) →
        (u ≠ t → q1.tasks.get u = q.tasks.get u) →
        u ∈ rest ∨ ∀ e, q1.tasks.get u = some e → sweeps w session e = false := by
      intro q1 hself hother
      by_cases hu : u = t
      · subst hu
        exact .inr hself
      rcases h with hmem | hclear
      · exact .inl ((List.mem_cons.mp hmem).resolve_left hu)
      · rw [← hother hu] at hclear
        exact .inr hclear
    unfold sweepTasks
    cases he : q.tasks.get t with
    | none =>
      refine ih q (hvisited q (fun e h1 => ?_) fun _ => rfl)
      cases he.symm.trans h1
    | some e =>
      dsimp only
      split
      · obtain ⟨-, hact⟩ := sweepEntry_released q.retryPolicy e t w reason immediate clock
        refine ih _ (hvisited _ (fun e1 h1 => ?_) fun hu => ?_)
        · simp only [setEntry_tasks, FMap.get_set, if_pos, Option.some.injEq] at h1
          subst h1
          simp [sweeps, hact]
        · simp [hu]
      next hsweeps =>
      refine ih q (hvisited q (fun e1 h1 => ?_) fun _ => rfl)
      cases he.symm.trans h1
      simpa using hsweeps

variable (fates : List (TaskId × SweepFate))

section

omit [Host]

theorem insertDelays_tasks : ∀ q : TaskQueueInner, (insertDelays fates q).tasks = q.tasks := by
  induction fates with
  | nil => exact fun _ => rfl
  | cons f rest ih =>
    intro q
    obtain ⟨v, fate⟩ := f
    refine (ih _).trans ?_
    cases fate <;> simp

theorem insertReadies_tasks : ∀ q : TaskQueueInner, (insertReadies fates q).tasks = q.tasks := by
  induction fates with
  | nil => exact fun _ => rfl
  | cons f rest ih =>
    intro q
    obtain ⟨v, fate⟩ := f
    refine (ih _).trans ?_
    cases fate <;> simp

theorem trackFailures_pruned : ∀ q : TaskQueueInner, Pruned q (trackFailures fates q) := by
  induction fates with
  | nil => exact fun _ => Pruned.of_tasks rfl
  | cons f rest ih =>
    intro q
    obtain ⟨v, fate⟩ := f
    cases fate with
    | failed => exact (trackTerminalTask_pruned q v).trans (ih _)
    | ready | delayed => exact ih q

/-- The index updates after the first loop only evict. -/
theorem settleFates_pruned (w : Uuid) (q : TaskQueueInner) :
    Pruned q (trackFailures fates (insertReadies fates (insertDelays fates (q.dropEmptyAssignments w)))) := by
  refine (Pruned.of_tasks ?_).trans (trackFailures_pruned _ _)
  rw [insertReadies_tasks, insertDelays_tasks, dropEmptyAssignments_tasks]

theorem settleFates_settles (w : Uuid) (q : TaskQueueInner) :
    Settles q (trackFailures fates (insertReadies fates (insertDelays fates (q.dropEmptyAssignments w)))) T :=
  (settleFates_pruned fates w q).settles

end

section

variable (q : TaskQueueInner) (w : Uuid) (session : Option Nat) (reason : String) (immediate : Bool)
  (order : SetOrder TaskId) (clock : Clock)

theorem handleSessionDisconnected_settles :
    Settles q (q.handleSessionDisconnected w session reason immediate order clock).2
      {u | u ∈ (q.handleSessionDisconnected w session reason immediate order clock).1} :=
  (sweepTasks_settles w session reason immediate clock (order.list (q.sweptCandidates w)) q).trans
    (settleFates_settles _ w _)

theorem handleSessionDisconnected_clears {u : TaskId} {e : TaskEntry}
    (he : (q.handleSessionDisconnected w session reason immediate order clock).2.tasks.get u = some e) :
    sweeps w session e = false := by
  have hclear := sweepTasks_clears w session reason immediate clock u
    (order.list (q.sweptCandidates w)) q ?_
  · unfold handleSessionDisconnected at he
    generalize sweepTasks w session reason immediate clock (order.list (q.sweptCandidates w)) q = out
      at he hclear
    have hsettles := settleFates_settles (T := ∅) out.1 w out.2
    cases hmid : out.2.tasks.get u with
    | none => cases (hsettles.absent u hmid).symm.trans he
    | some e1 =>
      have hkept := hsettles.kept u e1 e hmid he
      by_contra hsweeps
      have hact : e.state.isActive := by
        by_contra hact
        simp [sweeps, hact] at hsweeps
      obtain ⟨hact1, hw1, hs1⟩ := hkept.assigned hact
      have hsame : sweeps w session e1 = sweeps w session e := by
        unfold sweeps
        rw [hact, hact1, hw1, hs1]
      exact hsweeps (hsame ▸ hclear e1 hmid)
  -- a task the sweep does not visit is not on the connection
  by_cases hmem : u ∈ order.list (q.sweptCandidates w)
  · exact .inl hmem
  refine .inr fun e1 h1 => ?_
  by_contra hsweeps
  apply hmem
  rw [order.mem_list, sweptCandidates, Finset.mem_union, Finset.mem_filter, FMap.mem_keys]
  refine .inr ⟨by rw [h1]; rfl, ?_⟩
  unfold sweeps at hsweeps
  simp only [Bool.not_eq_false, Bool.and_eq_true] at hsweeps
  simp [h1, hsweeps.1.1, hsweeps.1.2]

end

end

end OxideSwarm
