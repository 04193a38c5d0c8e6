import OxideSwarm.Queue.Accounting

/-!
# Admission control

What the limits of a queue bound, in every state a run reaches: the number of unfinished tasks, the bytes
after a task or a checkpoint was accepted, and the order of a task's checkpoints (`admission_control`).
The checks compare differently computed charges; that they agree is byte accounting (`Booked`).
-/

namespace OxideSwarm

open Std TaskQueueInner

variable [Host] {q : TaskQueueInner} {t : TaskId} {e e' : TaskEntry}

/-! ## The number of unfinished tasks -/

/-- The unfinished tasks. -/
def unfinished (q : TaskQueueInner) : Finset TaskId :=
  q.tasks.keys.filter fun t => (q.tasks.get t).any fun e => !e.state.isTerminal

omit [Host] in
theorem mem_unfinished : t ∈ unfinished q ↔ ∃ e, q.tasks.get t = some e ∧ e.state.isTerminal = false := by
  unfold unfinished
  rw [Finset.mem_filter, FMap.mem_keys]
  cases h : q.tasks.get t with
  | none | some => simp

omit [Host] in
theorem card_unfinished (q : TaskQueueInner) : (unfinished q).card = q.activeCount := rfl

theorem Turn.unfinished {op : Op} {p : RetryPolicy} (h : Turn op p t e e') : e.state.isTerminal = false := by
  cases h with
  | schedule queued =>
    rw [queued]
    rfl
  | takeBack _ unfinished | checkpoint _ unfinished | cancel _ unfinished => exact unfinished
  | start scheduled =>
    rw [scheduled]
    rfl
  | result _ _ active | unsendable active | sweep _ _ _ _ active => exact not_terminal_of_active active
  | wake retrying =>
    rw [retrying]
    rfl

/-- A task is unfinished after an operation only if it was before, or was submitted by it. -/
theorem unfinished_apply (hq : Coherent q) (op : Op) (h : t ∈ OxideSwarm.unfinished (q.apply op)) :
    t ∈ OxideSwarm.unfinished q ∨ q.tasks.get t = none ∧ ∃ task, op.submits = some task ∧ task.id = t := by
  obtain ⟨e', he', hopen⟩ := mem_unfinished.mp h
  have hout := apply_outcome hq op t
  rw [he'] at hout
  generalize hget : q.tasks.get t = o at hout
  cases hout with
  | same => exact .inl (mem_unfinished.mpr ⟨e', hget, hopen⟩)
  | accepted offered id => exact .inr ⟨rfl, _, offered, id⟩
  | turned turn => exact .inl (mem_unfinished.mpr ⟨_, hget, turn.unfinished⟩)

theorem activeCount_apply (hq : Coherent q) {cap : Nat} (hcap : q.capacity = some cap) (h : q.activeCount ≤ cap)
    (op : Op) : (q.apply op).activeCount ≤ cap := by
  rw [← card_unfinished] at h ⊢
  -- an operation that accepts nothing
  have hsubset : (∀ task, op.submits = some task → (q.apply op).tasks = q.tasks) →
      (OxideSwarm.unfinished (q.apply op)).card ≤ cap := by
    intro hrefused
    refine (Finset.card_le_card fun u hu => ?_).trans h
    rcases unfinished_apply hq op hu with hold | ⟨-, task, hsubmits, -⟩
    · exact hold
    · obtain ⟨e, he, hopen⟩ := mem_unfinished.mp hu
      rw [hrefused task hsubmits] at he
      exact mem_unfinished.mpr ⟨e, he, hopen⟩
  -- one that accepts a task
  have hinsert : ∀ task, op.submits = some task → Fits q task →
      (OxideSwarm.unfinished (q.apply op)).card ≤ cap := by
    intro task hsubmits hfits
    have hlt := hfits.capacity cap hcap
    rw [← card_unfinished] at hlt
    have hinto : OxideSwarm.unfinished (q.apply op) ⊆ insert task.id (OxideSwarm.unfinished q) := by
      intro u hu
      rcases unfinished_apply hq op hu with hold | ⟨-, task', hsubmits', hid⟩
      · exact Finset.mem_insert_of_mem hold
      · cases hsubmits.symm.trans hsubmits'
        rw [← hid]
        exact Finset.mem_insert_self _ _
    have hle := Finset.card_le_card hinto
    have hcard := Finset.card_insert_le task.id (OxideSwarm.unfinished q)
    omega
  cases op with
  | submitWithPriority task priority clock =>
    rcases submitWithPriority_cases q task priority clock with ⟨err, n, -, hout⟩ | ⟨hfits, -⟩
    · exact hsubset fun _ _ => congrArg (fun out => out.2.tasks) hout
    · exact hinsert task rfl hfits
  | trySubmitSlot slot seen clock =>
    rcases trySubmitSlot_cases q slot seen clock with ⟨err, hout⟩ | ⟨task, hslot, hfits, -⟩
    · exact hsubset fun _ _ => congrArg (fun out => out.2.2.tasks) hout
    · exact hinsert task hslot hfits
  | _ => exact hsubset fun task hsubmits => by cases hsubmits

/-! ## Bytes of a checkpoint -/

section

omit [Host]

theorem updateActiveTask_bytes (h : q.activeBytes = q.activeSizes.sum id) (hget : q.tasks.get t = some e)
    (hopen : e.state.isTerminal = false) :
    (q.updateActiveTask t).activeBytes = (q.activeSizes.del t).sum id + retainedBytes e := by
  unfold updateActiveTask
  rw [untrackActiveTask_spec h t]
  dsimp only
  rw [hget]
  simp [hopen]

theorem retainedBytes_checkpointed (e : TaskEntry) (c : CheckpointData) :
    retainedBytes (checkpointed e c) + checkpointBytes e = retainedBytes e + c.deltaState.length := by
  unfold retainedBytes taskActiveBytes checkpointBytes checkpointed
  dsimp only [Option.elim_some]
  omega

/-- A stored checkpoint keeps the bytes within the budget, or does not add to them. -/
theorem checkpointed_bytes (h : Booked q) (hget : q.tasks.get t = some e) {c : CheckpointData} (hs : Stores q e c) :
    ((q.setEntry t (checkpointed e c)).updateActiveTask t).activeBytes ≤ max q.maxActiveBytes q.activeBytes := by
  rw [updateActiveTask_bytes (q := q.setEntry t (checkpointed e c)) (e := checkpointed e c)
    h.balanced.activeBytes (by simp) hs.unfinished]
  show (q.activeSizes.del t).sum id + retainedBytes (checkpointed e c) ≤ _
  -- what the task was charged before
  have hcharged : q.activeSizes.get t = some (retainedBytes e) := by
    rw [h.charged t, hget, charge_of_open hs.unfinished]
  have hbytes : q.activeBytes = retainedBytes e + (q.activeSizes.del t).sum id := by
    rw [h.balanced.activeBytes]
    exact FMap.sum_of_get id hcharged
  have hnew := retainedBytes_checkpointed e c
  have hold := checkpointBytes_le e
  have hcap := hs.room
  unfold checkpointExceedsActiveCap at hcap
  rw [hs.newer] at hcap
  simp only [Bool.not_true, Bool.false_eq_true, if_false] at hcap
  split at hcap
  · cases hcap
  next hfits =>
  rw [show (e.task.latestCheckpoint.elim 0 fun c => c.deltaState.length) = checkpointBytes e from rfl]
    at hfits
  rw [le_max_iff]
  omega

end

theorem recordCheckpointFrom_bytes (h : Booked q) (w : Uuid) (session : Option Nat) (t : TaskId)
    (c : CheckpointData) :
    (q.recordCheckpointFrom w session t c).2.activeBytes ≤ max q.maxActiveBytes q.activeBytes := by
  have hcall := apply_performs q (.recordCheckpointFrom w session t c)
  dsimp only [apply] at hcall
  generalize (q.recordCheckpointFrom w session t c).2 = q', q.refusal _ = err at hcall ⊢
  cases hcall with
  | error | idle => exact Nat.le_max_right _ _
  | checkpointFrom get stored => exact checkpointed_bytes h get stored

theorem recordCheckpoint_bytes (h : Booked q) (t : TaskId) (c : CheckpointData) :
    (q.recordCheckpoint t c).2.activeBytes ≤ max q.maxActiveBytes q.activeBytes := by
  have hcall := apply_performs q (.recordCheckpoint t c)
  dsimp only [apply] at hcall
  generalize (q.recordCheckpoint t c).2 = q', q.refusal _ = err at hcall ⊢
  cases hcall with
  | error | idle => exact Nat.le_max_right _ _
  | checkpoint get stored => exact checkpointed_bytes h get stored

section

omit [Host]

/-! ## The order of checkpoints -/

/-- The checkpoint that `op` stores for task `t`. -/
def TaskQueueInner.storedCheckpoint (q : TaskQueueInner) (t : TaskId) : Op → Option CheckpointData
  | .recordCheckpointFrom w session u c =>
    if u = t ∧ (q.recordCheckpointFrom w session u c).1.toOption = some true then some c else none
  | .recordCheckpoint u c =>
    match q.tasks.get u with
    | some e =>
      if u = t ∧ !e.state.isTerminal ∧ (q.storeCheckpoint u e c).1.toOption = some true then some c else none
    | none => none
  | _ => none

/-- How a task's checkpoint may change when `stored` is stored. -/
def CheckpointStep (stored : Option CheckpointData) (e e' : TaskEntry) : Prop :=
  match stored with
  | some c => e'.task.latestCheckpoint = some c ∧ ∀ old ∈ e.task.latestCheckpoint, old.sequence < c.sequence
  | none => e'.task.latestCheckpoint = e.task.latestCheckpoint

theorem newer_sequence {c : CheckpointData} (h : isNewerCheckpoint e c = true) :
    ∀ old ∈ e.task.latestCheckpoint, old.sequence < c.sequence := by
  intro old hold
  unfold isNewerCheckpoint at h
  rw [Option.mem_def.mp hold] at h
  simpa using h

theorem checkpointStep_store {c : CheckpointData} (he : q.tasks.get t = some e) (hopen : e.state.isTerminal = false)
    (he' : (q.storeCheckpoint t e c).2.tasks.get t = some e') :
    CheckpointStep (if (q.storeCheckpoint t e c).1.toOption = some true then some c else none) e e' := by
  rcases storeCheckpoint_cases q t hopen c with ⟨r, hout, hrefused⟩ | ⟨hstored, hout⟩
  · rw [hout] at he' ⊢
    cases he.symm.trans he'
    rw [if_neg hrefused]
    rfl
  rw [hout] at he' ⊢
  rw [updateActiveTask_tasks, setEntry_tasks, FMap.get_set, if_pos rfl] at he'
  cases he'
  rw [if_pos (by rfl)]
  exact ⟨rfl, newer_sequence hstored.newer⟩

end

/-- An operation that offers no checkpoint for a task leaves its checkpoint alone. -/
theorem Turn.checkpoint_kept {op : Op} {p : RetryPolicy} (h : Turn op p t e e') (hop : op.checkpoints t = none) :
    e'.task.latestCheckpoint = e.task.latestCheckpoint := by
  cases h with
  | checkpoint offered => cases hop.symm.trans offered
  | result call id active effect => rw [(applyResult_entry effect).1]
  | sweep w reason immediate clock active => rw [(sweepEntry_released p e t w reason immediate clock).1]
  | schedule | takeBack | start | unsendable | wake | cancel => rfl

omit [Host] in
theorem checkpointStep_recordCheckpointFrom {w : Uuid} {session : Option Nat} {c : CheckpointData}
    (he : q.tasks.get t = some e) (he' : (q.recordCheckpointFrom w session t c).2.tasks.get t = some e') :
    CheckpointStep (q.storedCheckpoint t (.recordCheckpointFrom w session t c)) e e' := by
  have hcall : q.recordCheckpointFrom w session t c =
      if !e.state.isActive || !ownedBy e w session then (.ok false, q) else q.storeCheckpoint t e c := by
    unfold recordCheckpointFrom
    rw [he]
  rw [hcall] at he'
  simp only [storedCheckpoint, true_and, hcall]
  split at he'
  · next hcond =>
    cases he.symm.trans he'
    simp only [hcond, if_true]
    rfl
  · next hcond =>
    have hact : e.state.isActive := by
      by_contra hact
      simp [hact] at hcond
    simp only [hcond]
    exact checkpointStep_store he (not_terminal_of_active hact) he'

omit [Host] in
theorem checkpointStep_recordCheckpoint {c : CheckpointData} (he : q.tasks.get t = some e)
    (he' : (q.recordCheckpoint t c).2.tasks.get t = some e') :
    CheckpointStep (q.storedCheckpoint t (.recordCheckpoint t c)) e e' := by
  simp only [storedCheckpoint, he, true_and]
  unfold recordCheckpoint at he'
  rw [he] at he'
  dsimp only at he'
  split at he'
  · next hterm =>
    cases he.symm.trans he'
    rw [if_neg (by simp [hterm])]
    rfl
  · next hterm =>
    simp only [hterm, Bool.not_false, true_and]
    exact checkpointStep_store he (by simpa using hterm) he'

theorem checkpointStep_apply (hq : Coherent q) (op : Op) (he : q.tasks.get t = some e)
    (he' : (q.apply op).tasks.get t = some e') : CheckpointStep (q.storedCheckpoint t op) e e' := by
  -- a task that `op` offers no checkpoint for
  have hkept : op.checkpoints t = none → e'.task.latestCheckpoint = e.task.latestCheckpoint := by
    intro hop
    have hout := apply_outcome hq op t
    rw [he, he'] at hout
    cases hout with
    | same => rfl
    | turned turn => exact turn.checkpoint_kept hop
  cases op with
  | recordCheckpointFrom w session u c =>
    by_cases hu : u = t
    · subst hu
      exact checkpointStep_recordCheckpointFrom he he'
    have hnone : q.storedCheckpoint t (.recordCheckpointFrom w session u c) = none := by
      simp [storedCheckpoint, hu]
    rw [hnone]
    exact hkept (by simp [Op.checkpoints, hu])
  | recordCheckpoint u c =>
    by_cases hu : u = t
    · subst hu
      exact checkpointStep_recordCheckpoint he he'
    have hnone : q.storedCheckpoint t (.recordCheckpoint u c) = none := by
      simp only [storedCheckpoint, hu, false_and, if_false]
      split <;> rfl
    rw [hnone]
    exact hkept (by simp [Op.checkpoints, hu])
  | _ => exact hkept rfl

/-! ## Runs -/

theorem run_activeCount (ops : List Op) {cap : Nat} : ∀ q : TaskQueueInner, Coherent q → Booked q →
    q.capacity = some cap → q.activeCount ≤ cap → (q.run ops).activeCount ≤ cap := by
  induction ops with
  | nil => exact fun q _ _ _ h => h
  | cons op rest ih =>
    intro q hq hb hcap h
    have hstep := apply_posting hq hb op
    refine ih (q.apply op) ((apply_evolves hq op).coherent hq) hstep.booked ?_ (activeCount_apply hq hcap h op)
    rw [hstep.posts.limits.capacity]
    exact hcap

/-- **Admission control.**  In every state a run reaches: the number of unfinished tasks is within the
capacity; an accepted submission leaves at most `max_active_bytes` active bytes, whatever the early check
of `try_submit_slot` saw; a checkpoint leaves at most that much, or no more than there was; and whatever
operation is next, the checkpoint of a task changes only by storing one with a larger sequence number. -/
theorem admission_control (c : QueueConfig) (ops : List Op) :
    let q := c.start.run ops
    (∀ cap, c.capacity = some cap → q.activeCount ≤ cap) ∧
    (∀ task priority clock id, (q.submitWithPriority task priority clock).1 = .ok id →
      (q.submitWithPriority task priority clock).2.activeBytes ≤ c.maxActiveBytes) ∧
    (∀ slot seen clock id, (q.trySubmitSlot slot seen clock).1 = .ok id →
      (q.trySubmitSlot slot seen clock).2.2.activeBytes ≤ c.maxActiveBytes) ∧
    (∀ w session t cp, (q.recordCheckpointFrom w session t cp).2.activeBytes ≤
      max c.maxActiveBytes q.activeBytes) ∧
    (∀ t cp, (q.recordCheckpoint t cp).2.activeBytes ≤ max c.maxActiveBytes q.activeBytes) ∧
    ∀ op t e e', q.tasks.get t = some e → (q.apply op).tasks.get t = some e' →
      CheckpointStep (q.storedCheckpoint t op) e e' := by
  intro q
  have hq : Coherent q := run_coherent ops _ (start_coherent c)
  obtain ⟨hb, hlimits⟩ := run_booked ops _ (start_coherent c) (start_booked c)
  have hmax : q.maxActiveBytes = c.maxActiveBytes := hlimits.maxActiveBytes
  rw [← hmax]
  refine ⟨fun cap hcap => ?_, fun task priority clock id hok => ?_, fun slot seen clock id hok => ?_,
    recordCheckpointFrom_bytes hb, recordCheckpoint_bytes hb, fun op t e e' he he' =>
    checkpointStep_apply hq op he he'⟩
  · exact run_activeCount ops _ (start_coherent c) (start_booked c) hcap (Nat.zero_le _)
  · rcases submitWithPriority_cases q task priority clock with ⟨err, n, -, hout⟩ | ⟨hfits, hout⟩
    · rw [hout] at hok
      cases hok
    · rw [hout]
      exact hfits.bytes
  rcases trySubmitSlot_cases q slot seen clock with ⟨err, hout⟩ | ⟨task, -, hfits, hout⟩
  · rw [hout] at hok
    cases hok
  · rw [hout]
    exact hfits.bytes

end OxideSwarm
