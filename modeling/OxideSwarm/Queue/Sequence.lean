import OxideSwarm.Queue.Parts
import OxideSwarm.Queue.Turns

/-!
# Submission order (`master/src/queue.rs:983-1030`)

Every accepted task takes the next sequence number, and no later operation changes the priority or the
sequence number of an entry (`Turn.rank`).  So two tasks the queue knows never share a number, and a task
keeps its place in the submission order for as long as the queue knows it.
-/

namespace OxideSwarm

open Std TaskQueueInner

/-! ## Which operations take a number -/

variable [Host]

theorem apply_nextSequence (q : TaskQueueInner) {op : Op} (hop : op.submits = none) :
    (q.apply op).nextSequence = q.nextSequence := by
  refine (apply_moves q op).sequence_eq ?_
  cases op with
  | submitWithPriority task priority clock => cases hop
  | trySubmitSlot slot seen clock =>
    rw [show slot = none from hop]
    rfl
  | _ => rfl

theorem submission_entries (q : TaskQueueInner) {op : Op} {task : Task} (hop : op.submits = some task) :
    ((q.apply op).tasks = q.tasks ∧ q.nextSequence ≤ (q.apply op).nextSequence) ∨
    ∃ priority clock, (q.apply op).nextSequence = q.nextSequence + 1 ∧
      (q.apply op).tasks = q.tasks.set task.id (TaskEntry.fresh task priority q.nextSequence clock) := by
  cases op with
  | submitWithPriority task priority clock =>
    cases hop
    dsimp only [apply]
    rcases submitWithPriority_cases q task priority clock with ⟨err, n, hle, hout⟩ | ⟨-, hout⟩
    · rw [hout]
      exact .inl ⟨rfl, hle⟩
    · rw [hout]
      exact .inr ⟨priority, clock, rfl, rfl⟩
  | trySubmitSlot slot seen clock =>
    dsimp only [apply]
    rcases trySubmitSlot_cases q slot seen clock with ⟨err, hout⟩ | ⟨task', rfl, -, hout⟩
    · rw [hout]
      exact .inl ⟨rfl, le_rfl⟩
    · cases hop
      rw [hout]
      exact .inr ⟨0, clock, rfl, rfl⟩
  | _ => exact absurd hop (Option.some_ne_none task).symm

/-! ## The rank of a task -/

/-- What places an entry among the others. -/
def TaskEntry.rank (e : TaskEntry) : Nat × Nat := (e.priority, e.sequence)

omit [Host] in
theorem TaskEntry.readyKey_eq_iff {e e' : TaskEntry} {t t' : TaskId} :
    e.readyKey t = e'.readyKey t' ↔ e.rank = e'.rank ∧ t = t' := by
  simp only [TaskEntry.readyKey, TaskEntry.rank, QueueOrderKey.mk.injEq, Prod.mk.injEq, and_assoc]

variable {op : Op} {p : RetryPolicy} {t : TaskId} {e e' : TaskEntry}

theorem applyResult_rank {w : Uuid} {r : TaskResult} {clock : Clock} {f : ResultEffect}
    (h : applyResult p e w r clock = some f) : f.entry.rank = e.rank := by
  unfold applyResult at h
  split at h
  · split at h
    · exact absurd h (Option.some_ne_none f).symm
    · cases h
      rfl
  split at h
  · cases h
    rfl
  split at h
  · cases h
    rfl
  · split at h <;> cases h <;> rfl

theorem sweepEntry_rank (p : RetryPolicy) (e : TaskEntry) (t : TaskId) (w : Uuid) (reason : String)
    (immediate : Bool) (clock : Clock) : (sweepEntry p e t w reason immediate clock).1.rank = e.rank := by
  unfold sweepEntry
  dsimp only
  split
  · split <;> rfl
  · rfl

theorem Turn.rank (h : Turn op p t e e') : e'.rank = e.rank := by
  cases h with
  | result call id active effect => exact applyResult_rank effect
  | sweep w reason immediate clock active call => exact sweepEntry_rank p e t w reason immediate clock
  | _ => rfl

/-! ## Numbers are given once -/

/-- The numbers of the stored entries are all different, and the next one is new. -/
structure Sequenced (q : TaskQueueInner) : Prop where
  below : ∀ t e, q.tasks.get t = some e → e.sequence < q.nextSequence
  unique : ∀ t t' e e', q.tasks.get t = some e → q.tasks.get t' = some e' → e.sequence = e'.sequence → t = t'

omit [Host] in
theorem start_sequenced (c : QueueConfig) : Sequenced c.start where
  below _ _ h := absurd h (Option.some_ne_none _).symm
  unique _ _ _ _ h := absurd h (Option.some_ne_none _).symm

/-- An operation that accepts nothing keeps only entries it found, at their ranks. -/
theorem kept_rank {q : TaskQueueInner} (hq : Coherent q) (hop : op.submits = none)
    (he : (q.apply op).tasks.get t = some e') : ∃ e, q.tasks.get t = some e ∧ e'.rank = e.rank := by
  have houtcome := apply_outcome hq op t
  rw [he] at houtcome
  generalize hold : q.tasks.get t = old at houtcome
  cases houtcome with
  | same => exact ⟨_, rfl, rfl⟩
  | accepted offered id => exact absurd (hop.symm.trans offered) (Option.some_ne_none _).symm
  | turned turn => exact ⟨_, rfl, turn.rank⟩

theorem Sequenced.apply {q : TaskQueueInner} (h : Sequenced q) (hq : Coherent q) (op : Op) :
    Sequenced (q.apply op) := by
  cases hop : op.submits with
  | none =>
    refine ⟨fun t e he => ?_, fun t t' e e' he he' hseq => ?_⟩
    · obtain ⟨old, hold, hrank⟩ := kept_rank hq hop he
      have hseq : e.sequence = old.sequence := congrArg Prod.snd hrank
      rw [apply_nextSequence q hop, hseq]
      exact h.below t old hold
    obtain ⟨old, hold, hrank⟩ := kept_rank hq hop he
    obtain ⟨old', hold', hrank'⟩ := kept_rank hq hop he'
    refine h.unique t t' old old' hold hold' ?_
    calc old.sequence = e.sequence := (congrArg Prod.snd hrank).symm
      _ = e'.sequence := hseq
      _ = old'.sequence := congrArg Prod.snd hrank'
  | some task =>
    rcases submission_entries q hop with ⟨htasks, hle⟩ | ⟨priority, clock, hnext, htasks⟩
    · refine ⟨fun t e he => ?_, fun t t' e e' he he' => ?_⟩
      · rw [htasks] at he
        exact (h.below t e he).trans_le hle
      · rw [htasks] at he he'
        exact h.unique t t' e e' he he'
    have hentry : ∀ t e, (q.apply op).tasks.get t = some e →
        t = task.id ∧ e.sequence = q.nextSequence ∨ q.tasks.get t = some e := by
      intro t e he
      rw [htasks, FMap.get_set] at he
      split at he
      · next ht =>
        cases he
        exact .inl ⟨ht, rfl⟩
      · exact .inr he
    refine ⟨fun t e he => ?_, fun t t' e e' he he' hseq => ?_⟩
    · rw [hnext]
      rcases hentry t e he with ⟨-, hnew⟩ | hold
      · rw [hnew]
        exact Nat.lt_succ_self _
      · exact (h.below t e hold).trans (Nat.lt_succ_self _)
    rcases hentry t e he with ⟨ht, hnew⟩ | hold
    · rcases hentry t' e' he' with ⟨ht', -⟩ | hold'
      · exact ht.trans ht'.symm
      · have hlt := h.below t' e' hold'
        omega
    rcases hentry t' e' he' with ⟨ht', hnew'⟩ | hold'
    · have hlt := h.below t e hold
      omega
    · exact h.unique t t' e e' hold hold' hseq

/-- **Along every run** each number belongs to one task. -/
theorem run_sequenced (ops : List Op) : ∀ q : TaskQueueInner, Coherent q → Sequenced q → Sequenced (q.run ops) := by
  induction ops with
  | nil => exact fun _ _ h => h
  | cons op rest ih =>
    intro q hq h
    exact ih (q.apply op) ((apply_evolves hq op).coherent hq) (h.apply hq op)

end OxideSwarm
