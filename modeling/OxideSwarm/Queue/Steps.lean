import OxideSwarm.Queue.Coherence
import OxideSwarm.Queue.Entries

/-!
# Every write is a legal evolution

For each way in which a call writes the queue (`Performs`) one lemma `<write>_evolves`: from a coherent queue
it leads to a queue that is again up to date and differs by legal changes of entries only.  Writes of one task
are instances of `Evolving.single` and `Evolving.finish`; the loops over batches, due retries and the
tasks of a lost connection are inductions over the list they walk.
-/

namespace OxideSwarm

open Std TaskQueueInner

variable {q : TaskQueueInner} {t : TaskId} {e : TaskEntry}

/-! ## Facets of a coherent queue -/

theorem Coherent.facet_of_get (hq : Coherent q) (h : q.tasks.get t = some e) :
    facet q t = Facet.of t (some e) := by rw [hq.facets t, h]

theorem EntryOk.active_of_owned {w : Uuid} {session : Option Nat} (h : EntryOk t e)
    (ho : ownedBy e w session) (hterm : e.state.isTerminal = false) : e.state.isActive := by
  by_contra hact
  have hnone := (h.free hterm (by simpa using hact)).1
  simp [ownedBy, hnone] at ho

/-! ## Submission -/

theorem accept_evolves (hq : Coherent q) (hnone : q.tasks.get t = none) (hok : EntryOk t e)
    (hqueued : e.state = .queued) (n bytes : Nat) :
    Evolving q (({ q with nextSequence := n } : TaskQueueInner).accept t e bytes) ∅ := by
  have hf : facet q t = Facet.of t none := by rw [hq.facets t, hnone]
  have hacc : ∀ u, facet (({ q with nextSequence := n } : TaskQueueInner).accept t e bytes) u =
      facet ((q.setEntry t e).insertReady (e.readyKey t)) u := fun _ => rfl
  refine Evolving.single hq (t := t) (e := e) ?_ ?_ (by rw [hnone]; exact .create hok hqueued)
  · intro u hu
    rw [hacc]
    simp [TaskEntry.readyKey, hu]
  · rw [hacc, Facet.of_queued hqueued]
    simp [TaskEntry.readyKey, hf, Facet.of]

theorem fresh_ok (task : Task) (priority sequence : Nat) (clock : Clock) :
    EntryOk task.id (TaskEntry.fresh task priority sequence clock) where
  id := rfl
  accepted := by simp [TaskEntry.fresh]
  free _ _ := ⟨rfl, rfl⟩
  held h := by simp [TaskEntry.fresh, TaskState.isActive] at h
  result := by simp [TaskEntry.fresh, TaskState.isTerminal]

/-! ## Scheduling -/

theorem scheduledEntry_ok (h : EntryOk t e) (hqueued : e.state = .queued) (w : Uuid)
    (session : Option Nat) (now : Instant) : EntryOk t (scheduledEntry e w session now) where
  id := h.id
  accepted := by simp [scheduledEntry]
  free _ ha := by simp [scheduledEntry, TaskState.isActive] at ha
  held _ := ⟨w, rfl⟩
  result := by
    have := h.result
    simp only [hqueued] at this
    simpa [scheduledEntry, TaskState.isTerminal] using this

theorem facet_scheduleEntry (hf : facet q t = Facet.of t (some e)) (hqueued : e.state = .queued)
    (w : Uuid) (session : Option Nat) (now : Instant) :
    facet (q.scheduleEntry t e w session now) t = Facet.of t (some (scheduledEntry e w session now)) := by
  rw [Facet.of_active (w := w) (by rfl) rfl]
  rw [Facet.of_queued hqueued] at hf
  simp [scheduleEntry, TaskEntry.readyKey, hf]

theorem facet_scheduleEntry_ne (w : Uuid) (session : Option Nat) (now : Instant) {u : TaskId}
    (hu : u ≠ t) : facet (q.scheduleEntry t e w session now) u = facet q u := by
  simp [scheduleEntry, TaskEntry.readyKey, hu]

theorem scheduleEntry_evolves (hq : Coherent q) (h : q.tasks.get t = some e)
    (hqueued : e.state = .queued) (w : Uuid) (session : Option Nat) (now : Instant) :
    Evolving q (q.scheduleEntry t e w session now) ∅ := by
  refine Evolving.single hq (fun u hu => facet_scheduleEntry_ne w session now hu)
    (facet_scheduleEntry (hq.facet_of_get h) hqueued w session now) ?_
  rw [h]
  refine .move (Or.inr ⟨?_, scheduledEntry_ok (hq.entries t e h) hqueued w session now, Or.inr ?_⟩)
  · rw [hqueued]; rfl
  · rw [hqueued]; rfl

/-- The key of a queued task in the ready queue is the one its entry names. -/
theorem Coherent.readyKey_eq (hq : Coherent q) {k : QueueOrderKey} (hk : k ∈ q.readyQueue)
    (h : q.tasks.get k.taskId = some e) : e.state = .queued ∧ k = e.readyKey k.taskId := by
  have hmem : k ∈ (facet q k.taskId).ready := ⟨hk, rfl⟩
  rw [hq.facet_of_get h] at hmem
  by_cases hqueued : e.state = .queued
  · rw [Facet.of_queued hqueued] at hmem
    exact ⟨hqueued, hmem⟩
  · simp [Facet.of, hqueued] at hmem

theorem popped_evolves (hq : Coherent q) {k : QueueOrderKey} (hk : k ∈ q.readyQueue)
    (h : q.tasks.get k.taskId = some e) (w : Uuid) (now : Instant) :
    Evolving q (((q.removeReady k).setEntry k.taskId (scheduledEntry e w none now)).assign w k.taskId) ∅ := by
  obtain ⟨hqueued, hkey⟩ := hq.readyKey_eq hk h
  have hev := scheduleEntry_evolves hq h hqueued w none now
  unfold scheduleEntry at hev
  rwa [← hkey] at hev

/-! ### Batches -/

/-- A stale ready key is never there. -/
theorem facet_removeReady_stale (hq : Coherent q) (h : q.tasks.get t = some e)
    (hqueued : e.state ≠ .queued) (u : TaskId) : facet (q.removeReady (e.readyKey t)) u = facet q u := by
  by_cases hu : u = t
  · subst hu
    have hempty : (facet q u).ready = ∅ := by rw [hq.facet_of_get h]; simp [Facet.of, hqueued]
    rw [facet_removeReady, if_pos (by rfl), hempty, Set.empty_sdiff, ← hempty]
  · rw [facet_removeReady, if_neg (by simpa [TaskEntry.readyKey] using hu)]

theorem scheduleOne_evolves (hq : Coherent q) (t : TaskId) (w : Uuid) (session : Option Nat)
    (now : Instant) : Evolving q (q.scheduleOne t w session now).2 ∅ := by
  unfold scheduleOne
  split
  · exact .refl hq
  next e h =>
  split
  · next hqueued => exact scheduleEntry_evolves hq h hqueued w session now
  · next hqueued => exact (Evolving.refl hq).congr (facet_removeReady_stale hq h hqueued)

theorem scheduleBatchInner_evolves (now : Instant) (l : List (TaskId × Uuid × Option Nat)) :
    ∀ q : TaskQueueInner, Coherent q → Evolving q (scheduleBatchInner now l q).2 ∅ := by
  induction l with
  | nil => intro q hq; exact .refl hq
  | cons a rest ih =>
    intro q hq
    obtain ⟨t, w, session⟩ := a
    have h1 := scheduleOne_evolves hq t w session now
    refine h1.append (ih _ (h1.coherent hq)) fun u => ?_
    rcases scheduleOne_entries q t w session now with ⟨-, htasks, -⟩ | ⟨e, -, -, -, htasks⟩
    · exact .inl (by rw [htasks])
    by_cases hu : u = t
    · refine .inr ((scheduleBatchInner_entries now rest (q.scheduleOne t w session now).2 u).resolve_right ?_)
      -- a later assignment does not find the task queued
      rintro ⟨e', -, -, -, hget, hqueued, -⟩
      rw [htasks, FMap.get_set, if_pos hu] at hget
      cases hget
      cases hqueued
    · exact .inl (by rw [htasks, FMap.get_set, if_neg hu])

/-! ## Putting tasks back -/

/-- The facet of an unfinished entry: its holders are the worker it names, if any. -/
theorem EntryOk.facet_unfinished (h : EntryOk t e) (hterm : e.state.isTerminal = false) : Facet.of t (some e) =
      ⟨some e, if e.state = .queued then {e.readyKey t} else ∅, {w | e.assignedWorkerId = some w}, 0, False⟩ := by
  by_cases hact : e.state.isActive
  · simp [Facet.of, hterm, hact]
  · have hnone := (h.free hterm (by simpa using hact)).1
    simp [Facet.of, hterm, hact, hnone]

theorem EntryOk.waiting (h : EntryOk t e) (hterm : e.state.isTerminal = false) {e' : TaskEntry} (hid : e'.task = e.task)
    (hstate : e'.state = .queued ∨ e'.state = .retrying) (hw : e'.assignedWorkerId = none)
    (hs : e'.assignedSession = none) (hr : e'.result = e.result) : EntryOk t e' where
  id := by rw [hid]; exact h.id
  accepted := by rcases hstate with hs | hs <;> rw [hs] <;> decide
  free _ _ := ⟨hw, hs⟩
  held ha := by rcases hstate with hs | hs <;> rw [hs] at ha <;> cases ha
  result := by
    have hres := h.result
    rw [hr, hres, hterm]
    rcases hstate with hs | hs <;> rw [hs] <;> decide

theorem EntryOk.to_queued (h : EntryOk t e) (hterm : e.state.isTerminal = false) :
    TaskState.queued = e.state ∨ e.state.canTransitionTo .queued := by
  have := h.accepted
  cases hs : e.state <;> simp_all [TaskState.isTerminal, TaskState.canTransitionTo]

theorem putBack_evolves (hq : Coherent q) (h : q.tasks.get t = some e) (hterm : e.state.isTerminal = false) :
    Evolving q (q.putBack t e) ∅ := by
  unfold putBack
  have hok := hq.entries t e h
  refine Evolving.single hq (t := t) (e := takenBack e) ?_ ?_ ?_
  · intro u hu
    simp [TaskEntry.readyKey, hu]
  · rw [Facet.of_queued rfl]
    simp only [TaskEntry.readyKey, facet_insertReady, facet_setEntry, facet_unassignFrom, if_true,
      hq.facet_of_get h, hok.facet_unfinished hterm, Set.sdiff_self]
    split <;> simp [takenBack]
  · rw [h]
    exact .move (Or.inr ⟨hterm, hok.waiting hterm rfl (.inl rfl) rfl rfl rfl, hok.to_queued hterm⟩)

/-! ## Worker reports -/

/-- An edit that keeps an unfinished entry's place in every index. -/
theorem setEntry_evolves (hq : Coherent q) (h : q.tasks.get t = some e) {e' : TaskEntry}
    (hindex : Facet.of t (some e') = { Facet.of t (some e) with entry := some e' })
    (hmove : Move t e e') : Evolving q (q.setEntry t e') ∅ := by
  refine Evolving.single hq (t := t) (e := e') ?_ ?_ (by rw [h]; exact .move hmove)
  · intro u hu
    rw [facet_setEntry, if_neg hu]
  · rw [facet_setEntry, if_pos rfl, hq.facet_of_get h, hindex]

theorem started_evolves (hq : Coherent q) (h : q.tasks.get t = some e) (hsched : e.state = .scheduled) (now : Instant) :
    Evolving q (q.setEntry t { e with state := .running, startedInstant := some now }) ∅ := by
  have hok := hq.entries t e h
  have hact : e.state.isActive := by rw [hsched]; rfl
  obtain ⟨w', hw'⟩ := hok.held hact
  refine setEntry_evolves hq h ?_ (Or.inr ⟨not_terminal_of_active hact, ?_, Or.inr ?_⟩)
  · rw [Facet.of_active hact hw']
    exact Facet.of_active (by rfl) hw'
  · refine ⟨hok.id, by simp, fun _ ha => by simp [TaskState.isActive] at ha, fun _ => ⟨w', hw'⟩, ?_⟩
    have hres := hok.result
    rw [hsched] at hres
    exact hres
  · rw [hsched]; rfl

theorem checkpointed_evolves (hq : Coherent q) (h : q.tasks.get t = some e) (hterm : e.state.isTerminal = false)
    (c : CheckpointData) : Evolving q ((q.setEntry t (checkpointed e c)).updateActiveTask t) ∅ := by
  have hok := hq.entries t e h
  have hset : Evolving q (q.setEntry t (checkpointed e c)) ∅ := setEntry_evolves hq h rfl
    (Or.inr ⟨hterm, ⟨hok.id, hok.accepted, hok.free, hok.held, hok.result⟩, Or.inl rfl⟩)
  exact hset.congr fun u => facet_updateActiveTask _ _ _

/-! ## Results -/

theorem EntryOk.finished (h : EntryOk t e) {e' : TaskEntry} (hid : e'.task = e.task)
    (hterm : e'.state.isTerminal) (hres : e'.result.isSome) : EntryOk t e' where
  id := by rw [hid]; exact h.id
  accepted := by rintro hs; simp [hs, TaskState.isTerminal] at hterm
  free hnot _ := by simp [hterm] at hnot
  held ha := by simp [not_terminal_of_active ha] at hterm
  result := by simp [hterm, hres]

theorem EntryOk.to_terminal (h : EntryOk t e) (hterm : e.state.isTerminal = false) {s : TaskState}
    (hs : s = .failed ∨ s = .cancelled) : e.state.canTransitionTo s := by
  have := h.accepted
  rcases hs with rfl | rfl <;>
    cases he : e.state <;> simp_all [TaskState.isTerminal, TaskState.canTransitionTo]

theorem active_to_retrying (h : e.state.isActive) : e.state.canTransitionTo .retrying := by
  cases he : e.state <;> simp_all [TaskState.isActive, TaskState.canTransitionTo]

/-- What `applyResult` makes of an owned, unfinished entry. -/
inductive ResultCase (t : TaskId) (e : TaskEntry) (f : ResultEffect) : Prop
  | finished : f.entry.state.isTerminal → f.delayKey = none → f.readyKey = none → ResultCase t e f
  | requeued : f.entry.state = .queued → f.delayKey = none →
      f.readyKey = some (f.entry.readyKey t) → ResultCase t e f
  | retrying (k : DelayedRetryKey) : f.entry.state = .retrying → f.delayKey = some k →
      f.readyKey = none → ResultCase t e f

theorem applyResult_cases [Host] {p : RetryPolicy} {w : Uuid} {r : TaskResult} {clock : Clock}
    {f : ResultEffect} (hok : EntryOk r.taskId e) (hact : e.state.isActive) (h : applyResult p e w r clock = some f) :
    ResultCase r.taskId e f ∧ Move r.taskId e f.entry := by
  have hterm := not_terminal_of_active hact
  unfold applyResult at h
  split at h
  · split at h
    · cases h
    next hcan =>
    cases h
    refine ⟨.finished rfl rfl rfl, Or.inr ⟨hterm, hok.finished rfl rfl rfl, Or.inr ?_⟩⟩
    simpa using hcan
  split at h
  · cases h
    exact ⟨.finished rfl rfl rfl, Or.inr ⟨hterm, hok.finished rfl rfl rfl,
      Or.inr (hok.to_terminal hterm (Or.inr rfl))⟩⟩
  split at h
  · cases h
    exact ⟨.requeued rfl rfl rfl, Or.inr ⟨hterm, hok.waiting hterm rfl (.inl rfl) rfl rfl rfl,
      hok.to_queued hterm⟩⟩
  split at h
  · cases h
    exact ⟨.retrying _ rfl rfl rfl, Or.inr ⟨hterm, hok.waiting hterm rfl (.inr rfl) rfl rfl rfl,
      Or.inr (active_to_retrying hact)⟩⟩
  · cases h
    exact ⟨.finished rfl rfl rfl, Or.inr ⟨hterm, hok.finished rfl rfl rfl,
      Or.inr (hok.to_terminal hterm (Or.inl rfl))⟩⟩

/-- The facets after the owner of an active task was dropped from the assignments. -/
theorem facet_unassign_active (hq : Coherent q) (h : q.tasks.get t = some e) {w : Uuid}
    (hact : e.state.isActive) (hw : e.assignedWorkerId = some w) : facet (q.unassign w t) t = Facet.untracked e := by
  rw [facet_unassign, if_pos rfl, hq.facet_of_get h, Facet.of_active hact hw]
  simp [Facet.untracked]

theorem storeEffect_evolves (hq : Coherent q) (h : q.tasks.get t = some e) {w : Uuid}
    (hact : e.state.isActive) (hw : e.assignedWorkerId = some w) {f : ResultEffect}
    (hcase : ResultCase t e f) (hmove : Move t e f.entry) : Evolving q ((q.unassign w t).storeEffect t f) ∅ := by
  have hself := facet_unassign_active hq h hact hw
  have hother : ∀ u, u ≠ t → facet (q.unassign w t) u = facet q u := fun u hu => by
    rw [facet_unassign, if_neg hu]
  have hchange : Change t (q.tasks.get t) (some f.entry) := by rw [h]; exact .move hmove
  unfold storeEffect
  cases hcase with
  | finished hterm hd hr =>
    simp only [hd, hr, hterm, if_true]
    have hfin : Evolving q ((q.unassign w t).setEntry t f.entry) {t} := by
      refine Evolving.finish hq ?_ ?_ hterm hchange
      · intro u hu
        rw [facet_setEntry, if_neg hu, hother u hu]
      · rw [facet_setEntry, if_pos rfl, hself]; rfl
    simpa using hfin.track (t := t) rfl
  | requeued hstate hd hr =>
    have hnot : f.entry.state.isTerminal = false := by rw [hstate]; rfl
    simp only [hd, hr, hnot, Bool.false_eq_true, if_false]
    refine Evolving.single hq (t := t) (e := f.entry) ?_ ?_ hchange
    · intro u hu
      simp [TaskEntry.readyKey, hu]
    rw [Facet.of_queued hstate]
    simp only [TaskEntry.readyKey, facet_updateActiveTask, facet_insertReady, facet_setEntry,
      if_true, hself]
    simp [Facet.untracked]
  | retrying k hstate hd hr =>
    have hnot : f.entry.state.isTerminal = false := by rw [hstate]; rfl
    simp only [hd, hr, hnot, Bool.false_eq_true, if_false]
    refine Evolving.single hq (t := t) (e := f.entry) ?_ ?_ hchange
    · intro u hu
      simp [hu]
    · rw [Facet.of_retrying hstate]
      simp only [facet_updateActiveTask, facet_insertDelayed, facet_setEntry, if_true, hself]
      simp [Facet.untracked]

/-- Dropping the assignment of a task that no worker holds changes no facet. -/
theorem facet_unassign_inactive (hq : Coherent q) (h : q.tasks.get t = some e) {w : Uuid} {session : Option Nat}
    (ho : ownedBy e w session) (hact : ¬ e.state.isActive) (u : TaskId) : facet (q.unassign w t) u = facet q u := by
  have hterm : e.state.isTerminal := by
    by_contra hopen
    exact hact ((hq.entries t e h).active_of_owned ho (by simpa using hopen))
  by_cases hu : u = t
  · subst hu
    have hempty : (facet q u).holders = ∅ := by rw [hq.facet_of_get h, Facet.of_terminal hterm]
    rw [facet_unassign, if_pos rfl, hempty, Set.empty_sdiff, ← hempty]
  · rw [facet_unassign, if_neg hu]

/-! ## Cancellation and retention -/

theorem cancelledEntry_move (hok : EntryOk t e) (hterm : e.state.isTerminal = false)
    (reason : Option String) : Move t e (cancelledEntry e t reason) := by
  refine .inr ⟨hterm, hok.finished rfl rfl ?_, Or.inr (hok.to_terminal hterm (Or.inr rfl))⟩
  have hres := hok.result
  simp only [hterm, Bool.false_eq_true, iff_false, Bool.not_eq_true, Option.isSome_eq_false_iff] at hres
  simp [cancelledEntry, hres]

/-- Whatever its state, an unfinished task leaves its index. -/
theorem facet_dropFromIndex (hok : EntryOk t e) (hterm : e.state.isTerminal = false)
    (hf : facet q t = Facet.of t (some e)) : facet (q.dropFromIndex t e) t = Facet.untracked e := by
  rw [hok.facet_unfinished hterm] at hf
  unfold dropFromIndex
  split
  · next hs =>
    have hnone := (hok.free hterm (by rw [hs]; rfl)).1
    simp [TaskEntry.readyKey, hf, hs, hnone, Facet.untracked]
  · next hs =>
    have hnone := (hok.free hterm (by rw [hs]; rfl)).1
    have huntracked : facet q t = Facet.untracked e := by rw [hf]; simp [hs, hnone, Facet.untracked]
    split
    · rw [facet_removeDelayed, huntracked]
    · exact huntracked
  · next hs => simp [hf, hs, Facet.untracked]
  · next hs => simp [hf, hs, Facet.untracked]
  · next h1 h2 h3 h4 =>
    have := hok.accepted
    cases hs : e.state <;> simp_all [TaskState.isTerminal]

theorem facet_dropFromIndex_ne {u : TaskId} (hu : u ≠ t) : facet (q.dropFromIndex t e) u = facet q u := by
  unfold dropFromIndex
  split
  · simp [TaskEntry.readyKey, hu]
  · split <;> rfl
  · simp [hu]
  · simp [hu]
  · rfl

theorem cancelled_evolves (hq : Coherent q) (h : q.tasks.get t = some e) (hterm : e.state.isTerminal = false)
    (reason : Option String) : Evolving q
      (((q.dropFromIndex t e).setEntry t (cancelledEntry e t reason)).trackTerminalTask t) ∅ := by
  have hok := hq.entries t e h
  have hfin : Evolving q ((q.dropFromIndex t e).setEntry t (cancelledEntry e t reason)) {t} := by
    refine Evolving.finish hq (e := cancelledEntry e t reason) ?_ ?_ rfl ?_
    · intro u hu
      rw [facet_setEntry, if_neg hu, facet_dropFromIndex_ne hu]
    · rw [facet_setEntry, if_pos rfl, facet_dropFromIndex hok hterm (hq.facet_of_get h)]
      rfl
    · rw [h]; exact .move (cancelledEntry_move hok hterm reason)
  simpa using hfin.track (t := t) rfl

theorem limited_evolves (hq : Coherent q) {q1 : TaskQueueInner} (hsame : ∀ u, facet q1 u = facet q u) :
    Evolving q q1.enforceTerminalLimits ∅ := by
  have h := (Evolving.refl hq).congr hsame
  exact h.trim ((enforceTerminalLimits_evictions _).trims h.retained)

/-! ## Elapsed backoffs -/

theorem readyRetry_evolves (hq : Coherent q) (t : TaskId) : Evolving q (q.readyRetry t) ∅ := by
  unfold readyRetry
  split
  · next e h =>
    split
    · next hs =>
      have hok := hq.entries t e h
      have hterm : e.state.isTerminal = false := by rw [hs]; rfl
      have hfree := hok.free hterm (by rw [hs]; rfl)
      refine Evolving.single hq (t := t) ?_
        (e := { e with state := .queued, retryAfterInstant := none }) ?_ ?_
      · intro u hu
        simp [TaskEntry.readyKey, hu]
      · rw [Facet.of_queued rfl]
        simp [TaskEntry.readyKey, hq.facet_of_get h, Facet.of_retrying hs]
      · rw [h]
        exact .move (Or.inr ⟨hterm, hok.waiting hterm rfl (.inl rfl) hfree.1 hfree.2 rfl,
          hok.to_queued hterm⟩)
    · exact .refl hq
  · exact .refl hq

theorem readyRetries_evolves (l : List DelayedRetryKey) :
    ∀ q : TaskQueueInner, Coherent q → Evolving q (l.foldl (fun q k => q.readyRetry k.taskId) q) ∅ := by
  induction l with
  | nil => intro q hq; exact .refl hq
  | cons k rest ih =>
    intro q hq
    have h1 := readyRetry_evolves hq k.taskId
    refine h1.append (ih _ (h1.coherent hq)) fun u => ?_
    rw [readyRetries_entries, readyRetry_entries]
    cases q.tasks.get u with
    | none => exact .inl rfl
    | some e =>
      by_cases hwake : k.taskId = u ∧ e.state = .retrying
      · exact .inr (by simp [hwake, woken])
      · exact .inl (by rw [Option.map_some, if_neg hwake])

theorem facet_removeDelayeds (l : List DelayedRetryKey) :
    ∀ (q : TaskQueueInner) (u : TaskId), facet (l.foldl removeDelayed q) u = facet q u := by
  induction l with
  | nil => intro q u; rfl
  | cons k rest ih => intro q u; exact ih (q.removeDelayed k) u

theorem processDelayedRetries_evolves (hq : Coherent q) (now : Instant) :
    Evolving q (q.processDelayedRetries now).2 ∅ := by
  have h1 : Evolving q ((q.dueRetries now).foldl removeDelayed q) ∅ :=
    (Evolving.refl hq).congr (facet_removeDelayeds _ q)
  exact h1.append (readyRetries_evolves _ _ (h1.coherent hq))
    fun u => Or.inl (get_congr (facet_removeDelayeds _ q u))

end OxideSwarm
