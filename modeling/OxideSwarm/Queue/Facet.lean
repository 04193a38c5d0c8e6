import OxideSwarm.Queue.Ops

/-!
# What the queue's indexes say about one task

`facet q t` collects everything the queue holds under the id `t`: its entry, its ready keys, the
workers whose assignment sets contain it, how often it stands in `terminal_order`, and whether it
has a terminal size.  The purpose of the indexes is that all of this is a function of the entry,

    facet q t = Facet.of t (q.tasks.get t)

and since a facet mentions one task only, an operation is described by what it does to the facets:
each primitive update changes the facet of one task (the `facet_*` equations), bookkeeping of bytes
and of delayed retries changes none.
-/

namespace OxideSwarm

open Std

/-- Everything the queue's indexes hold about one task. -/
@[ext] structure Facet where
  entry : Option TaskEntry
  ready : Set QueueOrderKey
  holders : Set Uuid
  retained : Nat
  sized : Prop

/-- The facet the indexes should show for an entry stored under `t`. -/
def Facet.of (t : TaskId) : Option TaskEntry → Facet
  | none => ⟨none, ∅, ∅, 0, False⟩
  | some e =>
    { entry := some e
      ready := if e.state = .queued then {e.readyKey t} else ∅
      holders := if e.state.isActive then {w | e.assignedWorkerId = some w} else ∅
      retained := if e.state.isTerminal then 1 else 0
      sized := e.state.isTerminal }

/-- A finished entry that no index mentions yet. -/
def Facet.untracked (e : TaskEntry) : Facet := ⟨some e, ∅, ∅, 0, False⟩

def facet (q : TaskQueueInner) (t : TaskId) : Facet where
  entry := q.tasks.get t
  ready := {k | k ∈ q.readyQueue ∧ k.taskId = t}
  holders := {w | ∃ s, q.workerAssignments.get w = some s ∧ t ∈ s}
  retained := q.terminalOrder.count t
  sized := (q.terminalSizes.get t).isSome

@[simp] theorem Facet.of_entry (t : TaskId) (o : Option TaskEntry) : (Facet.of t o).entry = o := by
  cases o <;> rfl

theorem get_congr {q q' : TaskQueueInner} {t : TaskId} (h : facet q' t = facet q t) :
    q'.tasks.get t = q.tasks.get t := congrArg Facet.entry h

theorem get_of_facet {q : TaskQueueInner} {t u : TaskId} {o : Option TaskEntry}
    (h : facet q t = Facet.of u o) : q.tasks.get t = o :=
  (congrArg Facet.entry h).trans (Facet.of_entry u o)

theorem Facet.of_queued {t : TaskId} {e : TaskEntry} (h : e.state = .queued) :
    Facet.of t (some e) = ⟨some e, {e.readyKey t}, ∅, 0, False⟩ := by
  simp [Facet.of, h, TaskState.isActive, TaskState.isTerminal]

theorem Facet.of_retrying {t : TaskId} {e : TaskEntry} (h : e.state = .retrying) :
    Facet.of t (some e) = ⟨some e, ∅, ∅, 0, False⟩ := by
  simp [Facet.of, h, TaskState.isActive, TaskState.isTerminal]

theorem Facet.of_active {t : TaskId} {e : TaskEntry} {w : Uuid} (h : e.state.isActive)
    (hw : e.assignedWorkerId = some w) : Facet.of t (some e) = ⟨some e, ∅, {w}, 0, False⟩ := by
  have hq : e.state ≠ .queued := by rintro he; simp [he, TaskState.isActive] at h
  have ht : e.state.isTerminal = false := by
    cases hs : e.state <;> simp_all [TaskState.isActive, TaskState.isTerminal]
  simp [Facet.of, hq, ht, h, hw]

theorem Facet.of_terminal {t : TaskId} {e : TaskEntry} (h : e.state.isTerminal) :
    Facet.of t (some e) = ⟨some e, ∅, ∅, 1, True⟩ := by
  have hq : e.state ≠ .queued := by rintro he; simp [he, TaskState.isTerminal] at h
  have ha : e.state.isActive = false := by
    cases hs : e.state <;> simp_all [TaskState.isActive, TaskState.isTerminal]
  simp [Facet.of, hq, ha, h]

/-- A queue that comes out of `q` by evictions, one after the other. -/
inductive Evictions (q : TaskQueueInner) : TaskQueueInner → Prop where
  | refl : Evictions q q
  | tail {q' q'' : TaskQueueInner} (h : Evictions q q') (step : q'.evictOldestTerminal = some q'') : Evictions q q''

/-! ## Primitive updates -/

namespace TaskQueueInner

variable (q : TaskQueueInner) (t u : TaskId) (w : Uuid)

@[simp] theorem facet_setEntry (e : TaskEntry) :
    facet (q.setEntry t e) u = if u = t then { facet q u with entry := some e } else facet q u := by
  unfold facet setEntry
  by_cases h : u = t <;> simp [h]

@[simp] theorem facet_insertReady (k : QueueOrderKey) : facet (q.insertReady k) u =
      if u = k.taskId then { facet q u with ready := insert k (facet q u).ready } else facet q u := by
  unfold facet insertReady
  by_cases h : u = k.taskId
  · subst h
    ext x <;> simp
    constructor
    · rintro ⟨rfl | hx, hk⟩
      · exact .inl rfl
      · exact .inr ⟨hx, hk⟩
    · rintro (rfl | ⟨hx, hk⟩)
      · exact ⟨Or.inl rfl, rfl⟩
      · exact ⟨Or.inr hx, hk⟩
  ext x <;> simp [h]
  intro hx hk
  subst hk
  exact absurd rfl (hx ▸ h)

@[simp] theorem facet_removeReady (k : QueueOrderKey) : facet (q.removeReady k) u =
      if u = k.taskId then { facet q u with ready := (facet q u).ready \ {k} } else facet q u := by
  unfold facet removeReady
  by_cases h : u = k.taskId
  · subst h
    ext x <;> simp
    constructor
    · rintro ⟨⟨hne, hx⟩, hk⟩
      exact ⟨⟨hx, hk⟩, fun he => hne he.symm⟩
    · rintro ⟨⟨hx, hk⟩, hne⟩
      exact ⟨⟨fun he => hne he.symm, hx⟩, hk⟩
  · ext x <;> simp [h]
    intro hk hx he
    exact h (by rw [← hk, ← he])

@[simp] theorem facet_assign : facet (q.assign w t) u =
      if u = t then { facet q u with holders := insert w (facet q u).holders } else facet q u := by
  unfold facet assign
  by_cases h : u = t
  · subst h
    ext x <;> simp
    by_cases hx : x = w <;> simp [hx]
  ext x <;> simp [h]
  by_cases hx : x = w
  · subst hx
    cases hs : q.workerAssignments.get x <;> simp [h]
  · simp [hx]

@[simp] theorem facet_unassign : facet (q.unassign w t) u =
      if u = t then { facet q u with holders := (facet q u).holders \ {w} } else facet q u := by
  unfold facet unassign
  cases hs : q.workerAssignments.get w with
  | none =>
    by_cases h : u = t
    · subst h
      ext x <;> simp
      rintro s hx hu rfl
      simp [hs] at hx
    · simp [h]
  | some s =>
    by_cases h : u = t
    · subst h
      ext x <;> simp
      by_cases hx : x = w <;> simp [hx]
    ext x <;> simp [h]
    by_cases hx : x = w
    · subst hx; simp [hs, h]
    · simp [hx]

@[simp] theorem facet_unassignFrom (o : Option Uuid) : facet (q.unassignFrom o t) u =
      if u = t then { facet q u with holders := (facet q u).holders \ {w | o = some w} } else facet q u := by
  cases o with
  | none | some => simp [unassignFrom]

theorem untrackActiveTask_eq : ∃ sizes bytes,
    q.untrackActiveTask t = { q with activeSizes := sizes, activeBytes := bytes } := by
  unfold untrackActiveTask
  split
  · exact ⟨_, _, rfl⟩
  · exact ⟨q.activeSizes, q.activeBytes, rfl⟩

@[simp] theorem facet_untrackActiveTask : facet (q.untrackActiveTask t) u = facet q u := by
  obtain ⟨sizes, bytes, h⟩ := q.untrackActiveTask_eq t
  rw [h]; rfl

/-! ## Bookkeeping that no facet shows -/

@[simp] theorem untrackActiveTask_tasks : (q.untrackActiveTask t).tasks = q.tasks := by
  obtain ⟨sizes, bytes, h⟩ := q.untrackActiveTask_eq t
  rw [h]

@[simp] theorem facet_insertDelayed (k : DelayedRetryKey) : facet (q.insertDelayed k) u = facet q u := rfl

@[simp] theorem facet_removeDelayed (k : DelayedRetryKey) : facet (q.removeDelayed k) u = facet q u := rfl

@[simp] theorem facet_updateActiveTask : facet (q.updateActiveTask t) u = facet q u := by
  unfold updateActiveTask
  rw [← q.facet_untrackActiveTask t u]
  dsimp only
  split
  · split
    · rfl
    · rfl
  · rfl

@[simp] theorem facet_dropEmptyAssignments : facet (q.dropEmptyAssignments w) u = facet q u := by
  unfold dropEmptyAssignments
  split
  · next h =>
    unfold facet
    ext x <;> simp
    by_cases hx : x = w
    · subst hx; simp [h]
    · simp [hx]
  · rfl

/-! ## Eviction -/

theorem evictWhile_evictions {q0 : TaskQueueInner} (exceeds : TaskQueueInner → Bool) (fuel : Nat) :
    ∀ q, Evictions q0 q → Evictions q0 (evictWhile exceeds fuel q) := by
  induction fuel with
  | zero => exact fun _ h => h
  | succ n ih =>
    intro q h
    unfold evictWhile
    split
    · cases hstep : q.evictOldestTerminal with
      | none => exact h
      | some q' => exact ih q' (h.tail hstep)
    · exact h

theorem enforceTerminalLimits_evictions : Evictions q q.enforceTerminalLimits :=
  evictWhile_evictions overBytes _ _ (evictWhile_evictions overCount _ q .refl)

theorem evictCounting_evictions {q0 : TaskQueueInner} (maxRetained fuel : Nat) :
    ∀ n q, Evictions q0 q → Evictions q0 (evictCounting maxRetained fuel n q).2 := by
  induction fuel with
  | zero => exact fun _ _ h => h
  | succ fuel ih =>
    intro n q h
    unfold evictCounting
    split
    · cases hstep : q.evictOldestTerminal with
      | none => exact h
      | some q' => exact ih _ q' (h.tail hstep)
    · exact h

theorem facet_terminalOrder (order : List TaskId) :
    facet { q with terminalOrder := order } u = { facet q u with retained := order.count u } := rfl

theorem removeRetained_eq : ∃ sizes bytes tbytes, q.removeRetained t = { q with
      tasks := q.tasks.del t
      activeSizes := sizes
      activeBytes := bytes
      terminalSizes := q.terminalSizes.del t
      terminalBytes := tbytes } := by
  obtain ⟨sizes, bytes, h⟩ :=
    ({ q with tasks := q.tasks.del t } : TaskQueueInner).untrackActiveTask_eq t
  unfold removeRetained
  rw [h]
  dsimp only
  split
  · exact ⟨sizes, bytes, _, rfl⟩
  · next hnone =>
    refine ⟨sizes, bytes, q.terminalBytes, ?_⟩
    rw [FMap.del_eq_self hnone]

@[simp] theorem facet_removeRetained : facet (q.removeRetained t) u =
      if u = t then { facet q u with entry := none, sized := False } else facet q u := by
  obtain ⟨sizes, bytes, tbytes, h⟩ := q.removeRetained_eq t
  rw [h]
  by_cases hu : u = t
  · subst hu; simp [facet]
  · simp [facet, hu]

end TaskQueueInner

end OxideSwarm
