import OxideSwarm.Queue.Parts
import OxideSwarm.Queue.Turns
import OxideSwarm.Lib.Pool

/-!
# The index of delayed retries

`delayed_retries` holds a key `(retry_after, id)` for each task that waits for its backoff.  The key is
removed when the backoff elapses and when the task is cancelled, but not by `requeue_task`, which takes a
waiting task out of its backoff (`delayed_index_can_go_stale`): the key then stays, and cuts a later backoff
of the same task short.  In runs that requeue no waiting task the index is exact
(`delayed_index_exact`), and `process_delayed_retries` moves the tasks whose backoff elapsed and counts
them.

`Timed` is the invariant.  An operation that leaves the index alone leaves the deadlines alone
(`Turn.deadline_kept`); the four others are treated one by one.
-/

namespace OxideSwarm

open Std TaskQueueInner

section Index

variable [Host]

/-! ## Deadlines -/

/-- The moment that a waiting task waits for. -/
def deadline (o : Option TaskEntry) : Option Instant :=
  o.bind fun e => if e.state = .retrying then e.retryAfterInstant else none

/-- A waiting task knows its moment. -/
def Waits (e : TaskEntry) : Prop := e.state = .retrying → e.retryAfterInstant.isSome

/-- The index has the key of every waiting task, and no other. -/
structure Timed (q : TaskQueueInner) : Prop where
  keys : ∀ k : DelayedRetryKey, k ∈ q.delayedRetries ↔ deadline (q.tasks.get k.taskId) = some k.retryAfter
  waits : ∀ t e, q.tasks.get t = some e → Waits e

section

variable {op : Op} {p : RetryPolicy} {q q' mid : TaskQueueInner} {t u : TaskId} {e e' : TaskEntry}

section

omit [Host]

theorem deadline_of_ne (h : e.state ≠ .retrying) : deadline (some e) = none := if_neg h

theorem deadline_of_retrying (h : e.state = .retrying) : deadline (some e) = e.retryAfterInstant := if_pos h

theorem deadline_of_terminal (h : e.state.isTerminal) : deadline (some e) = none := by
  refine deadline_of_ne fun hretrying => ?_
  rw [hretrying] at h
  cases h

theorem deadline_of_active (h : e.state.isActive) : deadline (some e) = none := by
  refine deadline_of_ne fun hretrying => ?_
  rw [hretrying] at h
  cases h

theorem Pruned.deadline_eq (h : Pruned q q') (u : TaskId) : deadline (q'.tasks.get u) = deadline (q.tasks.get u) := by
  rcases h u with hsame | ⟨e, he, hterm, hgone⟩
  · rw [hsame]
  · rw [hgone, he, deadline_of_terminal hterm]
    rfl

end

theorem applyResult_waits {w : Uuid} {r : TaskResult} {clock : Clock} {f : ResultEffect}
    (h : applyResult p e w r clock = some f) : Waits f.entry := by
  unfold applyResult at h
  split at h
  · split at h
    · cases h
    · cases h
      exact nofun
  split at h
  · cases h
    exact nofun
  split at h
  · cases h
    exact nofun
  split at h
  · cases h
    exact fun _ => rfl
  · cases h
    exact nofun

theorem sweepEntry_waits (w : Uuid) (reason : String) (immediate : Bool) (clock : Clock) :
    Waits (sweepEntry p e t w reason immediate clock).1 := by
  unfold sweepEntry
  dsimp only
  split
  · split
    · exact nofun
    · exact fun _ => rfl
  · exact nofun

theorem Turn.waits (h : Turn op p t e e') (hwaits : Waits e) : Waits e' := by
  cases h with
  | checkpoint => exact hwaits
  | result call id active effect => exact applyResult_waits effect
  | sweep w reason immediate clock => exact sweepEntry_waits w reason immediate clock
  | schedule | takeBack | start | unsendable | wake | cancel => exact nofun

theorem Timed.waits_apply (hq : Coherent q) (h : Timed q) (op : Op) :
    ∀ t e, (q.apply op).tasks.get t = some e → Waits e := by
  intro t e' he'
  have hout := apply_outcome hq op t
  generalize hget : q.tasks.get t = o at hout
  rw [he'] at hout
  cases hout with
  | same => exact h.waits t e' hget
  | accepted => exact nofun
  | turned turn => exact turn.waits (h.waits t _ hget)

/-! ## Operations that leave the index alone -/

/-- The operations that touch `delayed_retries`. -/
def Op.delays : Op → Bool
  | .recordResultFrom .. | .handleSessionDisconnected .. | .processDelayedRetries .. | .cancelTaskDetailed .. => true
  | _ => false

/-- `op` takes no task out of its backoff by a requeue. -/
def BackoffKept (q : TaskQueueInner) : Op → Prop
  | .requeueTask t => ∀ e ∈ q.tasks.get t, e.state ≠ .retrying
  | _ => True

theorem Turn.deadline_kept (h : Turn op p t e e') (hop : op.delays = false)
    (hrequeue : op = .requeueTask t → e.state ≠ .retrying) : deadline (some e') = deadline (some e) := by
  cases h with
  | schedule queued =>
    have hne : e.state ≠ .retrying := by rw [queued]; exact nofun
    rw [deadline_of_ne hne]
    exact deadline_of_ne (by exact nofun)
  | takeBack requeues unfinished dispatched =>
    have hne : e.state ≠ .retrying := by
      rcases dispatched with hscheduled | hcall
      · rw [hscheduled]
        exact nofun
      · exact hrequeue hcall
    rw [deadline_of_ne hne]
    exact deadline_of_ne (by exact nofun)
  | start scheduled =>
    have hne : e.state ≠ .retrying := by rw [scheduled]; exact nofun
    rw [deadline_of_ne hne]
    exact deadline_of_ne (by exact nofun)
  | checkpoint => rfl
  | unsendable active =>
    rw [deadline_of_active active]
    exact deadline_of_ne (by exact nofun)
  | result call | sweep _ _ _ _ _ call | wake _ call | cancel _ _ call => subst call; cases hop

theorem deadline_apply (hq : Coherent q) (hop : op.delays = false) (hkept : BackoffKept q op) (u : TaskId) :
    deadline ((q.apply op).tasks.get u) = deadline (q.tasks.get u) := by
  have hout := apply_outcome hq op u
  generalize hget : q.tasks.get u = o at hout
  generalize (q.apply op).tasks.get u = o' at hout
  have hturn : ∀ {e e'}, q.tasks.get u = some e → Turn op q.retryPolicy u e e' →
      deadline (some e') = deadline (some e) := by
    intro e e' he turn
    refine turn.deadline_kept hop fun hcall => ?_
    subst hcall
    exact hkept e he
  cases hout with
  | same => rfl
  | accepted => exact deadline_of_ne (by exact nofun)
  | turned turn => exact hturn hget turn
  | finished turn terminal => rw [← hturn hget turn, deadline_of_terminal terminal]; rfl
  | evicted terminal => rw [deadline_of_terminal terminal]; rfl

end

theorem apply_delayed {q : TaskQueueInner} {op : Op} (hop : op.delays = false) :
    (q.apply op).delayedRetries = q.delayedRetries := by
  refine (apply_moves q op).delayed_eq ?_
  cases op with
  | trySubmitSlot slot seen clock => exact Bool.and_false _
  | recordResultFrom | handleSessionDisconnected | processDelayedRetries | cancelTaskDetailed => cases hop
  | _ => rfl

section

omit [Host]

variable (q : TaskQueueInner) (t : TaskId)

@[simp] theorem setEntry_delayed (e : TaskEntry) : (q.setEntry t e).delayedRetries = q.delayedRetries := rfl

@[simp] theorem unassign_delayed (w : Uuid) : (q.unassign w t).delayedRetries = q.delayedRetries :=
  (Moves.unassign (P := (· ≠ .delayed)) rfl q w t).delayed_eq rfl

@[simp] theorem updateActiveTask_delayed : (q.updateActiveTask t).delayedRetries = q.delayedRetries :=
  (Moves.updateActiveTask (P := (· ≠ .delayed)) rfl q t).delayed_eq rfl

@[simp] theorem trackTerminalTask_delayed : (q.trackTerminalTask t).delayedRetries = q.delayedRetries :=
  (Moves.trackTerminalTask (P := (· ≠ .delayed)) rfl rfl q t).delayed_eq rfl

end

/-! ## Results, failover and cancellation -/

section

variable {q q' mid : TaskQueueInner} {t : TaskId} {e e' : TaskEntry}

omit [Host] in
/-- The entry of task `t` is rewritten, and the index has its new key. -/
theorem Timed.update (h : Timed q) (hset : mid.tasks = q.tasks.set t e') (hpruned : Pruned mid q')
    (hkeys : ∀ k, k ∈ q'.delayedRetries ↔
      k.taskId ≠ t ∧ k ∈ q.delayedRetries ∨ k.taskId = t ∧ deadline (some e') = some k.retryAfter)
    (k : DelayedRetryKey) : k ∈ q'.delayedRetries ↔ deadline (q'.tasks.get k.taskId) = some k.retryAfter := by
  rw [hkeys k, hpruned.deadline_eq, hset, FMap.get_set, h.keys k]
  by_cases hk : k.taskId = t
  · simp [hk]
  · simp [hk]

omit [Host] in
theorem Timed.key_ne (h : Timed q) (hget : q.tasks.get t = some e) (hnone : deadline (some e) = none)
    {k : DelayedRetryKey} (hk : k ∈ q.delayedRetries) : k.taskId ≠ t := by
  rintro rfl
  have hdeadline := (h.keys k).mp hk
  rw [hget, hnone] at hdeadline
  cases hdeadline

theorem applyResult_delay {p : RetryPolicy} {w : Uuid} {r : TaskResult} {clock : Clock} {f : ResultEffect}
    (h : applyResult p e w r clock = some f) :
    f.delayKey = (deadline (some f.entry)).map fun after => ⟨after, r.taskId⟩ := by
  unfold applyResult at h
  split at h
  · split at h
    · cases h
    · cases h
      rfl
  split at h
  · cases h
    rfl
  split at h
  · cases h
    rfl
  split at h
  · cases h
    rfl
  · cases h
    rfl

omit [Host] in
theorem storeEffect_delayed (q : TaskQueueInner) (t : TaskId) (f : ResultEffect) (k : DelayedRetryKey) :
    k ∈ (q.storeEffect t f).delayedRetries ↔ k ∈ q.delayedRetries ∨ f.delayKey = some k := by
  have hkey : (q.storeEffect t f).delayedRetries = f.delayKey.elim q.delayedRetries q.delayedRetries.insert := by
    unfold storeEffect
    dsimp only
    cases f.delayKey <;> cases f.readyKey <;> split <;> simp [insertDelayed, insertReady]
  rw [hkey]
  cases f.delayKey with
  | none => simp
  | some k' =>
    rw [Option.elim_some, ExtTreeSet.mem_insert, LawfulEqCmp.compare_eq_iff_eq, Option.some.injEq]
    exact or_comm

theorem Timed.result (h : Timed q) {w : Uuid} {r : TaskResult} {clock : Clock} {f : ResultEffect}
    (he : q.tasks.get r.taskId = some e) (hact : e.state.isActive)
    (hf : applyResult q.retryPolicy e w r clock = some f) (k : DelayedRetryKey) :
    k ∈ ((q.unassign w r.taskId).storeEffect r.taskId f).delayedRetries ↔
      deadline (((q.unassign w r.taskId).storeEffect r.taskId f).tasks.get k.taskId) = some k.retryAfter := by
  have hset : ((q.unassign w r.taskId).setEntry r.taskId f.entry).tasks =
      q.tasks.set r.taskId f.entry := by rw [setEntry_tasks, unassign_tasks]
  refine h.update hset (storeEffect_pruned _ _ f) (fun k => ?_) k
  rw [storeEffect_delayed, unassign_delayed, applyResult_delay hf]
  have hne : k ∈ q.delayedRetries → k.taskId ≠ r.taskId := h.key_ne he (deadline_of_active hact)
  obtain ⟨after, u⟩ := k
  constructor
  · rintro (hk | hk)
    · exact .inl ⟨hne hk, hk⟩
    · obtain ⟨after', hafter, hkey⟩ := Option.map_eq_some_iff.mp hk
      cases hkey
      exact .inr ⟨rfl, hafter⟩
  · rintro (⟨-, hk⟩ | ⟨rfl, hafter⟩)
    · exact .inl hk
    · exact .inr (Option.map_eq_some_iff.mpr ⟨after, hafter, rfl⟩)

omit [Host] in
/-- A cancelled task leaves with its key. -/
theorem Timed.dropFromIndex (h : Timed q) (hget : q.tasks.get t = some e) (k : DelayedRetryKey) :
    k ∈ (q.dropFromIndex t e).delayedRetries ↔ k.taskId ≠ t ∧ k ∈ q.delayedRetries := by
  by_cases hretrying : e.state = .retrying
  · obtain ⟨after, hafter⟩ := Option.isSome_iff_exists.mp (h.waits t e hget hretrying)
    have hdeadline : deadline (q.tasks.get t) = some after := by
      rw [hget, deadline_of_retrying hretrying, hafter]
    have hdrop : (q.dropFromIndex t e).delayedRetries = q.delayedRetries.erase ⟨after, t⟩ := by
      unfold TaskQueueInner.dropFromIndex
      rw [hretrying, hafter]
      rfl
    rw [hdrop, ExtTreeSet.mem_erase, ne_eq, LawfulEqCmp.compare_eq_iff_eq]
    refine and_congr_left fun hk => not_congr ⟨?_, ?_⟩
    · rintro rfl
      rfl
    rintro rfl
    have hkey := (h.keys k).mp hk
    rw [hdeadline] at hkey
    cases hkey
    rfl
  have hdrop : (q.dropFromIndex t e).delayedRetries = q.delayedRetries := by
    have hfrom := (Moves.unassignFrom (P := (· ≠ .delayed)) rfl q e.assignedWorkerId t).delayed_eq rfl
    unfold TaskQueueInner.dropFromIndex
    split
    · rfl
    · next hs => exact absurd hs hretrying
    · exact hfrom
    · exact hfrom
    · rfl
  rw [hdrop]
  exact ⟨fun hk => ⟨h.key_ne hget (deadline_of_ne hretrying) hk, hk⟩, fun hk => hk.2⟩

omit [Host] in
theorem Timed.cancelled (h : Timed q) (he : q.tasks.get t = some e) (reason : Option String) (k : DelayedRetryKey) :
    k ∈ (((q.dropFromIndex t e).setEntry t (cancelledEntry e t reason)).trackTerminalTask t).delayedRetries ↔
      deadline ((((q.dropFromIndex t e).setEntry t (cancelledEntry e t reason)).trackTerminalTask t).tasks.get
        k.taskId) = some k.retryAfter := by
  have hnone : deadline (some (cancelledEntry e t reason)) = none := deadline_of_terminal rfl
  have hset : ((q.dropFromIndex t e).setEntry t (cancelledEntry e t reason)).tasks =
      q.tasks.set t (cancelledEntry e t reason) := by rw [setEntry_tasks, dropFromIndex_tasks]
  refine h.update hset (trackTerminalTask_pruned _ _) (fun k => ?_) k
  rw [trackTerminalTask_delayed, setEntry_delayed, h.dropFromIndex he, hnone]
  simp

/-! ## Failover -/

theorem sweepEntry_delay {p : RetryPolicy} {w : Uuid} {reason : String} {immediate : Bool} {clock : Clock}
    {fate : SweepFate} (h : sweepEntry p e t w reason immediate clock = (e', fate)) (k : DelayedRetryKey) :
    fate = .delayed k ↔ k.taskId = t ∧ deadline (some e') = some k.retryAfter := by
  unfold sweepEntry at h
  dsimp only at h
  split at h
  · split at h
    · cases h
      exact ⟨nofun, nofun⟩
    cases h
    obtain ⟨after, u⟩ := k
    rw [deadline_of_retrying rfl]
    simp [and_comm, eq_comm]
  · cases h
    exact ⟨nofun, nofun⟩

omit [Host] in
theorem insertDelays_delayed (fates : List (TaskId × SweepFate)) (k : DelayedRetryKey) : ∀ q : TaskQueueInner,
    k ∈ (insertDelays fates q).delayedRetries ↔ k ∈ q.delayedRetries ∨ ∃ u, (u, .delayed k) ∈ fates := by
  induction fates with
  | nil => intro q; simp [insertDelays]
  | cons f rest ih =>
    intro q
    obtain ⟨v, fate⟩ := f
    refine (ih _).trans ?_
    cases fate with
    | ready | failed => simp
    | delayed key =>
      have hinsert : k ∈ ((q.insertDelayed key).updateActiveTask key.taskId).delayedRetries ↔
          k = key ∨ k ∈ q.delayedRetries := by
        rw [updateActiveTask_delayed]
        unfold insertDelayed
        rw [ExtTreeSet.mem_insert, LawfulEqCmp.compare_eq_iff_eq, eq_comm]
      simp only [hinsert, List.mem_cons, Prod.mk.injEq, SweepFate.delayed.injEq, exists_or,
        exists_eq_left]
      tauto

theorem Timed.handleSessionDisconnected (h : Timed q) (w : Uuid) (session : Option Nat) (reason : String)
    (immediate : Bool) (order : SetOrder TaskId) (clock : Clock) (k : DelayedRetryKey) :
    k ∈ (q.handleSessionDisconnected w session reason immediate order clock).2.delayedRetries ↔
      deadline ((q.handleSessionDisconnected w session reason immediate order clock).2.tasks.get k.taskId) =
        some k.retryAfter := by
  obtain ⟨hs, -⟩ := sweepTasks_swept w session reason immediate clock
    (order.list (q.sweptCandidates w)) q (order.nodup _)
  have hdelayed := ((Moves.sweepTasks (P := (· ≠ .delayed)) rfl rfl w session reason immediate clock
    (order.list (q.sweptCandidates w)) q).trans (.dropEmptyAssignments rfl _ w)).delayed_eq rfl
  unfold TaskQueueInner.handleSessionDisconnected
  generalize sweepTasks w session reason immediate clock (order.list (q.sweptCandidates w)) q = out at hs hdelayed
  have hpruned := settleFates_pruned out.1 w out.2
  have hsettled := ((Moves.insertReadies (P := (· ≠ .delayed)) rfl rfl out.1
    (insertDelays out.1 (out.2.dropEmptyAssignments w))).trans (.trackFailures rfl rfl out.1 _)).delayed_eq rfl
  rw [hsettled, insertDelays_delayed, hdelayed, hpruned.deadline_eq]
  have hkey : ∀ u, (u, SweepFate.delayed k) ∈ out.1 → k.taskId = u := by
    intro u hu
    obtain ⟨e, e', -, -, hse, -⟩ := hs.swept u _ hu
    exact ((sweepEntry_delay hse k).mp rfl).1
  by_cases hu : k.taskId ∈ out.1.map Prod.fst
  · obtain ⟨⟨v, fate⟩, hmem, hv⟩ := List.mem_map.mp hu
    obtain ⟨e, e', he, hsweeps, hse, hf⟩ := hs.swept v fate hmem
    have he' : out.2.tasks.get v = some e' := congrArg Facet.entry hf
    have hfate := sweepEntry_delay hse k
    rw [← hv, he']
    constructor
    · rintro (hk | ⟨u, hmem'⟩)
      · exact absurd hv.symm (h.key_ne he (deadline_of_active (sweeps_iff.mp hsweeps).1) hk)
      · cases (hkey u hmem').symm.trans hv.symm
        exact (hfate.mp (hs.fate_unique hmem hmem')).2
    · intro hdeadline
      cases hfate.mpr ⟨hv.symm, hdeadline⟩
      exact .inr ⟨v, hmem⟩
  have hnone : ¬ ∃ u, (u, SweepFate.delayed k) ∈ out.1 := by
    rintro ⟨u, hmem⟩
    exact hu (List.mem_map.mpr ⟨_, hmem, (hkey u hmem).symm⟩)
  rw [get_congr (hs.other _ hu), or_iff_left hnone]
  exact h.keys k

/-! ## Elapsed backoffs -/

section

omit [Host]

/-- On a list sorted by `r`, a predicate that `r` carries backwards holds of a leading part. -/
theorem mem_takeWhile_of_pairwise {α : Type} {r : α → α → Prop} {p : α → Bool} {l : List α} (hl : l.Pairwise r)
    (hp : ∀ a b, r a b → p b = true → p a = true) (a : α) : a ∈ l.takeWhile p ↔ a ∈ l ∧ p a = true := by
  induction l with
  | nil => simp
  | cons b rest ih =>
    obtain ⟨hb, hrest⟩ := List.pairwise_cons.mp hl
    rw [List.takeWhile_cons]
    by_cases hpb : p b = true
    · rw [if_pos hpb, List.mem_cons, ih hrest, List.mem_cons]
      constructor
      · rintro (rfl | ⟨ha, hpa⟩)
        · exact ⟨Or.inl rfl, hpb⟩
        · exact ⟨Or.inr ha, hpa⟩
      · rintro ⟨rfl | ha, hpa⟩
        · exact .inl rfl
        · exact .inr ⟨ha, hpa⟩
    rw [if_neg hpb]
    simp only [List.not_mem_nil, false_iff, not_and]
    intro ha hpa
    rcases List.mem_cons.mp ha with rfl | ha
    · exact hpb hpa
    · exact hpb (hp b a (hb a ha) hpa)

theorem mem_dueRetries (q : TaskQueueInner) (now : Instant) (k : DelayedRetryKey) :
    k ∈ q.dueRetries now ↔ k ∈ q.delayedRetries ∧ k.retryAfter ≤ now := by
  unfold dueRetries
  rw [mem_takeWhile_of_pairwise ExtTreeSet.ordered_toList, ExtTreeSet.mem_toList, decide_eq_true_eq]
  intro a b hab hb
  rw [decide_eq_true_eq] at hb ⊢
  refine Nat.le_trans ?_ hb
  by_contra hlt
  have hgt : compare a.retryAfter b.retryAfter = .gt := Nat.compare_eq_gt.mpr (Nat.lt_of_not_le hlt)
  unfold DelayedRetryKey.cmp at hab
  rw [hgt] at hab
  cases hab

theorem removeDelays_delayed (keys : List DelayedRetryKey) (k : DelayedRetryKey) : ∀ q : TaskQueueInner,
    k ∈ (keys.foldl removeDelayed q).delayedRetries ↔ k ∈ q.delayedRetries ∧ k ∉ keys := by
  induction keys with
  | nil => intro q; simp
  | cons key rest ih =>
    intro q
    rw [List.foldl_cons, ih]
    unfold removeDelayed
    rw [ExtTreeSet.mem_erase, ne_eq, LawfulEqCmp.compare_eq_iff_eq, List.mem_cons]
    constructor
    · rintro ⟨⟨hne, hk⟩, hrest⟩
      exact ⟨hk, not_or.mpr ⟨fun h => hne h.symm, hrest⟩⟩
    · rintro ⟨hk, hnot⟩
      exact ⟨⟨fun h => hnot (Or.inl h.symm), hk⟩, fun h => hnot (Or.inr h)⟩

theorem readyRetries_delayed (keys : List DelayedRetryKey) : ∀ q : TaskQueueInner,
    (keys.foldl (fun q k => q.readyRetry k.taskId) q).delayedRetries = q.delayedRetries := by
  induction keys with
  | nil => exact fun _ => rfl
  | cons k rest ih =>
    intro q
    refine (ih _).trans ?_
    dsimp only [readyRetry]
    split
    · split <;> rfl
    · rfl

/-- The entry waits, and its own moment has come. -/
def backoffElapsed (now : Instant) (e : TaskEntry) : Bool :=
  (deadline (some e)).any fun after => decide (after ≤ now)

/-- The tasks whose backoff has elapsed. -/
def elapsedTasks (q : TaskQueueInner) (now : Instant) : Finset TaskId :=
  q.tasks.keys.filter fun t => (q.tasks.get t).any (backoffElapsed now)

theorem Timed.due_iff (h : Timed q) (now : Instant) (hget : q.tasks.get t = some e) :
    ((∃ k ∈ q.dueRetries now, k.taskId = t) ∧ e.state = .retrying) ↔ backoffElapsed now e = true := by
  unfold backoffElapsed
  rw [Option.any_eq_true]
  constructor
  · rintro ⟨⟨k, hk, rfl⟩, -⟩
    obtain ⟨hmem, hle⟩ := (mem_dueRetries q now k).mp hk
    have hdeadline := (h.keys k).mp hmem
    rw [hget] at hdeadline
    exact ⟨k.retryAfter, hdeadline, decide_eq_true hle⟩
  rintro ⟨after, hdeadline, hle⟩
  have hmem : ⟨after, t⟩ ∈ q.delayedRetries := (h.keys ⟨after, t⟩).mpr (by rw [hget]; exact hdeadline)
  refine ⟨⟨⟨after, t⟩, (mem_dueRetries q now _).mpr ⟨hmem, of_decide_eq_true hle⟩, rfl⟩, ?_⟩
  by_contra hne
  rw [deadline_of_ne hne] at hdeadline
  cases hdeadline

/-- `process_delayed_retries` moves the tasks whose backoff elapsed, and no other. -/
theorem Timed.processed (h : Timed q) (now : Instant) (t : TaskId) : (q.processDelayedRetries now).2.tasks.get t =
      (q.tasks.get t).map fun e => if backoffElapsed now e then woken e else e := by
  rw [processDelayedRetries_entries]
  cases hget : q.tasks.get t with
  | none => rfl
  | some e =>
    rw [Option.map_some, Option.map_some]
    by_cases hdue : backoffElapsed now e = true
    · rw [if_pos ((h.due_iff now hget).mpr hdue), if_pos hdue]
    · rw [if_neg (fun hd => hdue ((h.due_iff now hget).mp hd)), if_neg hdue]

theorem Timed.processDelayedRetries (h : Timed q) (now : Instant) (k : DelayedRetryKey) :
    k ∈ (q.processDelayedRetries now).2.delayedRetries ↔
      deadline ((q.processDelayedRetries now).2.tasks.get k.taskId) = some k.retryAfter := by
  have hkeys : k ∈ (q.processDelayedRetries now).2.delayedRetries ↔
      deadline (q.tasks.get k.taskId) = some k.retryAfter ∧ ¬ k.retryAfter ≤ now := by
    unfold TaskQueueInner.processDelayedRetries
    rw [readyRetries_delayed, removeDelays_delayed, mem_dueRetries, h.keys k, not_and]
    exact ⟨fun hk => ⟨hk.1, hk.2 hk.1⟩, fun hk => ⟨hk.1, fun _ => hk.2⟩⟩
  rw [hkeys, h.processed]
  cases q.tasks.get k.taskId with
  | none => simp [deadline]
  | some e =>
    rw [Option.map_some]
    by_cases hdue : backoffElapsed now e = true
    · obtain ⟨after, hafter, hle⟩ := (Option.any_eq_true _ _).mp hdue
      have hwoken : deadline (some (woken e)) = none := deadline_of_ne (by exact nofun)
      rw [if_pos hdue, hwoken, hafter]
      simp only [Option.some.injEq, reduceCtorEq, iff_false, not_and, not_not]
      rintro rfl
      exact of_decide_eq_true hle
    rw [if_neg hdue]
    refine and_iff_left_of_imp fun hk hle => hdue ?_
    unfold backoffElapsed
    rw [hk]
    exact decide_eq_true hle

theorem Timed.processed_count (h : Timed q) (now : Instant) :
    (q.processDelayedRetries now).1 = (elapsedTasks q now).card := by
  have hinj : ∀ k ∈ q.dueRetries now, ∀ k' ∈ q.dueRetries now, k.taskId = k'.taskId → k = k' := by
    intro k hk k' hk' hid
    have hkey := (h.keys k).mp ((mem_dueRetries q now k).mp hk).1
    have hkey' := (h.keys k').mp ((mem_dueRetries q now k').mp hk').1
    rw [← hid, hkey] at hkey'
    obtain ⟨after, u⟩ := k
    obtain ⟨after', u'⟩ := k'
    cases hid
    cases hkey'
    rfl
  have hnodup : (q.dueRetries now).Nodup := by
    refine List.Nodup.sublist (List.takeWhile_sublist _) ?_
    refine ExtTreeSet.distinct_toList.imp fun hab heq => hab ?_
    exact LawfulEqCmp.compare_eq_iff_eq.mpr heq
  have hset : elapsedTasks q now = ((q.dueRetries now).map DelayedRetryKey.taskId).toFinset := by
    ext t
    unfold elapsedTasks
    rw [Finset.mem_filter, FMap.mem_keys, List.mem_toFinset, List.mem_map]
    constructor
    · rintro ⟨-, hany⟩
      obtain ⟨e, he, hdue⟩ := (Option.any_eq_true _ _).mp hany
      exact ((h.due_iff now he).mpr hdue).1
    rintro ⟨k, hk, rfl⟩
    have hkey := (h.keys k).mp ((mem_dueRetries q now k).mp hk).1
    cases he : q.tasks.get k.taskId with
    | none =>
      rw [he] at hkey
      cases hkey
    | some e =>
      refine ⟨rfl, (h.due_iff now he).mp ⟨⟨k, hk, rfl⟩, ?_⟩⟩
      by_contra hne
      rw [he, deadline_of_ne hne] at hkey
      cases hkey
  rw [hset, List.toFinset_card_of_nodup (hnodup.map_on hinj), List.length_map]
  rfl

/-! ## Runs -/

theorem timed_start (c : QueueConfig) : Timed c.start where
  keys k := ⟨fun h => absurd h ExtTreeSet.not_mem_empty, fun h => by cases h⟩
  waits _ _ h := by cases h

end

theorem Timed.apply (hq : Coherent q) (h : Timed q) {op : Op} (hkept : BackoffKept q op) : Timed (q.apply op) := by
  refine ⟨fun k => ?_, h.waits_apply hq op⟩
  cases hop : op.delays with
  | false => rw [apply_delayed hop, deadline_apply hq hop hkept, h.keys k]
  | true =>
    have hcall := apply_performs q op
    generalize q.apply op = q', q.refusal op = err at hcall ⊢
    cases hcall with
    | error | idle => exact h.keys k
    | dropResult =>
      rw [unassign_delayed, unassign_tasks]
      exact h.keys k
    | result get owned unfinished effect =>
      exact h.result get ((hq.entries _ _ get).active_of_owned owned unfinished) effect k
    | sweep => exact h.handleSessionDisconnected _ _ _ _ _ _ k
    | wake => exact h.processDelayedRetries _ k
    | cancel get => exact h.cancelled get _ k
    | _ => cases hop

theorem run_timed (c : QueueConfig) {ops : List Op} (h : Within TaskQueueInner.apply BackoffKept c.start ops) :
    Timed (c.start.run ops) := by
  have hstep : ∀ (q : TaskQueueInner) (op : Op), Coherent q ∧ Timed q → BackoffKept q op →
      Coherent (q.apply op) ∧ Timed (q.apply op) :=
    fun q op hq hkept => ⟨(apply_evolves hq.1 op).coherent hq.1, hq.2.apply hq.1 hkept⟩
  exact (Within.invariant hstep ⟨start_coherent c, timed_start c⟩ h).2

end

/-- **The index of delayed retries**, in every run that requeues no waiting task: it has exactly the keys of
the waiting tasks, one for each.  Then `process_delayed_retries` moves exactly the tasks whose own backoff
has elapsed, and returns how many it moved. -/
theorem delayed_index_exact (c : QueueConfig) (ops : List Op)
    (h : Within TaskQueueInner.apply BackoffKept c.start ops) :
    let q := c.start.run ops
    (∀ k, k ∈ q.delayedRetries ↔
      ∃ e, q.tasks.get k.taskId = some e ∧ e.state = .retrying ∧ e.retryAfterInstant = some k.retryAfter) ∧
    (∀ t e, q.tasks.get t = some e → e.state = .retrying → ∃! k, k ∈ q.delayedRetries ∧ k.taskId = t) ∧
    ∀ now, (∀ t, (q.processDelayedRetries now).2.tasks.get t =
        (q.tasks.get t).map fun e => if backoffElapsed now e then woken e else e) ∧
      (q.processDelayedRetries now).1 = (elapsedTasks q now).card := by
  intro q
  have hq : Timed q := run_timed c h
  refine ⟨fun k => ?_, fun t e he hretrying => ?_, fun now => ⟨hq.processed now, hq.processed_count now⟩⟩
  · rw [hq.keys k]
    unfold deadline
    simp only [Option.bind_eq_some_iff, Option.ite_none_right_eq_some]
  obtain ⟨after, hafter⟩ := Option.isSome_iff_exists.mp (hq.waits t e he hretrying)
  have hdeadline : deadline (q.tasks.get t) = some after := by
    rw [he, deadline_of_retrying hretrying, hafter]
  refine ⟨⟨after, t⟩, ⟨(hq.keys ⟨after, t⟩).mpr hdeadline, rfl⟩, ?_⟩
  rintro ⟨after', u⟩ ⟨hk, rfl⟩
  have hkey := (hq.keys _).mp hk
  rw [hdeadline] at hkey
  cases hkey
  rfl

end Index

section Concrete

/-- A host whose floats are whole numbers, exact on the values of the runs below. -/
@[reducible] def Host.whole : Host :=
  { Host.blank with
    natToF64 := fun n => ⟨n⟩
    f64ToNat := fun x => x.bits.toNat
    mul := fun x y => ⟨x.bits * y.bits⟩
    powi := fun x n => ⟨x.bits ^ n⟩
    round := fun x => x }

attribute [local instance] Host.whole

/-- A queue that retries execution failures after a backoff of 1 s, 2 s, 4 s. -/
def QueueConfig.patient : QueueConfig :=
  { QueueConfig.small 10 with retryPolicy := ⟨3, 10, 1000, 60000, ⟨2⟩, true, true⟩ }

/-- Task 1 fails on worker 7 at the given moment. -/
def failsAt (now : Instant) : List Op :=
  [.scheduleTask ⟨1⟩ 7 now, .markRunningFrom 7 none ⟨1⟩ now,
   .recordResultFrom 7 none { TaskResult.done 7 ⟨1⟩ with exitCode := 1 } ⟨now, 0⟩]

/-- Task 1 fails, and is requeued during its backoff. -/
def requeuedEarly : List Op :=
  .submitWithPriority (Task.echo 1) 0 ⟨0, 0⟩ :: failsAt 1000000 ++ [.requeueTask ⟨1⟩]

/-- A requeued task leaves a key behind: `process_delayed_retries` counts a task that it does not move, and
after a second failure it moves the task one second before its backoff of two has elapsed. -/
theorem delayed_index_can_go_stale :
    let q := QueueConfig.patient.start.run requeuedEarly
    let q' := QueueConfig.patient.start.run (requeuedEarly ++ failsAt 2000000)
    (∃ k ∈ q.delayedRetries, ∀ e, q.tasks.get k.taskId = some e → e.state ≠ .retrying) ∧
    (q.processDelayedRetries 1001000000).1 = 1 ∧ elapsedTasks q 1001000000 = ∅ ∧
    (q'.tasks.get ⟨1⟩).map (fun e => (e.state, e.retryAfterInstant)) = some (.retrying, some 2002000000) ∧
    ((q'.processDelayedRetries 1001000000).2.tasks.get ⟨1⟩).map (fun e => e.state) = some .queued := by
  intro q q'
  have hstate : (q.tasks.get ⟨1⟩).map (fun e => e.state) = some .queued := by decide +kernel
  refine ⟨⟨⟨1001000000, ⟨1⟩⟩, by decide +kernel, fun e he hretrying => ?_⟩, by decide +kernel, by decide +kernel,
    by decide +kernel, by decide +kernel⟩
  rw [he, Option.map_some, hretrying] at hstate
  cases hstate

/-- A task waits, and is moved when its backoff has elapsed. -/
theorem delayed_index_exact_once :
    let ops := .submitWithPriority (Task.echo 1) 0 ⟨0, 0⟩ :: failsAt 1000000
    let q := QueueConfig.patient.start.run ops
    Within TaskQueueInner.apply BackoffKept QueueConfig.patient.start ops ∧
    elapsedTasks q 1001000000 = {⟨1⟩} ∧ (q.processDelayedRetries 1001000000).1 = (elapsedTasks q 1001000000).card := by
  intro ops q
  have hkept : Within TaskQueueInner.apply BackoffKept QueueConfig.patient.start ops := by
    exact ⟨trivial, trivial, trivial, trivial, trivial⟩
  have hindex := delayed_index_exact QueueConfig.patient ops hkept
  exact ⟨hkept, by decide +kernel, (hindex.2.2 1001000000).2⟩

end Concrete

end OxideSwarm
