import OxideSwarm.Queue.Accounting

/-!
# Retention of finished tasks (`master/src/queue.rs:692-763, 1978-2022, 2259-2289`)

`terminal_order` lists the finished tasks that are still known.  `finishOrder` is the history it is a part
of: the tasks in the order in which operations finished them, where an operation finishes the tasks that were
unfinished before it and are finished or gone after it.  An eviction takes the head of `terminal_order` and a
finish appends to it, so the list is always a suffix of the history (`Retires`), and both loops of
`enforce_terminal_limits` run until their limit holds.
-/

namespace OxideSwarm

open Std TaskQueueInner

/-! ## The finishing order -/

/-- The queue holds an unfinished entry of `t`. -/
def TaskQueueInner.unfinished (q : TaskQueueInner) (t : TaskId) : Bool :=
  (q.tasks.get t).any fun e => !e.state.isTerminal

section

variable [Host]

/-- The tasks whose entries an operation may finish, in the order in which it visits them. -/
def Op.visits (q : TaskQueueInner) : Op → List TaskId
  | .recordResultFrom _ _ r _ | .failUnsendableAssignment _ _ r => [r.taskId]
  | .cancelTaskDetailed t _ => [t]
  | .handleSessionDisconnected w _ _ _ order _ => order.list (q.sweptCandidates w)
  | _ => []

/-- The tasks that an operation finishes, in the order in which it does. -/
def TaskQueueInner.finishes (q : TaskQueueInner) (op : Op) : List TaskId :=
  (op.visits q).filter fun t => q.unfinished t && !(q.apply op).unfinished t

/-- The tasks in the order in which a run finishes them. -/
def TaskQueueInner.finishOrder (q : TaskQueueInner) : List Op → List TaskId
  | [] => []
  | op :: rest => q.finishes op ++ (q.apply op).finishOrder rest

end

/-! ## Evictions -/

/-- Both limits hold; the byte limit may be exceeded by a single task. -/
structure WithinLimits (q : TaskQueueInner) : Prop where
  count : q.terminalOrder.length ≤ q.maxTerminalTasks
  bytes : q.terminalBytes ≤ q.maxTerminalBytes ∨ q.terminalOrder.length ≤ 1

/-- `q'` comes out of `q` by evictions, oldest first. -/
structure Evicts (q q' : TaskQueueInner) : Prop where
  order : q'.terminalOrder <:+ q.terminalOrder
  maxTasks : q'.maxTerminalTasks = q.maxTerminalTasks
  maxBytes : q'.maxTerminalBytes = q.maxTerminalBytes
  bytes : q'.terminalBytes ≤ q.terminalBytes
  gone : ∀ t, (q.tasks.get t).isSome → q'.tasks.get t = none → t ∈ q.terminalOrder

section

variable {q q' q'' : TaskQueueInner}

theorem Evicts.refl (q : TaskQueueInner) : Evicts q q where
  order := List.suffix_rfl
  maxTasks := rfl
  maxBytes := rfl
  bytes := Nat.le_refl _
  gone t hsome hnone := by
    rw [hnone] at hsome
    cases hsome

theorem Evicts.trans (h : Evicts q q') (h' : Evicts q' q'') : Evicts q q'' where
  order := h'.order.trans h.order
  maxTasks := h'.maxTasks.trans h.maxTasks
  maxBytes := h'.maxBytes.trans h.maxBytes
  bytes := h'.bytes.trans h.bytes
  gone t hsome hnone := by
    cases hmid : q'.tasks.get t with
    | none => exact h.gone t hsome hmid
    | some e => exact h.order.subset (h'.gone t (by rw [hmid]; rfl) hnone)

theorem Evicts.within (h : Evicts q q') (hq : WithinLimits q) : WithinLimits q' where
  count := by
    rw [h.maxTasks]
    exact h.order.length_le.trans hq.count
  bytes := by
    rw [h.maxBytes]
    exact hq.bytes.imp (fun hb => h.bytes.trans hb) fun hl => h.order.length_le.trans hl

theorem evictOldestTerminal_evicts (h : q.evictOldestTerminal = some q') :
    Evicts q q' ∧ q.terminalOrder.length = q'.terminalOrder.length + 1 := by
  unfold evictOldestTerminal at h
  split at h
  · cases h
  next t rest horder =>
  have hsuffix : rest <:+ q.terminalOrder := by
    rw [horder]
    exact List.suffix_cons t rest
  have hlength : q.terminalOrder.length = rest.length + 1 := by
    rw [horder]
    exact List.length_cons
  dsimp only at h
  split at h
  · cases h
    unfold removeRetained
    obtain ⟨sizes, bytes, heq⟩ :=
      ({ q with terminalOrder := rest, tasks := q.tasks.del t } : TaskQueueInner).untrackActiveTask_eq t
    dsimp only
    rw [heq]
    have hgone : ∀ u, (q.tasks.get u).isSome → (q.tasks.del t).get u = none → u ∈ q.terminalOrder := by
      intro u hsome hnone
      rw [FMap.get_del] at hnone
      split at hnone
      · next hu =>
        rw [hu, horder]
        exact List.mem_cons_self
      · rw [hnone] at hsome
        cases hsome
    split
    · exact ⟨⟨hsuffix, rfl, rfl, Nat.sub_le _ _, hgone⟩, hlength⟩
    · exact ⟨⟨hsuffix, rfl, rfl, Nat.le_refl _, hgone⟩, hlength⟩
  · cases h
    exact ⟨⟨hsuffix, rfl, rfl, Nat.le_refl _, (Evicts.refl q).gone⟩, hlength⟩

theorem evictOldestTerminal_none (h : q.evictOldestTerminal = none) : q.terminalOrder = [] := by
  unfold evictOldestTerminal at h
  split at h
  · next hnil => exact hnil
  · dsimp only at h
    split at h <;> cases h

theorem Evictions.evicts (h : Evictions q q') : Evicts q q' := by
  induction h with
  | refl => exact .refl q
  | tail _ hstep ih => exact ih.trans (evictOldestTerminal_evicts hstep).1

/-- With a round for each retained task, a loop of evictions ends with its limit met, or with nothing left. -/
theorem evictWhile_done (exceeds : TaskQueueInner → Bool) (fuel : Nat) :
    ∀ q, q.terminalOrder.length ≤ fuel → exceeds (evictWhile exceeds fuel q) = false ∨
      (evictWhile exceeds fuel q).terminalOrder = [] := by
  induction fuel with
  | zero =>
    intro q hfuel
    exact .inr (List.eq_nil_of_length_eq_zero (Nat.le_zero.mp hfuel))
  | succ n ih =>
    intro q hfuel
    unfold evictWhile
    split
    · cases h : q.evictOldestTerminal with
      | none => exact .inr (evictOldestTerminal_none h)
      | some q' =>
        have hlength := (evictOldestTerminal_evicts h).2
        exact ih q' (by omega)
    · next hmet => exact .inl (by simpa using hmet)

/-- A loop that only evicts while two tasks are left leaves one. -/
theorem evictWhile_keeps {exceeds : TaskQueueInner → Bool} {limit : Nat}
    (hexceeds : ∀ q, q.maxTerminalTasks = limit → exceeds q → 1 < q.terminalOrder.length) (fuel : Nat) :
    ∀ q, q.maxTerminalTasks = limit → q.terminalOrder ≠ [] → (evictWhile exceeds fuel q).terminalOrder ≠ [] := by
  induction fuel with
  | zero => exact fun _ _ h => h
  | succ n ih =>
    intro q hlimit hne
    unfold evictWhile
    split
    · next hover =>
      have hlength := hexceeds q hlimit hover
      cases h : q.evictOldestTerminal with
      | none => exact hne
      | some q' =>
        obtain ⟨hevicts, hone⟩ := evictOldestTerminal_evicts h
        refine ih q' (hevicts.maxTasks.trans hlimit) (List.ne_nil_of_length_pos ?_)
        omega
    · exact hne

theorem enforceTerminalLimits_within (q : TaskQueueInner) : WithinLimits q.enforceTerminalLimits := by
  unfold enforceTerminalLimits
  have hcount := evictWhile_done overCount q.terminalOrder.length q (Nat.le_refl _)
  generalize evictWhile overCount q.terminalOrder.length q = q1 at hcount ⊢
  have hbytes := evictWhile_done overBytes q1.terminalOrder.length q1 (Nat.le_refl _)
  have hevicts := (evictWhile_evictions overBytes q1.terminalOrder.length q1 .refl).evicts
  generalize evictWhile overBytes q1.terminalOrder.length q1 = q2 at hbytes hevicts ⊢
  have hlength := hevicts.order.length_le
  refine ⟨?_, ?_⟩
  · rw [hevicts.maxTasks]
    rcases hcount with hmet | hnil
    · simp only [overCount, decide_eq_false_iff_not, Nat.not_lt] at hmet
      exact hlength.trans hmet
    · rw [hnil] at hlength
      exact hlength.trans (Nat.zero_le _)
  rcases hbytes with hmet | hnil
  · simp only [overBytes, Bool.and_eq_false_iff, decide_eq_false_iff_not, Nat.not_lt] at hmet
    exact hmet
  · rw [hnil]
    exact .inr (Nat.zero_le _)

/-- A queue that may retain a task keeps the latest one, whatever its size. -/
theorem enforceTerminalLimits_keeps (hlimit : 1 ≤ q.maxTerminalTasks) (hne : q.terminalOrder ≠ []) :
    q.enforceTerminalLimits.terminalOrder ≠ [] := by
  have hcount : ∀ q', q'.maxTerminalTasks = q.maxTerminalTasks → overCount q' →
      1 < q'.terminalOrder.length := by
    intro q' hsame hover
    simp only [overCount, decide_eq_true_eq, hsame] at hover
    omega
  have hbytes : ∀ q', q'.maxTerminalTasks = q.maxTerminalTasks → overBytes q' →
      1 < q'.terminalOrder.length := by
    intro q' _ hover
    simp only [overBytes, Bool.and_eq_true, decide_eq_true_eq] at hover
    exact hover.2
  exact evictWhile_keeps hbytes _ _ (evictWhile_evictions overCount _ q .refl).evicts.maxTasks
    (evictWhile_keeps hcount _ q rfl hne)

end

/-! ## Finishes -/

/-- `q'` comes out of `q` when the tasks `l` finish one after the other, each with the evictions that follow. -/
structure Retires (q q' : TaskQueueInner) (l : List TaskId) : Prop where
  order : q'.terminalOrder <:+ q.terminalOrder ++ l
  maxTasks : q'.maxTerminalTasks = q.maxTerminalTasks
  maxBytes : q'.maxTerminalBytes = q.maxTerminalBytes
  within : WithinLimits q → WithinLimits q'
  latest : 1 ≤ q.maxTerminalTasks → q.terminalOrder ++ l ≠ [] → q'.terminalOrder ≠ []
  gone : ∀ t, (q.tasks.get t).isSome → q'.tasks.get t = none → t ∈ q.terminalOrder ++ l

section

variable {q q' q'' : TaskQueueInner} {l l' : List TaskId} {t : TaskId} {e : TaskEntry}

theorem Retires.trans (h : Retires q q' l) (h' : Retires q' q'' l') : Retires q q'' (l ++ l') where
  order := by
    have hsuffix : q'.terminalOrder ++ l' <:+ q.terminalOrder ++ (l ++ l') := by
      rw [← List.append_assoc]
      obtain ⟨pre, hpre⟩ := h.order
      exact ⟨pre, by rw [← List.append_assoc, hpre]⟩
    exact h'.order.trans hsuffix
  maxTasks := h'.maxTasks.trans h.maxTasks
  maxBytes := h'.maxBytes.trans h.maxBytes
  within hq := h'.within (h.within hq)
  latest hlimit hne := by
    refine h'.latest (by rw [h.maxTasks]; exact hlimit) fun hnil => ?_
    obtain ⟨horder, hl'⟩ := List.append_eq_nil_iff.mp hnil
    refine h.latest hlimit (fun hl => ?_) horder
    rw [← List.append_assoc, hl, hl'] at hne
    exact hne rfl
  gone t hsome hnone := by
    rw [← List.append_assoc]
    cases hmid : q'.tasks.get t with
    | none => exact List.mem_append_left _ (h.gone t hsome hmid)
    | some e =>
      rcases List.mem_append.mp (h'.gone t (by rw [hmid]; rfl) hnone) with hmem | hmem
      · exact List.mem_append_left _ (h.order.subset hmem)
      · exact List.mem_append_right _ hmem

/-- `q'` has the finished tasks and the limits of `q`, and no fewer entries. -/
structure SameRetention (q q' : TaskQueueInner) : Prop where
  order : q'.terminalOrder = q.terminalOrder
  bytes : q'.terminalBytes = q.terminalBytes
  maxTasks : q'.maxTerminalTasks = q.maxTerminalTasks
  maxBytes : q'.maxTerminalBytes = q.maxTerminalBytes
  entries : ∀ t, (q.tasks.get t).isSome → (q'.tasks.get t).isSome

theorem SameRetention.refl (q : TaskQueueInner) : SameRetention q q := ⟨rfl, rfl, rfl, rfl, fun _ h => h⟩

theorem SameRetention.trans (h : SameRetention q q') (h' : SameRetention q' q'') : SameRetention q q'' :=
  ⟨h'.order.trans h.order, h'.bytes.trans h.bytes, h'.maxTasks.trans h.maxTasks, h'.maxBytes.trans h.maxBytes,
    fun t ht => h'.entries t (h.entries t ht)⟩

theorem SameRetention.retires (h : SameRetention q q') : Retires q q' [] where
  order := by rw [h.order, List.append_nil]
  maxTasks := h.maxTasks
  maxBytes := h.maxBytes
  within hq := by
    refine ⟨?_, ?_⟩
    · rw [h.order, h.maxTasks]
      exact hq.count
    · rw [h.order, h.bytes, h.maxBytes]
      exact hq.bytes
  latest _ hne := by
    rw [h.order]
    rwa [List.append_nil] at hne
  gone t hsome hnone := by
    have hkept := h.entries t hsome
    rw [hnone] at hkept
    cases hkept

/-- Updates of other parts than the finished tasks and the limits. -/
theorem Moves.sameRetention {P : QueuePart → Bool} (h : Moves P q q') (hr : P .retained = false) (hl : P .limits = false) :
    SameRetention q q' :=
  ⟨(h.retained_eq hr).1, (h.retained_eq hr).2.2, (h.limits_eq hl).1, (h.limits_eq hl).2, h.entries_kept hr⟩

theorem sameRetention_setEntry (q : TaskQueueInner) (t : TaskId) (e : TaskEntry) : SameRetention q (q.setEntry t e) :=
  (Moves.entry (P := (· = .entries)) rfl q t e).sameRetention rfl rfl

theorem sameRetention_unassign (q : TaskQueueInner) (w : Uuid) (t : TaskId) : SameRetention q (q.unassign w t) :=
  (Moves.unassign (P := (· = .assignments)) rfl q w t).sameRetention rfl rfl

theorem sameRetention_updateActiveTask (q : TaskQueueInner) (t : TaskId) : SameRetention q (q.updateActiveTask t) :=
  (Moves.updateActiveTask (P := (· = .active)) rfl q t).sameRetention rfl rfl

theorem trackTerminalTask_retires (hfree : q.terminalSizes.get t = none) : Retires q (q.trackTerminalTask t) [t] := by
  obtain ⟨sizes, bytes, heq⟩ := q.untrackActiveTask_eq t
  unfold trackTerminalTask
  rw [heq]
  dsimp only
  rw [hfree]
  simp only [Option.isSome_none, Bool.false_eq_true, if_false]
  generalize hq1 : ({ q with
      activeSizes := sizes
      activeBytes := bytes
      terminalSizes := q.terminalSizes.set t ((q.tasks.get t).elim 0 retainedBytes)
      terminalBytes := q.terminalBytes + (q.tasks.get t).elim 0 retainedBytes
      terminalOrder := q.terminalOrder ++ [t] } : TaskQueueInner) = q1
  have horder : q1.terminalOrder = q.terminalOrder ++ [t] := by rw [← hq1]
  have htasks : q1.tasks = q.tasks := by rw [← hq1]
  have hlimit : q1.maxTerminalTasks = q.maxTerminalTasks := by rw [← hq1]
  have hevicts := (enforceTerminalLimits_evictions q1).evicts
  refine ⟨?_, hevicts.maxTasks.trans hlimit, ?_, fun _ => enforceTerminalLimits_within q1, ?_, ?_⟩
  · rw [← horder]
    exact hevicts.order
  · rw [hevicts.maxBytes, ← hq1]
  · intro hone hne
    rw [← hlimit] at hone
    rw [← horder] at hne
    exact enforceTerminalLimits_keeps hone hne
  intro u hsome hnone
  rw [← horder]
  rw [← htasks] at hsome
  exact hevicts.gone u hsome hnone

theorem Retires.finish (h : SameRetention q q') (e : TaskEntry) (hfree : q'.terminalSizes.get t = none) :
    Retires q ((q'.setEntry t e).trackTerminalTask t) [t] :=
  (h.trans (sameRetention_setEntry q' t e)).retires.trans (trackTerminalTask_retires hfree)

end

/-! ## What each operation finishes -/

/-- What an operation that finishes the tasks `l` does to the list of finished tasks. -/
structure Turnover (q q' : TaskQueueInner) (l : List TaskId) : Prop where
  order : q'.terminalOrder <:+ q.terminalOrder ++ l
  within : WithinLimits q → WithinLimits q'
  latest : 1 ≤ q.maxTerminalTasks → l ≠ [] → q'.terminalOrder ≠ []
  gone : ∀ t, (q.tasks.get t).isSome → q'.tasks.get t = none → t ∈ q.terminalOrder ++ l

/-- An operation that visits the tasks `visits` finishes the tasks `l` of them, in this order. -/
structure Finished (q q' : TaskQueueInner) (visits l : List TaskId) : Prop where
  turnover : Turnover q q' l
  visited : l.Sublist visits
  finished : ∀ t ∈ l, q.unfinished t = true ∧ q'.unfinished t = false

section

variable {q q' q1 : TaskQueueInner} {l : List TaskId} {t : TaskId} {e : TaskEntry}

theorem Retires.turnover (h : Retires q q' l) : Turnover q q' l where
  order := h.order
  within := h.within
  latest hlimit hne := h.latest hlimit fun hnil => hne (List.append_eq_nil_iff.mp hnil).2
  gone := h.gone

theorem unfinished_of_get (hget : q.tasks.get t = some e) : q.unfinished t = !e.state.isTerminal := by
  rw [unfinished, hget, Option.any_some]

theorem unfinished_iff : q.unfinished t = true ↔ ∃ e, q.tasks.get t = some e ∧ e.state.isTerminal = false := by
  rw [unfinished, Option.any_eq_true]
  simp only [Bool.not_eq_true']

theorem Pruned.finished (h : Pruned q q') (hfin : q.unfinished t = false) : q'.unfinished t = false := by
  rcases h t with hsame | ⟨-, -, -, hgone⟩
  · rw [unfinished, hsame]
    exact hfin
  · rw [unfinished, hgone]
    rfl

/-- A result's entry is stored, and tracked if it finishes the task. -/
theorem storeEffect_retires (h : SameRetention q q1) (hfree : q1.terminalSizes.get t = none) (f : ResultEffect) :
    Retires q (q1.storeEffect t f) (if f.entry.state.isTerminal then [t] else []) := by
  have hkeys : ∀ q2 : TaskQueueInner, SameRetention q1 q2 → q2.terminalSizes = q1.terminalSizes →
      Retires q (if f.entry.state.isTerminal then q2.trackTerminalTask t else q2.updateActiveTask t)
        (if f.entry.state.isTerminal then [t] else []) := by
    intro q2 hsame hsizes
    split
    · exact (h.trans hsame).retires.trans (trackTerminalTask_retires (by rw [hsizes]; exact hfree))
    · exact ((h.trans hsame).trans (sameRetention_updateActiveTask q2 t)).retires
  have hset := sameRetention_setEntry q1 t f.entry
  unfold storeEffect
  cases f.readyKey with
  | none =>
    cases f.delayKey with
    | none => exact hkeys _ hset rfl
    | some d => exact hkeys _ ⟨rfl, rfl, rfl, rfl, hset.entries⟩ rfl
  | some k =>
    cases f.delayKey with
    | none | some => exact hkeys _ ⟨rfl, rfl, rfl, rfl, hset.entries⟩ rfl

theorem Coherent.unsized (hq : Coherent q) (hget : q.tasks.get t = some e) (hopen : e.state.isTerminal = false) :
    q.terminalSizes.get t = none := by
  rw [← Option.not_isSome_iff_eq_none, hq.sized_iff t]
  rintro ⟨e', he', hterm⟩
  cases hget.symm.trans he'
  rw [hopen] at hterm
  cases hterm

theorem unassign_terminalSizes (q : TaskQueueInner) (w : Uuid) (t : TaskId) :
    (q.unassign w t).terminalSizes = q.terminalSizes :=
  ((Moves.unassign (P := (· = .assignments)) rfl q w t).retained_eq rfl).2.1

variable {visits : List TaskId}

theorem Finished.none (h : Retires q q' []) : Finished q q' visits [] where
  turnover := h.turnover
  visited := List.nil_sublist _
  finished _ ht := absurd ht List.not_mem_nil

theorem Finished.one (hget : q.tasks.get t = some e) (hopen : e.state.isTerminal = false) (h : Retires q q' [t])
    (hafter : q'.unfinished t = false) : Finished q q' [t] [t] where
  turnover := h.turnover
  visited := List.Sublist.refl _
  finished u hu := by
    rw [List.mem_singleton.mp hu]
    refine ⟨?_, hafter⟩
    rw [unfinished_of_get hget, hopen]
    rfl

theorem Finished.track (hq : Coherent q) (hget : q.tasks.get t = some e) (hopen : e.state.isTerminal = false)
    (h : SameRetention q q1) (hsizes : q1.terminalSizes = q.terminalSizes) {e' : TaskEntry}
    (hterm : e'.state.isTerminal) : Finished q ((q1.setEntry t e').trackTerminalTask t) [t] [t] := by
  have hfree : q1.terminalSizes.get t = Option.none := by
    rw [hsizes]
    exact hq.unsized hget hopen
  refine .one hget hopen (Retires.finish h e' hfree) ((trackTerminalTask_pruned _ t).finished ?_)
  rw [unfinished_of_get (e := e') (by simp), hterm]
  rfl

theorem storeEffect_finished (hq : Coherent q) (hget : q.tasks.get t = some e) (hopen : e.state.isTerminal = false)
    (w : Uuid) (f : ResultEffect) : ∃ l, Finished q ((q.unassign w t).storeEffect t f) [t] l := by
  have hfree : (q.unassign w t).terminalSizes.get t = Option.none := by
    rw [unassign_terminalSizes]
    exact hq.unsized hget hopen
  have hretires := storeEffect_retires (sameRetention_unassign q w t) hfree f
  split at hretires
  · next hfin =>
    refine ⟨[t], .one hget hopen hretires ((storeEffect_pruned _ _ f).finished ?_)⟩
    rw [unfinished_of_get (e := f.entry) (by simp), hfin]
    rfl
  · exact ⟨[], .none hretires⟩

/-! ### The failover sweep -/

theorem trackFailures_retires {q0 q1 : TaskQueueInner} (fates : List (TaskId × SweepFate))
    (hnodup : (fates.map Prod.fst).Nodup) (h : Evolving q0 q1 (failures fates)) :
    Retires q1 (trackFailures fates q1) (failedTasks fates) := by
  -- what was tracked so far and what is still to be tracked make up the failed tasks
  have hloop := trackFailures_loop (q := q0)
    (P := fun q2 rest => ∃ done, done ++ rest = failedTasks fates ∧ Retires q1 q2 done) ?_ fates hnodup h
    ⟨[], rfl, (SameRetention.refl _).retires⟩
  · obtain ⟨-, done, hdone, hretires⟩ := hloop
    rw [List.append_nil] at hdone
    exact hdone ▸ hretires
  rintro q2 F t rest hev ht ⟨done, hdone, hretires⟩
  obtain ⟨e, -, -, hfree⟩ := hev.pending_unsized ht
  exact ⟨done ++ [t], by rw [← hdone, List.append_assoc]; rfl, hretires.trans (trackTerminalTask_retires hfree)⟩

theorem handleSessionDisconnected_retires [Host] (hq : Coherent q) (w : Uuid) (session : Option Nat) (reason : String)
    (immediate : Bool) (order : SetOrder TaskId) (clock : Clock) :
    Retires q (q.handleSessionDisconnected w session reason immediate order clock).2 (failedTasks
      (sweepTasks w session reason immediate clock (order.list (q.sweptCandidates w)) q).1) := by
  have hs := (sweepTasks_swept w session reason immediate clock (order.list (q.sweptCandidates w)) q (order.nodup _)).1
  have hmoves := Moves.sweepTasks (P := (· ∉ [.retained, .limits])) rfl rfl w session reason immediate clock
    (order.list (q.sweptCandidates w)) q
  unfold handleSessionDisconnected
  generalize sweepTasks w session reason immediate clock (order.list (q.sweptCandidates w)) q = out at hs hmoves
  have hindexed := ((hmoves.trans (.dropEmptyAssignments rfl _ w)).trans (.insertDelays rfl rfl out.1 _)).trans
    (.insertReadies rfl rfl out.1 _)
  exact (hindexed.sameRetention rfl rfl).retires.trans (trackFailures_retires _ hs.nodup (hs.evolving hq))

/-- The first loop of a sweep keeps the order of its visits. -/
theorem sweepTasks_visits [Host] (w : Uuid) (session : Option Nat) (reason : String) (immediate : Bool)
    (clock : Clock) (l : List TaskId) : ∀ q : TaskQueueInner,
      ((sweepTasks w session reason immediate clock l q).1.map Prod.fst).Sublist l := by
  induction l with
  | nil => exact fun q => List.Sublist.refl _
  | cons t rest ih =>
    intro q
    unfold sweepTasks
    split
    · exact (ih q).cons t
    · split
      · exact (ih _).cons_cons t
      · exact (ih q).cons t

theorem handleSessionDisconnected_finished [Host] (hq : Coherent q) (w : Uuid) (session : Option Nat)
    (reason : String) (immediate : Bool) (order : SetOrder TaskId) (clock : Clock) :
    ∃ l, Finished q (q.handleSessionDisconnected w session reason immediate order clock).2
      (order.list (q.sweptCandidates w)) l := by
  have hretires := handleSessionDisconnected_retires hq w session reason immediate order clock
  obtain ⟨hs, -⟩ := sweepTasks_swept w session reason immediate clock
    (order.list (q.sweptCandidates w)) q (order.nodup _)
  have hvisits := sweepTasks_visits w session reason immediate clock (order.list (q.sweptCandidates w)) q
  refine ⟨_, hretires.turnover, ((List.filter_sublist).map Prod.fst).trans hvisits, fun t ht => ?_⟩
  unfold handleSessionDisconnected
  generalize sweepTasks w session reason immediate clock (order.list (q.sweptCandidates w)) q = out at hs ht ⊢
  obtain ⟨e, e', he, hopen, he', hfate, -⟩ := hs.entry (mem_failedTasks.mp ht)
  refine ⟨by rw [unfinished_of_get he, hopen]; rfl, (settleFates_pruned _ _ _).finished ?_⟩
  rw [unfinished_of_get he', hfate.mp rfl]
  rfl

/-! ## Every step and every run -/

theorem Evicts.finished (h : Evicts q q') : Finished q q' [] [] where
  turnover :=
    { order := by
        rw [List.append_nil]
        exact h.order
      within := h.within
      latest := fun _ hne => (hne rfl).elim
      gone := fun t hsome hnone => List.mem_append_left _ (h.gone t hsome hnone) }
  visited := List.Sublist.refl _
  finished _ ht := absurd ht List.not_mem_nil

theorem finished_of_limit (horder : q1.terminalOrder = q.terminalOrder) (htasks : q1.tasks = q.tasks) :
    Finished q q1.enforceTerminalLimits [] [] where
  turnover :=
    { order := by
        rw [List.append_nil, ← horder]
        exact (enforceTerminalLimits_evictions q1).evicts.order
      within := fun _ => enforceTerminalLimits_within q1
      latest := fun _ hne => (hne rfl).elim
      gone := fun t hsome hnone => by
        rw [← htasks] at hsome
        rw [List.append_nil, ← horder]
        exact (enforceTerminalLimits_evictions q1).evicts.gone t hsome hnone }
  visited := List.Sublist.refl _
  finished _ ht := absurd ht List.not_mem_nil

variable [Host]

theorem apply_finished (hq : Coherent q) (op : Op) : ∃ l, Finished q (q.apply op) (op.visits q) l := by
  have hmoves := apply_moves q op
  have hcall := apply_performs q op
  generalize q.apply op = q', q.refusal op = err at hcall hmoves ⊢
  cases hcall with
  | error | idle => exact ⟨[], .none (SameRetention.refl q).retires⟩
  | dropResult | dropUnsendable => exact ⟨[], .none (sameRetention_unassign q _ _).retires⟩
  | result get _ unfinished => exact storeEffect_finished hq get unfinished _ _
  | unsendable get _ unfinished =>
    exact ⟨_, .track hq get unfinished (sameRetention_unassign q _ _) (unassign_terminalSizes q _ _) rfl⟩
  | sweep => exact handleSessionDisconnected_finished hq _ _ _ _ _ _
  | @cancel t _ e get unfinished =>
    have hdrop := Moves.dropFromIndex (P := (· ∈ [.ready, .delayed, .assignments])) rfl rfl rfl q t e
    exact ⟨_, .track hq get unfinished (hdrop.sameRetention rfl rfl) (hdrop.retained_eq rfl).2.1 rfl⟩
  | limitTasks | limitBytes => exact ⟨[], finished_of_limit rfl rfl⟩
  | evict => exact ⟨[], (evictCounting_evictions _ _ _ q .refl).evicts.finished⟩
  | _ => exact ⟨[], .none (hmoves.sameRetention rfl rfl).retires⟩

/-- The tasks that were unfinished before the operation and are finished or gone after it. -/
theorem Finished.mem_iff {op : Op} (hq : Coherent q) (h : Finished q (q.apply op) (op.visits q) l) (t : TaskId) :
    t ∈ l ↔ q.unfinished t = true ∧ (q.apply op).unfinished t = false := by
  refine ⟨h.finished t, fun ⟨hbefore, hafter⟩ => ?_⟩
  obtain ⟨e, he, hopen⟩ := unfinished_iff.mp hbefore
  have hnot : t ∉ q.terminalOrder := by
    rw [hq.mem_terminalOrder_iff t]
    rintro ⟨e', he', hterm⟩
    cases he.symm.trans he'
    rw [hopen] at hterm
    cases hterm
  have hmem : t ∈ q.terminalOrder ++ l := by
    cases he' : (q.apply op).tasks.get t with
    | none => exact h.turnover.gone t (by rw [he]; rfl) he'
    | some e' =>
      rw [unfinished_of_get he'] at hafter
      have hq' := (apply_evolves hq op).coherent hq
      exact h.turnover.order.subset ((hq'.mem_terminalOrder_iff t).mpr ⟨e', he', by simpa using hafter⟩)
  exact (List.mem_append.mp hmem).resolve_left hnot

omit [Host] in
theorem visits_nodup (q : TaskQueueInner) (op : Op) : (op.visits q).Nodup := by
  cases op with
  | handleSessionDisconnected w session reason immediate order clock => exact order.nodup _
  | recordResultFrom | failUnsendableAssignment | cancelTaskDetailed => exact List.nodup_singleton _
  | _ => exact List.nodup_nil

theorem Finished.finishes_eq {op : Op} (hq : Coherent q) (h : Finished q (q.apply op) (op.visits q) l) :
    q.finishes op = l := by
  have htest : ∀ t, (q.unfinished t && !(q.apply op).unfinished t) = true ↔ t ∈ l := by
    intro t
    rw [h.mem_iff hq t, Bool.and_eq_true, Bool.not_eq_true']
  have hsub : l.Sublist (q.finishes op) := by
    have hfilter := h.visited.filter fun t => q.unfinished t && !(q.apply op).unfinished t
    rwa [List.filter_eq_self.mpr fun t ht => (htest t).mpr ht] at hfilter
  have hle : (q.finishes op).length ≤ l.length := by
    refine (((visits_nodup q op).filter _).subperm fun t ht => ?_).length_le
    exact (htest t).mp (List.mem_filter.mp ht).2
  exact (hsub.eq_of_length_le hle).symm

theorem apply_turnover (hq : Coherent q) (op : Op) : Turnover q (q.apply op) (q.finishes op) := by
  obtain ⟨l, hl⟩ := apply_finished hq op
  rw [hl.finishes_eq hq]
  exact hl.turnover

omit [Host] in
theorem start_within (c : QueueConfig) : WithinLimits c.start where
  count := Nat.zero_le _
  bytes := Or.inr (Nat.zero_le _)

theorem run_within (ops : List Op) : ∀ q : TaskQueueInner, Coherent q → WithinLimits q → WithinLimits (q.run ops) := by
  induction ops with
  | nil => exact fun _ _ h => h
  | cons op rest ih =>
    intro q hq h
    exact ih (q.apply op) ((apply_evolves hq op).coherent hq) ((apply_turnover hq op).within h)

/-- What a run retains is a suffix of what was retained and what it finished. -/
theorem run_suffix (ops : List Op) : ∀ q : TaskQueueInner, Coherent q →
    (q.run ops).terminalOrder <:+ q.terminalOrder ++ q.finishOrder ops := by
  induction ops with
  | nil =>
    intro q _
    rw [finishOrder, List.append_nil]
    exact List.suffix_rfl
  | cons op rest ih =>
    intro q hq
    refine (ih (q.apply op) ((apply_evolves hq op).coherent hq)).trans ?_
    obtain ⟨pre, hpre⟩ := (apply_turnover hq op).order
    refine ⟨pre, ?_⟩
    rw [finishOrder, ← List.append_assoc, hpre, List.append_assoc]

end

/-- **Terminal retention.**  After any operations, with the limits changed at any time, both limits hold (the
byte limit up to a single task), and the retained finished tasks are the latest part of the finishing order.
What an operation finishes is exactly what was unfinished before and is not after; evictions take the oldest
first, and a queue that may retain a task still has the last one that the operation finished. -/
theorem terminal_retention [Host] (c : QueueConfig) (ops : List Op) :
    let q := c.start.run ops
    q.terminalOrder.length ≤ q.maxTerminalTasks ∧
    (q.terminalBytes ≤ q.maxTerminalBytes ∨ q.terminalOrder.length ≤ 1) ∧
    q.terminalOrder <:+ c.start.finishOrder ops ∧
    (∀ t, t ∈ q.terminalOrder ↔ ∃ e, q.tasks.get t = some e ∧ e.state.isTerminal) ∧
    ∀ op, (∀ t, t ∈ q.finishes op ↔ q.unfinished t = true ∧ (q.apply op).unfinished t = false) ∧
      (q.apply op).terminalOrder <:+ q.terminalOrder ++ q.finishes op ∧
      ∀ t, 1 ≤ q.maxTerminalTasks → (q.finishes op).getLast? = some t →
        (q.apply op).terminalOrder.getLast? = some t ∧
        ∃ e, (q.apply op).tasks.get t = some e ∧ e.state.isTerminal := by
  intro q
  have hq : Coherent q := run_coherent ops _ (start_coherent c)
  have hwithin : WithinLimits q := run_within ops _ (start_coherent c) (start_within c)
  refine ⟨hwithin.count, hwithin.bytes, run_suffix ops _ (start_coherent c), hq.mem_terminalOrder_iff,
    fun op => ⟨?_, (apply_turnover hq op).order, fun t hlimit hlast => ?_⟩⟩
  · obtain ⟨l, hl⟩ := apply_finished hq op
    rw [hl.finishes_eq hq]
    exact hl.mem_iff hq
  have hturn := apply_turnover hq op
  have hne : q.finishes op ≠ [] := by
    intro hnil
    rw [hnil] at hlast
    cases hlast
  obtain ⟨pre, hpre⟩ := hturn.order
  have hlast' : (q.apply op).terminalOrder.getLast? = some t := by
    have hlists := congrArg List.getLast? hpre
    rw [List.getLast?_append_of_ne_nil _ hne, hlast,
      List.getLast?_append_of_ne_nil _ (hturn.latest hlimit hne)] at hlists
    exact hlists
  have hq' := (apply_evolves hq op).coherent hq
  exact ⟨hlast', (hq'.mem_terminalOrder_iff t).mp (List.mem_of_getLast? hlast')⟩

end OxideSwarm
