import OxideSwarm.Queue.Books

/-!
# Byte accounting of the queue

Every operation is a sequence of postings that ends with both ledgers up to date (`apply_posting`), so the
books are in order after any run: `byte_accounting_exact`.
-/

namespace OxideSwarm

open Std TaskQueueInner

section

variable {q q1 : TaskQueueInner} {D : Set TaskId} {t : TaskId} {e e' : TaskEntry}

/-! ## Index updates -/

theorem Moves.sameBooks (h : Moves (· ∈ [.ready, .delayed, .assignments]) q q1) : SameBooks q q1 where
  tasks := h.tasks_eq rfl rfl
  activeSizes := (h.active_eq rfl).1
  activeBytes := (h.active_eq rfl).2
  terminalSizes := (h.retained_eq rfl).2.1
  terminalBytes := (h.retained_eq rfl).2.2
  terminalOrder := (h.retained_eq rfl).1
  retryPolicy := h.fixed_eq.1
  capacity := h.fixed_eq.2.1
  maxActiveBytes := h.fixed_eq.2.2

theorem sameBooks_unassign (q : TaskQueueInner) (w : Uuid) (t : TaskId) : SameBooks q (q.unassign w t) :=
  (Moves.unassign rfl q w t).sameBooks

theorem SameBooks.setEntry (h : SameBooks q q1) (t : TaskId) (e : TaskEntry) :
    SameBooks (q.setEntry t e) (q1.setEntry t e) :=
  { h with tasks := congrArg (fun m => FMap.set m t e) h.tasks }

theorem charge_congr (hopen : e.state.isTerminal = false) (hopen' : e'.state.isTerminal = false)
    (htask : e'.task = e.task) (hresult : e'.result = e.result) (hhistory : e'.retryHistory = e.retryHistory)
    (herror : e'.errorMessage = e.errorMessage) : charge (some e') = charge (some e) := by
  rw [charge_of_open hopen, charge_of_open hopen', retainedBytes, retainedBytes, htask, hresult, hhistory, herror]

/-! ## Submission and scheduling -/

variable [Host]

omit [Host] in
theorem accept_posting (h : Booked q) (hnone : q.tasks.get t = none) (hopen : e.state.isTerminal = false) (n : Nat) :
    Posting q (({ q with nextSequence := n } : TaskQueueInner).accept t e (retainedBytes e)) ∅ := by
  have hunfinished : ∀ e1, q.tasks.get t = some e1 → e1.state.isTerminal = false := by
    intro e1 he1
    cases hnone.symm.trans he1
  have hwrite := h.posting.write hunfinished e
  have hfree : (q.setEntry t e).activeSizes.get t = none := by
    show q.activeSizes.get t = none
    rw [h.charged t, hnone]
    rfl
  have hpost := Post.charge (retainedBytes e) hfree
  have hcharged : Posting q { q.setEntry t e with
      activeSizes := (q.setEntry t e).activeSizes.set t (retainedBytes e)
      activeBytes := (q.setEntry t e).activeBytes + retainedBytes e } ∅ := by
    refine ⟨hwrite.posts.tail hpost, hpost.balanced hwrite.balanced, fun u _ => ?_⟩
    show (q.activeSizes.set t (retainedBytes e)).get u = charge ((q.tasks.set t e).get u)
    rw [FMap.get_set, FMap.get_set]
    split
    · exact (charge_of_open hopen).symm
    · exact h.charged u
  exact hcharged.index ⟨rfl, rfl, rfl, rfl, rfl, rfl, rfl, rfl, rfl⟩

section

omit [Host]

theorem acceptNext_posting (h : Booked q) {task : Task} (hfits : Fits q task) (priority : Nat) (clock : Clock) :
    Posting q (q.acceptNext task priority clock) ∅ := by
  unfold acceptNext
  rw [← retainedBytes_fresh task priority q.nextSequence clock]
  exact accept_posting h hfits.free rfl _

theorem queued_open (h : e.state = .queued) : e.state.isTerminal = false := by
  rw [h]
  rfl

theorem scheduleEntry_posting (h : Posting q q1 D) (hget : q1.tasks.get t = some e) (hqueued : e.state = .queued)
    (w : Uuid) (session : Option Nat) (now : Instant) : Posting q (q1.scheduleEntry t e w session now) D :=
  h.rewrite (scheduledEntry e w session now) hget (queued_open hqueued)
    (charge_congr (queued_open hqueued) rfl rfl rfl rfl rfl) ⟨rfl, rfl, rfl, rfl, rfl, rfl, rfl, rfl, rfl⟩

theorem scheduleBatchInner_posting (now : Instant) (l : List (TaskId × Uuid × Option Nat)) :
    ∀ {q1 : TaskQueueInner}, Posting q q1 D → Posting q (scheduleBatchInner now l q1).2 D := by
  induction l with
  | nil => exact fun h => h
  | cons a rest ih =>
    intro q1 h
    obtain ⟨t, w, session⟩ := a
    refine ih ?_
    split
    · exact h
    next e he =>
    split
    · next hqueued => exact scheduleEntry_posting h he hqueued w session now
    · exact h.index ⟨rfl, rfl, rfl, rfl, rfl, rfl, rfl, rfl, rfl⟩

theorem putBack_posting (h : Booked q) (he : q.tasks.get t = some e) (hopen : e.state.isTerminal = false) :
    Posting q (q.putBack t e) ∅ := by
  refine h.posting.rewrite (takenBack e) he hopen (charge_congr hopen rfl rfl rfl rfl rfl) ?_
  exact ((Moves.unassignFrom rfl q e.assignedWorkerId t).sameBooks.setEntry t (takenBack e)).trans
    ⟨rfl, rfl, rfl, rfl, rfl, rfl, rfl, rfl, rfl⟩

/-! ## Worker reports -/

/-- A finished or an unfinished entry of an open task is posted. -/
theorem Posting.open_of_get (hget : q1.tasks.get t = some e) (hopen : e.state.isTerminal = false) :
    ∀ e1, q1.tasks.get t = some e1 → e1.state.isTerminal = false := by
  intro e1 he1
  cases hget.symm.trans he1
  exact hopen

theorem checkpointed_posting (h : Booked q) (hget : q.tasks.get t = some e) (hopen : e.state.isTerminal = false)
    (c : CheckpointData) : Posting q ((q.setEntry t (checkpointed e c)).updateActiveTask t) ∅ := by
  have hupdate := (h.posting.write (Posting.open_of_get hget hopen) (checkpointed e c)).update t
  rw [Set.insert_sdiff_self_of_notMem (Set.notMem_empty t)] at hupdate
  exact hupdate

theorem storeEffect_posting (h : Posting q q1 ∅) (hget : q1.tasks.get t = some e) (hopen : e.state.isTerminal = false)
    (f : ResultEffect) : Posting q (q1.storeEffect t f) ∅ := by
  unfold storeEffect
  -- the keys go in between the entry and its posting
  have hstore : ∀ q2 : TaskQueueInner, SameBooks q1 q2 →
      Posting q (if f.entry.state.isTerminal then (q2.setEntry t f.entry).trackTerminalTask t
        else (q2.setEntry t f.entry).updateActiveTask t) ∅ := by
    intro q2 hs
    have hget2 : q2.tasks.get t = some e := by
      rw [hs.tasks]
      exact hget
    split
    · next hterm =>
      exact (h.index hs).finish (Posting.open_of_get hget2 hopen) hterm (Set.notMem_empty t)
    · have hupdate := ((h.index hs).write (Posting.open_of_get hget2 hopen) f.entry).update t
      rw [Set.insert_sdiff_self_of_notMem (Set.notMem_empty t)] at hupdate
      exact hupdate
  cases hready : f.readyKey with
  | none =>
    cases hdelay : f.delayKey with
    | none => exact hstore q1 (SameBooks.refl q1)
    | some d => exact hstore (q1.insertDelayed d) ⟨rfl, rfl, rfl, rfl, rfl, rfl, rfl, rfl, rfl⟩
  | some k =>
    cases hdelay : f.delayKey with
    | none => exact hstore (q1.insertReady k) ⟨rfl, rfl, rfl, rfl, rfl, rfl, rfl, rfl, rfl⟩
    | some d => exact hstore ((q1.insertDelayed d).insertReady k) ⟨rfl, rfl, rfl, rfl, rfl, rfl, rfl, rfl, rfl⟩

end

/-! ## Failover, backoff and cancellation -/

/-- The first loop of a sweep: the entries are rewritten and none is posted. -/
theorem sweepTasks_posting (w : Uuid) (session : Option Nat) (reason : String) (immediate : Bool) (clock : Clock)
    (l : List TaskId) : ∀ {q1 : TaskQueueInner} {D : Set TaskId}, Posting q q1 D →
      Posting q (sweepTasks w session reason immediate clock l q1).2
        (D ∪ {u | u ∈ (sweepTasks w session reason immediate clock l q1).1.map Prod.fst}) := by
  induction l with
  | nil =>
    intro q1 D h
    unfold sweepTasks
    simpa using h
  | cons t rest ih =>
    intro q1 D h
    unfold sweepTasks
    cases he : q1.tasks.get t with
    | none => exact ih h
    | some e =>
      dsimp only
      split
      · next hsweeps =>
        have hopen := not_terminal_of_active (sweeps_iff.mp hsweeps).1
        have hunassigned := h.index (sameBooks_unassign q1 w t)
        have hwrite := hunassigned.write (Posting.open_of_get (e := e) (by simpa using he) hopen)
          (sweepEntry q1.retryPolicy e t w reason immediate clock).1
        refine (ih hwrite).mono ?_
        rintro u ((rfl | hu) | hu)
        · exact .inr List.mem_cons_self
        · exact .inl hu
        · exact .inr (List.mem_cons_of_mem _ hu)
      · exact ih h

section

omit [Host]

/-- A loop over the fates of a sweep that posts some of the tasks. -/
theorem foldl_posting {step : TaskQueueInner → TaskId × SweepFate → TaskQueueInner}
    {posted : TaskId × SweepFate → Option TaskId}
    (hstep : ∀ {q1 : TaskQueueInner} {D : Set TaskId} (f : TaskId × SweepFate), Posting q q1 D →
      Posting q (step q1 f) {u | u ∈ D ∧ posted f ≠ some u}) (fates : List (TaskId × SweepFate)) :
    ∀ {q1 : TaskQueueInner} {D : Set TaskId}, Posting q q1 D →
      Posting q (fates.foldl step q1) {u | u ∈ D ∧ ∀ f ∈ fates, posted f ≠ some u} := by
  induction fates with
  | nil => exact fun h => h.mono fun u hu => ⟨hu, nofun⟩
  | cons f rest ih =>
    intro q1 D h
    refine (ih (hstep f h)).mono ?_
    rintro u ⟨⟨hu, hf⟩, hrest⟩
    refine ⟨hu, fun f' hf' => ?_⟩
    rcases List.mem_cons.mp hf' with rfl | hf'
    · exact hf
    · exact hrest f' hf'

/-- The task that the loop over delayed retries posts. -/
def delayPosted : TaskId × SweepFate → Option TaskId
  | (_, .delayed k) => some k.taskId
  | _ => none

/-- The task that the loop over ready keys posts. -/
def readyPosted : TaskId × SweepFate → Option TaskId
  | (_, .ready k) => some k.taskId
  | _ => none

theorem insertDelays_posting (fates : List (TaskId × SweepFate)) (h : Posting q q1 D) :
    Posting q (insertDelays fates q1) {u | u ∈ D ∧ ∀ f ∈ fates, delayPosted f ≠ some u} := by
  refine foldl_posting (fun {q1 D} f h => ?_) fates h
  obtain ⟨v, fate⟩ := f
  cases fate with
  | delayed k =>
    have hinserted : Posting q (q1.insertDelayed k) D := h.index ⟨rfl, rfl, rfl, rfl, rfl, rfl, rfl, rfl, rfl⟩
    refine (hinserted.update k.taskId).mono ?_
    rintro u ⟨hu, hne⟩
    exact ⟨hu, fun heq => hne (Option.some.inj heq).symm⟩
  | ready | failed => exact h.mono fun u hu => ⟨hu, nofun⟩

theorem insertReadies_posting (fates : List (TaskId × SweepFate)) (h : Posting q q1 D) :
    Posting q (insertReadies fates q1) {u | u ∈ D ∧ ∀ f ∈ fates, readyPosted f ≠ some u} := by
  refine foldl_posting (fun {q1 D} f h => ?_) fates h
  obtain ⟨v, fate⟩ := f
  cases fate with
  | ready k =>
    have hinserted : Posting q (q1.insertReady k) D := h.index ⟨rfl, rfl, rfl, rfl, rfl, rfl, rfl, rfl, rfl⟩
    refine (hinserted.update k.taskId).mono ?_
    rintro u ⟨hu, hne⟩
    exact ⟨hu, fun heq => hne (Option.some.inj heq).symm⟩
  | delayed | failed => exact h.mono fun u hu => ⟨hu, nofun⟩

/-- The third loop tracks the failed tasks, which stand in no ledger by then. -/
theorem trackFailures_posting {q0 : TaskQueueInner} {fates : List (TaskId × SweepFate)}
    (hnodup : (fates.map Prod.fst).Nodup) (hevolving : Evolving q0 q1 (failures fates))
    (h : Posting q q1 (failures fates)) : Posting q (trackFailures fates q1) ∅ := by
  have hloop := trackFailures_loop (q := q0) (P := fun q2 rest => Posting q q2 {u | u ∈ rest}) ?_ fates hnodup hevolving
    (h.mono fun u hu => mem_failedTasks.mpr hu)
  · exact hloop.2.mono fun u hu => absurd hu List.not_mem_nil
  intro q2 F t rest hev ht hposting
  obtain ⟨e, hget, hterm, hfree⟩ := hev.pending_unsized ht
  refine (hposting.track hget hterm hfree).mono ?_
  rintro u ⟨hu, hne⟩
  exact (List.mem_cons.mp hu).resolve_left hne

end

theorem handleSessionDisconnected_posting (hq : Coherent q) (h : Booked q) (w : Uuid) (session : Option Nat)
    (reason : String) (immediate : Bool) (order : SetOrder TaskId) (clock : Clock) :
    Posting q (q.handleSessionDisconnected w session reason immediate order clock).2 ∅ := by
  obtain ⟨hs, -⟩ := sweepTasks_swept w session reason immediate clock
    (order.list (q.sweptCandidates w)) q (order.nodup _)
  have hposting := sweepTasks_posting w session reason immediate clock (order.list (q.sweptCandidates w)) h.posting
  unfold handleSessionDisconnected
  generalize sweepTasks w session reason immediate clock (order.list (q.sweptCandidates w)) q = out
    at hs hposting
  have hindexed := insertReadies_posting out.1
    (insertDelays_posting out.1 (hposting.index (Moves.dropEmptyAssignments rfl out.2 w).sameBooks))
  refine trackFailures_posting hs.nodup (hs.evolving hq) (hindexed.mono ?_)
  -- a swept task whose keys are not in yet is one that failed
  rintro u ⟨⟨hu, hdelay⟩, hready⟩
  rcases hu with hu | hu
  · cases hu
  obtain ⟨⟨v, fate⟩, hmem, rfl⟩ := List.mem_map.mp hu
  obtain ⟨e, e', -, -, -, hfits⟩ := hs.spec hq hmem
  cases fate with
  | failed => exact hmem
  | delayed k => exact (hdelay _ hmem (congrArg some hfits.2)).elim
  | ready k => exact (hready _ hmem (congrArg (fun k => some (QueueOrderKey.taskId k)) hfits.2)).elim

section

omit [Host]

theorem readyRetry_posting (h : Posting q q1 D) (t : TaskId) : Posting q (q1.readyRetry t) D := by
  unfold readyRetry
  split
  · next e he =>
    split
    · next hretrying =>
      have hopen : e.state.isTerminal = false := by
        rw [hretrying]
        rfl
      exact h.rewrite (woken e) he hopen (charge_congr hopen rfl rfl rfl rfl rfl)
        ⟨rfl, rfl, rfl, rfl, rfl, rfl, rfl, rfl, rfl⟩
    · exact h
  · exact h

theorem processDelayedRetries_posting (h : Booked q) (now : Instant) :
    Posting q (q.processDelayedRetries now).2 ∅ := by
  have hremove : ∀ (keys : List DelayedRetryKey) {q1 : TaskQueueInner}, Posting q q1 ∅ →
      Posting q (keys.foldl removeDelayed q1) ∅ := by
    intro keys
    induction keys with
    | nil => exact fun h => h
    | cons k rest ih => exact fun h => ih (h.index ⟨rfl, rfl, rfl, rfl, rfl, rfl, rfl, rfl, rfl⟩)
  have hready : ∀ (keys : List DelayedRetryKey) {q1 : TaskQueueInner}, Posting q q1 ∅ →
      Posting q (keys.foldl (fun q k => q.readyRetry k.taskId) q1) ∅ := by
    intro keys
    induction keys with
    | nil => exact fun h => h
    | cons k rest ih => exact fun h => ih (readyRetry_posting h k.taskId)
  exact hready _ (hremove _ h.posting)

end

/-! ## Every step and every run -/

theorem apply_posting (hq : Coherent q) (h : Booked q) (op : Op) : Posting q (q.apply op) ∅ := by
  have hcall := apply_performs q op
  generalize q.apply op = q', q.refusal op = err at hcall ⊢
  have hunassigned : ∀ w t, Posting q (q.unassign w t) ∅ := fun w t => h.posting.index (sameBooks_unassign q w t)
  cases hcall with
  | error | idle => exact h.posting
  | number => exact h.posting.index ⟨rfl, rfl, rfl, rfl, rfl, rfl, rfl, rfl, rfl⟩
  | submit fits | fill fits => exact acceptNext_posting h fits _ _
  | pop _ get queued | schedule get queued =>
    exact h.posting.rewrite (scheduledEntry _ _ none _) get (queued_open queued)
      (charge_congr (queued_open queued) rfl rfl rfl rfl rfl) ⟨rfl, rfl, rfl, rfl, rfl, rfl, rfl, rfl, rfl⟩
  | batch | batchInSessions => exact scheduleBatchInner_posting _ _ h.posting
  | requeue get unfinished => exact putBack_posting h get unfinished
  | takeBack get scheduled => exact putBack_posting h get (by rw [scheduled]; rfl)
  | @start _ _ _ now e get scheduled =>
    have hopen : e.state.isTerminal = false := by rw [scheduled]; rfl
    exact h.posting.rewrite { e with state := .running, startedInstant := some now } get hopen
      (charge_congr hopen rfl rfl rfl rfl rfl) (SameBooks.refl _)
  | checkpoint get stored | checkpointFrom get stored => exact checkpointed_posting h get stored.unfinished _
  | dropResult | dropUnsendable => exact hunassigned _ _
  | result get _ unfinished => exact storeEffect_posting (hunassigned _ _) (by simpa using get) unfinished _
  | unsendable get _ unfinished =>
    exact (hunassigned _ _).finish (Posting.open_of_get (by simpa using get) unfinished) rfl (Set.notMem_empty _)
  | sweep => exact handleSessionDisconnected_posting hq h _ _ _ _ _ _
  | wake => exact processDelayedRetries_posting h _
  | cancel get unfinished =>
    exact (h.posting.index (Moves.dropFromIndex rfl rfl rfl q _ _).sameBooks).finish
      (Posting.open_of_get (by simpa using get) unfinished) rfl (Set.notMem_empty _)
  | @limitTasks limit =>
    refine Posting.evictions ?_ (enforceTerminalLimits_evictions { q with maxTerminalTasks := limit })
    exact h.posting.index ⟨rfl, rfl, rfl, rfl, rfl, rfl, rfl, rfl, rfl⟩
  | @limitBytes limit =>
    refine Posting.evictions ?_ (enforceTerminalLimits_evictions { q with maxTerminalBytes := limit })
    exact h.posting.index ⟨rfl, rfl, rfl, rfl, rfl, rfl, rfl, rfl, rfl⟩
  | evict => exact h.posting.evictions (evictCounting_evictions _ _ _ q .refl)

omit [Host] in
theorem start_booked (c : QueueConfig) : Booked c.start where
  balanced :=
    { activeBytes := (FMap.sum_empty id).symm
      terminalBytes := (FMap.sum_empty id).symm
      retained := nofun
      listed := nofun
      nodup := List.nodup_nil }
  charged _ := rfl

theorem run_booked (ops : List Op) :
    ∀ q : TaskQueueInner, Coherent q → Booked q → Booked (q.run ops) ∧ SameLimits q (q.run ops) := by
  induction ops with
  | nil => exact fun q _ h => ⟨h, rfl, rfl, rfl⟩
  | cons op rest ih =>
    intro q hq h
    have hstep := apply_posting hq h op
    obtain ⟨hrest, hlimits⟩ := ih (q.apply op) ((apply_evolves hq op).coherent hq) hstep.booked
    have hfirst := hstep.posts.limits
    exact ⟨hrest, hlimits.retryPolicy.trans hfirst.retryPolicy, hlimits.capacity.trans hfirst.capacity,
      hlimits.maxActiveBytes.trans hfirst.maxActiveBytes⟩

end

section

variable {q : TaskQueueInner} {t : TaskId} {e : TaskEntry}

/-- The bytes of the stored checkpoint. -/
def checkpointBytes (e : TaskEntry) : Nat := e.task.latestCheckpoint.elim 0 fun c => c.deltaState.length

/-- The bytes of the stored checkpoint are part of what the entry retains. -/
theorem checkpointBytes_le (e : TaskEntry) : checkpointBytes e ≤ retainedBytes e := by
  unfold checkpointBytes retainedBytes taskActiveBytes
  omega

theorem Booked.retainedBytes_le (h : Booked q) (hget : q.tasks.get t = some e) (hopen : e.state.isTerminal = false) :
    retainedBytes e ≤ q.activeBytes := by
  refine h.balanced.charge_le (t := t) ?_
  rw [h.charged t, hget, charge_of_open hopen]

theorem Booked.terminalSizes (hq : Coherent q) (h : Booked q) (t : TaskId) :
    q.terminalSizes.get t = retention (q.tasks.get t) := by
  have hsized := hq.sized_iff t
  cases hget : q.terminalSizes.get t with
  | none =>
    rw [hget] at hsized
    cases he : q.tasks.get t with
    | none => rfl
    | some e =>
      have hopen : e.state.isTerminal = false := by
        by_contra hterm
        have hsome := hsized.mpr ⟨e, he, by simpa using hterm⟩
        cases hsome
      simp [retention, hopen]
  | some n =>
    obtain ⟨e, he, hterm, hbytes⟩ := h.balanced.retained t n hget
    rw [he, hbytes]
    simp [retention, hterm]

end

/-- **Byte accounting.**  After any operations, `active_sizes` charges exactly the unfinished tasks with what
their entries retain now and `terminal_sizes` exactly the retained finished ones, with a value that stays
the same as long as they are retained; `active_bytes` and `terminal_bytes` are the sums.  Every operation
is a sequence of elementary postings, and wherever postings lead, no charge exceeds the total it is
subtracted from and the oldest retained task is a finished one. -/
theorem byte_accounting_exact [Host] (c : QueueConfig) (ops : List Op) :
    let q := c.start.run ops
    (∀ t, q.activeSizes.get t = charge (q.tasks.get t)) ∧ q.activeBytes = q.activeSizes.sum id ∧
    (∀ t, q.terminalSizes.get t = retention (q.tasks.get t)) ∧ q.terminalBytes = q.terminalSizes.sum id ∧
    (∀ t e later, q.tasks.get t = some e → e.state.isTerminal →
      (∀ pre, pre <+: later → ((q.run pre).tasks.get t).isSome) →
        (q.run later).terminalSizes.get t = some (retainedBytes e)) ∧
    (∀ op, Posts q (q.apply op)) ∧
    (∀ q', Posts q q' → (∀ t n, q'.activeSizes.get t = some n → n ≤ q'.activeBytes) ∧
      (∀ t n, q'.terminalSizes.get t = some n → n ≤ q'.terminalBytes) ∧
      ∀ t rest, q'.terminalOrder = t :: rest → (q'.tasks.get t).any fun e => e.state.isTerminal) ∧
    ∀ t e, q.tasks.get t = some e → e.state.isTerminal = false →
      checkpointBytes e ≤ retainedBytes e ∧ checkpointBytes e ≤ q.activeBytes := by
  intro q
  have hq : Coherent q := run_coherent ops _ (start_coherent c)
  have h : Booked q := (run_booked ops _ (start_coherent c) (start_booked c)).1
  refine ⟨h.charged, h.balanced.activeBytes, h.terminalSizes hq, h.balanced.terminalBytes, ?_,
    fun op => (apply_posting hq h op).posts, fun q' hq' => ?_, fun t e he hopen => ?_⟩
  · intro t e later he hterm hstay
    have hlater := run_terminal hterm later q hq he hstay
    have hbooked := (run_booked later q hq h).1
    rw [hbooked.terminalSizes (run_coherent later q hq), hlater]
    simp [retention, hterm]
  · have hb := hq'.balanced h.balanced
    exact ⟨fun t n hn => hb.charge_le hn, fun t n hn => hb.retention_le hn, fun t rest horder => hb.oldest horder⟩
  · exact ⟨checkpointBytes_le e, (checkpointBytes_le e).trans (h.retainedBytes_le he hopen)⟩

end OxideSwarm
