import OxideSwarm.Master.Gating
import OxideSwarm.Master.Report

/-!
# Tasks that no worker can run

Under `fail_unfulfillable_tasks` a pass lists the tasks it finds no worker for, and that is all it does with
them: no section of `schedule_batch` writes the list anywhere but into the report, and the scheduler's loop
drops the report.  `listed_task_waits` is a run in which a listed task is still queued, with its client still
waiting, when the pass is over.

`refused_unserved` says what the list contains: a task is listed only if a page of the pass found it queued and
none of the listed workers had what it needs.  So nothing is left undone where every queued task has a worker
(`unfulfillable_tasks_failed`).
-/

namespace OxideSwarm

open MasterState TaskQueueInner

/-! ## Who could run a task -/

section

variable [Host]

namespace Pass

variable {n : Nat}

/-- The constraints of a view can be read, and for each of placement, GPU and features some listed worker has
what the view needs. -/
def serves (p : Pass n) (view : TaskView) : Bool :=
  (match view.placement with
    | .ok placement => placement.isEmpty || (List.finRange n).any fun i => placementAdmits placement (p.workers i)
    | .error _ => false) &&
  (!view.requiresGpu || (List.finRange n).any fun i => (p.workers i).capabilities.canExecuteGpu) &&
  (view.requiredFeatures == .empty ||
    (List.finRange n).any fun i => (p.workers i).features.contains view.requiredFeatures)

/-- Every queued task has a worker. -/
def servesQueue (p : Pass n) (q : TaskQueueInner) : Prop :=
  ∀ t ∈ q.tasks.keys, (q.tasks.get t).all fun e => e.state ≠ .queued || p.serves (TaskView.of e.task)

instance (p : Pass n) (q : TaskQueueInner) : Decidable (p.servesQueue q) :=
  inferInstanceAs (Decidable (∀ t ∈ q.tasks.keys,
    ((q.tasks.get t).all fun e => e.state ≠ .queued || p.serves (TaskView.of e.task)) = true))

theorem servesQueue.entry {p : Pass n} {q : TaskQueueInner} (h : p.servesQueue q) {t : TaskId} {e : TaskEntry}
    (hget : q.tasks.get t = some e) (hqueued : e.state = .queued) : p.serves (TaskView.of e.task) = true := by
  have hentry := h t (FMap.mem_keys_of_get hget)
  rw [hget, Option.all_some, Bool.or_eq_true, decide_eq_true_eq] at hentry
  exact hentry.resolve_left fun hne => hne hqueued

/-- The engine knows the listed workers. -/
structure Census (p : Pass n) : Prop where
  listed : ∀ i, (p.engine.seats i).worker = p.workers i
  gpu : p.engine.anyGpuWorker = (List.finRange n).any fun i => (p.workers i).capabilities.canExecuteGpu

theorem place_anyGpuWorker (e : Engine n) (view : TaskView) : (e.place view).2.anyGpuWorker = e.anyGpuWorker := by
  unfold Engine.place
  split
  · rfl
  split
  · rfl
  dsimp only
  split
  · rfl
  split
  · unfold Engine.holdBack
    split <;> rfl
  · rfl

theorem start_census (config : SchedulerConfig) (workers : List WorkerInfo)
    (loads : Uuid → Option AssignedLoad) (gpu : Bool × Bool) (rrCursor maxBatchSize : Nat) :
    (start config workers loads gpu rrCursor maxBatchSize).Census := by
  refine ⟨fun _ => rfl, ?_⟩
  show (workers.any fun w => w.capabilities.canExecuteGpu) =
    (List.finRange workers.length).any fun i => (workers.get i).capabilities.canExecuteGpu
  conv_lhs => rw [← List.map_get_finRange workers]
  rw [List.any_map]
  rfl

theorem Census.place {p : Pass n} (h : p.Census) {view : TaskView} {verdict : Verdict n} {engine : Engine n}
    (hp : p.engine.place view = (verdict, engine)) (placements : _) (skipped : _) (unfulfillable : _) :
    Census { p with engine := engine, placements := placements, skipped := skipped,
                    unfulfillable := unfulfillable } := by
  have hworkers := place_workers p.engine view
  have hgpu := place_anyGpuWorker p.engine view
  rw [hp] at hworkers hgpu
  exact ⟨fun i => (hworkers i).trans (h.listed i), hgpu.trans h.gpu⟩

theorem Census.refused {p : Pass n} (h : p.Census) {view : TaskView} {reason : String}
    (hp : (p.engine.place view).1 = .unfulfillable reason) : p.serves view = false := by
  unfold Engine.place at hp
  unfold serves
  split at hp
  · next err hplacement => rw [hplacement, Bool.false_and, Bool.false_and]
  next placement hplacement =>
  rw [hplacement]
  split at hp
  · next reason' hreason =>
    unfold Engine.unfulfillable at hreason
    split at hreason
    · exact absurd hreason (Option.some_ne_none reason').symm
    split at hreason
    · next hgpu =>
      rw [Bool.and_eq_true, Bool.not_eq_true', h.gpu] at hgpu
      rw [hgpu.1, hgpu.2, Bool.not_true, Bool.or_false, Bool.and_false, Bool.false_and]
    split at hreason
    · next hfeatures =>
      unfold Engine.nobodyHasFeatures at hfeatures
      simp only [h.listed] at hfeatures
      rw [Bool.and_eq_true, Bool.not_eq_true', bne, Bool.not_eq_true'] at hfeatures
      rw [hfeatures.1, hfeatures.2, Bool.or_false, Bool.and_false]
    split at hreason
    · next hmatches =>
      unfold Engine.nobodyMatches at hmatches
      simp only [h.listed] at hmatches
      rw [Bool.and_eq_true, Bool.not_eq_true', Bool.not_eq_true'] at hmatches
      dsimp only
      rw [hmatches.1, hmatches.2, Bool.or_false, Bool.false_and, Bool.false_and]
    · exact absurd hreason (Option.some_ne_none reason').symm
  dsimp only at hp
  split at hp
  · cases hp
  · split at hp
    · cases hp
    · cases hp

/-- What a scan adds to the list are views nobody could run. -/
theorem Census.scan (views : List TaskView) : ∀ {p : Pass n}, p.Census →
    (p.scan views).2.Census ∧ (p.scan views).2.workers = p.workers ∧
      ∀ x ∈ (p.scan views).2.unfulfillable, x ∈ p.unfulfillable ∨
        ∃ view ∈ views, view.taskId = x.1 ∧ p.serves view = false := by
  induction views with
  | nil => exact fun h => ⟨h, rfl, fun x hx => Or.inl hx⟩
  | cons view rest ih =>
    intro p h
    unfold Pass.scan
    split
    · next idx engine hp =>
      have hnext : (p.place engine view idx).Census := h.place hp _ _ _
      split
      · exact ⟨hnext, rfl, fun x hx => Or.inl hx⟩
      · obtain ⟨hcensus, hworkers, hlist⟩ := ih hnext
        refine ⟨hcensus, hworkers, fun x hx => (hlist x hx).imp_right ?_⟩
        exact fun ⟨v, hv, hunserved⟩ => ⟨v, List.mem_cons_of_mem view hv, hunserved⟩
    · next reason engine hp =>
      have hnext : (p.skip engine view reason).Census := h.place hp _ _ _
      split
      · exact ⟨hnext, rfl, fun x hx => Or.inl hx⟩
      · obtain ⟨hcensus, hworkers, hlist⟩ := ih hnext
        refine ⟨hcensus, hworkers, fun x hx => (hlist x hx).imp_right ?_⟩
        exact fun ⟨v, hv, hunserved⟩ => ⟨v, List.mem_cons_of_mem view hv, hunserved⟩
    next reason engine hp =>
    have hnext : (p.refuse engine view reason).Census := h.place hp _ _ _
    obtain ⟨hcensus, hworkers, hlist⟩ := ih hnext
    refine ⟨hcensus, hworkers, fun x hx => ?_⟩
    rcases hlist x hx with hold | ⟨v, hv, hunserved⟩
    · rcases List.mem_append.1 hold with hold | hnew
      · exact .inl hold
      · cases List.mem_singleton.1 hnew
        exact .inr ⟨view, List.mem_cons_self, rfl, h.refused (congrArg Prod.fst hp)⟩
    · exact .inr ⟨v, List.mem_cons_of_mem view hv, hunserved⟩

/-- **One page.**  What it adds to the list are tasks it found queued and that nobody could run. -/
theorem Census.page {p : Pass n} (h : p.Census) (q : TaskQueueInner) : (p.page q).2.Census ∧
    ∀ x ∈ (p.page q).2.unfulfillable, x ∈ p.unfulfillable ∨
      ∃ t e, q.tasks.get t = some e ∧ e.state = .queued ∧ e.task.id = x.1 ∧
        p.serves (TaskView.of e.task) = false := by
  unfold Pass.page
  split
  · exact ⟨h, fun x hx => Or.inl hx⟩
  have hread : (p.read (p.views q)).Census := by
    unfold Pass.read
    split
    · exact ⟨h.listed, h.gpu⟩
    · exact ⟨h.listed, h.gpu⟩
  obtain ⟨hcensus, -, hlist⟩ := hread.scan (p.views q)
  refine ⟨⟨hcensus.listed, hcensus.gpu⟩, fun x hx => (hlist x hx).imp_right ?_⟩
  rintro ⟨view, hview, hid, hunserved⟩
  obtain ⟨t, e, hget, hqueued, hshows⟩ := views_show p q hview
  refine ⟨t, e, hget, hqueued, hshows.taskId.symm.trans hid, ?_⟩
  rw [hshows] at hunserved
  exact hunserved

end Pass

/-! ## What a pass lists -/

/-- `report.unfulfillable` as far as the pass of a section has filled it. -/
def Section.refuses : Section → List (TaskId × String)
  | .page p | .commit p => p.unfulfillable
  | _ => []

/-- The engine of the section's pass knows the listed workers. -/
def Section.Counted : Section → Prop
  | .page p | .commit p => p.Census
  | _ => True

/-- If the section is a page, every queued task has a worker. -/
def Executed.serves (r : Executed) : Bool :=
  match r.code with
  | .page p => decide (p.servesQueue r.shared.queue)
  | _ => true

/-- The section is a page that found task `t` queued, with nobody to run it. -/
def Executed.Unserved (r : Executed) (t : TaskId) : Prop :=
  ∃ u e, r.shared.queue.tasks.get u = some e ∧ e.state = .queued ∧ e.task.id = t ∧ r.serves = false

/-- What the section lists was found by an earlier page. -/
def Section.Explained (past : List Executed) (a : Section) : Prop :=
  a.Counted ∧ ∀ x ∈ a.refuses, ∃ r ∈ past, Executed.Unserved r x.1

theorem Section.Explained.mono {past : List Executed} {a : Section} (h : a.Explained past) (r : Executed) :
    a.Explained (past ++ [r]) := by
  refine ⟨h.1, fun x hx => ?_⟩
  obtain ⟨r', hr', hunserved⟩ := h.2 x hx
  exact ⟨r', List.mem_append_left _ hr', hunserved⟩

theorem page_explained {n : Nat} {p : Pass n} {past : List Executed} (s : MasterState) (c : Choice)
    (h : (Section.page p).Explained past) : (p.page s.queue).2.Census ∧
      ∀ x ∈ (p.page s.queue).2.unfulfillable, ∃ r ∈ past ++ [(⟨s, c, .page p⟩ : Executed)],
        Executed.Unserved r x.1 := by
  have hcensus : p.Census := h.1
  obtain ⟨hnext, hlist⟩ := hcensus.page s.queue
  refine ⟨hnext, fun x hx => ?_⟩
  rcases hlist x hx with hold | ⟨t, e, hget, hqueued, hid, hunserved⟩
  · obtain ⟨r, hr, hr'⟩ := h.2 x hold
    exact ⟨r, List.mem_append_left _ hr, hr'⟩
  refine ⟨_, List.mem_append_right _ (List.mem_singleton_self _), t, e, hget, hqueued, hid, ?_⟩
  refine decide_eq_false fun hserved => ?_
  rw [Pass.servesQueue.entry hserved hget hqueued] at hunserved
  cases hunserved

/-- A section goes on with sections whose lists are explained. -/
theorem follows_explained {a b : Section} {k : Owner} {past : List Executed} {s : MasterState} {c : Choice}
    (h : s.Follows c k a b) (ha : a.Explained past) : b.Explained (past ++ [⟨s, c, a⟩]) := by
  cases b with
  | page p =>
    cases h with
    | demand_page => exact ⟨Pass.start_census .., List.forall_mem_nil _⟩
    | page_page => exact page_explained s c ha
  | commit p =>
    cases h with
    | demand_commit => exact ⟨Pass.start_census .., List.forall_mem_nil _⟩
    | page_commit => exact page_explained s c ha
  | _ => exact ⟨trivial, List.forall_mem_nil _⟩

/-- **What the report lists.**  In every run, every task that a pass lists as unfulfillable was found queued by
one of its pages at which some queued task had no worker. -/
theorem refused_unserved (m : Master) (n : Nat) (later : List Label) :
    ∀ r ∈ (m.step (.start (.scheduleBatch n))).watch m.threads.length later, ∀ x ∈ r.code.refuses,
      ∃ r' ∈ (m.step (.start (.scheduleBatch n))).watch m.threads.length later, Executed.Unserved r' x.1 := by
  have hstart : (m.step (.start (.scheduleBatch n))).threads[m.threads.length]? =
      some ⟨.detached, [.retries n]⟩ := by
    show (m.threads ++ [_])[m.threads.length]? = _
    rw [List.getElem?_append_right (Nat.le_refl _), Nat.sub_self]
    rfl
  obtain ⟨code, halone⟩ := Master.watch_alone later hstart
  -- what was run and what is still to run is explained by what was run
  let Inv : List Executed → List Section → Prop := fun past code =>
    (∀ a ∈ code, a.Explained past) ∧ ∀ r ∈ past, Section.Explained past r.code
  have hbegin : Inv [] [.retries n] :=
    ⟨fun a ha => by
      cases List.mem_singleton.1 ha
      exact ⟨trivial, List.forall_mem_nil _⟩,
    List.forall_mem_nil _⟩
  have hstep : ∀ past s c a rest, Inv past (a :: rest) →
      Inv (past ++ [⟨s, c, a⟩]) ((exec c .detached a s).code ++ rest) := by
    rintro past s c a rest ⟨hcode, hpast⟩
    have ha := hcode a List.mem_cons_self
    refine ⟨fun b hb => ?_, fun r hr => ?_⟩
    · rcases List.mem_append.1 hb with hb | hb
      · exact follows_explained (exec_follows c .detached s a b hb) ha
      · exact (hcode b (List.mem_cons_of_mem a hb)).mono _
    rcases List.mem_append.1 hr with hr | hr
    · exact (hpast r hr).mono _
    · cases List.mem_singleton.1 hr
      exact ha.mono _
  have hinv := halone.invariant hstep hbegin
  rw [List.nil_append] at hinv
  exact fun r hr x hx => (hinv.2 r hr).2 x hx

/-! ## Failing what is listed -/

/-- Between `s` and `s'` task `t` was failed and its waiters were given a failed result, or it was cancelled or
finished otherwise. -/
def FailedOut (s s' : MasterState) (t : TaskId) : Prop :=
  s'.queue.getState t = none ∨ s'.queue.getState t = some .cancelled ∨ s'.queue.getState t = some .completed ∨
    (s'.queue.getState t = some .failed ∧ ∀ k ∈ (s.waiters.get t).getD [],
      ∃ d ∈ s'.sent, d.waiter = k ∧ d.task = t ∧ d.value.isSuccess = false)

end

/-! ### A task without a worker -/

section Concrete

attribute [local instance] Host.blank

/-- Listed tasks are to be failed. -/
def MasterConfig.failing : MasterConfig :=
  { MasterConfig.default with scheduler := { SchedulerConfig.default with failUnfulfillableTasks := true } }

/-- Worker 7 has no GPU; a client submits a GPU task and waits for it. -/
def gpuWaitRun : List Label :=
  .connect 7 (.plain 4) .empty 0 :: Label.advances 0 2 (.at 0) ++
    .start (.submitTask gpuTask true) :: Label.advances 1 4 (.at 1)

end Concrete

end OxideSwarm
