import OxideSwarm.Master.Flow

/-!
# GPU gating from the page scans to the commit

A pass decides on views it read under earlier lock holds, and its commit names tasks by their id alone.
`commit_can_break_gating` is a run in which the id is cancelled, evicted and submitted again as a GPU
task between the two.  `commit_gated` is what holds of every other run: if no submission is accepted for
an id that a pending pass has placed as a different task (`Unswapped`), then each task a commit assigns
was examined in this pass as the task it is.

The invariant is `Faithful`: every view that a pending pass has placed shows the task that the queue
holds under its id.
-/

namespace OxideSwarm

variable [Host]

/-! ## Views and the tasks they show -/

variable {view : TaskView}

section

omit [Host]

theorem TaskView.Shows.taskId {task : Task} (h : view.Shows task) : view.taskId = task.id := by
  rw [h]
  rfl

theorem TaskView.Shows.requiresGpu {task : Task} (h : view.Shows task) : view.requiresGpu = task.requiresGpu := by
  rw [h]
  rfl

theorem TaskView.Shows.kept {e e' : TaskEntry} (h : view.Shows e.task) (hk : Kept e e') : view.Shows e'.task := by
  have hof : TaskView.of e'.task = TaskView.of e.task := by
    rw [hk.task]
    rfl
  unfold TaskView.Shows
  rw [hof]
  exact h

end

/-- Each entry holds the task of its id. -/
def TaskQueueInner.Named (q : TaskQueueInner) : Prop := ∀ t e, q.tasks.get t = some e → e.task.id = t

variable {q q' : TaskQueueInner}

/-! ## The invariant -/

/-- The views that a pass has placed before this section. -/
def Section.placed : Section → List TaskView
  | .page p => p.placements.map Prod.fst
  | .commit p => p.placements.map Prod.fst
  | _ => []

/-- The pass of a section is one the engine examined. -/
def Section.Examined : Section → Prop
  | .page p => p.Examined
  | .commit p => p.Examined
  | _ => True

/-- The view shows the task that `q` has under the view's id. -/
def TaskQueueInner.ShownBy (q : TaskQueueInner) (view : TaskView) : Prop :=
  ∀ e, q.tasks.get view.taskId = some e → view.Shows e.task

/-- What holds of a section between the page scans and the commit. -/
def Faithful (q : TaskQueueInner) (a : Section) : Prop := a.Examined ∧ ∀ view ∈ a.placed, q.ShownBy view

variable {a : Section}

theorem faithful_of_none (h : a.placed = []) (hx : a.Examined) : Faithful q a :=
  ⟨hx, by rw [h]; exact nofun⟩

variable {c : Choice} {s : MasterState}

/-- Whatever else happens to a queue, a view that showed its task still does. -/
theorem shownBy_step (hstep : s.QueueStep c q' a) (hview : s.queue.ShownBy view)
    (hswap : ∀ sub waiter, a = .submit sub waiter →
      (s.queue.submitWithPriority sub.task 0 c.clock).1 = .ok sub.task.id →
      view.taskId = sub.task.id → view.Shows sub.task) : q'.ShownBy view := by
  intro e' he'
  have hentry := hstep.entry view.taskId
  rw [he'] at hentry
  generalize he : s.queue.tasks.get view.taskId = o at hentry
  cases hentry with
  | same => exact hview e' he
  | accept runs id ok => exact hswap _ _ runs ok id
  | assign | start => exact (hview _ he :)
  | settle kept => exact (hview _ he).kept kept

theorem named_step (hstep : s.QueueStep c q' a) (hq : s.queue.Named) : q'.Named := by
  intro t e' he'
  have hentry := hstep.entry t
  rw [he'] at hentry
  generalize he : s.queue.tasks.get t = o at hentry
  cases hentry with
  | same => exact hq t e' he
  | accept runs id ok => exact id.symm
  | assign | start => exact (hq t _ he :)
  | settle kept =>
    rw [kept.task]
    exact hq t _ he

/-- A page keeps the pass faithful: a new placement is of a task as the queue has it. -/
theorem page_faithful {n : Nat} {p : Pass n} (hq : q.Named)
    (h : Faithful q (.page p)) : Faithful q (.page (p.page q).2) := by
  refine ⟨Pass.Examined.page h.1 q, fun view hview => ?_⟩
  obtain ⟨placement, hmem, rfl⟩ := List.mem_map.mp hview
  rcases Pass.page_placements p q placement hmem with hold | hnew
  · exact h.2 _ (List.mem_map_of_mem hold)
  obtain ⟨t, e, he, -, hshows⟩ := views_show p q hnew
  intro e' he'
  rw [hshows.taskId, hq t e he] at he'
  cases he.symm.trans he'
  exact hshows

theorem follows_faithful {k : Owner} {b : Section} (hq : s.queue.Named)
    (ha : Faithful s.queue a) (h : s.Follows c k a b) : Faithful s.queue b := by
  cases b with
  | page p =>
    cases h with
    | demand_page => exact ⟨Pass.start_examined .., nofun⟩
    | page_page => exact page_faithful hq ha
  | commit p =>
    cases h with
    | demand_commit => exact ⟨Pass.start_examined .., nofun⟩
    | page_commit => exact page_faithful hq ha
  | _ => exact faithful_of_none rfl trivial

/-- A pass is carried on by sections that leave the queue alone. -/
theorem follows_placed {k : Owner} {b : Section} (h : s.Follows c k a b) : b.placed = [] ∨ a.changes = none := by
  cases b with
  | page | commit => cases h <;> exact .inr rfl
  | _ => exact .inl rfl

/-- The invariant of the master. -/
structure Gated (m : Master) : Prop where
  named : m.shared.queue.Named
  faithful : m.All fun _ a => Faithful m.shared.queue a

/-- The condition on a step: a submission it accepts is not for an id that a pending pass has placed as
another task. -/
def Unswapped (m : Master) (l : Label) : Prop :=
  ∀ task ∈ m.accepts l, ∀ a ∈ m.pending, ∀ view ∈ a.placed, view.taskId = task.id → view.Shows task

instance (m : Master) (l : Label) : Decidable (Unswapped m l) :=
  inferInstanceAs (Decidable (∀ task ∈ m.accepts l, ∀ a ∈ m.pending, ∀ view ∈ a.placed,
    view.taskId = task.id → view = { TaskView.of task with avoid := view.avoid }))

theorem gated_init (config : MasterConfig) (queue : QueueConfig) : Gated (Master.init config queue) where
  named _ e he := absurd he (Option.some_ne_none e).symm
  faithful _ ht := absurd ht List.not_mem_nil

/-- **One step.** -/
theorem Gated.step {m : Master} {l : Label} (h : Gated m) (hl : Unswapped m l) : Gated (m.step l) := by
  have hshown : ∀ a ∈ m.pending, ∀ view ∈ a.placed, m.shared.queue.ShownBy view →
      (m.step l).shared.queue.ShownBy view := by
    intro a ha view hview hshows
    rcases m.step_queue l with ⟨c, k, b, hruns, hstep⟩ | hsame
    · refine shownBy_step hstep hshows fun sub waiter hb ok hid => ?_
      subst hb
      exact hl sub.task (hruns.accepts ok) a ha view hview hid
    · rw [hsame]
      exact hshows
  constructor
  · rcases m.step_queue l with ⟨c, k, b, -, hstep⟩ | hsame
    · exact named_step hstep h.named
    · rw [hsame]
      exact h.named
  refine Master.step_all h.faithful.pending (fun k a ha => ?_) (fun k a hbegins => ?_)
    (fun c k a b hruns ha hfollows => ?_) (fun c k a t hruns ha hstarts b hb => ?_)
  · exact ⟨ha.2.1, fun view hview => hshown a ha.1 view hview (ha.2.2 view hview)⟩
  · cases hbegins <;> exact faithful_of_none rfl trivial
  · have hb := follows_faithful h.named ha.2 hfollows
    rcases follows_placed hfollows with hnone | hchanges
    · exact faithful_of_none hnone hb.1
    · have hsame := (hruns.same.queue (by rw [hchanges]; nofun)).1
      rw [hsame]
      exact hb
  · cases hstarts <;> rw [List.mem_singleton.mp hb] <;> exact faithful_of_none rfl trivial

/-! ## Every commit -/

/-- The commit of `p` moves tasks only as the engine examined them in this pass: the view that was placed
shows the very task, the task is assigned to the listed worker of its seat, and that worker suits it. -/
def CommitGated {n : Nat} (p : Pass n) (q q' : TaskQueueInner) : Prop :=
  ∀ t e e', q.tasks.get t = some e → e.state = .queued → q'.tasks.get t = some e' →
    e'.state = .scheduled →
    ∃ view idx, (view, idx) ∈ p.placements ∧ view.Shows e.task ∧
      e'.assignedWorkerId = some (p.workers idx).workerId ∧
      e'.assignedSession = some (p.workers idx).sessionId ∧
      Pass.Suits (p.workers idx) view ∧
      (e.task.requiresGpu = true → (p.workers idx).capabilities.canExecuteGpu = true)

/-- Every commit that is next in `m` is gated. -/
def CommitsGated (m : Master) : Prop :=
  ∀ i c k n (p : Pass n), m.next? i = some (k, .commit p) →
    CommitGated p m.shared.queue (m.step (.advance i c)).shared.queue

theorem commitGated_of_faithful {n : Nat} {p : Pass n} (now : Instant) (h : Faithful q (.commit p)) :
    CommitGated p q (q.scheduleTasksBatchInSessions p.triples now).2 := by
  intro t e e' he hqueued he' hscheduled
  rcases scheduleBatchInner_entries now (p.triples.map fun a => (a.1, a.2.1, some a.2.2)) q t with
    hsame | ⟨e1, w, session, hmem, he1, -, hnew⟩
  · cases (hsame.symm.trans he').symm.trans he
    rw [hqueued] at hscheduled
    cases hscheduled
  cases hnew.symm.trans he'
  cases he.symm.trans he1
  obtain ⟨triple, htriple, heq⟩ := List.mem_map.mp hmem
  obtain ⟨placement, hplacement, rfl⟩ := List.mem_map.mp htriple
  cases heq
  have hshows : placement.1.Shows e.task :=
    h.2 placement.1 (List.mem_map_of_mem hplacement) e he
  have hsuits := Pass.Examined.suits h.1 placement hplacement
  have hlisted := Pass.Examined.listed h.1 placement.2
  refine ⟨placement.1, placement.2, hplacement, hshows, ?_, ?_, hsuits, ?_⟩
  · exact congrArg (fun worker => some worker.workerId) hlisted
  · exact congrArg (fun worker => some worker.sessionId) hlisted
  · rw [← hshows.requiresGpu]
    exact hsuits.gpu

/-- **Strict GPU gating.**  In a run without a swap, whatever a commit moves from `Queued` to `Scheduled`
was examined in this pass with its own requirements, and a GPU task goes to a worker that can execute GPU
work. -/
theorem commit_gated (config : MasterConfig) (queue : QueueConfig) (labels : List Label)
    (h : Within Master.step Unswapped (Master.init config queue) labels) :
    CommitsGated ((Master.init config queue).run labels) := by
  have hgated : Gated ((Master.init config queue).run labels) :=
    h.invariant (fun _ _ hm hl => Gated.step hm hl) (gated_init config queue)
  intro i c k n p hnext
  have hfires := (show Master.Runs _ (.advance i c) c k (.commit p) from ⟨i, rfl, hnext⟩).fires
  rw [hfires.shared]
  exact commitGated_of_faithful c.clock.instant (hfires.all_head hgated.faithful)

end OxideSwarm

namespace OxideSwarm

/-! ## Two runs -/

section Concrete

attribute [local instance] Host.blank

/-- Task 1 again, now with a GPU requirement. -/
def gpuTask : Task := { Task.echo 1 with requirements := ⟨1, 512, true, 60, none⟩ }

/-- Worker 7 has no GPU; a pass has scanned the queue and places task 1 on it. -/
def scannedRun : List Label :=
  [.connect 7 (.plain 4) .empty 0,
    .start (.submitTask (Task.echo 1) false), .advance 1 (.at 1), .advance 1 (.at 1), .advance 1 (.at 1),
    .start (.scheduleBatch 10), .advance 2 (.at 2), .advance 2 (.at 2), .advance 2 (.at 2),
    .advance 2 (.at 2), .advance 2 (.at 2)]

/-- Before the commit of the pass, task 1 is cancelled, evicted and submitted as a GPU task. -/
def swappedRun : List Label :=
  scannedRun ++
    [.start (.cancelTask ⟨1⟩ "no longer needed"), .advance 3 (.at 3), .advance 3 (.at 3),
      .start (.evictTerminalTasks 0), .advance 4 (.at 4),
      .start (.submitTask gpuTask false), .advance 5 (.at 5), .advance 5 (.at 5), .advance 5 (.at 5)]

/-- No listed worker of the pass can execute GPU work. -/
def Section.listsNoGpu : Section → Bool
  | .commit p => (List.finRange _).all fun i => !(p.workers i).capabilities.canExecuteGpu
  | _ => false

/-- **The gate can be passed by.**  The commit gives the GPU task to worker 7. -/
theorem commit_can_break_gating : ¬ CommitsGated ((Master.init .default (.small 10)).run swappedRun) := by
  intro h
  have hcommit : (((Master.init .default (.small 10)).run swappedRun).next? 2).map
      (fun x => x.2.listsNoGpu) = some true := by decide
  have hbefore : (((Master.init .default (.small 10)).run swappedRun).shared.queue.tasks.get ⟨1⟩).map
      (fun e => (e.state, e.task.requiresGpu)) = some (.queued, true) := by decide
  have hafter : ((((Master.init .default (.small 10)).run swappedRun).step
      (.advance 2 (.at 6))).shared.queue.tasks.get ⟨1⟩).map TaskEntry.state = some .scheduled := by decide
  obtain ⟨⟨k, a⟩, hnext, hlists⟩ := Option.map_eq_some_iff.mp hcommit
  obtain ⟨e, he, hqueued⟩ := Option.map_eq_some_iff.mp hbefore
  obtain ⟨e', he', hscheduled⟩ := Option.map_eq_some_iff.mp hafter
  cases a with
  | commit p =>
    obtain ⟨view, idx, -, -, -, -, -, hgpu⟩ :=
      h 2 (.at 6) k _ p hnext ⟨1⟩ e e' he (congrArg Prod.fst hqueued) he' hscheduled
    have hcan := hgpu (congrArg Prod.snd hqueued)
    have hcannot := List.all_eq_true.mp hlists idx (List.mem_finRange idx)
    rw [hcan] at hcannot
    cases hcannot
  | _ => cases hlists

/-- The same pass without the swap: its commit schedules the task that was examined. -/
theorem commit_gated_scanned : Within Master.step Unswapped (Master.init .default (.small 10)) scannedRun ∧
    CommitsGated ((Master.init .default (.small 10)).run scannedRun) ∧
    ((((Master.init .default (.small 10)).run scannedRun).step
      (.advance 2 (.at 3))).shared.queue.tasks.get ⟨1⟩).map TaskEntry.state = some .scheduled := by
  have hwithin : Within Master.step Unswapped (Master.init .default (.small 10)) scannedRun := by decide
  exact ⟨hwithin, commit_gated _ _ _ hwithin, by decide⟩

end Concrete

end OxideSwarm
