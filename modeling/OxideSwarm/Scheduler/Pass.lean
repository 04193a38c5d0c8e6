import OxideSwarm.Scheduler.Capacity
import OxideSwarm.Queue.Ops

/-!
# A scheduling pass over the queue (`schedule_batch` in `master/src/scheduler.rs`)

A `Pass` is what `schedule_batch` carries from one lock hold to the next: the workers it listed, the
placement engine, the position in the queue and the placements made so far.  A placement keeps the whole
view it was made for, where the source keeps the view's task id.

`Pass.Examined` is the invariant of a pass: each placement is of a view that the engine admitted on the
seat it names, and the seats' workers are the listed ones.
-/

namespace OxideSwarm

variable [Host]

def scanPage : Nat := 256
def gpuProbeInterval : Nat := seconds 1

/-- What the scheduler remembers about GPU work between passes. -/
structure GpuDemand where
  lastProbe : Option Instant
  lastWaiting : Bool
  lastSeen : Option Instant
deriving DecidableEq, Repr

def TaskQueueInner.anyQueued (q : TaskQueueInner) (pred : Task → Bool) : Bool :=
  q.readyQueue.toList.any fun k => (q.queuedEntry k.taskId).any fun e => pred e.task

/-- A queued GPU task that one of `gpuWorkers` could run. -/
def wantsGpu (gpuWorkers : List WorkerInfo) (task : Task) : Bool :=
  task.requiresGpu && match task.placement with
    | .ok placement => gpuWorkers.any fun w =>
        staticallyFits task.requirements w && placementAdmits placement w
    | .error _ => false

/-- `gpu_demand`: `(waiting, recent)` and what is remembered. -/
def GpuDemand.ask (d : GpuDemand) (config : SchedulerConfig) (q : TaskQueueInner)
    (workers : List WorkerInfo) (now : Instant) : (Bool × Bool) × GpuDemand :=
  let gpuWorkers := workers.filter fun w => w.capabilities.canExecuteGpu
  if !config.preserveGpuForGpuTasks || gpuWorkers.isEmpty then ((false, false), d)
  else
    let probeDue := d.lastProbe.all fun probe => decide (now - probe ≥ gpuProbeInterval)
    let found := q.anyQueued (wantsGpu gpuWorkers)
    let d' : GpuDemand := if probeDue then
        ⟨some now, found, if found then some now else d.lastSeen⟩ else d
    let recent := d'.lastSeen.any fun seen => decide (now - seen < config.gpuDemandWindow)
    ((d'.lastWaiting, recent || d'.lastWaiting), d')

/-- `note_gpu_demand`. -/
def GpuDemand.note (d : GpuDemand) (now : Instant) : GpuDemand := { d with lastSeen := some now }

/-- What a pass over `n` listed workers carries between lock holds. -/
structure Pass (n : Nat) where
  workers : Fin n → WorkerInfo
  engine : Engine n
  maxBatchSize : Nat
  cursor : Option QueueOrderKey
  scanned : Nat
  placements : List (TaskView × Fin n)
  skipped : List (TaskId × ScheduleSkipReason)
  unfulfillable : List (TaskId × String)

namespace Pass

/-- The pass before its first page. -/
def start (config : SchedulerConfig) (workers : List WorkerInfo) (loads : Uuid → Option AssignedLoad)
    (gpu : Bool × Bool) (rrCursor maxBatchSize : Nat) : Pass workers.length where
  workers := workers.get
  engine := { Engine.new config workers (some loads) gpu.1 gpu.2 with rrCursor := rrCursor }
  maxBatchSize := maxBatchSize
  cursor := none
  scanned := 0
  placements := []
  skipped := []
  unfulfillable := []

variable {n : Nat}

def place (p : Pass n) (engine : Engine n) (view : TaskView) (idx : Fin n) : Pass n :=
  { p with engine := engine, placements := p.placements ++ [(view, idx)] }

def skip (p : Pass n) (engine : Engine n) (view : TaskView) (reason : ScheduleSkipReason) : Pass n :=
  { p with
    engine := engine
    skipped := if p.skipped.length < p.maxBatchSize then p.skipped ++ [(view.taskId, reason)]
      else p.skipped }

def refuse (p : Pass n) (engine : Engine n) (view : TaskView) (reason : String) : Pass n :=
  { p with engine := engine, unfulfillable := p.unfulfillable ++ [(view.taskId, reason)] }

/-- The loop over the views of a page; the answer says whether the whole scan ends here. -/
def scan (p : Pass n) : List TaskView → Bool × Pass n
  | [] => (false, p)
  | view :: rest =>
    match p.engine.place view with
    | (.placed idx, engine) =>
      if p.placements.length + 1 ≥ p.maxBatchSize ∨ engine.freeSlots = 0 then
        (true, p.place engine view idx)
      else scan (p.place engine view idx) rest
    | (.skip reason, engine) =>
      -- a worker held back for this task may have been the last one with room
      if engine.freeSlots = 0 then (true, p.skip engine view reason)
      else scan (p.skip engine view reason) rest
    | (.unfulfillable reason, engine) => scan (p.refuse engine view reason) rest

/-- A GPU task on the page that a listed GPU worker could run. -/
def seesGpu (p : Pass n) (views : List TaskView) : Bool :=
  !p.engine.gpuWaiting && p.engine.config.preserveGpuForGpuTasks && views.any fun v =>
    v.requiresGpu && (List.finRange n).any fun i =>
      (p.workers i).capabilities.canExecuteGpu && viewFits v (p.workers i)

/-- A page's views were read: their number is counted, and GPU work among them is noted. -/
def read (p : Pass n) (views : List TaskView) : Pass n :=
  { p with
    scanned := p.scanned + views.length
    engine := if p.seesGpu views then { p.engine with gpuWaiting := true, gpuRecent := true }
      else p.engine }

/-- `SCAN_PAGE.min(scan_budget.saturating_sub(scanned))`. -/
def pageLimit (p : Pass n) : Nat := min scanPage (max p.engine.config.maxScanPerPass 1 - p.scanned)

/-- The views the next page reads. -/
def views (p : Pass n) (q : TaskQueueInner) : List TaskView := (q.readyViews p.cursor p.pageLimit).1

/-- One round of the scan; the answer says whether another page follows. -/
def page (p : Pass n) (q : TaskQueueInner) : Bool × Pass n :=
  if p.pageLimit = 0 then (false, p)
  else
    let (stop, p') := scan (p.read (p.views q)) (p.views q)
    let next := (q.readyViews p.cursor p.pageLimit).2
    (!stop && next.isSome, { p' with cursor := next })

/-- Whether the page made the scheduler note GPU demand. -/
def notesGpu (p : Pass n) (q : TaskQueueInner) : Bool :=
  p.seesGpu (p.views q) ||
    ((p.page q).2.placements.drop p.placements.length).any fun placement => placement.1.requiresGpu

/-- `assignment_triples`. -/
def triples (p : Pass n) : List (TaskId × Uuid × Nat) :=
  p.placements.map fun placement =>
    let worker := (p.engine.seats placement.2).worker
    (placement.1.taskId, worker.workerId, worker.sessionId)

/-! ## What a pass has examined -/

/-- The checks of `candidates` that do not depend on the load: in particular a task that needs a GPU is
not given to a worker that cannot execute GPU work. -/
structure Suits (worker : WorkerInfo) (view : TaskView) : Prop where
  fits : viewFits view worker = true
  gpu : view.requiresGpu = true → worker.capabilities.canExecuteGpu = true

/-- The engine seats the listed workers, and each placement was admitted by it. -/
structure Examined (p : Pass n) : Prop where
  listed : ∀ idx, (p.engine.seats idx).worker = p.workers idx
  suits : ∀ placement ∈ p.placements, Suits (p.workers placement.2) placement.1

theorem start_examined (config : SchedulerConfig) (workers : List WorkerInfo)
    (loads : Uuid → Option AssignedLoad) (gpu : Bool × Bool) (rrCursor maxBatchSize : Nat) :
    (start config workers loads gpu rrCursor maxBatchSize).Examined :=
  ⟨fun _ => rfl, nofun⟩

theorem place_workers (e : Engine n) (view : TaskView) (i : Fin n) :
    ((e.place view).2.seats i).worker = (e.seats i).worker := by
  rcases Engine.place_cases e view with ⟨idx, cursor, -, hp⟩ | ⟨-, hseats⟩
  · rw [hp]
    show (Function.update e.seats idx ((e.seats idx).take _ _) i).worker = (e.seats i).worker
    by_cases hi : i = idx
    · subst hi
      rw [Function.update_self]
      rfl
    · rw [Function.update_of_ne hi]
  · rw [hseats]

/-- **One view.**  A view that is placed is admitted on the seat it is placed on. -/
theorem Examined.place {p : Pass n} (h : p.Examined) {view : TaskView} {idx : Fin n} {engine : Engine n}
    (hp : p.engine.place view = (.placed idx, engine)) : (p.place engine view idx).Examined := by
  have hworkers := place_workers p.engine view
  rw [hp] at hworkers
  refine ⟨fun i => (hworkers i).trans (h.listed i), fun placement hmem => ?_⟩
  rcases List.mem_append.mp hmem with hold | hnew
  · exact h.suits placement hold
  rw [List.mem_singleton] at hnew
  subst hnew
  rcases Engine.place_cases p.engine view with ⟨idx', cursor, hadm, hp'⟩ | ⟨hnone, -⟩
  · rw [hp] at hp'
    cases hp'
    refine ⟨?_, fun hgpu => ?_⟩
    · show viewFits view (p.workers idx) = true
      rw [← h.listed idx]
      exact hadm.fits
    · show (p.workers idx).capabilities.canExecuteGpu = true
      rw [← h.listed idx]
      exact hadm.gpu hgpu
  · rw [hp] at hnone
    exact absurd rfl (hnone idx)

theorem Examined.skip {p : Pass n} (h : p.Examined) {view : TaskView} {verdict : Verdict n}
    {engine : Engine n} (hp : p.engine.place view = (verdict, engine)) (skipped : _) (unfulfillable : _) :
    Examined { p with engine := engine, skipped := skipped, unfulfillable := unfulfillable } := by
  have hworkers := place_workers p.engine view
  rw [hp] at hworkers
  exact ⟨fun i => (hworkers i).trans (h.listed i), h.suits⟩

theorem Examined.scan (views : List TaskView) : ∀ {p : Pass n}, p.Examined → (p.scan views).2.Examined := by
  induction views with
  | nil => exact fun h => h
  | cons view rest ih =>
    intro p h
    unfold Pass.scan
    split
    · next idx engine hp =>
      split
      · exact h.place hp
      · exact ih (h.place hp)
    · next reason engine hp =>
      split
      · exact h.skip hp _ _
      · exact ih (h.skip hp _ _)
    · next reason engine hp => exact ih (h.skip hp _ _)

theorem Examined.read {p : Pass n} (h : p.Examined) (views : List TaskView) : (p.read views).Examined := by
  refine ⟨fun i => ?_, h.suits⟩
  refine Eq.trans ?_ (h.listed i)
  unfold Pass.read
  split <;> rfl

theorem Examined.page {p : Pass n} (h : p.Examined) (q : TaskQueueInner) : (p.page q).2.Examined := by
  unfold Pass.page
  split
  · exact h
  · have hscan := (h.read (p.views q)).scan (p.views q)
    exact ⟨hscan.listed, hscan.suits⟩

theorem scan_placements (views : List TaskView) : ∀ p : Pass n, ∀ placement ∈ (p.scan views).2.placements,
      placement ∈ p.placements ∨ placement.1 ∈ views := by
  induction views with
  | nil => exact fun _ _ h => Or.inl h
  | cons view rest ih =>
    intro p placement h
    have hplace : ∀ (engine : Engine n) (idx : Fin n),
        placement ∈ (p.place engine view idx).placements →
        placement ∈ p.placements ∨ placement.1 ∈ view :: rest := by
      intro engine idx hmem
      rcases List.mem_append.mp hmem with hold | hnew
      · exact .inl hold
      · rw [List.mem_singleton] at hnew
        subst hnew
        exact .inr List.mem_cons_self
    unfold scan at h
    split at h
    · next idx engine _ =>
      split at h
      · exact hplace engine idx h
      · rcases ih _ placement h with hold | hnew
        · exact hplace engine idx hold
        · exact .inr (List.mem_cons_of_mem _ hnew)
    · split at h
      · exact .inl h
      · exact (ih _ placement h).imp_right (List.mem_cons_of_mem _)
    · exact (ih _ placement h).imp_right (List.mem_cons_of_mem _)

theorem page_placements (p : Pass n) (q : TaskQueueInner) (placement : TaskView × Fin n)
    (h : placement ∈ (p.page q).2.placements) : placement ∈ p.placements ∨ placement.1 ∈ p.views q := by
  unfold page at h
  split at h
  · exact .inl h
  · exact scan_placements (p.views q) (p.read (p.views q)) placement h

/-- A scan that begins below the batch size ends within it, and below it if another page follows. -/
theorem scan_bounded (views : List TaskView) : ∀ p : Pass n, p.placements.length < p.maxBatchSize →
    (p.scan views).2.maxBatchSize = p.maxBatchSize ∧ (p.scan views).2.placements.length ≤ p.maxBatchSize ∧
    ((p.scan views).1 = false → (p.scan views).2.placements.length < p.maxBatchSize) := by
  induction views with
  | nil => exact fun p h => ⟨rfl, h.le, fun _ => h⟩
  | cons view rest ih =>
    intro p h
    have hlength : ∀ engine idx, (p.place engine view idx).placements.length = p.placements.length + 1 :=
      fun engine idx => List.length_append
    unfold scan
    split
    · next idx engine _ =>
      split
      · exact ⟨rfl, (hlength engine idx).le.trans h, fun hstop => nomatch hstop⟩
      · next hmore =>
        rw [not_or, Nat.not_le] at hmore
        exact ih _ ((hlength engine idx).trans_lt hmore.1)
    · split
      · exact ⟨rfl, h.le, fun hstop => nomatch hstop⟩
      · exact ih _ h
    · exact ih _ h

theorem page_bounded (p : Pass n) (q : TaskQueueInner) (h : p.placements.length < p.maxBatchSize) :
    (p.page q).2.maxBatchSize = p.maxBatchSize ∧ (p.page q).2.placements.length ≤ p.maxBatchSize ∧
    ((p.page q).1 = true → (p.page q).2.placements.length < p.maxBatchSize) := by
  unfold page
  split
  · exact ⟨rfl, h.le, fun hmore => nomatch hmore⟩
  obtain ⟨hmax, hle, hlt⟩ := scan_bounded (p.views q) (p.read (p.views q)) h
  refine ⟨hmax, hle, fun hmore => hlt ?_⟩
  rw [Bool.and_eq_true, Bool.not_eq_true'] at hmore
  exact hmore.1

end Pass

/-! ## The views a page reads -/

/-- `view` shows the requirements and constraints of `task`. -/
def TaskView.Shows (view : TaskView) (task : Task) : Prop :=
  view = { TaskView.of task with avoid := view.avoid }

omit [Host] in
theorem collectViews_shows (q : TaskQueueInner) (limit : Nat) (keys : List QueueOrderKey) :
    ∀ views, ∀ view ∈ (q.collectViews limit views keys).1, view ∈ views ∨
      ∃ t e, q.tasks.get t = some e ∧ e.state = .queued ∧ view.Shows e.task := by
  induction keys with
  | nil => exact fun _ _ h => Or.inl h
  | cons key rest ih =>
    intro views view h
    unfold TaskQueueInner.collectViews at h
    split at h
    · exact ih views view h
    next e he =>
    have hentry : q.tasks.get key.taskId = some e ∧ e.state = .queued := by
      unfold TaskQueueInner.queuedEntry at he
      rw [Option.filter_eq_some_iff] at he
      exact ⟨he.1, by simpa using he.2⟩
    have hnew : ∀ view ∈ views ++ [{ TaskView.of e.task with avoid := e.avoidWorkers }],
        view ∈ views ∨ ∃ t e, q.tasks.get t = some e ∧ e.state = .queued ∧ view.Shows e.task := by
      intro view hview
      rcases List.mem_append.mp hview with hold | hview
      · exact .inl hold
      · rw [List.mem_singleton] at hview
        subst hview
        exact .inr ⟨key.taskId, e, hentry.1, hentry.2, rfl⟩
    dsimp only at h
    split at h
    · exact hnew view h
    · rcases ih _ view h with hold | hfound
      · exact hnew view hold
      · exact .inr hfound

omit [Host] in
theorem views_show {n : Nat} (p : Pass n) (q : TaskQueueInner) {view : TaskView} (h : view ∈ p.views q) :
    ∃ t e, q.tasks.get t = some e ∧ e.state = .queued ∧ view.Shows e.task := by
  exact (collectViews_shows q _ _ [] view h).resolve_left List.not_mem_nil

end OxideSwarm
