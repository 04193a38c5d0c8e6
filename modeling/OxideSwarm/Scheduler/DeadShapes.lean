import OxideSwarm.Lib.Pool
import OxideSwarm.Scheduler.Gates

/-!
# The memo of hopeless shapes (`master/src/scheduler.rs:250-274, 495-540`)

Once a task finds no worker, `place` enters its shape into `dead` and skips every later task of that
shape without looking at a worker.  A seat *takes* a view when it passes the gates and leaves the GPU
reservation alone where that is asked for; `candidates` is empty exactly when no seat does, the
avoided ones apart (`candidates_eq_nil_iff`).  What a seat takes is decided by the shape, and during
a pass the seats only ever take less (`Tightens`), so what is dead stays dead.
-/

namespace OxideSwarm

variable [Host]

namespace Engine

variable {n : Nat} {e e' : Engine n} {view view' : TaskView} {avoided : List Uuid} {i : Fin n}

/-! ## The seats that take a view -/

/-- Seat `i` would run `view`, whether the view avoids its worker or not. -/
structure Takes (e : Engine n) (view : TaskView) (i : Fin n) : Prop where
  passes : e.Passes view i
  spares : e.Preserving view → e.Spares view i

omit [Host] in
theorem preserveGpu_idle {found : List (Fin n)} (h : ¬ e.Preserving view) : e.preserveGpu view found = found := by
  unfold preserveGpu
  rw [if_neg fun hpres => h (preserving_iff.1 hpres)]

/-- There is a candidate as soon as some seat takes the view and is not avoided. -/
theorem candidates_eq_nil_iff :
    (e.candidates view avoided).1 = [] ↔ ∀ i, e.Takes view i → (e.workerAt i).workerId ∈ avoided := by
  constructor
  · intro hnil i htakes
    by_contra hwanted
    by_cases hpres : e.Preserving view
    · exact candidates_ne_nil htakes.passes hwanted (htakes.spares hpres) hnil
    · refine preferRealGpu_ne_nil ?_ hnil
      rw [preserveGpu_idle hpres]
      exact List.ne_nil_of_mem (mem_found.2 ⟨htakes.passes, hwanted⟩)
  intro hall
  rw [List.eq_nil_iff_forall_not_mem]
  intro i hi
  have hc := candidate_of_mem hi
  exact hc.wanted (hall i ⟨hc.passes, fun hpres _ hgpu => (hc.preserves hpres hgpu).1⟩)

/-- With nobody avoided, no candidate means that no seat takes the view; avoiding changes nothing then. -/
theorem candidates_nil_of_not_takes (h : ∀ i, ¬ e.Takes view i) (avoided : List Uuid) :
    (e.candidates view avoided).1 = [] :=
  candidates_eq_nil_iff.2 fun i htakes => absurd htakes (h i)

/-- A search that finds nobody: no seat takes the view. -/
theorem not_takes_of_seek (h : (e.seek view).1 = []) (i : Fin n) : ¬ e.Takes view i := by
  have hnobody : (e.candidates view []).1 = [] := by
    unfold seek at h
    dsimp only at h
    split at h
    · exact h
    next hfound =>
      rw [Bool.and_eq_true, not_and, Bool.not_eq_true', List.isEmpty_iff] at hfound
      have havoid : view.avoid = [] := by
        have hempty := hfound h
        rw [Bool.not_eq_false, List.isEmpty_iff] at hempty
        exact hempty
      rw [havoid] at h
      exact h
  intro htakes
  exact List.not_mem_nil (candidates_eq_nil_iff.1 hnobody i htakes)

/-! ## The shape decides -/

/-- Two views that no worker can tell apart. -/
structure Alike (view view' : TaskView) : Prop where
  requiresGpu : view'.requiresGpu = view.requiresGpu
  heavy : view'.heavy = view.heavy
  requiredFeatures : view'.requiredFeatures = view.requiredFeatures
  cpuCores : view'.requirements.cpuCores = view.requirements.cpuCores
  ramMb : view'.requirements.ramMb = view.requirements.ramMb
  placement : view'.placement = view.placement

omit [Host] in
theorem alike_of_shape {p p' : Placement} (hp : view.placement = .ok p) (hp' : view'.placement = .ok p')
    (h : Shape.of view' p' = Shape.of view p) : Alike view view' where
  requiresGpu := congrArg Shape.requiresGpu h
  heavy := congrArg Shape.heavy h
  requiredFeatures := congrArg Shape.requiredFeatures h
  cpuCores := congrArg Shape.cpuCores h
  ramMb := congrArg Shape.ramMb h
  placement := by rw [hp', hp]; exact congrArg Except.ok (congrArg Shape.placement h)

omit [Host] in
theorem Alike.weight (h : Alike view view') : weightOf view' = weightOf view := by
  unfold weightOf
  rw [h.cpuCores]

theorem Alike.takes (h : Alike view view') (htakes : e.Takes view' i) : e.Takes view i where
  passes :=
    { free := htakes.passes.free
      connected := htakes.passes.connected
      cpu := h.cpuCores ▸ htakes.passes.cpu
      ram := h.ramMb ▸ htakes.passes.ram
      placement := h.placement ▸ htakes.passes.placement
      hostCpu := htakes.passes.hostCpu
      gpu := h.requiresGpu ▸ htakes.passes.gpu
      features := h.requiredFeatures ▸ htakes.passes.features
      freeRam := h.ramMb ▸ htakes.passes.freeRam
      environment :=
        { throttled := h.cpuCores ▸ h.heavy ▸ htakes.passes.environment.throttled
          lowBattery := h.heavy ▸ htakes.passes.environment.lowBattery
          concurrency := htakes.passes.environment.concurrency
          battery := h.cpuCores ▸ h.heavy ▸ htakes.passes.environment.battery
          thermal := h.cpuCores ▸ h.heavy ▸ htakes.passes.environment.thermal }
      permits := htakes.passes.permits
      slots := h.weight ▸ htakes.passes.slots }
  spares hpres hneed hgpu := by
    have hpres' : e.Preserving view' := ⟨h.requiresGpu.trans hpres.1, hpres.2⟩
    rw [← h.weight]
    exact htakes.spares hpres' (h.requiresGpu.trans hneed) hgpu

/-! ## A pass only tightens -/

/-- The seat carries at least as much as before, and is otherwise the same. -/
structure Heavier (s s' : Seat) : Prop where
  worker : s'.worker = s.worker
  maxSlots : s'.maxSlots = s.maxSlots
  maxTasks : s'.maxTasks = s.maxTasks
  base : s'.base = s.base
  tasks : s.placed.tasks ≤ s'.placed.tasks
  slots : s.placed.slots ≤ s'.placed.slots
  ram : s.placed.unstartedRamMb ≤ s'.placed.unstartedRamMb

/-- Every seat is at least as loaded, held-back seats stay held back, and GPU demand stays noted. -/
structure Tightens (e e' : Engine n) : Prop where
  config : e'.config = e.config
  seats : ∀ i, Heavier (e.seats i) (e'.seats i)
  reserved : ∀ i, e.reserved i = true → e'.reserved i = true
  gpuWaiting : e.gpuWaiting = true → e'.gpuWaiting = true
  gpuRecent : e.gpuRecent = true → e'.gpuRecent = true

section

omit [Host]

theorem Heavier.loaded (s : Seat) (l : AssignedLoad) : Heavier s (s.loaded l) :=
  ⟨rfl, rfl, rfl, rfl, Nat.le_add_right _ _, Nat.le_add_right _ _, Nat.le_add_right _ _⟩

theorem Heavier.load_le {s s' : Seat} (h : Heavier s s') : s.load ≤ s'.load := by
  have htasks := h.tasks
  unfold Seat.load
  rw [h.base]
  omega

theorem Heavier.usedSlots_le {s s' : Seat} (h : Heavier s s') : s.usedSlots ≤ s'.usedSlots := by
  have hslots := h.slots
  unfold Seat.usedSlots
  rw [h.base]
  omega

theorem Heavier.leavesReserve {s s' : Seat} (h : Heavier s s') {config : SchedulerConfig} {weight : Nat}
    (hreserve : leavesReserve config s' weight = true) : leavesReserve config s weight = true := by
  have hload := h.load_le
  have hused := h.usedSlots_le
  unfold Engine.leavesReserve at hreserve ⊢
  rw [h.maxSlots, h.maxTasks] at hreserve
  simp only [Bool.and_eq_true, decide_eq_true_eq] at hreserve ⊢
  omega

end

/-- **What a seat takes later, it would have taken before.** -/
theorem Tightens.takes (h : Tightens e e') (htakes : e'.Takes view i) : e.Takes view i := by
  have hseat := h.seats i
  have hworker : e'.workerAt i = e.workerAt i := hseat.worker
  have hload := hseat.load_le
  have hused := hseat.usedSlots_le
  have hpasses := htakes.passes
  refine ⟨⟨?_, hworker ▸ hpasses.connected, hworker ▸ hpasses.cpu, hworker ▸ hpasses.ram,
    hworker ▸ hpasses.placement, ?_, hworker ▸ hpasses.gpu, hworker ▸ hpasses.features, fun hram => ?_, ?_, ?_, ?_⟩,
    fun hpres hneed hgpu => ?_⟩
  · rw [← Bool.not_eq_true]
    intro hreserved
    exact Bool.false_ne_true (hpasses.free.symm.trans (h.reserved i hreserved))
  · rw [← hworker, ← h.config]
    exact hpasses.hostCpu
  · have hfree := hpasses.freeRam hram
    rw [hworker, hseat.base] at hfree
    have hmore := hseat.ram
    omega
  · rw [← hworker, ← h.config]
    exact hpasses.environment
  · have hpermits := hpasses.permits
    rw [hseat.maxTasks] at hpermits
    omega
  · have hslots := hpasses.slots
    rw [hseat.maxSlots] at hslots
    omega
  have hpres' : e'.Preserving view :=
    ⟨hpres.1, h.config ▸ hpres.2.1, hpres.2.2.imp h.gpuWaiting h.gpuRecent⟩
  have hreserve := htakes.spares hpres' hneed (hworker ▸ hgpu)
  rw [h.config] at hreserve
  exact hseat.leavesReserve hreserve

omit [Host] in
theorem holdBack_tightens (e : Engine n) (full : List (Fin n)) (weight : Nat) : Tightens e (e.holdBack full weight) := by
  have hsame : ∀ i, Heavier (e.seats i) (e.seats i) :=
    fun i => ⟨rfl, rfl, rfl, rfl, Nat.le_refl _, Nat.le_refl _, Nat.le_refl _⟩
  unfold holdBack
  split
  · exact ⟨rfl, hsame, fun _ h => h, id, id⟩
  next idx _ =>
    refine ⟨rfl, hsame, fun i hi => ?_, id, id⟩
    show Function.update e.reserved idx true i = true
    by_cases h : i = idx
    · rw [h, Function.update_self]
    · rw [Function.update_of_ne h, hi]

/-- What `place` does to the rest of the engine, and to the memo. -/
theorem place_memo (e : Engine n) (view : TaskView) : Tightens e (e.place view).2 ∧
      ((e.place view).2.dead = e.dead ∨ ∃ p, view.placement = .ok p ∧
        (e.place view).2.dead = insert (Shape.of view p) e.dead ∧ ∀ i, ¬ e.Takes view i) := by
  have hseats : ∀ i, Heavier (e.seats i) ((e.place view).2.seats i) := by
    intro i
    rw [place_seat]
    exact Heavier.loaded _ _
  have hsame : Tightens e e :=
    ⟨rfl, fun i => ⟨rfl, rfl, rfl, rfl, Nat.le_refl _, Nat.le_refl _, Nat.le_refl _⟩, fun _ h => h, id, id⟩
  unfold place at hseats ⊢
  cases hp : view.placement with
  | error err => exact ⟨hsame, .inl rfl⟩
  | ok p =>
    rw [hp] at hseats
    dsimp only at hseats ⊢
    cases hu : e.unfulfillable view p with
    | some reason => exact ⟨hsame, .inl rfl⟩
    | none =>
      rw [hu] at hseats
      dsimp only at hseats ⊢
      by_cases hdead : Shape.of view p ∈ e.dead
      · rw [if_pos hdead]
        exact ⟨hsame, .inl rfl⟩
      rw [if_neg hdead] at hseats ⊢
      cases hseek : e.seek view with
      | mk found full =>
        rw [hseek] at hseats
        cases found with
        | nil =>
          have hheld := holdBack_tightens e full (weightOf view)
          have hmemo : (e.holdBack full (weightOf view)).dead = e.dead := by
            unfold holdBack
            split <;> rfl
          refine ⟨⟨hheld.config, hheld.seats, hheld.reserved, hheld.gpuWaiting, hheld.gpuRecent⟩,
            .inr ⟨p, rfl, ?_, not_takes_of_seek (by rw [hseek])⟩⟩
          dsimp only
          rw [hmemo]
        | cons first rest => exact ⟨⟨rfl, hseats, fun _ h => h, id, id⟩, .inl rfl⟩

/-! ## The memo along a pass -/

/-- No seat takes a view whose shape is dead. -/
def Hopeless (e : Engine n) : Prop :=
  ∀ view p, view.placement = .ok p → Shape.of view p ∈ e.dead → ∀ i, ¬ e.Takes view i

theorem Hopeless.call (h : e.Hopeless) (c : EngineCall) : (e.call c).Hopeless := by
  cases c with
  | demand waiting recent =>
    have htightens : Tightens e (e.call (.demand waiting recent)) :=
      ⟨rfl, fun i => ⟨rfl, rfl, rfl, rfl, Nat.le_refl _, Nat.le_refl _, Nat.le_refl _⟩, fun _ hr => hr,
        fun hw => Bool.or_eq_true_iff.2 (.inl hw), fun hr => Bool.or_eq_true_iff.2 (.inl hr)⟩
    exact fun view p hp hdead i htakes => h view p hp hdead i (htightens.takes htakes)
  | place placed =>
    obtain ⟨htightens, hdead⟩ := place_memo e placed
    intro view p hp hmem i htakes
    have hbefore : e.Takes view i := htightens.takes htakes
    rcases hdead with hsame | ⟨p', hp', hinsert, hnobody⟩
    · exact h view p hp (hsame ▸ hmem) i hbefore
    have hcases : Shape.of view p ∈ insert (Shape.of placed p') e.dead := hinsert ▸ hmem
    rcases Finset.mem_insert.1 hcases with hnew | hold
    · exact hnobody i ((alike_of_shape hp' hp hnew).takes hbefore)
    · exact h view p hp hold i hbefore

theorem Hopeless.calls (cs : List EngineCall) : ∀ {e : Engine n}, e.Hopeless → (e.calls cs).Hopeless := by
  induction cs with
  | nil => exact fun h => h
  | cons c rest ih => exact fun h => ih (h.call c)

/-- **The memo of dead shapes is sound.**  After any calls of a pass, a view whose shape is dead has no
candidate, with its own avoid list as without one; so every task is answered as it would be without the
memo. -/
theorem dead_shapes_sound (config : SchedulerConfig) (workers : List WorkerInfo)
    (loads : Option (Uuid → Option AssignedLoad)) (gpuWaiting gpuRecent : Bool) (cursor : Nat)
    (cs : List EngineCall) :
    let e := (started config workers loads gpuWaiting gpuRecent cursor).calls cs
    (∀ view placement, view.placement = .ok placement → Shape.of view placement ∈ e.dead →
      (e.candidates view view.avoid).1 = [] ∧ (e.candidates view []).1 = []) ∧
    ∀ view, (e.place view).1 = (({ e with dead := ∅ } : Engine workers.length).place view).1 := by
  intro e
  have hstart : (started config workers loads gpuWaiting gpuRecent cursor).Hopeless :=
    fun view p _ hdead => absurd hdead (Finset.notMem_empty _)
  have h : e.Hopeless := hstart.calls cs
  refine ⟨fun view p hp hdead => ?_, fun view => ?_⟩
  · exact ⟨candidates_nil_of_not_takes (h view p hp hdead) _, candidates_nil_of_not_takes (h view p hp hdead) _⟩
  unfold place
  cases hp : view.placement with
  | error err => rfl
  | ok p =>
    dsimp only
    have hsame : ({ e with dead := ∅ } : Engine workers.length).unfulfillable view p = e.unfulfillable view p := rfl
    rw [hsame]
    cases hu : e.unfulfillable view p with
    | some reason => rfl
    | none =>
      rw [if_neg (Finset.notMem_empty (Shape.of view p))]
      have hsearch : ({ e with dead := ∅ } : Engine workers.length).seek view = e.seek view := rfl
      rw [hsearch]
      by_cases hdead : Shape.of view p ∈ e.dead
      · -- the full search that the memo saves finds nobody either
        rw [if_pos hdead]
        have hnobody : (e.seek view).1 = [] := by
          unfold seek
          dsimp only
          split
          · exact candidates_nil_of_not_takes (h view p hp hdead) _
          · exact candidates_nil_of_not_takes (h view p hp hdead) _
        cases hseek : e.seek view with
        | mk found full =>
          rw [hseek] at hnobody
          cases hnobody
          rfl
      · rw [if_neg hdead]
        cases e.seek view with
        | mk found full => cases found <;> rfl

/-! ## Nobody who could run a task is overlooked -/

/-- The engine knows that there is a GPU worker if there is one. -/
def GpuKnown (e : Engine n) : Prop := ∀ i, (e.workerAt i).capabilities.canExecuteGpu = true → e.anyGpuWorker = true

theorem GpuKnown.call (h : e.GpuKnown) (c : EngineCall) : (e.call c).GpuKnown := by
  cases c with
  | demand waiting recent => exact h
  | place view =>
    have hknown : (e.place view).2.anyGpuWorker = e.anyGpuWorker := by
      unfold place
      split
      · rfl
      split
      · rfl
      dsimp only
      split
      · rfl
      split
      · unfold holdBack
        split <;> rfl
      · rfl
    intro i hi
    have hworker : (e.call (.place view)).workerAt i = e.workerAt i := ((place_memo e view).1.seats i).worker
    rw [hworker] at hi
    exact hknown.trans (h i hi)

/-- The early exits of `place` turn no task away that a seat takes. -/
theorem GpuKnown.unfulfillable_none (h : e.GpuKnown) (htakes : e.Takes view i) {p : Placement}
    (hp : view.placement = .ok p) : e.unfulfillable view p = none := by
  have hgpu : ¬ (view.requiresGpu && !e.anyGpuWorker) = true := by
    rw [Bool.and_eq_true, not_and]
    intro hneed
    rw [h i (htakes.passes.gpu hneed)]
    exact Bool.false_ne_true
  have hfeatures : ¬ e.nobodyHasFeatures view = true := by
    unfold nobodyHasFeatures
    rw [List.any_eq_true.2 ⟨i, List.mem_finRange i, htakes.passes.features⟩]
    simp
  have hmatches : ¬ e.nobodyMatches p = true := by
    obtain ⟨p', hp', hmet⟩ := htakes.passes.placement
    cases hp.symm.trans hp'
    unfold nobodyMatches
    rw [List.any_eq_true.2 ⟨i, List.mem_finRange i, Placement.matches_iff.2 hmet⟩]
    simp
  unfold unfulfillable
  rw [if_neg hgpu, if_neg hfeatures, if_neg hmatches]
  exact ite_self _

/-- **A task is placed exactly if some seat takes it.**  After any calls of a pass, `place` chooses only seats that
take the task, and it does choose one as soon as there is one: neither the early exits, nor the memo, nor the avoid
list, nor the preferences among GPU workers turn away a task that could run. -/
theorem placed_iff_taken (config : SchedulerConfig) (workers : List WorkerInfo)
    (loads : Option (Uuid → Option AssignedLoad)) (gpuWaiting gpuRecent : Bool) (cursor : Nat)
    (cs : List EngineCall) (view : TaskView) :
    let e := (started config workers loads gpuWaiting gpuRecent cursor).calls cs
    (∀ i, (e.place view).1 = .placed i → e.Takes view i) ∧
    ((∃ i, e.Takes view i) → ∃ i, (e.place view).1 = .placed i) := by
  intro e
  have htakes_of : ∀ {avoided i}, e.Candidate view avoided i → e.Takes view i :=
    fun hc => ⟨hc.passes, fun hpres _ hgpu => (hc.preserves hpres hgpu).1⟩
  refine ⟨fun i hplaced => ?_, fun ⟨i, htakes⟩ => ?_⟩
  · rcases candidate_of_placed hplaced with hc | ⟨hc, -⟩
    · exact htakes_of hc
    · exact htakes_of hc
  have hstart : (started config workers loads gpuWaiting gpuRecent cursor).GpuKnown :=
    fun i hi => List.any_eq_true.2 ⟨workers.get i, List.get_mem .., hi⟩
  have hknown : e.GpuKnown :=
    runFrom_invariant (fun (e : Engine workers.length) c (h : e.GpuKnown) => h.call c) hstart cs
  have hopeless : e.Hopeless := Hopeless.calls cs fun _ _ _ hdead => absurd hdead (Finset.notMem_empty _)
  obtain ⟨p, hp, -⟩ := htakes.passes.placement
  unfold place
  rw [hp]
  dsimp only
  rw [hknown.unfulfillable_none htakes hp]
  dsimp only
  rw [if_neg fun hdead => hopeless view p hp hdead i htakes]
  cases hseek : e.seek view with
  | mk found full =>
    cases found with
    | nil => exact absurd htakes (not_takes_of_seek (by rw [hseek]) i)
    | cons first rest => exact ⟨_, rfl⟩

end Engine

end OxideSwarm
