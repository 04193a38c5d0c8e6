import OxideSwarm.Scheduler.Capacity

/-!
# The gates of a placement (`master/src/scheduler.rs:288-312, 481-769`, `core/src/placement.rs:215-240`)

`Passes e view i` spells out what stages 1 to 5 of `candidates` ask of a seat, gate by gate, and
`passes_iff` says that the Boolean stages ask exactly that.  On top of it come the two preferences: the avoid
list is only given up when nobody else is left, and a task that needs no GPU stays off the GPU workers that
waiting GPU work needs.  `placement_sound` is about every sequence of calls the engine may see during a pass.
-/

namespace OxideSwarm

section

variable [Host]

/-! ## The gates -/

/-- The worker satisfies each of the constraints. -/
structure Placement.Met (p : Placement) (worker : WorkerInfo) : Prop where
  os : ∀ os, p.os = some os → ∃ tag ∈ worker.capabilities.tags, ∃ v,
    Text.stripPrefix osTagPrefix tag = some v ∧ normalizeOs v = os
  arch : ∀ arch, p.arch = some arch → ∃ tag ∈ worker.capabilities.tags, ∃ v,
    Text.stripPrefix archTagPrefix tag = some v ∧ normalizeArch v = arch
  named : ∀ name, p.worker = some name → Host.parseUuid name = some worker.workerId ∨
    Text.eqIgnoreAsciiCase worker.capabilities.name name = true
  tags : ∀ tag ∈ p.tags, tag ∈ worker.capabilities.tags

/-- The battery and thermal gates of stage 4. -/
structure Tolerates (config : SchedulerConfig) (worker : WorkerInfo) (view : TaskView) : Prop where
  throttled : ("thermal_throttled" ∈ worker.capabilities.tags ∨
      ∃ m, worker.capabilities.mobile = some m ∧ m.thermalThrottled = true) →
    view.requirements.cpuCores ≤ 1 ∧ view.heavy = false
  lowBattery : ("low_battery" ∈ worker.capabilities.tags ∨
      ∃ m pct, worker.capabilities.mobile = some m ∧ m.batteryPct = some pct ∧
        pct < config.mobileMinBatteryPct ∧ m.isCharging = some false) → view.heavy = false
  concurrency : mobileConcurrency worker ≠ some 0
  battery : ∀ m, worker.capabilities.mobile = some m →
    let tier := effectiveSchedulerBatteryTier worker m m.liveStatus
    tier ≠ .critical ∧ (tier = .subLow → view.requirements.cpuCores ≤ 1 ∧ view.heavy = false) ∧
      (tier = .low → view.heavy = false)
  thermal : ∀ m, worker.capabilities.mobile = some m →
    let tier := schedulerThermalTier m.liveStatus
    tier ≠ .critical ∧ (tier = .hot → view.requirements.cpuCores ≤ 1 ∧ view.heavy = false) ∧
      (tier = .warm → view.heavy = true → m.isCharging = some true)

theorem Placement.matches_iff {p : Placement} {worker : WorkerInfo} :
    placementAdmits p worker = true ↔ p.Met worker := by
  have hvalue : ∀ (pre wanted : String) (normalize : String → String),
      hasValue worker.capabilities.tags pre wanted normalize = true ↔
        ∃ tag ∈ worker.capabilities.tags, ∃ v, Text.stripPrefix pre tag = some v ∧ normalize v = wanted := by
    intro pre wanted normalize
    simp only [hasValue, List.any_eq_true, List.mem_filterMap, beq_iff_eq]
    constructor
    · rintro ⟨v, ⟨tag, htag, hv⟩, hwanted⟩
      exact ⟨tag, htag, v, hv, hwanted⟩
    · rintro ⟨tag, htag, v, hv, hwanted⟩
      exact ⟨v, ⟨tag, htag, hv⟩, hwanted⟩
  unfold placementAdmits Placement.matches
  simp only [Bool.and_eq_true, Option.all_eq_true, hvalue, Bool.or_eq_true, beq_iff_eq, List.all_eq_true,
    List.contains_iff_mem]
  constructor
  · rintro ⟨⟨⟨hos, harch⟩, hworker⟩, htags⟩
    exact ⟨hos, harch, hworker, htags⟩
  · rintro ⟨hos, harch, hworker, htags⟩
    exact ⟨⟨⟨hos, harch⟩, hworker⟩, htags⟩

theorem viewFits_iff {view : TaskView} {worker : WorkerInfo} :
    viewFits view worker = true ↔ view.requirements.cpuCores ≤ worker.capabilities.cpuCores ∧
      view.requirements.ramMb ≤ worker.capabilities.ramMb ∧ ∃ p, view.placement = .ok p ∧ p.Met worker := by
  have hstatic : staticallyFits view.requirements worker = true ↔
      view.requirements.cpuCores ≤ worker.capabilities.cpuCores ∧
        view.requirements.ramMb ≤ worker.capabilities.ramMb := by
    simp only [staticallyFits, Bool.and_eq_true, Bool.or_eq_true, beq_iff_eq, decide_eq_true_eq]
    omega
  unfold viewFits
  rw [Bool.and_eq_true, hstatic, and_assoc]
  cases view.placement with
  | error err => simp
  | ok p => simp [Placement.matches_iff]

theorem tiersAdmit_iff {worker : WorkerInfo} {m : MobileCapabilities} {view : TaskView}
    (hm : worker.capabilities.mobile = some m) :
    Engine.tiersAdmit worker m view = true ↔ mobileConcurrency worker ≠ some 0 ∧
      (effectiveSchedulerBatteryTier worker m m.liveStatus ≠ .critical ∧
        (effectiveSchedulerBatteryTier worker m m.liveStatus = .subLow →
          view.requirements.cpuCores ≤ 1 ∧ view.heavy = false) ∧
        (effectiveSchedulerBatteryTier worker m m.liveStatus = .low → view.heavy = false)) ∧
      (schedulerThermalTier m.liveStatus ≠ .critical ∧
        (schedulerThermalTier m.liveStatus = .hot → view.requirements.cpuCores ≤ 1 ∧ view.heavy = false) ∧
        (schedulerThermalTier m.liveStatus = .warm → view.heavy = true → m.isCharging = some true)) := by
  have hconc : mobileConcurrency worker = some (calculateEffectiveConcurrency worker.capabilities.cpuCores
      (effectiveSchedulerBatteryTier worker m m.liveStatus) (schedulerThermalTier m.liveStatus)) := by
    rw [mobileConcurrency, hm]
    rfl
  have hcharging : m.liveStatus.isCharging.getD false = true ↔ m.isCharging = some true := by
    show m.isCharging.getD false = true ↔ m.isCharging = some true
    cases m.isCharging with
    | none | some => simp
  rw [hconc]
  unfold Engine.tiersAdmit
  dsimp only
  generalize effectiveSchedulerBatteryTier worker m m.liveStatus = bat
  generalize schedulerThermalTier m.liveStatus = therm
  generalize m.liveStatus.isCharging.getD false = charging at hcharging ⊢
  rw [← hcharging]
  cases bat <;> cases therm <;> cases charging <;> cases view.heavy <;> simp

theorem environmentAdmits_iff {config : SchedulerConfig} {worker : WorkerInfo} {view : TaskView} :
    Engine.environmentAdmits config worker view = true ↔ Tolerates config worker view := by
  have hthrottled : (worker.capabilities.tags.any (· == "thermal_throttled") ||
      worker.capabilities.mobile.any (·.thermalThrottled)) = true ↔
      ("thermal_throttled" ∈ worker.capabilities.tags ∨
        ∃ m, worker.capabilities.mobile = some m ∧ m.thermalThrottled = true) := by
    simp [Option.any_eq_true]
  have hlow : (worker.capabilities.tags.any (· == "low_battery") || worker.capabilities.mobile.any fun m =>
      (m.batteryPct.any fun pct => decide (pct < config.mobileMinBatteryPct)) && m.isCharging == some false) = true ↔
      ("low_battery" ∈ worker.capabilities.tags ∨
        ∃ m pct, worker.capabilities.mobile = some m ∧ m.batteryPct = some pct ∧
          pct < config.mobileMinBatteryPct ∧ m.isCharging = some false) := by
    simp only [Bool.or_eq_true, List.any_eq_true, beq_iff_eq, exists_eq_right, Option.any_eq_true,
      Bool.and_eq_true, decide_eq_true_eq]
    refine or_congr_right ⟨?_, ?_⟩
    · rintro ⟨m, hm, ⟨pct, hpct, hlt⟩, hcharging⟩
      exact ⟨m, pct, hm, hpct, hlt, hcharging⟩
    · rintro ⟨m, pct, hm, hpct, hlt, hcharging⟩
      exact ⟨m, hm, ⟨pct, hpct, hlt⟩, hcharging⟩
  have hgate : ∀ (b demanding : Bool), (!(b && demanding)) = true ↔ (b = true → demanding = false) := by
    intro b demanding
    cases b <;> cases demanding <;> simp
  have hdemand : (decide (view.requirements.cpuCores > 1) || view.heavy) = false ↔
      view.requirements.cpuCores ≤ 1 ∧ view.heavy = false := by
    simp
  unfold Engine.environmentAdmits
  rw [Bool.and_eq_true, Bool.and_eq_true, hgate, hgate, hthrottled, hlow, hdemand, Option.all_eq_true]
  constructor
  · rintro ⟨⟨hheat, hbattery⟩, htiers⟩
    refine ⟨hheat, hbattery, ?_, fun m hm => ((tiersAdmit_iff hm).mp (htiers m hm)).2.1,
      fun m hm => ((tiersAdmit_iff hm).mp (htiers m hm)).2.2⟩
    cases hm : worker.capabilities.mobile with
    | none =>
      rw [mobileConcurrency, hm]
      exact (Option.some_ne_none _).symm
    | some m => exact ((tiersAdmit_iff hm).mp (htiers m hm)).1
  · intro h
    exact ⟨⟨h.throttled, h.lowBattery⟩, fun m hm =>
      (tiersAdmit_iff hm).mpr ⟨h.concurrency, h.battery m hm, h.thermal m hm⟩⟩

namespace Engine

variable {n : Nat}

/-- The worker of a seat. -/
def workerAt (e : Engine n) (i : Fin n) : WorkerInfo := (e.seats i).worker

/-- Everything that stages 1 to 5 ask of seat `i`, the avoid list apart. -/
structure Passes (e : Engine n) (view : TaskView) (i : Fin n) : Prop where
  free : e.reserved i = false
  connected : (e.workerAt i).status ≠ .disconnected
  cpu : view.requirements.cpuCores ≤ (e.workerAt i).capabilities.cpuCores
  ram : view.requirements.ramMb ≤ (e.workerAt i).capabilities.ramMb
  placement : ∃ p, view.placement = .ok p ∧ p.Met (e.workerAt i)
  hostCpu : Host.gtF32 (e.workerAt i).cpuUsagePct e.config.maxHostCpuPct = false
  gpu : view.requiresGpu = true → (e.workerAt i).capabilities.canExecuteGpu = true
  features : (e.workerAt i).features.contains view.requiredFeatures = true
  freeRam : 0 < view.requirements.ramMb → (e.workerAt i).ramAvailableMb = 0 ∨
    view.requirements.ramMb ≤ (e.workerAt i).ramAvailableMb -
      ((e.seats i).base.unstartedRamMb + (e.seats i).placed.unstartedRamMb)
  environment : Tolerates e.config (e.workerAt i) view
  permits : (e.seats i).load < (e.seats i).maxTasks
  slots : (e.seats i).usedSlots = 0 ∨ (e.seats i).usedSlots + weightOf view ≤ (e.seats i).maxSlots

omit [Host] in
theorem ramAdmits_iff {seat : Seat} {ramMb : Nat} :
    ramAdmits seat ramMb = true ↔ (0 < ramMb → seat.worker.ramAvailableMb = 0 ∨
      ramMb ≤ seat.worker.ramAvailableMb - (seat.base.unstartedRamMb + seat.placed.unstartedRamMb)) := by
  simp only [ramAdmits, Bool.not_eq_true', Bool.and_eq_false_iff, decide_eq_false_iff_not]
  omega

omit [Host] in
theorem not_saturated_iff {s : Seat} {weight : Nat} :
    s.saturated weight = false ↔ s.load < s.maxTasks ∧ (s.usedSlots = 0 ∨ s.usedSlots + weight ≤ s.maxSlots) := by
  simp only [Seat.saturated, Bool.or_eq_false_iff, Bool.and_eq_false_iff, decide_eq_false_iff_not]
  omega

/-- The stages ask what `Passes` says, and that the worker is not avoided. -/
theorem passes_iff {e : Engine n} {view : TaskView} {avoided : List Uuid} {i : Fin n} :
    (e.admits view avoided i = true ∧ (e.seats i).saturated (weightOf view) = false) ↔
      e.Passes view i ∧ (e.workerAt i).workerId ∉ avoided := by
  have hstatus : (!((e.seats i).worker.status == .disconnected ||
      avoided.contains (e.seats i).worker.workerId)) = true ↔
      (e.workerAt i).status ≠ .disconnected ∧ (e.workerAt i).workerId ∉ avoided := by
    simp [workerAt]
  have hgpu : (!(view.requiresGpu && !(e.seats i).worker.capabilities.canExecuteGpu)) = true ↔
      (view.requiresGpu = true → (e.workerAt i).capabilities.canExecuteGpu = true) := by
    unfold workerAt
    cases view.requiresGpu <;> simp
  unfold admits seatAdmits
  simp only [Bool.and_eq_true, hstatus, hgpu, viewFits_iff, ramAdmits_iff, environmentAdmits_iff,
    not_saturated_iff, Bool.not_eq_true']
  constructor
  · rintro ⟨⟨hfree, ⟨⟨⟨⟨⟨⟨hconn, hav⟩, hcpu, hram, hplace⟩, hhost⟩, hfreeRam⟩, hg⟩, hfeat⟩, henv⟩, hpermits, hslots⟩
    exact ⟨⟨hfree, hconn, hcpu, hram, hplace, hhost, hg, hfeat, hfreeRam, henv, hpermits, hslots⟩, hav⟩
  · rintro ⟨h, hav⟩
    exact ⟨⟨h.free, ⟨⟨⟨⟨⟨⟨h.connected, hav⟩, h.cpu, h.ram, h.placement⟩, h.hostCpu⟩, h.freeRam⟩, h.gpu⟩,
      h.features⟩, h.environment⟩, h.permits, h.slots⟩

/-! ## The preferences -/

/-- A task that needs no GPU leaves the GPU reservation of seat `i` free. -/
def Spares (e : Engine n) (view : TaskView) (i : Fin n) : Prop :=
  view.requiresGpu = false → (e.workerAt i).capabilities.canExecuteGpu = true →
    leavesReserve e.config (e.seats i) (weightOf view) = true

/-- Stage 6 applies: GPU work waits or is likely, and `view` is not of it. -/
def Preserving (e : Engine n) (view : TaskView) : Prop :=
  view.requiresGpu = false ∧ e.config.preserveGpuForGpuTasks = true ∧ (e.gpuWaiting = true ∨ e.gpuRecent = true)

section

variable {e : Engine n} {view : TaskView} {avoided : List Uuid} {found : List (Fin n)} {i j : Fin n}

section

omit [Host]

theorem preserving_iff : (!view.requiresGpu && e.config.preserveGpuForGpuTasks && (e.gpuWaiting || e.gpuRecent)) = true ↔
    e.Preserving view := by
  simp [Preserving, and_assoc]

/-- What stage 6 lets through: no GPU worker while a CPU-only one can take the task and GPU work waits, and
none without its reserve. -/
theorem preserveGpu_mem (hpres : e.Preserving view) (h : i ∈ e.preserveGpu view found)
    (hgpu : (e.workerAt i).capabilities.canExecuteGpu = true) :
    leavesReserve e.config (e.seats i) (weightOf view) = true ∧
      (e.gpuWaiting = true → ∀ j ∈ found, (e.workerAt j).capabilities.canExecuteGpu = true) := by
  unfold preserveGpu at h
  rw [if_pos (preserving_iff.mpr hpres)] at h
  split at h
  · -- only CPU-only workers are left
    have hcpu := (List.mem_filter.mp h).2
    simp only [Bool.not_eq_true'] at hcpu
    exact absurd (hcpu.symm.trans hgpu) Bool.false_ne_true
  next hmixed =>
  have hkept := (List.mem_filter.mp h).2
  simp only [Bool.or_eq_true, Bool.not_eq_true'] at hkept
  refine ⟨hkept.resolve_left fun hcpu => Bool.false_ne_true (hcpu.symm.trans hgpu), fun hwaiting j hj => ?_⟩
  by_contra hcpu
  refine hmixed ?_
  rw [hwaiting, Bool.true_and, List.any_eq_true]
  exact ⟨j, hj, by simpa [workerAt] using hcpu⟩

/-- A worker that spares the reservation keeps stage 6 from emptying the list. -/
theorem preserveGpu_ne_nil (hj : j ∈ found) (hspares : e.Spares view j) : e.preserveGpu view found ≠ [] := by
  unfold preserveGpu
  dsimp only
  split
  · next hpres =>
    have hneed : view.requiresGpu = false := (preserving_iff.mp hpres).1
    split
    · next hany =>
      simp only [Bool.and_eq_true, List.any_eq_true] at hany
      obtain ⟨-, k, hk, hcpu⟩ := hany
      exact List.ne_nil_of_mem (List.mem_filter.mpr ⟨hk, hcpu⟩)
    refine List.ne_nil_of_mem (List.mem_filter.mpr ⟨hj, ?_⟩)
    cases hgpu : (e.workerAt j).capabilities.canExecuteGpu with
    | false =>
      rw [workerAt] at hgpu
      rw [hgpu]
      rfl
    | true => rw [hspares hneed hgpu, Bool.or_true]
  · exact List.ne_nil_of_mem hj

theorem preferRealGpu_ne_nil (h : found ≠ []) : e.preferRealGpu view found ≠ [] := by
  unfold preferRealGpu
  split
  · next hany =>
    simp only [Bool.and_eq_true, List.any_eq_true] at hany
    obtain ⟨-, k, hk, hreal, -⟩ := hany
    exact List.ne_nil_of_mem (List.mem_filter.mpr ⟨hk, hreal⟩)
  · exact h

end

/-- A candidate passes the gates, is not avoided and respects the GPU reservation. -/
structure Candidate (e : Engine n) (view : TaskView) (avoided : List Uuid) (i : Fin n) : Prop where
  passes : e.Passes view i
  wanted : (e.workerAt i).workerId ∉ avoided
  preserves : e.Preserving view → (e.workerAt i).capabilities.canExecuteGpu = true →
    leavesReserve e.config (e.seats i) (weightOf view) = true ∧
      (e.gpuWaiting = true → ∀ j, (e.workerAt j).workerId ∉ avoided →
        (e.workerAt j).capabilities.canExecuteGpu = false → ¬ e.Passes view j)

theorem mem_found : i ∈ ((List.finRange n).filter (e.admits view avoided)).filter
      (fun idx => !(e.seats idx).saturated (weightOf view)) ↔
    e.Passes view i ∧ (e.workerAt i).workerId ∉ avoided := by
  rw [← passes_iff]
  simp only [List.mem_filter, List.mem_finRange, true_and, Bool.not_eq_true']

theorem candidate_of_mem (h : i ∈ (e.candidates view avoided).1) : e.Candidate view avoided i := by
  have hpreserved := mem_of_mem_preferRealGpu h
  obtain ⟨hpasses, hwanted⟩ := mem_found.mp (mem_of_mem_preserveGpu hpreserved)
  refine ⟨hpasses, hwanted, fun hpres hgpu => ?_⟩
  obtain ⟨hreserve, hall⟩ := preserveGpu_mem hpres hpreserved hgpu
  refine ⟨hreserve, fun hwaiting j hj hcpu hpass => ?_⟩
  have hgpuj := hall hwaiting j (mem_found.mpr ⟨hpass, hj⟩)
  exact Bool.false_ne_true (hcpu.symm.trans hgpuj)

theorem candidates_ne_nil (hpasses : e.Passes view j) (hwanted : (e.workerAt j).workerId ∉ avoided)
    (hspares : e.Spares view j) : (e.candidates view avoided).1 ≠ [] := by
  exact preferRealGpu_ne_nil (preserveGpu_ne_nil (mem_found.mpr ⟨hpasses, hwanted⟩) hspares)

/-- Where `place` looks: among the workers that are not avoided, or among all when none of those is left. -/
theorem candidate_of_seek (h : i ∈ (e.seek view).1) : e.Candidate view view.avoid i ∨
    (e.Candidate view [] i ∧ (e.candidates view view.avoid).1 = []) := by
  unfold seek at h
  dsimp only at h
  split at h
  · next hempty =>
    simp only [Bool.and_eq_true, List.isEmpty_iff] at hempty
    exact .inr ⟨candidate_of_mem h, hempty.1⟩
  · exact .inl (candidate_of_mem h)

theorem candidate_of_placed (h : (e.place view).1 = .placed i) : e.Candidate view view.avoid i ∨
    (e.Candidate view [] i ∧ (e.candidates view view.avoid).1 = []) := by
  unfold place at h
  split at h
  · cases h
  split at h
  · cases h
  dsimp only at h
  split at h
  · cases h
  split at h
  · cases h
  next first rest _ hseek =>
  cases h
  refine candidate_of_seek ?_
  rw [hseek]
  exact rank_mem e view first rest

theorem passes_of_seek (h : i ∈ (e.seek view).1) : e.Passes view i := by
  rcases candidate_of_seek h with hc | ⟨hc, -⟩
  · exact hc.passes
  · exact hc.passes

theorem passes_of_placed (h : (e.place view).1 = .placed i) : e.Passes view i := by
  rcases candidate_of_placed h with hc | ⟨hc, -⟩
  · exact hc.passes
  · exact hc.passes

end

/-! ## Passes -/

end Engine

/-- What happens to the engine during a pass: a task to place, or GPU work that was seen. -/
inductive EngineCall where
  | place (view : TaskView)
  | demand (waiting recent : Bool)

namespace Engine

variable {n : Nat}

def call (e : Engine n) : EngineCall → Engine n
  | .place view => (e.place view).2
  | .demand waiting recent =>
    { e with gpuWaiting := e.gpuWaiting || waiting, gpuRecent := e.gpuRecent || recent }

def calls (e : Engine n) (cs : List EngineCall) : Engine n := cs.foldl call e

/-- The engine a pass starts with. -/
def started (config : SchedulerConfig) (workers : List WorkerInfo) (loads : Option (Uuid → Option AssignedLoad))
    (gpuWaiting gpuRecent : Bool) (cursor : Nat) : Engine workers.length :=
  { new config workers loads gpuWaiting gpuRecent with rrCursor := cursor }

/-- The tasks that the calls place on seat `i`. -/
def placedOn (i : Fin n) : Engine n → List EngineCall → List TaskView
  | _, [] => []
  | e, .place view :: rest =>
    (if (e.place view).1 = .placed i then [view] else []) ++ placedOn i (e.call (.place view)) rest
  | e, .demand waiting recent :: rest => placedOn i (e.call (.demand waiting recent)) rest

end Engine

/-- The load of a list of tasks that were handed over and have not started. -/
def loadOfViews (views : List TaskView) : AssignedLoad where
  tasks := views.length
  slots := (views.map Engine.weightOf).sum
  unstartedRamMb := (views.map fun v => v.requirements.ramMb).sum

/-- One load on top of another. -/
def AssignedLoad.plus (a b : AssignedLoad) : AssignedLoad :=
  ⟨a.tasks + b.tasks, a.slots + b.slots, a.unstartedRamMb + b.unstartedRamMb⟩

/-- A seat on which a load was placed. -/
def Seat.loaded (s : Seat) (l : AssignedLoad) : Seat := { s with placed := s.placed.plus l }

namespace Engine

variable {n : Nat}

/-- What a call leaves as it was, and what it adds to a seat. -/
theorem place_seat (e : Engine n) (view : TaskView) (i : Fin n) : (e.place view).2.seats i =
      (e.seats i).loaded (loadOfViews (if (e.place view).1 = .placed i then [view] else [])) := by
  have hnone : ∀ s : Seat, s = s.loaded (loadOfViews []) := fun _ => rfl
  rcases place_cases e view with ⟨idx, cursor, -, hp⟩ | ⟨hnot, hseats⟩
  · rw [hp]
    show Function.update e.seats idx ((e.seats idx).take (weightOf view) view.requirements.ramMb) i = _
    by_cases hi : i = idx
    · subst hi
      rw [Function.update_self, if_pos rfl]
      simp [Seat.take, Seat.loaded, AssignedLoad.plus, loadOfViews]
    · rw [Function.update_of_ne hi, if_neg fun h => hi (Verdict.placed.inj h).symm]
      exact hnone _
  · rw [hseats, if_neg (hnot i)]
    exact hnone _

theorem place_config (e : Engine n) (view : TaskView) : (e.place view).2.config = e.config := by
  unfold place
  split
  · rfl
  split
  · rfl
  dsimp only
  split
  · rfl
  split
  · unfold holdBack
    split <;> rfl
  · rfl

theorem calls_config (cs : List EngineCall) : ∀ e : Engine n, (e.calls cs).config = e.config := by
  induction cs with
  | nil => exact fun _ => rfl
  | cons c rest ih =>
    intro e
    refine (ih (e.call c)).trans ?_
    cases c with
    | place view => exact place_config e view
    | demand waiting recent => rfl

omit [Host] in
theorem loadOfViews_append (l l' : List TaskView) : loadOfViews (l ++ l') = (loadOfViews l).plus (loadOfViews l') := by
  simp [loadOfViews, AssignedLoad.plus]

omit [Host] in
theorem loaded_loaded (s : Seat) (l l' : AssignedLoad) : (s.loaded l).loaded l' = s.loaded (l.plus l') := by
  simp [Seat.loaded, AssignedLoad.plus, Nat.add_assoc]

/-- A pass only adds to a seat what it places there. -/
theorem calls_seat (cs : List EngineCall) (i : Fin n) : ∀ e : Engine n,
    (e.calls cs).seats i = (e.seats i).loaded (loadOfViews (placedOn i e cs)) := by
  induction cs with
  | nil => exact fun _ => rfl
  | cons c rest ih =>
    intro e
    refine (ih (e.call c)).trans ?_
    cases c with
    | place view => rw [placedOn, loadOfViews_append, call, place_seat, loaded_loaded]
    | demand waiting recent => rfl

/-- **Placement soundness.**  In every sequence of calls of a pass, a task is placed on a seat only if, in the
state before the call, the seat passes every gate, where the load the gates see is what the books said at the
start plus exactly what this pass placed there.  A worker that the task avoids gets it only if no other seat
passes the gates and spares the GPU reservation.  While GPU work waits, a task that needs no GPU lands on a
GPU worker only if no CPU-only worker it may go to passes the gates, and while GPU work waits or is likely
only if it leaves the reservation free. -/
theorem placement_sound (config : SchedulerConfig) (workers : List WorkerInfo)
    (loads : Option (Uuid → Option AssignedLoad)) (gpuWaiting gpuRecent : Bool) (cursor : Nat)
    (cs : List EngineCall) (view : TaskView) (i : Fin workers.length)
    (h : (((started config workers loads gpuWaiting gpuRecent cursor).calls cs).place view).1 = .placed i) :
    let e0 := started config workers loads gpuWaiting gpuRecent cursor
    let e := e0.calls cs
    e.Passes view i ∧
    (e.config = config ∧
      ∀ j, e.seats j = (Seat.of config loads (workers.get j)).loaded (loadOfViews (placedOn j e0 cs))) ∧
    ((e.workerAt i).workerId ∈ view.avoid →
      ∀ j, (e.workerAt j).workerId ∉ view.avoid → e.Passes view j → ¬ e.Spares view j) ∧
    (e.Preserving view → (e.workerAt i).capabilities.canExecuteGpu = true →
      leavesReserve config (e.seats i) (weightOf view) = true ∧
      (e.gpuWaiting = true → ∀ j, (e.workerAt j).capabilities.canExecuteGpu = false →
        ((e.workerAt j).workerId ∈ view.avoid → (e.workerAt i).workerId ∈ view.avoid) →
          ¬ e.Passes view j)) := by
  intro e0 e
  have hconfig : e.config = config := calls_config cs e0
  refine ⟨?_, ⟨hconfig, fun j => calls_seat cs j e0⟩, ?_, ?_⟩
  · exact passes_of_placed h
  · intro havoided j hj hpasses hspares
    rcases candidate_of_placed h with hc | ⟨-, hempty⟩
    · exact hc.wanted havoided
    · exact candidates_ne_nil hpasses hj hspares hempty
  intro hpres hgpu
  rw [← hconfig]
  rcases candidate_of_placed h with hc | ⟨hc, -⟩
  · obtain ⟨hreserve, hall⟩ := hc.preserves hpres hgpu
    exact ⟨hreserve, fun hwaiting j hcpu hav => hall hwaiting j (fun hj => hc.wanted (hav hj)) hcpu⟩
  · obtain ⟨hreserve, hall⟩ := hc.preserves hpres hgpu
    exact ⟨hreserve, fun hwaiting j hcpu _ => hall hwaiting j List.not_mem_nil hcpu⟩

end Engine

end

section Concrete

open Engine

attribute [local instance] Host.blank

/-- An idle worker with four cores. -/
def idleWorker (id : Uuid) : WorkerInfo where
  workerId := id
  sessionId := 1
  capabilities := WorkerCapabilities.plain 4
  status := .connected
  activeTasks := 0
  cpuUsagePct := ⟨0⟩
  ramAvailableMb := 512
  features := .empty

/-- Task 2, which avoids worker 8. -/
def avoidingTask : TaskView := { TaskView.of (Task.echo 2) with avoid := [8] }

/-- Task 1 is placed on the first of two workers with one slot each, and GPU work is seen. -/
def crowdedCalls : List EngineCall := [.place (TaskView.of (Task.echo 1)), .demand true true]

/-- Task 2 goes to the worker it avoids, since the other one is full. -/
theorem placement_sound_avoided :
    (((started SchedulerConfig.default [idleWorker 7, idleWorker 8] none false false 0).calls crowdedCalls).place
      avoidingTask).1 = .placed 1 ∧
    ¬ ((started SchedulerConfig.default [idleWorker 7, idleWorker 8] none false false 0).calls crowdedCalls).Passes
      avoidingTask 0 := by
  have hplaced : (((started SchedulerConfig.default [idleWorker 7, idleWorker 8] none false false 0).calls
      crowdedCalls).place avoidingTask).1 = .placed 1 := by decide
  obtain ⟨-, -, havoid, -⟩ := placement_sound SchedulerConfig.default [idleWorker 7, idleWorker 8] none
    false false 0 crowdedCalls avoidingTask 1 hplaced
  refine ⟨hplaced, fun hother => havoid (by decide) 0 (by decide) hother fun _ hgpu => ?_⟩
  exact absurd hgpu (by decide)

end Concrete

end OxideSwarm
