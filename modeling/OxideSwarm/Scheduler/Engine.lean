import OxideSwarm.Registry.Ops

/-!
# The placement engine of a scheduling pass (`master/src/scheduler.rs`)

`Engine n` feeds on task views in queue order and picks one of `n` workers for each.  The seats are
indexed by `Fin n`, so an index the engine hands out always names a seat.  The body of
`Engine::candidates` is cut into its stages: `admits` (stages 1 to 4), `saturated` (stage 5),
`preserveGpu` (stage 6) and `preferRealGpu` (stage 7).
-/

namespace OxideSwarm

variable [Host]

inductive SchedulingPolicy where
  | leastLoaded
  | weightedLeastLoaded
  | roundRobin
deriving DecidableEq, Repr

structure SchedulerConfig where
  policy : SchedulingPolicy
  coreConcurrencyMultiplier : F64
  maxTasksPerWorker : Option Nat
  preserveGpuForGpuTasks : Bool
  gpuReservedSlots : Nat
  gpuDemandWindow : Nat
  failUnfulfillableTasks : Bool
  mobileMinBatteryPct : Nat
  maxHostCpuPct : F32
  maxScanPerPass : Nat
deriving DecidableEq, Repr

namespace SchedulerConfig

/-- `limit.min(cap)` when a cap is configured. -/
def capped (config : SchedulerConfig) (limit : Nat) : Nat :=
  match config.maxTasksPerWorker with
  | some cap => min limit cap
  | none => limit

/-- `effective_max_concurrency`: the core-slot budget of a worker. -/
def effectiveMaxConcurrency (config : SchedulerConfig) (worker : WorkerInfo) : Nat :=
  let cores := max worker.capabilities.cpuCores 1
  let byMultiplier := Host.f64ToNat
    (Host.ceil (Host.mul (Host.natToF64 cores) config.coreConcurrencyMultiplier))
  config.capped (max byMultiplier 1)

/-- `effective_max_tasks`: the task limit of a worker, from its `slots:<n>` tag if it has one. -/
def effectiveMaxTasks (config : SchedulerConfig) (worker : WorkerInfo) : Nat :=
  config.capped <|
    match advertisedSlots worker.capabilities.tags with
    | some slots => slots
    | none => config.effectiveMaxConcurrency worker

/-- The defaults that a concrete run without floats needs; `1.0` and `85.0` as bits. -/
def default : SchedulerConfig where
  policy := .weightedLeastLoaded
  coreConcurrencyMultiplier := ⟨0x3FF0000000000000⟩
  maxTasksPerWorker := none
  preserveGpuForGpuTasks := true
  gpuReservedSlots := 1
  gpuDemandWindow := seconds 30
  failUnfulfillableTasks := false
  mobileMinBatteryPct := 15
  maxHostCpuPct := ⟨0x42AA0000⟩
  maxScanPerPass := 20000

end SchedulerConfig

inductive ScheduleSkipReason where
  | noEligibleWorkers
  | noGpuWorkersAvailable
  | allEligibleWorkersSaturated
  | clusterLacksCapability (text : String)
deriving DecidableEq, Repr

/-- Everything about a task that decides whether a worker may take it. -/
structure Shape where
  requiresGpu : Bool
  heavy : Bool
  requiredFeatures : ProtocolCapabilities
  cpuCores : Nat
  ramMb : Nat
  placement : Placement
deriving DecidableEq, Repr

def Shape.of (view : TaskView) (placement : Placement) : Shape where
  requiresGpu := view.requiresGpu
  heavy := view.heavy
  requiredFeatures := view.requiredFeatures
  cpuCores := view.requirements.cpuCores
  ramMb := view.requirements.ramMb
  placement := placement

def featureNames (features : ProtocolCapabilities) : String :=
  Text.join " and "
    ((if features.contains .fileStaging then ["FILE_STAGING"] else []) ++
      (if features.contains .blobTransfer then ["BLOB_TRANSFER"] else []))

def staticallyFits (requirements : TaskRequirements) (worker : WorkerInfo) : Bool :=
  (requirements.cpuCores == 0 || decide (worker.capabilities.cpuCores ≥ requirements.cpuCores)) &&
    (requirements.ramMb == 0 || decide (worker.capabilities.ramMb ≥ requirements.ramMb))

def placementAdmits (placement : Placement) (worker : WorkerInfo) : Bool :=
  placement.matches worker.workerId worker.capabilities.name worker.capabilities.tags

/-- `view_fits`: a view whose constraints cannot be read fits nowhere. -/
def viewFits (view : TaskView) (worker : WorkerInfo) : Bool :=
  staticallyFits view.requirements worker &&
    match view.placement with
    | .ok placement => placementAdmits placement worker
    | .error _ => false

/-- One worker as the engine tracks it during a pass. -/
structure Seat where
  worker : WorkerInfo
  maxSlots : Nat
  maxTasks : Nat
  base : AssignedLoad
  placed : AssignedLoad

namespace Seat

def usedSlots (s : Seat) : Nat := s.base.slots + s.placed.slots

def load (s : Seat) : Nat := s.base.tasks + s.placed.tasks

def remainingSlots (s : Seat) : Nat := if s.load ≥ s.maxTasks then 0 else s.maxSlots - s.usedSlots

/-- Stage 5 of `candidates`: no free task permit, or busy and not enough core slots. -/
def saturated (s : Seat) (weight : Nat) : Bool :=
  decide (s.load ≥ s.maxTasks) || (decide (s.usedSlots > 0) && decide (s.usedSlots + weight > s.maxSlots))

/-- The seat after one more task of `weight` slots was placed on it. -/
def take (s : Seat) (weight ramMb : Nat) : Seat :=
  { s with placed :=
      { tasks := s.placed.tasks + 1
        slots := s.placed.slots + weight
        unstartedRamMb := s.placed.unstartedRamMb + ramMb } }

/-- `has_gpu && !is_simulated_gpu`. -/
def isRealGpu (s : Seat) : Bool := s.worker.capabilities.hasGpu && !s.worker.capabilities.isSimulatedGpu

end Seat

def effectiveSchedulerBatteryTier (worker : WorkerInfo) (mobile : MobileCapabilities)
    (live : MobileLiveStatus) : BatteryTier :=
  let raw := live.batteryTier.getD (MobileLiveStatus.computeBatteryTier live.batteryPct live.isCharging)
  if raw = .critical then .critical
  else
    let os := Text.toAsciiLowercase mobile.osVersion
    let tags := worker.capabilities.tags
    let isMobileOs := Text.contains "android" os || Text.contains "ios" os ||
      tags.any fun t => t == "os:android" || t == "os:ios"
    let isLaptopOs := !isMobileOs &&
      (Text.startsWith "macos" os || Text.startsWith "linux" os || Text.startsWith "windows" os ||
        tags.any fun t => t == "os:macos" || t == "os:windows" || t == "os:linux")
    if isLaptopOs then .normal else raw

/-- The thermal tier both `Engine::new` and `candidates` compute. -/
def schedulerThermalTier (live : MobileLiveStatus) : ThermalTier :=
  live.thermalTier.getD (MobileLiveStatus.computeThermalTier live.batteryTemperature live.thermalThrottled)

/-- What battery and heat leave of a worker's cores, for a worker with mobile readings. -/
def mobileConcurrency (worker : WorkerInfo) : Option Nat :=
  worker.capabilities.mobile.map fun mobile =>
    let live := mobile.liveStatus
    calculateEffectiveConcurrency worker.capabilities.cpuCores
      (effectiveSchedulerBatteryTier worker mobile live) (schedulerThermalTier live)

/-- The seat `Engine::new` gives a worker.  `loads` is the master's own accounting; without it the
worker's `active_tasks` is its load. -/
def Seat.of (config : SchedulerConfig) (loads : Option (Uuid → Option AssignedLoad))
    (worker : WorkerInfo) : Seat where
  worker := worker
  maxSlots := (mobileConcurrency worker).elim (config.effectiveMaxConcurrency worker)
    (min (config.effectiveMaxConcurrency worker))
  maxTasks := (mobileConcurrency worker).elim (config.effectiveMaxTasks worker)
    (min (config.effectiveMaxTasks worker))
  base := match loads with
    | some loads => (loads worker.workerId).getD {}
    | none => { tasks := worker.activeTasks, slots := worker.activeTasks, unstartedRamMb := 0 }
  placed := {}

inductive Verdict (n : Nat) where
  | placed (idx : Fin n)
  | skip (reason : ScheduleSkipReason)
  | unfulfillable (reason : String)
deriving DecidableEq, Repr

structure Engine (n : Nat) where
  config : SchedulerConfig
  seats : Fin n → Seat
  rrCursor : Nat
  gpuWaiting : Bool
  gpuRecent : Bool
  anyGpuWorker : Bool
  dead : Finset Shape
  freeSlots : Nat
  reserved : Fin n → Bool

namespace Engine

def new (config : SchedulerConfig) (workers : List WorkerInfo)
    (loads : Option (Uuid → Option AssignedLoad)) (gpuWaiting gpuRecent : Bool) :
    Engine workers.length :=
  let seats : Fin workers.length → Seat := fun i => Seat.of config loads (workers.get i)
  { config := config
    seats := seats
    rrCursor := 0
    gpuWaiting := gpuWaiting
    gpuRecent := gpuRecent || gpuWaiting
    anyGpuWorker := workers.any fun w => w.capabilities.canExecuteGpu
    dead := ∅
    freeSlots := (((List.finRange workers.length).filter fun i =>
      decide ((seats i).worker.status ≠ .disconnected)).map fun i => (seats i).remainingSlots).sum
    reserved := fun _ => false }

section

variable {n : Nat}

/-! ## Candidates -/

/-- Stage 4 for a worker with mobile readings: battery and thermal tiers against the task. -/
def tiersAdmit (worker : WorkerInfo) (mobile : MobileCapabilities) (view : TaskView) : Bool :=
  let live := mobile.liveStatus
  let bat := effectiveSchedulerBatteryTier worker mobile live
  let therm := schedulerThermalTier live
  let demanding := decide (view.requirements.cpuCores > 1) || view.heavy
  calculateEffectiveConcurrency worker.capabilities.cpuCores bat therm != 0 &&
  (match bat with
    | .critical => false
    | .subLow => !demanding
    | .low => !view.heavy
    | .normal => true) &&
  match therm with
    | .critical => false
    | .hot => !demanding
    | .warm => !(view.heavy && !live.isCharging.getD false)
    | .normal => true

/-- Stage 4: thermal throttling and battery, from tags and telemetry. -/
def environmentAdmits (config : SchedulerConfig) (worker : WorkerInfo) (view : TaskView) : Bool :=
  let tags := worker.capabilities.tags
  let mobile := worker.capabilities.mobile
  let isThermalThrottled := tags.any (· == "thermal_throttled") || mobile.any (·.thermalThrottled)
  let isLowBattery := tags.any (· == "low_battery") || mobile.any fun m =>
    (m.batteryPct.any fun pct => decide (pct < config.mobileMinBatteryPct)) && m.isCharging == some false
  !(isThermalThrottled && (decide (view.requirements.cpuCores > 1) || view.heavy)) &&
  !(isLowBattery && view.heavy) &&
  mobile.all fun m => tiersAdmit worker m view

/-- The free-RAM check: what the worker reported free, minus what was handed to it unstarted. -/
def ramAdmits (seat : Seat) (ramMb : Nat) : Bool :=
  !(decide (ramMb > 0) && decide (seat.worker.ramAvailableMb > 0) &&
    decide (seat.worker.ramAvailableMb -
      (seat.base.unstartedRamMb + seat.placed.unstartedRamMb) < ramMb))

/-- Stages 1 to 4 of `candidates` for one seat that is not held back. -/
def seatAdmits (config : SchedulerConfig) (seat : Seat) (view : TaskView) (avoided : List Uuid) : Bool :=
  let worker := seat.worker
  !(worker.status == .disconnected || avoided.contains worker.workerId) &&
  viewFits view worker &&
  !Host.gtF32 worker.cpuUsagePct config.maxHostCpuPct &&
  ramAdmits seat view.requirements.ramMb &&
  !(view.requiresGpu && !worker.capabilities.canExecuteGpu) &&
  worker.features.contains view.requiredFeatures &&
  environmentAdmits config worker view

/-- The core slots a task occupies. -/
def weightOf (view : TaskView) : Nat := max view.requirements.cpuCores 1

def admits (e : Engine n) (view : TaskView) (avoided : List Uuid) (idx : Fin n) : Bool :=
  !e.reserved idx && seatAdmits e.config (e.seats idx) view avoided

/-- Stage 6: what a generic task must leave free on a GPU worker. -/
def leavesReserve (config : SchedulerConfig) (seat : Seat) (weight : Nat) : Bool :=
  let reserve := min (min config.gpuReservedSlots (seat.maxSlots - 1)) (seat.maxTasks - 1)
  decide (seat.maxSlots - (seat.usedSlots + weight) ≥ reserve) &&
    decide (seat.maxTasks - (seat.load + 1) ≥ reserve)

/-- Stage 6: GPU preservation. -/
def preserveGpu (e : Engine n) (view : TaskView) (found : List (Fin n)) : List (Fin n) :=
  let isGpu (idx : Fin n) : Bool := (e.seats idx).worker.capabilities.canExecuteGpu
  if !view.requiresGpu && e.config.preserveGpuForGpuTasks && (e.gpuWaiting || e.gpuRecent) then
    if e.gpuWaiting && found.any (fun idx => !isGpu idx) then found.filter fun idx => !isGpu idx
    else found.filter fun idx => !isGpu idx || leavesReserve e.config (e.seats idx) (weightOf view)
  else found

/-- Stage 7: an idle hardware GPU keeps GPU tasks off the simulated ones. -/
def preferRealGpu (e : Engine n) (view : TaskView) (found : List (Fin n)) : List (Fin n) :=
  if view.requiresGpu &&
      found.any (fun idx => (e.seats idx).isRealGpu && (e.seats idx).usedSlots == 0) then
    found.filter fun idx => (e.seats idx).isRealGpu
  else found

/-- `candidates`: the workers that may run `view`, and those that only lack free slots (`full`). -/
def candidates (e : Engine n) (view : TaskView) (avoided : List Uuid) : List (Fin n) × List (Fin n) :=
  let admitted := (List.finRange n).filter (e.admits view avoided)
  let full := admitted.filter fun idx => (e.seats idx).saturated (weightOf view)
  let found := admitted.filter fun idx => !(e.seats idx).saturated (weightOf view)
  (e.preferRealGpu view (e.preserveGpu view found), full)

/-! ## Ranking -/

/-- The GPU preference of `rank`. -/
def gpuPref (e : Engine n) (view : TaskView) (a b : Seat) : Ordering :=
  if e.config.preserveGpuForGpuTasks && !view.requiresGpu then
    compare a.worker.capabilities.canExecuteGpu b.worker.capabilities.canExecuteGpu
  else if view.requiresGpu then compare b.isRealGpu a.isRealGpu
  else .eq

/-- `(load / cores) + 0.5 * (cpu_usage_pct / 100)`, in `f64`. -/
def ratio (s : Seat) : F64 :=
  Host.add (Host.div (Host.natToF64 s.load) (Host.natToF64 (max s.worker.capabilities.cpuCores 1)))
    (Host.mul ⟨0x3FE0000000000000⟩
      (Host.div (Host.f32ToF64 (Host.maxF32 s.worker.cpuUsagePct ⟨0⟩)) ⟨0x4059000000000000⟩))

/-- The tie-breaks both sorting policies share after their first key. -/
def tieBreak (e : Engine n) (view : TaskView) (a b : Seat) : Ordering :=
  (e.gpuPref view a b).then
    ((compare b.worker.capabilities.cpuCores a.worker.capabilities.cpuCores).then
      (compare a.worker.workerId.toNat b.worker.workerId.toNat))

/-- The comparison of the two sorting policies. -/
def rankCmp (e : Engine n) (view : TaskView) (a b : Fin n) : Ordering :=
  let first := match e.config.policy with
    | .leastLoaded => compare (e.seats a).load (e.seats b).load
    | _ => (Host.partialCmp (ratio (e.seats a)) (ratio (e.seats b))).getD .eq
  first.then (e.tieBreak view (e.seats a) (e.seats b))

/-- `rank` on the non-empty candidates `first :: rest`: the choice and the new cursor. -/
def rank (e : Engine n) (view : TaskView) (first : Fin n) (rest : List (Fin n)) : Fin n × Nat :=
  let candidates := first :: rest
  match e.config.policy with
  | .roundRobin =>
    let real := candidates.filter fun c => (e.seats c).isRealGpu
    let pool := if view.requiresGpu && !real.isEmpty then real else candidates
    (pool.getD (e.rrCursor % pool.length) first, (e.rrCursor + 1) % 2 ^ 64)
  | _ =>
    ((candidates.insertionSort fun a b => (e.rankCmp view a b).isLE).headD first, e.rrCursor)

/-! ## Placing one task -/

/-- The slots that must free up on a seat before it can take a task of `weight`. -/
def slotsToFree (s : Seat) (weight : Nat) : Nat :=
  if weight > s.maxSlots then s.usedSlots else s.usedSlots + weight - s.maxSlots

/-- The first seat of `full` with the fewest slots to free (`min_by_key`, ties by index). -/
def closest (e : Engine n) (weight : Nat) (full : List (Fin n)) : Option (Fin n) :=
  let key (i : Fin n) : Nat := slotsToFree (e.seats i) weight
  full.foldl
    (fun best i =>
      match best with
      | none => some i
      | some b => if key i < key b ∨ (key i = key b ∧ i < b) then some i else some b) none

def holdBack (e : Engine n) (full : List (Fin n)) (weight : Nat) : Engine n :=
  match e.closest weight full with
  | none => e
  | some idx =>
    { e with
      reserved := Function.update e.reserved idx true
      freeSlots := e.freeSlots - (e.seats idx).remainingSlots }

def nobodyHasFeatures (e : Engine n) (view : TaskView) : Bool :=
  view.requiredFeatures != .empty &&
    !(List.finRange n).any fun i => (e.seats i).worker.features.contains view.requiredFeatures

def nobodyMatches (e : Engine n) (placement : Placement) : Bool :=
  !placement.isEmpty && !(List.finRange n).any fun i => placementAdmits placement (e.seats i).worker

/-- The early exits of `place` under `fail_unfulfillable_tasks`. -/
def unfulfillable (e : Engine n) (view : TaskView) (placement : Placement) : Option String :=
  if !e.config.failUnfulfillableTasks then none
  else if view.requiresGpu && !e.anyGpuWorker then some "Cluster lacks workers with GPU capabilities"
  else if e.nobodyHasFeatures view then
    some ("Cluster lacks workers with " ++ featureNames view.requiredFeatures ++ " capability")
  else if e.nobodyMatches placement then
    some ("No registered worker matches the placement constraints (" ++ placement.display ++ ")")
  else none

def skipReason (e : Engine n) (view : TaskView) (placement : Placement) : ScheduleSkipReason :=
  if view.requiresGpu then .noGpuWorkersAvailable
  else if e.nobodyHasFeatures view then
    .clusterLacksCapability
      ("cluster lacks workers with " ++ featureNames view.requiredFeatures ++ " capability")
  else if e.nobodyMatches placement then
    .clusterLacksCapability
      ("no worker matches the placement constraints (" ++ placement.display ++ ")")
  else .allEligibleWorkersSaturated

/-- The candidates, and with none left those on the avoid list too. -/
def seek (e : Engine n) (view : TaskView) : List (Fin n) × List (Fin n) :=
  let preferred := e.candidates view view.avoid
  if preferred.1.isEmpty && !view.avoid.isEmpty then e.candidates view [] else preferred

/-- The engine after `view` was given to the seat `idx`. -/
def occupy (e : Engine n) (view : TaskView) (idx : Fin n) (cursor : Nat) : Engine n :=
  let seat := e.seats idx
  let seat' := seat.take (weightOf view) view.requirements.ramMb
  { e with
    seats := Function.update e.seats idx seat'
    rrCursor := cursor
    freeSlots := e.freeSlots - (seat.remainingSlots - seat'.remainingSlots) }

def place (e : Engine n) (view : TaskView) : Verdict n × Engine n :=
  match view.placement with
  | .error err => (.unfulfillable ("Invalid placement constraints: " ++ err), e)
  | .ok placement =>
    match e.unfulfillable view placement with
    | some reason => (.unfulfillable reason, e)
    | none =>
      let shape := Shape.of view placement
      if shape ∈ e.dead then (.skip (e.skipReason view placement), e)
      else
        match e.seek view with
        | ([], full) =>
          let held := e.holdBack full (weightOf view)
          (.skip (e.skipReason view placement), { held with dead := insert shape held.dead })
        | (first :: rest, _) =>
          let (chosen, cursor) := e.rank view first rest
          (.placed chosen, e.occupy view chosen cursor)

/-- The engine after `place` was called on each view in turn. -/
def placeAll (e : Engine n) : List TaskView → Engine n
  | [] => e
  | view :: rest => placeAll (e.place view).2 rest

end

end Engine

end OxideSwarm
