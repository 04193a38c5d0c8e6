import OxideSwarm.Core.Placement

/-!
# Worker capabilities and mobile telemetry (`core/src/capabilities.rs`)

What the registry stores about a worker's hardware and what the scheduler reads from it: the
battery and thermal tiers, the concurrency they leave, and whether the worker can run GPU work.
-/

namespace OxideSwarm

variable [Host]

inductive BatteryTier where
  | normal
  | low
  | subLow
  | critical
deriving DecidableEq, Repr

inductive ThermalTier where
  | normal
  | warm
  | hot
  | critical
deriving DecidableEq, Repr

/-- `Duration::from_secs`, in nanoseconds. -/
def seconds (n : Nat) : Nat := n * 1000000000

/-- The fast-changing part of a worker's mobile readings. -/
structure MobileLiveStatus where
  batteryPct : Option Nat
  isCharging : Option Bool
  thermalThrottled : Bool
  batteryTemperature : Option F32
  networkType : Option String
  batteryTier : Option BatteryTier
  thermalTier : Option ThermalTier
deriving DecidableEq, Repr

namespace MobileLiveStatus

def computeBatteryTier (pct : Option Nat) (isCharging : Option Bool) : BatteryTier :=
  if isCharging.getD false then .normal
  else
    match pct with
    | some p => if p ≥ 50 then .normal else if p ≥ 30 then .low else if p ≥ 15 then .subLow else .critical
    | none => .normal

/-- `compute_thermal_tier`; the bounds are 42, 40 and 37 degrees. -/
def computeThermalTier (temp : Option F32) (thermalThrottled : Bool) : ThermalTier :=
  match temp with
  | some t =>
    if Host.gtF32 t ⟨0x42280000⟩ then .critical
    else if Host.gtF32 t ⟨0x42200000⟩ then .hot
    else if Host.gtF32 t ⟨0x42140000⟩ || thermalThrottled then .warm
    else .normal
  | none => if thermalThrottled then .warm else .normal

/-- The `network_type` names a metered mobile link. -/
def isCellular (s : MobileLiveStatus) : Bool :=
  s.networkType.any fun net =>
    let n := Text.toAsciiLowercase net
    ["cellular", "mobile", "lte", "5g", "4g", "3g", "cgnat"].any fun word => Text.contains word n

def recommendedKeepaliveInterval (s : MobileLiveStatus) (activeTasks : Nat) : Nat :=
  if s.isCellular then (if activeTasks > 0 then seconds 10 else seconds 25) else seconds 60

end MobileLiveStatus

/-- `calculate_effective_concurrency`: the smaller of what battery and heat allow. -/
def calculateEffectiveConcurrency (maxCores : Nat) (bat : BatteryTier) (therm : ThermalTier) : Nat :=
  let cBat := match bat with
    | .normal => maxCores
    | .low => max (maxCores / 2) 1
    | .subLow => 1
    | .critical => 0
  let cTherm := match therm with
    | .normal => maxCores
    | .warm => max (maxCores / 2) 1
    | .hot => 1
    | .critical => 0
  min cBat cTherm

structure MobileCapabilities where
  osVersion : String
  socModel : String
  batteryPct : Option Nat
  isCharging : Option Bool
  thermalThrottled : Bool
deriving DecidableEq, Repr

namespace MobileCapabilities

def withLiveStatus (m : MobileCapabilities) (status : MobileLiveStatus) : MobileCapabilities :=
  { m with
    batteryPct := status.batteryPct
    isCharging := status.isCharging
    thermalThrottled := status.thermalThrottled }

/-- `live_status`: the snapshot carries neither a temperature nor computed tiers. -/
def liveStatus (m : MobileCapabilities) : MobileLiveStatus where
  batteryPct := m.batteryPct
  isCharging := m.isCharging
  thermalThrottled := m.thermalThrottled
  batteryTemperature := none
  networkType := none
  batteryTier := none
  thermalTier := none

end MobileCapabilities

/-- The hardware a worker advertises. -/
structure WorkerCapabilities where
  name : String
  cpuCores : Nat
  ramMb : Nat
  hasGpu : Bool
  isSimulatedGpu : Bool
  tags : List String
  mobile : Option MobileCapabilities
deriving DecidableEq, Repr

namespace WorkerCapabilities

/-- Physical or simulated GPU. -/
def canExecuteGpu (c : WorkerCapabilities) : Bool := c.hasGpu || c.isSimulatedGpu

/-- A worker with `cores` cores and no GPU, for concrete runs. -/
def plain (cores : Nat) : WorkerCapabilities where
  name := "w"
  cpuCores := cores
  ramMb := 1024
  hasGpu := false
  isSimulatedGpu := false
  tags := []
  mobile := none

end WorkerCapabilities

end OxideSwarm
