import OxideSwarm.Core.Capabilities
import OxideSwarm.Queue.State

/-!
# The worker registry (`master/src/registry.rs`)

`WorkerRegistryInner` is what the registry's lock protects.  Every operation below is one lock hold
(`reapCandidates` and `reapStaleSessions` are the two lock holds of one reap), written as a function
of the registry with the clock reading as an argument.  An operation that cancels a connection task
returns the handle it aborted.  The outbound channel of an entry is named by the entry's session, so
it is not stored a second time.
-/

namespace OxideSwarm

variable [Host]

inductive WorkerStatus where
  | connected
  | busy
  | disconnected
deriving DecidableEq, Repr

/-- The tokio id of a connection task. -/
abbrev ConnId := Nat

structure WorkerEntry where
  workerId : Uuid
  sessionId : Nat
  capabilities : WorkerCapabilities
  status : WorkerStatus
  lastHeartbeatInstant : Instant
  activeTasks : Nat
  reportedActiveTasks : Nat
  abortHandle : Option ConnId
  cpuUsagePct : F32
  ramAvailableMb : Nat
  /-- `last_rx` of the attached receive clock. -/
  rxClock : Option Instant
  consecutiveRejections : Nat
  excludedUntil : Option Instant
  heartbeatInterval : Option Nat
  features : ProtocolCapabilities
deriving DecidableEq, Repr

/-- The snapshot of a worker that the scheduler reads. -/
structure WorkerInfo where
  workerId : Uuid
  sessionId : Nat
  capabilities : WorkerCapabilities
  status : WorkerStatus
  activeTasks : Nat
  cpuUsagePct : F32
  ramAvailableMb : Nat
  features : ProtocolCapabilities
deriving DecidableEq, Repr

def rxLivenessCeilingFactor : Nat := 60
def rejectionCooldownBase : Nat := seconds 5
def rejectionCooldownMax : Nat := seconds 60

def calculateMasterDeadPeerWindow (tau : Nat) : Nat := max (seconds 2) (tau * 4)

namespace WorkerEntry

def visibleActiveTasks (e : WorkerEntry) : Nat := max e.activeTasks e.reportedActiveTasks

/-- `is_silent`: no sign of life for longer than the timeout. -/
def isSilent (e : WorkerEntry) (now : Instant) (timeout : Nat) : Bool :=
  let effectiveTimeout := match e.heartbeatInterval with
    | some tau => calculateMasterDeadPeerWindow tau
    | none => timeout
  let sinceHeartbeat := now - e.lastHeartbeatInstant
  if sinceHeartbeat ≤ effectiveTimeout then false
  else
    match e.rxClock with
    | some lastRx =>
      decide (now - lastRx > effectiveTimeout) ||
        decide (sinceHeartbeat > effectiveTimeout * rxLivenessCeilingFactor)
    | none => true

def toInfo (e : WorkerEntry) : WorkerInfo where
  workerId := e.workerId
  sessionId := e.sessionId
  capabilities := e.capabilities
  status := e.status
  activeTasks := e.visibleActiveTasks
  cpuUsagePct := e.cpuUsagePct
  ramAvailableMb := e.ramAvailableMb
  features := e.features

/-- The entry after it was marked disconnected. -/
def disconnect (e : WorkerEntry) : WorkerEntry :=
  { e with status := .disconnected, activeTasks := 0, reportedActiveTasks := 0, abortHandle := none }

/-- One dispatch slot given back. -/
def giveBack (e : WorkerEntry) : WorkerEntry :=
  let e' := { e with activeTasks := e.activeTasks - 1 }
  if e'.status = .busy ∧ e'.visibleActiveTasks = 0 then { e' with status := .connected } else e'

end WorkerEntry

structure Registration where
  sessionId : Nat
  supersededSession : Option Nat
deriving DecidableEq, Repr

inductive HeartbeatOutcome where
  | applied
  | revived
  | staleSession
deriving DecidableEq, Repr

/-- `abort_unless_current`: the handle that is really aborted, `current` being the caller's task. -/
def abortUnlessCurrent (handle current : Option ConnId) : Option ConnId :=
  if handle = current then none else handle

structure WorkerRegistryInner where
  workers : FMap Uuid WorkerEntry
  nextSessionId : Nat
deriving DecidableEq

namespace WorkerRegistryInner

def new : WorkerRegistryInner where
  workers := ∅
  nextSessionId := 1

/-- The entry of `workerId` replaced by `e`. -/
def put (r : WorkerRegistryInner) (workerId : Uuid) (e : WorkerEntry) : WorkerRegistryInner :=
  { r with workers := r.workers.set workerId e }

/-- The session belongs to another connection than the caller expects. -/
def mismatched (e : WorkerEntry) (expectedSession : Option Nat) : Bool :=
  expectedSession.any fun expected => e.sessionId != expected

/-- The keepalive interval a fresh registration starts with. -/
def initialInterval (c : WorkerCapabilities) : Option Nat :=
  c.mobile.map fun m => m.liveStatus.recommendedKeepaliveInterval 0

/-- What `register_session` inserts for a worker it does not know. -/
def freshEntry (workerId : Uuid) (sessionId : Nat) (capabilities : WorkerCapabilities)
    (features : ProtocolCapabilities) (abortHandle : Option ConnId) (now : Instant) : WorkerEntry where
  workerId := workerId
  sessionId := sessionId
  capabilities := capabilities
  status := .connected
  lastHeartbeatInstant := now
  activeTasks := 0
  reportedActiveTasks := 0
  abortHandle := abortHandle
  cpuUsagePct := ⟨0⟩
  ramAvailableMb := capabilities.ramMb
  rxClock := none
  consecutiveRejections := 0
  excludedUntil := none
  heartbeatInterval := initialInterval capabilities
  features := features

/-- What `register_session` makes of the entry of a worker it knows. -/
def reboundEntry (existing : WorkerEntry) (sessionId : Nat) (capabilities : WorkerCapabilities)
    (features : ProtocolCapabilities) (abortHandle : Option ConnId) (now : Instant) : WorkerEntry :=
  { existing with
    sessionId := sessionId
    capabilities := capabilities
    features := features
    status := .connected
    lastHeartbeatInstant := now
    abortHandle := abortHandle
    ramAvailableMb := capabilities.ramMb
    activeTasks := 0
    reportedActiveTasks := 0
    rxClock := none
    consecutiveRejections := 0
    excludedUntil := none
    heartbeatInterval := initialInterval capabilities }

/-- `register_session`; also returns the connection task it cancelled. -/
def registerSession (r : WorkerRegistryInner) (workerId : Uuid) (capabilities : WorkerCapabilities)
    (features : ProtocolCapabilities) (abortHandle current : Option ConnId) (now : Instant) :
    (Registration × Option ConnId) × WorkerRegistryInner :=
  let sessionId := r.nextSessionId
  match r.workers.get workerId with
  | some existing =>
    ((⟨sessionId, if existing.status ≠ .disconnected then some existing.sessionId else none⟩,
        abortUnlessCurrent existing.abortHandle current),
      { workers := r.workers.set workerId
          (reboundEntry existing sessionId capabilities features abortHandle now)
        nextSessionId := sessionId + 1 })
  | none =>
    ((⟨sessionId, none⟩, none),
      { workers := r.workers.set workerId
          (freshEntry workerId sessionId capabilities features abortHandle now)
        nextSessionId := sessionId + 1 })

def setRxClock (r : WorkerRegistryInner) (workerId : Uuid) (sessionId : Nat) (lastRx : Instant) :
    WorkerRegistryInner :=
  match r.workers.get workerId with
  | some e =>
    if e.sessionId = sessionId then
      r.put workerId { e with rxClock := some lastRx }
    else r
  | none => r

/-- `unregister`; also returns the connection task it cancelled. -/
def unregister (r : WorkerRegistryInner) (workerId : Uuid) (expectedSession : Option Nat)
    (current : Option ConnId) : (Bool × Option ConnId) × WorkerRegistryInner :=
  match r.workers.get workerId with
  | some e =>
    if mismatched e expectedSession then ((false, none), r)
    else if e.status = .disconnected then ((false, none), r)
    else ((true, abortUnlessCurrent e.abortHandle current),
      r.put workerId e.disconnect)
  | none => ((false, none), r)

/-- The workers `prune_stale_workers` removes. -/
def isPrunable (e : WorkerEntry) (now : Instant) (staleTimeout : Nat) : Bool :=
  e.status == .disconnected && decide (now - e.lastHeartbeatInstant ≥ staleTimeout)

/-- `prune_stale_workers`; the order of the removals does not show. -/
def pruneStaleWorkers (r : WorkerRegistryInner) (order : SetOrder Uuid) (now : Instant)
    (staleTimeout : Nat) : WorkerRegistryInner :=
  let toRemove := (order.list r.workers.keys).filter fun w =>
    (r.workers.get w).any fun e => isPrunable e now staleTimeout
  { r with workers := toRemove.foldl FMap.del r.workers }

/-- The heartbeat interval after a heartbeat. -/
def beatInterval (e : WorkerEntry) : Option Nat :=
  match e.capabilities.mobile with
  | none => e.heartbeatInterval
  | some mob =>
    let live := mob.liveStatus
    if live.isCellular || e.heartbeatInterval.any fun d => decide (d < seconds 60) then
      some (live.recommendedKeepaliveInterval e.activeTasks)
    else e.heartbeatInterval.or (some (seconds 60))

/-- The entry after a heartbeat of its own session (or of no session). -/
def beatEntry (e : WorkerEntry) (activeTasks : Nat) (cpuUsagePct : F32) (ramAvailableMb : Nat)
    (revive : Bool) (now : Instant) : WorkerEntry :=
  let e' : WorkerEntry :=
    { e with
      lastHeartbeatInstant := now
      reportedActiveTasks := activeTasks
      cpuUsagePct := cpuUsagePct
      ramAvailableMb := ramAvailableMb
      heartbeatInterval := beatInterval e }
  if e.status ≠ .disconnected ∨ revive then
    { e' with status := if e'.visibleActiveTasks > 0 then .busy else .connected }
  else e'

def recordHeartbeatSession (r : WorkerRegistryInner) (workerId : Uuid) (activeTasks : Nat)
    (cpuUsagePct : F32) (ramAvailableMb : Nat) (expectedSession : Option Nat) (now : Instant) :
    Except GridError HeartbeatOutcome × WorkerRegistryInner :=
  match r.workers.get workerId with
  | none => (.error (.workerNotFound workerId), r)
  | some e =>
    if mismatched e expectedSession then (.ok .staleSession, r)
    else
      let revive := e.status == .disconnected && expectedSession.isSome
      (.ok (if revive then .revived else .applied),
        r.put workerId (beatEntry e activeTasks cpuUsagePct ramAvailableMb revive now))

def updateMobileTelemetry (r : WorkerRegistryInner) (workerId : Uuid) (expectedSession : Option Nat)
    (status : MobileLiveStatus) : Except GridError Bool × WorkerRegistryInner :=
  match r.workers.get workerId with
  | none => (.error (.workerNotFound workerId), r)
  | some e =>
    if mismatched e expectedSession then (.ok false, r)
    else
      let updated := match e.capabilities.mobile with
        | some current => current.withLiveStatus status
        | none => ⟨"unknown", "unknown", status.batteryPct, status.isCharging, status.thermalThrottled⟩
      (.ok (decide (e.capabilities.mobile ≠ some updated)),
        r.put workerId
          { e with
            heartbeatInterval := some (status.recommendedKeepaliveInterval e.activeTasks)
            capabilities := { e.capabilities with mobile := some updated } })

/-- `reserve_dispatch`; success hands out the channel of `sessionId`. -/
def reserveDispatch (r : WorkerRegistryInner) (workerId : Uuid) (sessionId : Nat) :
    Except GridError Unit × WorkerRegistryInner :=
  match r.workers.get workerId with
  | none => (.error (.workerNotFound workerId), r)
  | some e =>
    if e.sessionId ≠ sessionId ∨ e.status = .disconnected then (.error .connectionClosed, r)
    else
      (.ok (), r.put workerId
        { e with
          activeTasks := e.activeTasks + 1
          status := if e.status = .connected then .busy else e.status })

def releaseDispatch (r : WorkerRegistryInner) (workerId : Uuid) (sessionId : Nat) :
    WorkerRegistryInner :=
  match r.workers.get workerId with
  | some e =>
    if e.sessionId = sessionId then r.put workerId e.giveBack else r
  | none => r

/-- `decrement_active_tasks`: unlike `releaseDispatch` it is not told a session. -/
def decrementActiveTasks (r : WorkerRegistryInner) (workerId : Uuid) :
    Except GridError Nat × WorkerRegistryInner :=
  match r.workers.get workerId with
  | none => (.error (.workerNotFound workerId), r)
  | some e =>
    (.ok e.giveBack.activeTasks, r.put workerId e.giveBack)

/-- The lookup of `send_to_worker`: the session on whose channel the message goes. -/
def senderOf (r : WorkerRegistryInner) (workerId : Uuid) : Except GridError Nat :=
  match r.workers.get workerId with
  | none => .error (.workerNotFound workerId)
  | some e => if e.status = .disconnected then .error .connectionClosed else .ok e.sessionId

/-- The cooldown after `n` consecutive rejections. -/
def rejectionCooldown (n : Nat) : Nat :=
  min (rejectionCooldownBase * 2 ^ min (n - 1) 16) rejectionCooldownMax

def recordRejection (r : WorkerRegistryInner) (workerId : Uuid) (expectedSession : Option Nat)
    (now : Instant) : Option Nat × WorkerRegistryInner :=
  match r.workers.get workerId with
  | none => (none, r)
  | some e =>
    if mismatched e expectedSession then (none, r)
    else
      let n := min (e.consecutiveRejections + 1) (2 ^ 32 - 1)
      (some (rejectionCooldown n),
        r.put workerId
          { e with consecutiveRejections := n, excludedUntil := some (now + rejectionCooldown n) })

def clearRejections (r : WorkerRegistryInner) (workerId : Uuid) : WorkerRegistryInner :=
  match r.workers.get workerId with
  | some e =>
    r.put workerId { e with consecutiveRejections := 0, excludedUntil := none }
  | none => r

/-- Not disconnected and not cooling down. -/
def isSchedulable (e : WorkerEntry) (now : Instant) : Bool :=
  e.status != .disconnected && !(e.excludedUntil.any fun until_ => decide (until_ > now))

/-- `list_schedulable_workers`, in the order this run walks the workers. -/
def listSchedulableWorkers (r : WorkerRegistryInner) (order : SetOrder Uuid) (now : Instant) :
    List WorkerInfo :=
  (((order.list r.workers.keys).filterMap r.workers.get).filter fun e => isSchedulable e now).map
    WorkerEntry.toInfo

/-- A live entry that has been silent for too long. -/
def isReapable (e : WorkerEntry) (now : Instant) (timeout : Nat) : Bool :=
  e.status != .disconnected && e.isSilent now timeout

/-- Phase 1 of `reap_stale_sessions`, under the read lock. -/
def reapCandidates (r : WorkerRegistryInner) (order : SetOrder Uuid) (now : Instant) (timeout : Nat) :
    List Uuid :=
  (order.list r.workers.keys).filter fun w => (r.workers.get w).any fun e => isReapable e now timeout

/-- Phase 2 of `reap_stale_sessions`: the reaped sessions and the cancelled connection tasks. -/
def reapStaleSessions (r : WorkerRegistryInner) (now : Instant) (timeout : Nat)
    (current : Option ConnId) :
    List Uuid → (List (Uuid × Nat) × List ConnId) × WorkerRegistryInner
  | [] => (([], []), r)
  | w :: rest =>
    match r.workers.get w with
    | some e =>
      if isReapable e now timeout then
        let ((reaped, aborted), r') :=
          reapStaleSessions (r.put w e.disconnect) now timeout current rest
        (((w, e.sessionId) :: reaped, (abortUnlessCurrent e.abortHandle current).toList ++ aborted), r')
      else reapStaleSessions r now timeout current rest
    | none => reapStaleSessions r now timeout current rest

end WorkerRegistryInner

end OxideSwarm
