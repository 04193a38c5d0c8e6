import OxideSwarm.Lib.Pool
import OxideSwarm.Mesh.Protocol

/-!
# The relay hub (`agent_mesh/src/hub.rs`)

Each socket has a task that serves it (`handle_socket`), a task that writes its queue to the peer, and for every
command to the grid a task that waits for the bridge.  They share the node registry and the outboxes.  A section is
one lock hold of the registry or one atomic operation on an outbox; `Outbox::push` is several of them.  The fields of a
`Connection` besides its outbox belong to the task that serves it.

What the peers send, when the timers fire, how the bridge answers and how far the write pumps get is decided by the
environment (`HubChoice`).
-/

namespace OxideSwarm.Mesh

def maxNodeIdsPerSocket : Nat := 16
def preRegistrationMaxBytes : Nat := 64 * 1024

structure HubConfig where
  authToken : Option String
  maxQueuedMessages : Nat
  maxQueuedBytes : Nat

inductive Message where
  | text (raw : String)
  | ping (payload : List UInt8)
  | pong (payload : List UInt8)
  | close
deriving DecidableEq, Repr

/-- `message_weight`. -/
def Message.weight : Message → Nat
  | .text raw => raw.utf8ByteSize
  | .ping payload | .pong payload => payload.length
  | .close => 0

/-- An `Outbox` with the queue behind it; `closed` once the write pump has ended, `kicked` once `kick` is cancelled. -/
structure Outbox where
  queue : List Message
  queuedBytes : Nat
  closed : Bool
  kicked : Bool
deriving DecidableEq, Repr

def Outbox.isDead (o : Outbox) : Bool := o.closed || o.kicked

/-- `NodeSession`; `tx` names the outbox by the connection it belongs to. -/
structure NodeSession where
  nodeId : NodeId
  platform : String
  hostname : String
  capabilities : Json
  connectedAt : Nat
  lastHeartbeat : Nat
  tx : Nat
  connId : Nat
deriving DecidableEq, Repr

/-- A socket: its outbox, and the ids registered on it.  `released` once its own cleanup has dropped its
registrations. -/
structure Connection where
  outbox : Outbox
  owned : List NodeId
  released : Bool
deriving DecidableEq, Repr

structure HubState where
  config : HubConfig
  nodes : FMap NodeId NodeSession
  conns : FMap Nat Connection
  bridge : Bool
  nextConnId : Nat

/-- The tasks of the hub. -/
inductive HubAgent where
  | socket (c : Nat)
  | pump (c : Nat)
  | bridge (c : Nat)
deriving DecidableEq, Repr

/-- The connection a task works for. -/
def HubAgent.conn : HubAgent → Nat
  | .socket c | .pump c | .bridge c => c

/-- Who called `Outbox::push`, and what it does with the result. -/
inductive Sender where
  /-- a frame of the hub's own, the result is not looked at -/
  | hub
  /-- `deliver` -/
  | deliver (env : AgentMeshEnvelope)
  | broadcast (env : AgentMeshEnvelope)
  /-- the bridge's answer for a node -/
  | answer (json : String) (node : NodeId)
deriving DecidableEq, Repr

inductive HubSection where
  -- `handle_socket`
  | serve
  | removeConnection (graceful : Bool)
  | finish (graceful : Bool)
  | abort
  -- `handle_registration` and `route`
  | register (env : AgentMeshEnvelope) (platform hostname : String) (capabilities : Json)
  | listNodes (env : AgentMeshEnvelope)
  | heartbeat (env : AgentMeshEnvelope)
  | gridCommand (env : AgentMeshEnvelope) (requireAck : Bool)
  | spawnBridge (env : AgentMeshEnvelope)
  | forward (env : AgentMeshEnvelope) (raw : String)
  | broadcast (env : AgentMeshEnvelope) (raw : String)
  | pruneIfDead (id : NodeId)
  -- `Outbox::push`
  | push (c : Nat) (msg : Message) (sender : Sender)
  | reserve (c : Nat) (msg : Message) (sender : Sender)
  | trySend (c : Nat) (msg : Message) (sender : Sender)
  | giveBack (c : Nat) (weight : Nat)
  | kick (c : Nat) (sender : Sender)
  | refused (sender : Sender)
  -- the write pump
  | recv
  | written (msg : Message)
  -- the task that waits for the bridge
  | askBridge (env : AgentMeshEnvelope)
  | answerAgain (json : String) (node : NodeId)
deriving DecidableEq, Repr

/-- What wakes the task of a socket. -/
inductive HubEvent where
  | kicked
  | registrationDeadline
  | tick (idle : Bool)
  | text (raw : String)
  | ping (payload : List UInt8)
  | otherMessage
  | ended

structure HubChoice where
  event : HubEvent
  now : Nat
  order : SetOrder NodeId
  /-- how the bridge answers -/
  response : AgentMeshEnvelope
  /-- the pump could write the message -/
  sent : Bool

abbrev HubThread := Thread HubAgent HubSection
abbrev HubPool := Pool HubState HubAgent HubSection
abbrev HubOutcome := Outcome HubState HubAgent HubSection

variable [MeshHost]

/-! ## What the connection's task does next -/

namespace Connection

open AgentMeshEnvelope

def queue (k : Nat) (env : AgentMeshEnvelope) : List HubSection :=
  ((MeshHost.toJsonString env).map fun json => HubSection.push k (.text json) .hub).toList

def nack (k : Nat) (target : NodeId) (corrId : CorrelationId) (code reason : String) (now : Nat) : List HubSection :=
  queue k (newDeliveryNack "hub" target corrId code reason now)

/-- The end of a push that `deliver` made: the answers to the sender. -/
def delivered (k : Nat) (env : AgentMeshEnvelope) (now : Nat) : List HubSection :=
  match env.body with
  | .commandRequest _ _ _ _ requireAck =>
    if requireAck then queue k (newDeliveryAck "hub" env.sender env.correlationId "target_forwarded" now) else []
  | _ => []

def notKeepingUp (k : Nat) (env : AgentMeshEnvelope) (now : Nat) : List HubSection :=
  match env.body with
  | .commandRequest _ _ _ _ _ => nack k env.sender env.correlationId errNodeUnavailable
      ("Target node '" ++ clip env.target ++ "' is not keeping up and was disconnected.") now
  | .dataPayload => nack k env.sender env.correlationId errNodeUnavailable
      ("Data target '" ++ clip env.target ++ "' is not keeping up and was disconnected.") now
  | _ => []

def notFound (k : Nat) (env : AgentMeshEnvelope) (now : Nat) : List HubSection :=
  match env.body with
  | .commandRequest _ _ _ _ _ => nack k env.sender env.correlationId "ERR_NODE_NOT_FOUND"
      ("Target node '" ++ env.target ++ "' is not registered with the hub.") now
  | .dataPayload => nack k env.sender env.correlationId "ERR_NODE_NOT_FOUND"
      ("Data target '" ++ env.target ++ "' not found.") now
  | _ => []

def gridTargeted (env : AgentMeshEnvelope) (command : String) : Bool :=
  env.target == "grid" || env.target == "grid-master" || command.startsWith "grid_" ||
    (env.target == "hub" && (command == "grid_status" || command.startsWith "grid_"))

def route (env : AgentMeshEnvelope) (raw : String) : List HubSection :=
  match env.body with
  | .nodeList => [.listNodes env]
  | .heartbeat => [.heartbeat env]
  | .commandRequest command _ _ _ requireAck =>
    if gridTargeted env command then [.gridCommand env requireAck] else [.forward env raw]
  | .commandResponse | .dataPayload => [.forward env raw]
  | .deliveryAck _ | .deliveryNack _ _ => if env.target ≠ "hub" then [.forward env raw] else []
  | .broadcast => [.broadcast env raw]
  | _ => []

def tokenOk (config : HubConfig) (presented : Option String) : Bool :=
  match config.authToken, presented with
  | none, _ => true
  | some expected, some given => MeshHost.secretsEqual given expected
  | some _, none => false

def closeIfFirst (conn : Connection) : HubSection := if conn.owned = [] then .removeConnection true else .serve

/-- `handle_registration` up to the lock. -/
def handleRegistration (config : HubConfig) (k : Nat) (conn : Connection) (env : AgentMeshEnvelope) (now : Nat)
    (platform hostname : String) (capabilities : Json) (token : Option String) : List HubSection :=
  let replyTo := echoId env.sender
  if conn.owned = [] ∧ ¬tokenOk config token then
    nack k replyTo env.correlationId errUnauthorized
      (if token.isNone then "Authentication required: the hub needs its token (--token or OXIDE_MESH_TOKEN)."
      else "Authentication failed.") now ++ [.removeConnection true]
  else
    match validateNodeId env.sender with
    | .error why =>
      nack k replyTo env.correlationId errInvalidNodeId ("Invalid node id: " ++ why ++ ".") now ++ [conn.closeIfFirst]
    | .ok () =>
      if env.sender ∉ conn.owned ∧ conn.owned.length ≥ maxNodeIdsPerSocket then
        nack k replyTo env.correlationId errInvalidNodeId
          ("A connection may register at most " ++ toString maxNodeIdsPerSocket ++ " node ids.") now ++
          [conn.closeIfFirst]
      else [.register env platform hostname capabilities]

def handleText (config : HubConfig) (k : Nat) (conn : Connection) (raw : String) (now : Nat) : List HubSection :=
  if conn.owned = [] ∧ raw.utf8ByteSize > preRegistrationMaxBytes then [.removeConnection false]
  else
    match MeshHost.fromJsonStr raw with
    | none => if conn.owned = [] then [.removeConnection false] else [.serve]
    | some env =>
      match env.body with
      | .nodeRegistration platform hostname capabilities token =>
        handleRegistration config k conn env now platform hostname capabilities token
      | _ =>
        if conn.owned = [] then
          nack k (echoId env.sender) env.correlationId errNotRegistered
            ("Register with a NodeRegistration envelope (and the hub token, if one is required) before sending " ++
              "anything else.") now ++ [.removeConnection true]
        else if env.hubOnly then [.serve]
        else if env.sender ∉ conn.owned then
          nack k (conn.owned.headD "") env.correlationId errSenderMismatch
            ("Envelope 'from' ('" ++ clip env.sender ++ "') is not a node id registered on this connection.") now ++
            [.serve]
        else route env raw ++ [.serve]

end Connection

/-! ## Sections -/

namespace HubState

variable (s : HubState) (c : HubChoice)

def goOn (code : List HubSection) : HubOutcome := ⟨s, code, []⟩

/-- `is_dead` of the outbox of connection `k`. -/
def isDead (k : Nat) : Bool := (s.conns.get k).all fun conn => conn.outbox.isDead

def setOutbox (k : Nat) (conn : Connection) (outbox : Outbox) : HubState :=
  { s with conns := s.conns.set k { conn with outbox } }

/-- The loop of `handle_socket`. -/
def serve (k : Nat) (conn : Connection) : HubOutcome :=
  match c.event with
  | .kicked => s.goOn (if conn.outbox.kicked then [.removeConnection false] else [.serve])
  | .registrationDeadline => s.goOn (if conn.owned = [] then [.removeConnection false] else [.serve])
  | .tick idle => s.goOn (if idle then [.removeConnection false] else [.push k (.ping []) .hub, .serve])
  | .text raw => s.goOn (Connection.handleText s.config k conn raw c.now)
  | .ping payload => s.goOn [.push k (.pong payload) .hub, .serve]
  | .otherMessage => s.goOn [.serve]
  | .ended => s.goOn [.removeConnection false]

def removeConnection (k : Nat) (conn : Connection) (graceful : Bool) : HubOutcome :=
  let removed := (c.order.list s.nodes.keys).filter fun id => (s.nodes.get id).any fun session => session.connId = k
  { s with
    nodes := removed.foldl FMap.del s.nodes
    conns := s.conns.set k { conn with released := true } }.goOn [.finish graceful]

/-- The lock hold of `handle_registration`, and what follows it. -/
def register (k : Nat) (conn : Connection) (env : AgentMeshEnvelope) (platform hostname : String)
    (capabilities : Json) : HubOutcome :=
  if (s.nodes.get env.sender).any fun session => session.connId ≠ k ∧ s.isDead session.tx = false then
    s.goOn (Connection.nack k (echoId env.sender) env.correlationId errDuplicateNodeId
      ("Node id '" ++ echoId env.sender ++ "' is already registered by another live connection.") c.now ++
      [conn.closeIfFirst])
  else
    { s with
      nodes := s.nodes.set env.sender ⟨env.sender, platform, hostname, capabilities, c.now, c.now, k, k⟩
      conns := s.conns.set k { conn with
        owned := if env.sender ∈ conn.owned then conn.owned else conn.owned ++ [env.sender] } }.goOn
      (Connection.queue k ⟨"1.0", env.correlationId, "hub", env.sender, c.now,
        .nodeRegistrationAck "accepted" env.sender 10000 "oxideswarm-mesh" (some "Node registered successfully")⟩ ++
        [HubSection.serve])

def getCatalog : List NodeDescriptor :=
  (c.order.list s.nodes.keys).filterMap (fun id => (s.nodes.get id).map fun session =>
    ⟨session.nodeId, session.platform, session.hostname, "online", session.capabilities, session.connectedAt⟩) ++
  if s.bridge then [⟨"grid", "grid-supercomputer", "rusty-grid-master", "online", MeshHost.gridCapabilities, c.now⟩]
  else []

def heartbeat (k : Nat) (env : AgentMeshEnvelope) : HubOutcome :=
  let nodes := match s.nodes.get env.sender with
    | some session =>
      if session.connId = k then s.nodes.set env.sender { session with lastHeartbeat := c.now } else s.nodes
    | none => s.nodes
  { s with nodes }.goOn
    (Connection.queue k ⟨"1.0", env.correlationId, "hub", env.sender, c.now, .heartbeatAck⟩)

def gridCommand (k : Nat) (env : AgentMeshEnvelope) (requireAck : Bool) : HubOutcome :=
  if s.bridge then
    s.goOn ((if requireAck then
      Connection.queue k (.newDeliveryAck "hub" env.sender env.correlationId "target_forwarded" c.now) else []) ++
      [.spawnBridge env])
  else s.goOn (Connection.nack k env.sender env.correlationId "ERR_BRIDGE_NOT_CONFIGURED"
    "AgentGridBridge is not attached to this hub" c.now)

/-- `outbox_of` in `deliver`. -/
def forward (k : Nat) (env : AgentMeshEnvelope) (raw : String) : HubOutcome :=
  match s.nodes.get env.target with
  | none => s.goOn (Connection.notFound k env c.now)
  | some session => s.goOn [.push session.tx (.text raw) (.deliver env)]

/-- The snapshot of `Broadcast`. -/
def broadcast (env : AgentMeshEnvelope) (raw : String) : HubOutcome :=
  s.goOn (((c.order.list s.nodes.keys).filter (· ≠ env.sender)).filterMap fun id =>
    (s.nodes.get id).map fun session => .push session.tx (.text raw) (.broadcast env))

def pruneIfDead (id : NodeId) : HubOutcome :=
  if (s.nodes.get id).any fun session => s.isDead session.tx then { s with nodes := s.nodes.del id }.goOn []
  else s.goOn []

/-- The result of a push is `Full`. -/
def full (k : Nat) (sender : Sender) : List HubSection :=
  match sender with
  | .hub | .broadcast _ => []
  | .deliver env => Connection.notKeepingUp k env c.now
  | .answer json node => [.answerAgain json node]

/-- The result of a push is `Closed`. -/
def closed (k : Nat) (sender : Sender) : List HubSection :=
  match sender with
  | .hub | .broadcast _ => []
  | .deliver env => .pruneIfDead env.target :: Connection.notFound k env c.now
  | .answer json node => [.answerAgain json node]

/-- The result of a push is `Ok`. -/
def pushed (k : Nat) (sender : Sender) : List HubSection :=
  match sender with
  | .deliver env => Connection.delivered k env c.now
  | _ => []

/-- `fetch_add` in `push`, and the check of the byte budget. -/
def reserve (target : Nat) (conn : Connection) (msg : Message) (sender : Sender) : HubOutcome :=
  let before := conn.outbox.queuedBytes
  let s' := s.setOutbox target conn { conn.outbox with queuedBytes := before + msg.weight }
  if before ≠ 0 ∧ before + msg.weight > s.config.maxQueuedBytes then
    s'.goOn [.giveBack target msg.weight, .kick target sender]
  else s'.goOn [.trySend target msg sender]

def trySend (k : Nat) (target : Nat) (conn : Connection) (msg : Message) (sender : Sender) : HubOutcome :=
  if conn.outbox.closed then s.goOn [.giveBack target msg.weight, .refused sender]
  else if conn.outbox.queue.length ≥ max s.config.maxQueuedMessages 1 then
    s.goOn [.giveBack target msg.weight, .kick target sender]
  else
    (s.setOutbox target conn { conn.outbox with queue := conn.outbox.queue ++ [msg] }).goOn (pushed c k sender)

/-- `rx.recv()` of the write pump. -/
def recv (k : Nat) (conn : Connection) : HubOutcome :=
  if conn.outbox.closed then s.goOn []
  else
    match conn.outbox.queue with
    | [] => s.goOn [.recv]
    | msg :: queue => (s.setOutbox k conn { conn.outbox with queue }).goOn [.written msg]

/-- The rest of the write pump's round. -/
def written (k : Nat) (conn : Connection) (msg : Message) : HubOutcome :=
  if conn.outbox.closed then s.goOn []
  else
    let ends := !c.sent || msg == .close
    (s.setOutbox k conn { conn.outbox with
      queuedBytes := conn.outbox.queuedBytes - msg.weight, closed := ends }).goOn (if ends then [] else [.recv])

/-- One section of a task that works for connection `k`. -/
def run (k : Nat) (conn : Connection) (a : HubSection) : HubOutcome :=
  match a with
  | .serve => s.serve c k conn
  | .removeConnection graceful => s.removeConnection c k conn graceful
  | .finish graceful => s.goOn (if graceful then [.push k .close .hub, .abort] else [.abort])
  | .abort => (s.setOutbox k conn { conn.outbox with closed := true }).goOn []
  | .register env platform hostname capabilities => s.register c k conn env platform hostname capabilities
  | .listNodes env => s.goOn (Connection.queue k
      ⟨"1.0", env.correlationId, "hub", env.sender, c.now, .nodeListResponse (s.getCatalog c)⟩)
  | .heartbeat env => s.heartbeat c k env
  | .gridCommand env requireAck => s.gridCommand c k env requireAck
  | .spawnBridge env => ⟨s, [], [⟨.bridge k, [.askBridge { env with version := "1.0", timestamp := c.now }]⟩]⟩
  | .forward env raw => s.forward c k env raw
  | .broadcast env raw => s.broadcast c env raw
  | .pruneIfDead id => s.pruneIfDead id
  | .push target msg sender =>
    s.goOn (if s.isDead target then [.refused sender] else [.reserve target msg sender])
  | .reserve target msg sender =>
    (s.conns.get target).elim (s.goOn []) fun conn => s.reserve target conn msg sender
  | .trySend target msg sender =>
    (s.conns.get target).elim (s.goOn []) fun conn => s.trySend c k target conn msg sender
  | .giveBack target weight =>
    (s.conns.get target).elim (s.goOn []) fun conn =>
      (s.setOutbox target conn { conn.outbox with queuedBytes := conn.outbox.queuedBytes - weight }).goOn []
  | .kick target sender =>
    (s.conns.get target).elim (s.goOn []) fun conn =>
      (s.setOutbox target conn { conn.outbox with kicked := true }).goOn (full c k sender)
  | .refused sender => s.goOn (closed c k sender)
  | .recv => s.recv k conn
  | .written msg => s.written c k conn msg
  | .askBridge env => s.goOn ((MeshHost.toJsonString c.response).map fun json =>
      HubSection.push k (.text json) (.answer json env.sender)).toList
  | .answerAgain json node => s.goOn ((s.nodes.get node).map fun session =>
      HubSection.push session.tx (.text json) .hub).toList

/-- One section. -/
def exec (agent : HubAgent) (a : HubSection) : HubOutcome :=
  (s.conns.get agent.conn).elim (s.goOn []) fun conn => s.run c agent.conn conn a

end HubState

/-! ## Runs -/

/-- A socket is accepted, the bridge is attached, or a task runs its next section. -/
inductive HubLabel where
  | connect
  | attachBridge
  | advance (i : Nat) (c : HubChoice)

def hubExec (c : HubChoice) (agent : HubAgent) (a : HubSection) (s : HubState) : HubOutcome := s.exec c agent a

namespace HubPool

def withConfig (config : HubConfig) : HubPool := ⟨⟨config, ∅, ∅, false, 1⟩, []⟩

/-- The start of `handle_socket`. -/
def connect (m : HubPool) : HubPool :=
  let k := m.shared.nextConnId
  (m.spawn { m.shared with
    conns := m.shared.conns.set k ⟨⟨[], 0, false, false⟩, [], false⟩
    nextConnId := k + 1 } ⟨.socket k, [.serve]⟩).spawn
    { m.shared with
      conns := m.shared.conns.set k ⟨⟨[], 0, false, false⟩, [], false⟩
      nextConnId := k + 1 } ⟨.pump k, [.recv]⟩

def step (m : HubPool) : HubLabel → HubPool
  | .connect => connect m
  | .attachBridge => { m with shared := { m.shared with bridge := true } }
  | .advance i c => m.advance hubExec i c

end HubPool

end OxideSwarm.Mesh
