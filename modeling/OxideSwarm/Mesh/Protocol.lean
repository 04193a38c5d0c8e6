import Mathlib.Data.String.Basic
import OxideSwarm.Lib.FMap

/-!
# Envelopes of the agent mesh (`agent_mesh/src/protocol.rs`)

Every kind of envelope has the same five leading fields, so an `AgentMeshEnvelope` is those with a body.  Bodies
have the fields that the hub reads or writes.  JSON, and the comparison of secrets, are outside the repository:
`MeshHost` has them as parameters.
-/

namespace OxideSwarm.Mesh

abbrev NodeId := String
abbrev CorrelationId := String

/-- A `serde_json::Value`, as its text. -/
abbrev Json := String

structure NodeDescriptor where
  nodeId : NodeId
  platform : String
  hostname : String
  status : String
  capabilities : Json
  connectedAt : Nat
deriving DecidableEq, Repr

inductive Body where
  | nodeRegistration (platform hostname : String) (capabilities : Json) (token : Option String)
  | nodeRegistrationAck (status : String) (assignedNodeId : NodeId) (heartbeatIntervalMs : Nat) (clusterId : String)
      (message : Option String)
  | nodeList
  | nodeListResponse (nodes : List NodeDescriptor)
  | heartbeat
  | heartbeatAck
  | commandRequest (command : String) (args : Json) (payload : Option Json) (timeoutMs : Option Nat) (requireAck : Bool)
  | commandResponse
  | dataPayload
  | deliveryAck (status : String)
  | deliveryNack (errorCode reason : String)
  | broadcast
deriving DecidableEq, Repr

/-- The fields `from` and `to` are `sender` and `target`. -/
structure AgentMeshEnvelope where
  version : String
  correlationId : CorrelationId
  sender : NodeId
  target : NodeId
  timestamp : Nat
  body : Body
deriving DecidableEq, Repr

/-- What the hub takes from outside the repository. -/
class MeshHost where
  /-- `from_json_str`; the error is only logged -/
  fromJsonStr : String → Option AgentMeshEnvelope
  toJsonString : AgentMeshEnvelope → Option String
  secretsEqual : String → String → Bool
  /-- what the hub says about the grid in the catalog -/
  gridCapabilities : Json

def errUnauthorized : String := "ERR_UNAUTHORIZED"
def errNotRegistered : String := "ERR_NOT_REGISTERED"
def errDuplicateNodeId : String := "ERR_DUPLICATE_NODE_ID"
def errInvalidNodeId : String := "ERR_INVALID_NODE_ID"
def errSenderMismatch : String := "ERR_SENDER_MISMATCH"
def errNodeUnavailable : String := "ERR_NODE_UNAVAILABLE"

def reservedNodeIds : List String := ["hub", "grid", "grid-master", "all"]

def maxNodeIdLen : Nat := 128

def isControl (c : Char) : Bool := c.val < 0x20 || (0x7f ≤ c.val && c.val ≤ 0x9f)

def eqIgnoreAsciiCase (a b : String) : Bool := a.toList.map Char.toLower == b.toList.map Char.toLower

def validateNodeId (id : NodeId) : Except String Unit :=
  if id.isEmpty then .error "node id must not be empty"
  else if id.utf8ByteSize > maxNodeIdLen then
    .error ("node id is longer than " ++ toString maxNodeIdLen ++ " bytes")
  else if id.toList.any isControl then .error "node id must not contain control characters"
  else if reservedNodeIds.any (eqIgnoreAsciiCase · id) then .error "node id is reserved by the hub"
  else .ok ()

namespace AgentMeshEnvelope

def isRegistration (env : AgentMeshEnvelope) : Bool :=
  match env.body with
  | .nodeRegistration _ _ _ _ => true
  | _ => false

/-- The kinds that only the hub sends. -/
def hubOnly (env : AgentMeshEnvelope) : Bool :=
  match env.body with
  | .nodeRegistrationAck _ _ _ _ _ | .nodeListResponse _ | .heartbeatAck => true
  | _ => false

def newDeliveryAck (sender target : NodeId) (correlationId : CorrelationId) (status : String) (now : Nat) :
    AgentMeshEnvelope :=
  ⟨"1.0", correlationId, sender, target, now, .deliveryAck status⟩

def newDeliveryNack (sender target : NodeId) (correlationId : CorrelationId) (errorCode reason : String) (now : Nat) :
    AgentMeshEnvelope :=
  ⟨"1.0", correlationId, sender, target, now, .deliveryNack errorCode reason⟩

end AgentMeshEnvelope

def clip (s : String) : String :=
  String.ofList ((s.toList.take 64).map fun c => if isControl c then Char.ofNat 0xFFFD else c)

def echoId (id : NodeId) : String :=
  if id.utf8ByteSize ≤ maxNodeIdLen ∧ ¬id.toList.any isControl then id else clip id

end OxideSwarm.Mesh
