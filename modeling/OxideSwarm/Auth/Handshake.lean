import OxideSwarm.Lib.Symbolic
import OxideSwarm.Wire.Record

/-!
# The OXS-AUTH v2 handshake (`core/src/cluster_auth.rs:445-827`)

`client_handshake` and `server_handshake` as they run between two reads of the connection: `resume` takes a
run that waits for a frame as far as its next read, and returns the frames it sends on the way.  The local
variables a run has assigned so far and what it returned are its state.

Frames are strings of symbolic bytes (`SymByte`), so that HMACs under the cluster secret and the nonces of the
runs can be told apart from bytes anyone can make up.  The texts of errors need the byte that a symbol
stands for; `wire` says which.
-/

namespace OxideSwarm

open SymByte

def wireFormatAuth : UInt8 := 0x03
def authVersion : UInt8 := 2
def authVersionV1 : UInt8 := 1
def nonceLen : Nat := 32
def macLen : Nat := 32
/-- Largest frame accepted from a peer that has not authenticated yet. -/
def preAuthMaxFrame : Nat := 1024
/-- Longest REJECT reason that is sent or accepted. -/
def maxRejectReason : Nat := 128

def rejectAuthFailed : String := "authentication failed"
def rejectAuthRequired : String := "authentication required"
def rejectNoSecret : String := "server has no secret configured"
def rejectUnsupportedVersion : String := "unsupported auth version"
def authRequiredHint : String :=
  "master requires the cluster secret; copy ~/.oxideswarm/cluster.secret from the master or set OXIDESWARM_SECRET"

def kindHello : UInt8 := 0x01
def kindChallenge : UInt8 := 0x02
def kindProof : UInt8 := 0x03
def kindOk : UInt8 := 0x04
def kindReject : UInt8 := 0x05

def labelServer : List SymByte := plain (asciiBytes "oxs2-srv")
def labelClient : List SymByte := plain (asciiBytes "oxs2-cli")
def labelKey : List SymByte := plain (asciiBytes "oxs2-key")

/-! ## The secret -/

def minSecretBytes : Nat := 16
def maxSecretBytes : Nat := 256

/-- The shared cluster secret, of a length that `from_bytes` accepts. -/
structure ClusterSecret where
  length : Nat
  long : minSecretBytes ≤ length
  short : length ≤ maxSecretBytes

def ClusterSecret.bytes (secret : ClusterSecret) : List SymByte := (List.range secret.length).map SymByte.secret

def concat (parts : List (List SymByte)) : List SymByte := parts.flatten

def ClusterSecret.mac (secret : ClusterSecret) (parts : List (List SymByte)) : List SymByte :=
  hmacBytes secret.bytes (concat parts)

def ClusterSecret.verifyMac (secret : ClusterSecret) (parts : List (List SymByte)) (tag : List SymByte) : Bool :=
  decide (tag = secret.mac parts)

/-- The keys of the record layer are HMACs under the session key. -/
instance : Hmac (List SymByte) where
  sign key message := hmacBytes key (plain message)
  sign_injective _ _ _ h := plain_injective (hmacBytes_inj h).2

/-! ## Frames -/

/-- The errors of the transport that a handshake can meet (`protocol.rs:379`). -/
inductive FrameError where
  | io (text : String)
  | frameTooLarge (size max : Nat)
  | unexpectedEof
deriving DecidableEq, Repr

/-- The errors of the handshake (`error.rs`). -/
inductive AuthError where
  | io (text : String)
  | frameTooLarge (size max : Nat)
  | connectionClosed
  | handshakeFailed (detail : String)
  | authRequired (hint : String)
  | authFailed (detail : String)
deriving DecidableEq, Repr

/-- `GridError::from`. -/
def AuthError.ofFrameError : FrameError → AuthError
  | .io text => .io text
  | .frameTooLarge size max => .frameTooLarge size max
  | .unexpectedEof => .connectionClosed

/-- What the stream has for a read. -/
inductive Received where
  | frame (bytes : List SymByte)
  | endOfStream
  | unexpectedEof
  | io (text : String)
deriving DecidableEq

/-- How a write ends. -/
inductive Sent where
  | ok
  | unexpectedEof
  | io (text : String)
deriving DecidableEq

/-- The error `send_raw_frame` returns, as the handshake passes it on. -/
def Sent.error : Sent → Option AuthError
  | ok => none
  | unexpectedEof => some (.ofFrameError .unexpectedEof)
  | io text => some (.ofFrameError (.io text))

/-- `recv_auth_frame`, with `recv_raw_frame_max` (`protocol.rs:3034`). -/
def recvAuthFrame : Received → Except FrameError (Option (List SymByte))
  | .frame bytes =>
    let limit := min preAuthMaxFrame maxFrameSize
    if limit < bytes.length then .error (.frameTooLarge 0 limit) else .ok (some bytes)
  | .endOfStream => .ok none
  | .unexpectedEof => .error .unexpectedEof
  | .io text => .error (.io text)

/-- The error of `random_nonce`. -/
def randomFailure : AuthError := .io "system random number generator failure"

def authFrame (kind : UInt8) (parts : List (List SymByte)) : List SymByte :=
  .byte wireFormatAuth :: .byte kind :: parts.flatten

def splitAuthFrame : List SymByte → Option (SymByte × List SymByte)
  | first :: kind :: body => if first = .byte wireFormatAuth then some (kind, body) else none
  | _ => none

/-- `send_reject`: the frame that carries `reason`. -/
def rejectFrame (reason : String) : List SymByte := authFrame kindReject [plain ((asciiBytes reason).take maxRejectReason)]

section

variable [Host] (wire : SymByte → UInt8) (secret : ClusterSecret)

def errorFromReject (body : List SymByte) : AuthError :=
  let text := Host.fromUtf8Lossy ((body.take maxRejectReason).map wire)
  let reason := String.ofList (text.toList.map fun c => if 0x20 ≤ c.toNat ∧ c.toNat ≤ 0x7e then c else '?')
  if reason = rejectAuthRequired then .authRequired authRequiredHint
  else if reason = rejectNoSecret then
    .authFailed ("the master has no cluster secret configured but this node does; start the master with " ++
      "the same secret")
  else if reason = rejectAuthFailed then
    .authFailed ("the master rejected the cluster secret (authentication failed); check that both sides " ++
      "use the same secret")
  else if reason = rejectUnsupportedVersion then
    .authFailed ("the master speaks another cluster authentication version (this node speaks version " ++
      toString authVersion ++ ", with an encrypted connection); run the same OxideSwarm release on " ++
      "the master and on this node")
  else .authFailed ("the master rejected authentication: " ++ reason)

def handshakeReadError : FrameError → AuthError
  | .frameTooLarge _ max => .authFailed ("peer sent a handshake frame larger than " ++ toString max ++ " bytes")
  | e => .ofFrameError e

/-! ## The client -/

/-- A run of `client_handshake` or `server_handshake`: the local variables it has assigned, and what it
returned. -/
structure HandshakeRun where
  role : EndpointRole
  clientNonce : Option (List SymByte)
  serverNonce : Option (List SymByte)
  clientMac : Option (List SymByte)
  result : Option (Except AuthError (List SymByte))
deriving DecidableEq

def unexpectedFrame : AuthError := .authFailed "unexpected frame during cluster authentication"

/-- The frame a client waits for, or the error it returns when there is none. -/
def clientFrame (absent : AuthError) (input : Received) : Except AuthError (List SymByte) :=
  match recvAuthFrame input with
  | .error e => .error (handshakeReadError e)
  | .ok none => .error absent
  | .ok (some frame) => .ok frame

/-- The check of the CHALLENGE; returns the server's nonce. -/
def checkChallenge (clientNonce : List SymByte) (input : Received) : Except AuthError (List SymByte) :=
  match clientFrame (.handshakeFailed ("master closed the connection during cluster authentication (it may not be " ++
      "configured with a cluster secret)")) input with
  | .error e => .error e
  | .ok frame =>
    match splitAuthFrame frame with
    | none =>
      .error (.authFailed ("peer answered with a non-authentication frame; it does not speak the cluster " ++
        "authentication protocol"))
    | some (kind, body) =>
      if kind = .byte kindChallenge then
        if body.length ≠ nonceLen + macLen then .error (.authFailed "malformed authentication challenge")
        else
          let serverNonce := body.take nonceLen
          if !secret.verifyMac [labelServer, clientNonce, serverNonce] (body.drop nonceLen) then
            .error (.authFailed ("the master did not prove knowledge of the cluster secret (wrong secret, or this " ++
              "is not our master); refusing to continue"))
          else .ok serverNonce
      else if kind = .byte kindReject then .error (errorFromReject wire body)
      else .error unexpectedFrame

/-- The check of the OK; returns the session key. -/
def checkOk (clientNonce serverNonce : List SymByte) (input : Received) : Except AuthError (List SymByte) :=
  match clientFrame (.authFailed ("master closed the connection after the proof; the cluster secret was probably " ++
      "rejected")) input with
  | .error e => .error e
  | .ok frame =>
    match splitAuthFrame frame with
    | some (kind, body) =>
      if kind = .byte kindOk ∧ body = [] then .ok (secret.mac [labelKey, clientNonce, serverNonce])
      else if kind = .byte kindReject then .error (errorFromReject wire body)
      else .error unexpectedFrame
    | none => .error unexpectedFrame

/-- `client_handshake` up to its first read; `nonce` is what `random_nonce` yields and `sent` how the write
ends. -/
def clientStart (nonce : Option (List SymByte)) (sent : Sent) : HandshakeRun × List (List SymByte) :=
  match nonce with
  | none => (⟨.client, none, none, none, some (.error randomFailure)⟩, [])
  | some clientNonce =>
    (⟨.client, some clientNonce, none, none, sent.error.map .error⟩,
      [authFrame kindHello [[.byte authVersion], clientNonce]])

/-- `client_handshake` from a read to the next. -/
def clientResume (r : HandshakeRun) (input : Received) (sent : Sent) : HandshakeRun × List (List SymByte) :=
  match r.result, r.clientNonce, r.serverNonce with
  | none, some clientNonce, none =>
    match checkChallenge wire secret clientNonce input with
    | .error e => ({ r with result := some (.error e) }, [])
    | .ok serverNonce =>
      let clientMac := secret.mac [labelClient, serverNonce, clientNonce]
      ({ r with
          serverNonce := some serverNonce
          clientMac := some clientMac
          result := sent.error.map .error },
        [authFrame kindProof [clientMac]])
  | none, some clientNonce, some serverNonce =>
    ({ r with result := some (checkOk wire secret clientNonce serverNonce input) }, [])
  -- the function has returned
  | _, _, _ => (r, [])

/-! ## The server -/

/-- How a server gives up: with a REJECT (`reject_peer`) or without. -/
inductive Refusal where
  | reject (reason detail : String)
  | abort (e : AuthError)
deriving DecidableEq, Repr

def Refusal.error : Refusal → AuthError
  | reject _ detail => .authFailed detail
  | abort e => e

def Refusal.frames : Refusal → List (List SymByte)
  | reject reason _ => [rejectFrame reason]
  | abort _ => []

/-- The frame a server waits for; `what` names it and `reason` is sent when it is too long. -/
def serverFrame (reason what : String) (input : Received) : Except Refusal (List SymByte) :=
  match recvAuthFrame input with
  | .ok (some frame) => .ok frame
  | .ok none => .error (.abort .connectionClosed)
  | .error (.frameTooLarge _ max) =>
    .error (.reject reason (what ++ " exceeds the " ++ toString max ++ " byte pre-authentication limit"))
  | .error e => .error (.abort (.ofFrameError e))

/-- The check of the HELLO; returns the client's nonce. -/
def checkHello (input : Received) : Except Refusal (List SymByte) :=
  match serverFrame rejectAuthRequired "first frame" input with
  | .error e => .error e
  | .ok hello =>
    match splitAuthFrame hello with
    | none => .error (.reject rejectAuthRequired "first frame was not an authentication HELLO")
    | some (kind, body) =>
      if kind ≠ .byte kindHello then .error (.reject rejectAuthRequired "first frame was not an authentication HELLO")
      else
        match body with
        | [] => .error (.reject rejectAuthFailed "empty HELLO")
        | version :: clientNonce =>
          if version = .byte authVersion then
            if body.length ≠ 1 + nonceLen then .error (.reject rejectAuthFailed "malformed HELLO")
            else .ok clientNonce
          else if version = .byte authVersionV1 then
            .error (.reject rejectUnsupportedVersion ("peer speaks cluster authentication version " ++
              toString authVersionV1 ++ ", which does not guarantee an encrypted connection; upgrade it to an " ++
              "OxideSwarm release that speaks version " ++ toString authVersion))
          else
            .error (.reject rejectUnsupportedVersion ("peer requested unsupported auth version " ++
              toString (wire version) ++ " (this build speaks version " ++ toString authVersion ++ ")"))

/-- The form of the PROOF; returns the client's MAC. -/
def readProof (input : Received) : Except Refusal (List SymByte) :=
  match serverFrame rejectAuthFailed "proof frame" input with
  | .error e => .error e
  | .ok proof =>
    match splitAuthFrame proof with
    | some (kind, clientMac) =>
      if kind = .byte kindProof ∧ clientMac.length = macLen then .ok clientMac
      else .error (.reject rejectAuthFailed "malformed PROOF")
    | none => .error (.reject rejectAuthFailed "malformed PROOF")

/-- `server_handshake` before its first read. -/
def serverStart : HandshakeRun := ⟨.server, none, none, none, none⟩

def HandshakeRun.refuse (r : HandshakeRun) (e : Refusal) : HandshakeRun × List (List SymByte) :=
  ({ r with result := some (.error e.error) }, e.frames)

/-- `server_handshake` from a read to the next. -/
def serverResume (r : HandshakeRun) (nonce : Option (List SymByte)) (input : Received) (sent : Sent) :
    HandshakeRun × List (List SymByte) :=
  match r.result, r.clientNonce, r.serverNonce with
  | none, none, none =>
    match checkHello wire input with
    | .error e => r.refuse e
    | .ok clientNonce =>
      match nonce with
      | none => ({ r with clientNonce := some clientNonce, result := some (.error randomFailure) }, [])
      | some serverNonce =>
        let serverMac := secret.mac [labelServer, clientNonce, serverNonce]
        ({ r with
            clientNonce := some clientNonce
            serverNonce := some serverNonce
            result := sent.error.map .error },
          [authFrame kindChallenge [serverNonce, serverMac]])
  | none, some clientNonce, some serverNonce =>
    match readProof input with
    | .error e => r.refuse e
    | .ok clientMac =>
      if !secret.verifyMac [labelClient, serverNonce, clientNonce] clientMac then
        { r with clientMac := some clientMac }.refuse
          (.reject rejectAuthFailed "invalid proof (the peer does not hold the cluster secret)")
      else
        ({ r with
            clientMac := some clientMac
            result := some (match sent.error with
              | none => .ok (secret.mac [labelKey, clientNonce, serverNonce])
              | some e => .error e) },
          [authFrame kindOk []])
  -- the function has returned
  | _, _, _ => (r, [])

end

end OxideSwarm
