import OxideSwarm.Wire.Record

/-!
# Encrypted transports (`core/src/protocol.rs:2749-2862, 3060-3250`)

`MessageTransport` holds the two AEAD sessions of an endpoint; `split` hands one to each half.  `Link` is a
connection between two endpoints that enabled encryption with the same session key, in the hands of an
adversary: it runs any sequence of sends, of frames presented to either side and of splits, and
`record_layer_secure` is what the record layer gives in all of them.

Serialisation and the length-delimited framing are left out: a payload is any byte string, and a frame
presented to an endpoint need not be one that was sent.
-/

namespace OxideSwarm

variable {Key : Type}

structure MessageTransport (Key : Type) where
  aeadWriter : Option (AeadWriterSession Key)
  aeadReader : Option (AeadReaderSession Key)

structure MessageWriter (Key : Type) where
  aeadWriter : Option (AeadWriterSession Key)

structure MessageReader (Key : Type) where
  aeadReader : Option (AeadReaderSession Key)

/-- The frame of a payload, as every `send_msg` makes it. -/
def frameOf (w : Option (AeadWriterSession Key)) (aead : IdealAead Key) (payload : Bytes) :
    Except ProtocolError Bytes × Option (AeadWriterSession Key) × IdealAead Key :=
  match w with
  | some w =>
    let (frame, w, aead) := w.encryptFrame aead payload
    (frame, some w, aead)
  | none => (.ok payload, none, aead)

/-- The payload of a frame, as every `recv_msg_with_codec` reads it. -/
def payloadOf [DecidableEq Key] (r : Option (AeadReaderSession Key)) (aead : IdealAead Key) (frame : Bytes) :
    Except ProtocolError Bytes × Option (AeadReaderSession Key) :=
  match r with
  | some r =>
    let (payload, r) := r.decryptFrame aead frame
    (payload, some r)
  | none => (.ok frame, none)

namespace MessageTransport

def new : MessageTransport Key := ⟨none, none⟩

def enableEncryption [Hmac Key] (_ : MessageTransport Key) (sessionKey : Key) (role : EndpointRole) :
    MessageTransport Key :=
  let (writer, reader) := deriveAeadKeys sessionKey role
  ⟨some writer, some reader⟩

def split (t : MessageTransport Key) : MessageWriter Key × MessageReader Key := (⟨t.aeadWriter⟩, ⟨t.aeadReader⟩)

/-- `send_msg`, from the serialised message on. -/
def sendMsg (t : MessageTransport Key) (aead : IdealAead Key) (payload : Bytes) :
    Except ProtocolError Bytes × MessageTransport Key × IdealAead Key :=
  let (frame, aeadWriter, aead) := frameOf t.aeadWriter aead payload
  (frame, { t with aeadWriter }, aead)

/-- `recv_msg_with_codec`, up to the serialised message. -/
def recvMsg [DecidableEq Key] (t : MessageTransport Key) (aead : IdealAead Key) (frame : Bytes) :
    Except ProtocolError Bytes × MessageTransport Key :=
  let (payload, aeadReader) := payloadOf t.aeadReader aead frame
  (payload, { t with aeadReader })

end MessageTransport

/-- `MessageWriter::send_msg`, from the serialised message on. -/
def MessageWriter.sendMsg (w : MessageWriter Key) (aead : IdealAead Key) (payload : Bytes) :
    Except ProtocolError Bytes × MessageWriter Key × IdealAead Key :=
  let (frame, aeadWriter, aead) := frameOf w.aeadWriter aead payload
  (frame, ⟨aeadWriter⟩, aead)

/-- `MessageReader::recv_msg_with_codec`, up to the serialised message. -/
def MessageReader.recvMsg [DecidableEq Key] (r : MessageReader Key) (aead : IdealAead Key) (frame : Bytes) :
    Except ProtocolError Bytes × MessageReader Key :=
  let (payload, aeadReader) := payloadOf r.aeadReader aead frame
  (payload, ⟨aeadReader⟩)

/-! ## Endpoints -/

/-- An endpoint before and after its transport is split. -/
inductive Endpoint (Key : Type) where
  | whole (t : MessageTransport Key)
  | halves (w : MessageWriter Key) (r : MessageReader Key)

namespace Endpoint

def writer : Endpoint Key → Option (AeadWriterSession Key)
  | whole t => t.aeadWriter
  | halves w _ => w.aeadWriter

def reader : Endpoint Key → Option (AeadReaderSession Key)
  | whole t => t.aeadReader
  | halves _ r => r.aeadReader

def split : Endpoint Key → Endpoint Key
  | whole t => halves t.split.1 t.split.2
  | halves w r => halves w r

def send (e : Endpoint Key) (aead : IdealAead Key) (payload : Bytes) :
    Except ProtocolError Bytes × Endpoint Key × IdealAead Key :=
  match e with
  | whole t =>
    let (frame, t, aead) := t.sendMsg aead payload
    (frame, whole t, aead)
  | halves w r =>
    let (frame, w, aead) := w.sendMsg aead payload
    (frame, halves w r, aead)

def receive [DecidableEq Key] (e : Endpoint Key) (aead : IdealAead Key) (frame : Bytes) :
    Except ProtocolError Bytes × Endpoint Key :=
  match e with
  | whole t =>
    let (payload, t) := t.recvMsg aead frame
    (payload, whole t)
  | halves w r =>
    let (payload, r) := r.recvMsg aead frame
    (payload, halves w r)

variable (e : Endpoint Key) (aead : IdealAead Key)

@[simp] theorem split_writer : e.split.writer = e.writer := by cases e <;> rfl

@[simp] theorem split_reader : e.split.reader = e.reader := by cases e <;> rfl

theorem send_eq (payload : Bytes) : (e.send aead payload).1 = (frameOf e.writer aead payload).1 ∧
    (e.send aead payload).2.1.writer = (frameOf e.writer aead payload).2.1 ∧
    (e.send aead payload).2.1.reader = e.reader ∧
    (e.send aead payload).2.2 = (frameOf e.writer aead payload).2.2 := by
  cases e <;> exact ⟨rfl, rfl, rfl, rfl⟩

theorem receive_eq [DecidableEq Key] (frame : Bytes) : (e.receive aead frame).1 = (payloadOf e.reader aead frame).1 ∧
    (e.receive aead frame).2.writer = e.writer ∧
    (e.receive aead frame).2.reader = (payloadOf e.reader aead frame).2 := by
  cases e <;> exact ⟨rfl, rfl, rfl⟩

theorem send_of_error {e : Endpoint Key} {aead : IdealAead Key} {w : AeadWriterSession Key} {payload : Bytes}
    {err : ProtocolError} (hw : e.writer = some w) (h : w.encryptFrame aead payload = (.error err, w, aead)) :
    e.send aead payload = (.error err, e, aead) := by
  have hframe : frameOf (some w) aead payload = (.error err, some w, aead) := by
    unfold frameOf
    dsimp only
    rw [h]
  cases e with
  | whole t =>
    obtain ⟨aeadWriter, aeadReader⟩ := t
    obtain rfl : aeadWriter = some w := hw
    unfold send MessageTransport.sendMsg
    dsimp only
    rw [hframe]
  | halves writer r =>
    obtain ⟨aeadWriter⟩ := writer
    obtain rfl : aeadWriter = some w := hw
    unfold send MessageWriter.sendMsg
    dsimp only
    rw [hframe]

end Endpoint

/-! ## Connections -/

def EndpointRole.peer : EndpointRole → EndpointRole
  | .client => .server
  | .server => .client

@[simp] theorem EndpointRole.peer_peer (role : EndpointRole) : role.peer.peer = role := by cases role <;> rfl

theorem EndpointRole.peer_ne (role : EndpointRole) : role.peer ≠ role := by cases role <;> exact nofun

theorem EndpointRole.eq_peer {role role' : EndpointRole} (h : role ≠ role') : role = role'.peer := by
  cases role <;> cases role' <;> first | rfl | exact absurd rfl h

/-- A connection: both endpoints, the cipher, and the direction that each endpoint writes. -/
structure Link (Key : Type) where
  endpoint : EndpointRole → Endpoint Key
  aead : IdealAead Key
  outgoing : EndpointRole → Channel Bytes

/-- A message is sent, a frame is presented, or a transport is split. -/
inductive LinkEvent where
  | send (role : EndpointRole) (payload : Bytes)
  | present (role : EndpointRole) (frame : Bytes)
  | split (role : EndpointRole)
deriving DecidableEq, Repr

namespace Link

/-- Both endpoints have enabled encryption with `sessionKey`. -/
def connect [Hmac Key] (cipher : Key → Bytes → Bytes → Bytes → Option Bytes) (sessionKey : Key) : Link Key where
  endpoint role := .whole (MessageTransport.new.enableEncryption sessionKey role)
  aead := ⟨cipher, []⟩
  outgoing _ := .empty

def step [DecidableEq Key] (l : Link Key) : LinkEvent → Link Key
  | .send role payload =>
    let (frame, endpoint, aead) := (l.endpoint role).send l.aead payload
    { endpoint := Function.update l.endpoint role endpoint
      aead
      outgoing := Function.update l.outgoing role (afterEncrypt (l.outgoing role) payload frame) }
  | .present role frame =>
    let (payload, endpoint) := (l.endpoint role).receive l.aead frame
    { l with
      endpoint := Function.update l.endpoint role endpoint
      outgoing := Function.update l.outgoing role.peer (afterDecrypt (l.outgoing role.peer) payload) }
  | .split role => { l with endpoint := Function.update l.endpoint role (l.endpoint role).split }

/-- The direction that `role` writes under `key`. -/
structure Direction (l : Link Key) (key : Key) (role : EndpointRole) (w : AeadWriterSession Key)
    (r : AeadReaderSession Key) : Prop where
  writer : (l.endpoint role).writer = some w
  reader : (l.endpoint role.peer).reader = some r
  key : w.key = key
  guarded : Guarded w r l.aead (l.outgoing role)
  ordered : (l.outgoing role).Ordered

/-- What holds of a connection whose directions have the keys `keys`. -/
structure Secure (keys : EndpointRole → Key) (l : Link Key) : Prop where
  directions : ∀ role, ∃ w r, l.Direction (keys role) role w r
  nonces : NoncesUnique l.aead

variable [DecidableEq Key] {keys : EndpointRole → Key} {l : Link Key}

/-- An event keeps a connection secure, and is a step of both directions. -/
def Keeps (keys : EndpointRole → Key) (l l' : Link Key) : Prop :=
  l'.Secure keys ∧ ∀ role, (l.outgoing role).Step (l'.outgoing role)

omit [DecidableEq Key] in
/-- The direction of `role` and the other one. -/
theorem keeps_of_directions {l' : Link Key} (role : EndpointRole) {w w' : AeadWriterSession Key}
    {r r' : AeadReaderSession Key} (hdir : l'.Direction (keys role) role w r)
    (hdir' : l'.Direction (keys role.peer) role.peer w' r') (hnonces : NoncesUnique l'.aead)
    (hstep : (l.outgoing role).Step (l'.outgoing role))
    (hstep' : (l.outgoing role.peer).Step (l'.outgoing role.peer)) : Keeps keys l l' := by
  refine ⟨⟨fun role1 => ?_, hnonces⟩, fun role1 => ?_⟩
  · by_cases heq : role1 = role
    · rw [heq]
      exact ⟨w, r, hdir⟩
    · rw [EndpointRole.eq_peer heq]
      exact ⟨w', r', hdir'⟩
  by_cases heq : role1 = role
  · rw [heq]
    exact hstep
  · rw [EndpointRole.eq_peer heq]
    exact hstep'

theorem Secure.send (h : l.Secure keys) (hkeys : Function.Injective keys) (role : EndpointRole) (payload : Bytes) :
    Keeps keys l (l.step (.send role payload)) := by
  obtain ⟨w, r, hdir⟩ := h.directions role
  obtain ⟨w', r', hdir'⟩ := h.directions role.peer
  obtain ⟨hframe, hwriter, hreader, haead⟩ := (l.endpoint role).send_eq l.aead payload
  rw [hdir.writer] at hframe hwriter haead
  have hself : (l.step (.send role payload)).endpoint role = ((l.endpoint role).send l.aead payload).2.1 :=
    Function.update_self ..
  have hpeer : (l.step (.send role payload)).endpoint role.peer = l.endpoint role.peer :=
    Function.update_of_ne role.peer_ne ..
  have hout : (l.step (.send role payload)).outgoing role =
      afterEncrypt (l.outgoing role) payload (w.encryptFrame l.aead payload).1 :=
    (Function.update_self ..).trans (congrArg (afterEncrypt (l.outgoing role) payload) hframe)
  have hout' : (l.step (.send role payload)).outgoing role.peer = l.outgoing role.peer :=
    Function.update_of_ne role.peer_ne ..
  have haead' : (l.step (.send role payload)).aead = (w.encryptFrame l.aead payload).2.2 := haead
  generalize l.step (.send role payload) = l' at hself hpeer hout hout' haead'
  have hstep := afterEncrypt_step (l.outgoing role) payload (w.encryptFrame l.aead payload).1
  have hne : w.key ≠ w'.key := by
    rw [hdir.key, hdir'.key]
    exact fun heq => role.peer_ne (hkeys heq).symm
  -- the other direction, and the nonces
  have hother : Numbered w' l'.aead (l.outgoing role.peer) ∧ NoncesUnique l'.aead ∧
      (w.encryptFrame l.aead payload).2.1.key = w.key := by
    rw [haead']
    rcases encryptFrame_cases w l.aead payload with ⟨e, he⟩ | ⟨next, ciphertext, hnext, hok⟩
    · rw [he]
      exact ⟨hdir'.guarded.numbered, h.nonces, rfl⟩
    · rw [hok]
      exact ⟨hdir'.guarded.numbered.other hne, h.nonces.sealed hdir.guarded.numbered payload ciphertext, rfl⟩
  have hmine : l'.Direction (keys role) role (w.encryptFrame l.aead payload).2.1 r := by
    refine ⟨?_, ?_, hother.2.2.trans hdir.key, ?_, ?_⟩
    · rw [hself]
      exact hwriter
    · rw [hpeer]
      exact hdir.reader
    · rw [haead', hout]
      exact hdir.guarded.encryptFrame payload
    · rw [hout]
      exact hstep.ordered hdir.ordered
  have htheirs : l'.Direction (keys role.peer) role.peer w' r' := by
    have hguarded := hdir'.guarded
    refine ⟨?_, ?_, hdir'.key, ?_, ?_⟩
    · rw [hpeer]
      exact hdir'.writer
    · have hread := hdir'.reader
      rw [EndpointRole.peer_peer] at hread ⊢
      rw [hself, hreader]
      exact hread
    · rw [hout']
      exact ⟨hguarded.key, hother.1, hguarded.failed, hguarded.expected⟩
    · rw [hout']
      exact hdir'.ordered
  refine keeps_of_directions role hmine htheirs hother.2.1 ?_ ?_
  · rw [hout]
    exact hstep
  · rw [hout']
    exact .idle

theorem Secure.present (h : l.Secure keys) (role : EndpointRole) (frame : Bytes) :
    Keeps keys l (l.step (.present role frame)) := by
  obtain ⟨w, r, hdir⟩ := h.directions role
  obtain ⟨w', r', hdir'⟩ := h.directions role.peer
  obtain ⟨hpayload, hwriter, hreader⟩ := (l.endpoint role).receive_eq l.aead frame
  have hread := hdir'.reader
  rw [EndpointRole.peer_peer] at hread
  rw [hread] at hpayload hreader
  have hself : (l.step (.present role frame)).endpoint role = ((l.endpoint role).receive l.aead frame).2 :=
    Function.update_self ..
  have hpeer : (l.step (.present role frame)).endpoint role.peer = l.endpoint role.peer :=
    Function.update_of_ne role.peer_ne ..
  have hout' : (l.step (.present role frame)).outgoing role.peer =
      afterDecrypt (l.outgoing role.peer) (r'.decryptFrame l.aead frame).1 :=
    (Function.update_self ..).trans (congrArg (afterDecrypt (l.outgoing role.peer)) hpayload)
  have hout : (l.step (.present role frame)).outgoing role = l.outgoing role :=
    Function.update_of_ne role.peer_ne.symm ..
  have haead : (l.step (.present role frame)).aead = l.aead := rfl
  generalize l.step (.present role frame) = l' at hself hpeer hout hout' haead
  obtain ⟨hguarded, hstep⟩ := hdir'.guarded.decryptFrame frame
  have hmine : l'.Direction (keys role) role w r := by
    refine ⟨?_, ?_, hdir.key, ?_, ?_⟩
    · rw [hself, hwriter]
      exact hdir.writer
    · rw [hpeer]
      exact hdir.reader
    · rw [haead, hout]
      exact hdir.guarded
    · rw [hout]
      exact hdir.ordered
  have htheirs : l'.Direction (keys role.peer) role.peer w' (r'.decryptFrame l.aead frame).2 := by
    refine ⟨?_, ?_, hdir'.key, ?_, ?_⟩
    · rw [hpeer]
      exact hdir'.writer
    · rw [EndpointRole.peer_peer, hself]
      exact hreader
    · rw [haead, hout']
      exact hguarded
    · rw [hout']
      exact hstep.ordered hdir'.ordered
  refine keeps_of_directions role hmine htheirs ?_ ?_ ?_
  · rw [haead]
    exact h.nonces
  · rw [hout]
    exact .idle
  · rw [hout']
    exact hstep

theorem Secure.split (h : l.Secure keys) (role : EndpointRole) : Keeps keys l (l.step (.split role)) := by
  have hsessions : ∀ role1, ((l.step (.split role)).endpoint role1).writer = (l.endpoint role1).writer ∧
      ((l.step (.split role)).endpoint role1).reader = (l.endpoint role1).reader := by
    intro role1
    show (Function.update l.endpoint role (l.endpoint role).split role1).writer = _ ∧
      (Function.update l.endpoint role (l.endpoint role).split role1).reader = _
    by_cases heq : role1 = role
    · subst heq
      simp
    · simp [heq]
  refine ⟨⟨fun role1 => ?_, h.nonces⟩, fun _ => .idle⟩
  obtain ⟨w, r, hdir⟩ := h.directions role1
  exact ⟨w, r, (hsessions role1).1.trans hdir.writer, (hsessions role1.peer).2.trans hdir.reader, hdir.key,
    hdir.guarded, hdir.ordered⟩

theorem Secure.step (h : l.Secure keys) (hkeys : Function.Injective keys) (event : LinkEvent) :
    Keeps keys l (l.step event) := by
  cases event with
  | send role payload => exact h.send hkeys role payload
  | present role frame => exact h.present role frame
  | split role => exact h.split role

theorem Secure.run (hkeys : Function.Injective keys) (events : List LinkEvent) :
    ∀ {l : Link Key}, l.Secure keys → (runFrom Link.step l events).Secure keys := by
  induction events with
  | nil => exact fun h => h
  | cons event rest ih => exact fun h => ih (h.step hkeys event).1

theorem Secure.closed (hkeys : Function.Injective keys) (role : EndpointRole) (events : List LinkEvent) :
    ∀ {l : Link Key}, l.Secure keys → (l.outgoing role).closed = true →
      ((runFrom Link.step l events).outgoing role).taken = (l.outgoing role).taken := by
  induction events with
  | nil => exact fun _ _ => rfl
  | cons event rest ih =>
    intro l h hclosed
    obtain ⟨hsecure, hstep⟩ := h.step hkeys event
    obtain ⟨hclosed', htaken⟩ := (hstep role).closed hclosed
    exact (ih hsecure hclosed').trans htaken

end Link

/-- The two directions of a session key, seen from both sides. -/
theorem deriveAeadKeys_agree [Hmac Key] (sessionKey : Key) :
    (deriveAeadKeys sessionKey .client).1.key = (deriveAeadKeys sessionKey .server).2.key ∧
    (deriveAeadKeys sessionKey .server).1.key = (deriveAeadKeys sessionKey .client).2.key ∧
    (deriveAeadKeys sessionKey .client).1.key ≠ (deriveAeadKeys sessionKey .server).1.key := by
  refine ⟨rfl, rfl, fun h => ?_⟩
  have hlabel : asciiBytes "oxs1-aead-c2s" = asciiBytes "oxs1-aead-s2c" := Hmac.sign_injective sessionKey h
  exact absurd hlabel (by decide)

theorem deriveAeadKeys_injective [Hmac Key] (sessionKey : Key) :
    Function.Injective fun role => (deriveAeadKeys sessionKey role).1.key := by
  obtain ⟨-, -, hne⟩ := deriveAeadKeys_agree sessionKey
  intro role role' h
  cases role with
  | client =>
    cases role' with
    | client => rfl
    | server => exact (hne h).elim
  | server =>
    cases role' with
    | client => exact (hne h.symm).elim
    | server => rfl

theorem Link.secure_connect [Hmac Key] (cipher : Key → Bytes → Bytes → Bytes → Option Bytes) (sessionKey : Key) :
    (connect cipher sessionKey).Secure fun role => (deriveAeadKeys sessionKey role).1.key where
  directions role := by
    refine ⟨(deriveAeadKeys sessionKey role).1, (deriveAeadKeys sessionKey role.peer).2, rfl, rfl, rfl, ?_,
      Channel.ordered_empty⟩
    cases role <;> exact guarded_new cipher _
  nonces := List.Pairwise.nil

theorem Link.step_oversized [DecidableEq Key] {keys : EndpointRole → Key} {l : Link Key} (h : l.Secure keys)
    (role : EndpointRole) {payload : Bytes} (hsize : maxFrameSize < payload.length + aeadRecordOverhead) :
    ((l.endpoint role).send l.aead payload).1 =
        .error (.frameTooLarge (payload.length + aeadRecordOverhead) maxFrameSize) ∧
      l.step (.send role payload) = l := by
  obtain ⟨w, r, hdir⟩ := h.directions role
  have hsend := Endpoint.send_of_error hdir.writer (encryptFrame_oversized w l.aead hsize)
  refine ⟨by rw [hsend], ?_⟩
  unfold step
  dsimp only
  rw [hsend]
  simp only [afterEncrypt, Function.update_eq_self]

/-- **The record layer**, for every ciphertext the cipher may hand out.

For two sessions created with one key, whatever plaintexts are given to the writer and whatever frames are
presented to the reader, in any order: the plaintexts accepted are the first ones sealed, in order; once a
frame was refused nothing is accepted any more; no nonce is used twice; an oversized plaintext is refused
and changes nothing.

The key of a direction is the same on both endpoints, and the two directions have different keys.

For a connection whose endpoints send, are presented frames and are split at any moment: the same, in each
direction. -/
theorem record_layer_secure [DecidableEq Key] [Hmac Key] (cipher : Key → Bytes → Bytes → Bytes → Option Bytes) :
    (∀ key events, let p := runFrom SessionPair.step (.new cipher key) events
      p.channel.taken <+: p.channel.sent ∧
      (p.channel.closed = true → ∀ later, (runFrom SessionPair.step p later).channel.taken = p.channel.taken) ∧
      (p.aead.calls.map Sealed.nonce).Nodup ∧
      ∀ plaintext : Bytes, maxFrameSize < plaintext.length + aeadRecordOverhead →
        (p.writer.encryptFrame p.aead plaintext).1 =
          .error (.frameTooLarge (plaintext.length + aeadRecordOverhead) maxFrameSize) ∧
        p.step (.encrypt plaintext) = p) ∧
    (∀ sessionKey : Key,
      (deriveAeadKeys sessionKey .client).1.key = (deriveAeadKeys sessionKey .server).2.key ∧
      (deriveAeadKeys sessionKey .server).1.key = (deriveAeadKeys sessionKey .client).2.key ∧
      (deriveAeadKeys sessionKey .client).1.key ≠ (deriveAeadKeys sessionKey .server).1.key) ∧
    ∀ sessionKey events, let l := runFrom Link.step (.connect cipher sessionKey) events
      (∀ role, (l.outgoing role).taken <+: (l.outgoing role).sent) ∧
      (∀ role, (l.outgoing role).closed = true →
        ∀ later, ((runFrom Link.step l later).outgoing role).taken = (l.outgoing role).taken) ∧
      NoncesUnique l.aead ∧
      ∀ role (payload : Bytes), maxFrameSize < payload.length + aeadRecordOverhead →
        ((l.endpoint role).send l.aead payload).1 =
          .error (.frameTooLarge (payload.length + aeadRecordOverhead) maxFrameSize) ∧
        l.step (.send role payload) = l := by
  refine ⟨fun key events => ?_, deriveAeadKeys_agree, fun sessionKey events => ?_⟩
  · have h := (SessionPair.secure_new cipher key).run events
    generalize runFrom SessionPair.step (.new cipher key) events = p at h
    refine ⟨h.ordered, h.closed, h.nonces, fun plaintext hsize => ?_⟩
    have hrefused := encryptFrame_oversized p.writer p.aead hsize
    refine ⟨by rw [hrefused], ?_⟩
    unfold SessionPair.step
    dsimp only
    rw [hrefused]
    rfl
  have hkeys := deriveAeadKeys_injective sessionKey
  have h := Link.Secure.run hkeys events (Link.secure_connect cipher sessionKey)
  generalize runFrom Link.step (.connect cipher sessionKey) events = l at h
  refine ⟨fun role => ?_, fun role hclosed later => h.closed hkeys role later hclosed, h.nonces,
    fun role payload hsize => Link.step_oversized h role hsize⟩
  obtain ⟨w, r, hdir⟩ := h.directions role
  exact hdir.ordered

end OxideSwarm
