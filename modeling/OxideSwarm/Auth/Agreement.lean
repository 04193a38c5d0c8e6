import OxideSwarm.Auth.Handshake

/-!
# Agreement of the OXS-AUTH v2 handshake

`AuthNet` is any number of client and server runs of the handshake with one secret, on a network that the
attacker owns: it sees every frame, and hands a run any frame it can put together.  Every run draws its own
nonce.  The other protocols of the cluster MAC their messages with the same secret, under labels that begin
with `oxs1-`; the attacker may have them MAC any message of that form.

The invariant (`Sound`) says where each HMAC on the network comes from (`Origin`).  What the runs may
conclude from a frame follows from it, since the three MACs of the handshake have labels and nonces of fixed
length and can be told apart (`concat_inj`).
-/

namespace OxideSwarm

open SymByte

/-- The runs of the handshake so far, and the frames they sent. -/
structure AuthNet where
  runs : List HandshakeRun
  net : List (List SymByte)
deriving DecidableEq

inductive AuthEvent where
  | startClient (random : Bool) (sent : Sent)
  | startServer
  | resume (run : Nat) (input : Received) (random : Bool) (sent : Sent)
  | otherMac (message : List SymByte)
deriving DecidableEq

/-- The attacker can let a run read this. -/
def Received.possible (net : List (List SymByte)) : Received → Bool
  | .frame bytes => knowsAll net bytes
  | _ => true

/-- The nonce that the run `i` draws, unless the random source fails. -/
def draw (random : Bool) (i : Nat) : Option (List SymByte) := if random then some (freshBytes i) else none

/-- How the labels of the other protocols begin. -/
def otherLabel : List SymByte := plain (asciiBytes "oxs1-")

section

variable [Host] (wire : SymByte → UInt8) (secret : ClusterSecret)

def HandshakeRun.resume (r : HandshakeRun) (nonce : Option (List SymByte)) (input : Received) (sent : Sent) :
    HandshakeRun × List (List SymByte) :=
  match r.role with
  | .client => clientResume wire secret r input sent
  | .server => serverResume wire secret r nonce input sent

namespace AuthNet

def empty : AuthNet := ⟨[], []⟩

def step (s : AuthNet) : AuthEvent → AuthNet
  | .startClient random sent =>
    let (r, frames) := clientStart (draw random s.runs.length) sent
    ⟨s.runs ++ [r], s.net ++ frames⟩
  | .startServer => ⟨s.runs ++ [serverStart], s.net⟩
  | .resume i input random sent =>
    match s.runs[i]? with
    | none => s
    | some r =>
      if input.possible s.net then
        let (r, frames) := r.resume wire secret (draw random i) input sent
        ⟨s.runs.set i r, s.net ++ frames⟩
      else s
  | .otherMac message =>
    if otherLabel <+: message ∧ knowsAll s.net message then
      { s with net := s.net ++ [hmacBytes secret.bytes message] }
    else s

end AuthNet

end

/-! ## MACs -/

theorem concat_inj {l l' a a' b b' : List SymByte} (hl : l.length = l'.length) (ha : a.length = a'.length)
    (h : concat [l, a, b] = concat [l', a', b']) : l = l' ∧ a = a' ∧ b = b' := by
  simp only [concat, List.flatten_cons, List.flatten_nil, List.append_nil] at h
  obtain ⟨hlabel, hrest⟩ := List.append_inj h hl
  obtain ⟨hfirst, hsecond⟩ := List.append_inj hrest ha
  exact ⟨hlabel, hfirst, hsecond⟩

theorem label_facts : ∀ label ∈ [labelServer, labelClient, labelKey], label.length = 8 ∧ ¬ otherLabel <+: label := by
  decide

theorem labels_distinct : labelServer ≠ labelClient ∧ labelServer ≠ labelKey ∧ labelClient ≠ labelKey := by decide

variable {parts : List (List SymByte)}

section

variable {secret : ClusterSecret}

theorem ClusterSecret.head_mem (secret : ClusterSecret) : SymByte.secret 0 ∈ secret.bytes := by
  have hlong := secret.long
  refine List.mem_map.mpr ⟨0, List.mem_range.mpr ?_, rfl⟩
  unfold minSecretBytes at hlong
  omega

theorem verifyMac_iff {tag : List SymByte} : secret.verifyMac parts tag = true ↔ tag = secret.mac parts := by
  exact decide_eq_true_iff

end

/-! ## What a read does to a run -/

/-- A frame that holds no byte of the secret or of an HMAC. -/
def OpenFrame (frame : List SymByte) : Prop := ∀ x ∈ frame, x.isOpen

theorem openFrame_plain (bytes : Bytes) : OpenFrame (plain bytes) := by
  intro x hx
  obtain ⟨b, -, rfl⟩ := List.mem_map.mp hx
  trivial

theorem openFrame_freshBytes (i : Nat) : OpenFrame (freshBytes i) := by
  intro x hx
  obtain ⟨b, -, rfl⟩ := List.mem_map.mp hx
  trivial

/-- What a run can do at a read, when the attacker has `net` and the run draws `nonce`. -/
inductive RunStep (secret : ClusterSecret) (net : List (List SymByte)) (nonce : List SymByte) (r : HandshakeRun) :
    HandshakeRun → List (List SymByte) → Prop where
  | idle : RunStep secret net nonce r r []
  | fail (clientNonce clientMac : Option (List SymByte)) (e : AuthError) (frames : List (List SymByte))
      (kept : ∀ cn, r.clientNonce = some cn → clientNonce = some cn)
      (role : r.role = .client → clientNonce = r.clientNonce ∧ clientMac = r.clientMac)
      (opened : ∀ frame ∈ frames, OpenFrame frame) :
      RunStep secret net nonce r { r with clientNonce, clientMac, result := some (.error e) } frames
  | prove (cn sn : List SymByte) (e : Option AuthError) (role : r.role = .client) (hcn : r.clientNonce = some cn)
      (hsn : r.serverNonce = none) (length : sn.length = nonceLen)
      (known : knowsAll net (secret.mac [labelServer, cn, sn]) = true) :
      RunStep secret net nonce r
        { r with
          serverNonce := some sn
          clientMac := some (secret.mac [labelClient, sn, cn])
          result := e.map .error }
        [authFrame kindProof [secret.mac [labelClient, sn, cn]]]
  | finish (cn sn : List SymByte) (role : r.role = .client) (hcn : r.clientNonce = some cn)
      (hsn : r.serverNonce = some sn) :
      RunStep secret net nonce r { r with result := some (.ok (secret.mac [labelKey, cn, sn])) } []
  | issue (cn : List SymByte) (e : Option AuthError) (role : r.role = .server) (hcn : r.clientNonce = none)
      (hsn : r.serverNonce = none) (length : cn.length = nonceLen) :
      RunStep secret net nonce r
        { r with clientNonce := some cn, serverNonce := some nonce, result := e.map .error }
        [authFrame kindChallenge [nonce, secret.mac [labelServer, cn, nonce]]]
  | accept (cn sn : List SymByte) (role : r.role = .server) (hcn : r.clientNonce = some cn)
      (hsn : r.serverNonce = some sn) (known : knowsAll net (secret.mac [labelClient, sn, cn]) = true) :
      RunStep secret net nonce r
        { r with
          clientMac := some (secret.mac [labelClient, sn, cn])
          result := some (.ok (secret.mac [labelKey, cn, sn])) }
        [authFrame kindOk []]

variable {frame : List SymByte} {r : HandshakeRun}

section

variable [Host] {wire : SymByte → UInt8} {secret : ClusterSecret} {net : List (List SymByte)}

variable {input : Received}

section

omit [Host]

theorem recvAuthFrame_some (h : recvAuthFrame input = .ok (some frame)) : input = .frame frame := by
  unfold recvAuthFrame at h
  split at h
  · dsimp only at h
    split at h
    · cases h
    · cases h
      rfl
  all_goals cases h

theorem clientFrame_ok {absent : AuthError} (h : clientFrame absent input = .ok frame) : input = .frame frame := by
  unfold clientFrame at h
  split at h
  · cases h
  · cases h
  · next hrecv =>
    cases h
    exact recvAuthFrame_some hrecv

theorem serverFrame_ok {reason what : String}
    (h : serverFrame reason what input = .ok frame) : input = .frame frame := by
  unfold serverFrame at h
  split at h
  · next hrecv =>
    cases h
    exact recvAuthFrame_some hrecv
  all_goals cases h

theorem splitAuthFrame_some {body : List SymByte} {kind : SymByte} (h : splitAuthFrame frame = some (kind, body)) :
    frame = .byte wireFormatAuth :: kind :: body := by
  unfold splitAuthFrame at h
  split at h
  · split at h
    · next hfirst =>
      cases h
      rw [hfirst]
    · cases h
  · cases h

theorem knows_body {body : List SymByte} {kind : SymByte} (hposs : input.possible net = true)
    (hinput : input = .frame frame) (hsplit : splitAuthFrame frame = some (kind, body)) :
    ∀ x ∈ body, knows net x = true := by
  subst hinput
  rw [splitAuthFrame_some hsplit] at hposs
  have hall := knowsAll_iff.mp hposs
  exact fun x hx => hall x (List.mem_cons_of_mem _ (List.mem_cons_of_mem _ hx))

end

theorem checkChallenge_ok {cn sn : List SymByte} (hposs : input.possible net = true)
    (h : checkChallenge wire secret cn input = .ok sn) :
    sn.length = nonceLen ∧ knowsAll net (secret.mac [labelServer, cn, sn]) = true := by
  unfold checkChallenge at h
  split at h
  · cases h
  next frame hframe =>
  split at h
  · cases h
  next kind body hsplit =>
  split at h
  · split at h
    · cases h
    next hlength =>
    dsimp only at h
    split at h
    · cases h
    next hmac =>
    cases h
    have hlen : body.length = nonceLen + macLen := Decidable.not_not.mp hlength
    have htag : body.drop nonceLen = secret.mac [labelServer, cn, body.take nonceLen] :=
      verifyMac_iff.mp (by simpa using hmac)
    refine ⟨by rw [List.length_take, hlen]; exact Nat.min_eq_left (Nat.le_add_right _ _), ?_⟩
    rw [← htag, knowsAll_iff]
    exact fun x hx => knows_body hposs (clientFrame_ok hframe) hsplit x (List.mem_of_mem_drop hx)
  · split at h
    · cases h
    · cases h

theorem checkOk_ok {cn sn key : List SymByte} (h : checkOk wire secret cn sn input = .ok key) :
    key = secret.mac [labelKey, cn, sn] := by
  unfold checkOk at h
  split at h
  · cases h
  split at h
  · split at h
    · cases h
      rfl
    · split at h <;> cases h
  · cases h

section

omit [Host]

theorem checkHello_ok {cn : List SymByte} (h : checkHello wire input = .ok cn) : cn.length = nonceLen := by
  unfold checkHello at h
  split at h
  · cases h
  split at h
  · cases h
  split at h
  · cases h
  split at h
  · cases h
  split at h
  · split at h
    · cases h
    next hlength =>
    cases h
    have hlen := Decidable.not_not.mp hlength
    rw [List.length_cons] at hlen
    omega
  · split at h <;> cases h

theorem readProof_ok {tag : List SymByte} (hposs : input.possible net = true)
    (h : readProof input = .ok tag) : knowsAll net tag = true := by
  unfold readProof at h
  split at h
  · cases h
  next frame hframe =>
  split at h
  · next kind body hsplit =>
    split at h
    · cases h
      exact knowsAll_iff.mpr (knows_body hposs (serverFrame_ok hframe) hsplit)
    · cases h
  · cases h

theorem openFrame_authFrame {kind : UInt8} (h : ∀ part ∈ parts, OpenFrame part) :
    OpenFrame (authFrame kind parts) := by
  intro x hx
  simp only [authFrame, List.mem_cons, List.mem_flatten] at hx
  rcases hx with rfl | rfl | ⟨part, hpart, hx⟩
  · trivial
  · trivial
  · exact h part hpart x hx

theorem Refusal.frames_open (e : Refusal) : ∀ frame ∈ e.frames, OpenFrame frame := by
  intro frame hframe
  cases e with
  | abort e => cases hframe
  | reject reason detail =>
    obtain rfl := List.mem_singleton.mp hframe
    refine openFrame_authFrame fun part hpart => ?_
    obtain rfl := List.mem_singleton.mp hpart
    exact openFrame_plain _

end

variable (sent : Sent)

theorem clientResume_step {nonce : List SymByte} (hrole : r.role = .client) (hposs : input.possible net = true) :
    RunStep secret net nonce r (clientResume wire secret r input sent).1
      (clientResume wire secret r input sent).2 := by
  unfold clientResume
  split
  · next cn hresult hcn hsn =>
    split
    · next e he =>
      exact .fail r.clientNonce r.clientMac e [] (fun _ h => h) (fun _ => ⟨rfl, rfl⟩)
        fun _ h => absurd h List.not_mem_nil
    · next sn hok =>
      obtain ⟨hlength, hknown⟩ := checkChallenge_ok hposs hok
      exact .prove cn sn sent.error hrole hcn hsn hlength hknown
  · next cn sn hresult hcn hsn =>
    cases hcheck : checkOk wire secret cn sn input with
    | error e =>
      exact .fail r.clientNonce r.clientMac e [] (fun _ h => h) (fun _ => ⟨rfl, rfl⟩)
        fun _ h => absurd h List.not_mem_nil
    | ok key =>
      rw [checkOk_ok hcheck]
      exact .finish cn sn hrole hcn hsn
  · exact .idle

omit [Host] in
theorem HandshakeRun.refuse_step {nonce : List SymByte} (hrole : r.role = .server)
    (clientMac : Option (List SymByte)) (e : Refusal) :
    RunStep secret net nonce r ({ r with clientMac }.refuse e).1 ({ r with clientMac }.refuse e).2 :=
  .fail r.clientNonce clientMac e.error e.frames (fun _ h => h) (fun h => nomatch hrole.symm.trans h) e.frames_open

omit [Host] in
theorem serverResume_step {i : Nat} {random : Bool} (hrole : r.role = .server) (hposs : input.possible net = true) :
    RunStep secret net (freshBytes i) r (serverResume wire secret r (draw random i) input sent).1
      (serverResume wire secret r (draw random i) input sent).2 := by
  have hclient : ∀ {p : Prop}, r.role = .client → p := fun h => nomatch hrole.symm.trans h
  unfold serverResume
  split
  · next hresult hcn hsn =>
    split
    · next e he => exact HandshakeRun.refuse_step hrole r.clientMac e
    next cn hok =>
    cases random with
    | false =>
      exact .fail (some cn) r.clientMac randomFailure [] (fun _ h => nomatch hcn.symm.trans h) hclient
        fun _ h => absurd h List.not_mem_nil
    | true => exact .issue cn sent.error hrole hcn hsn (checkHello_ok hok)
  · next cn sn hresult hcn hsn =>
    split
    · next e he => exact HandshakeRun.refuse_step hrole r.clientMac e
    next tag hok =>
    split
    · exact HandshakeRun.refuse_step hrole (some tag) _
    next hmac =>
    obtain rfl : tag = secret.mac [labelClient, sn, cn] := verifyMac_iff.mp (by simpa using hmac)
    cases hsent : sent.error with
    | none => exact .accept cn sn hrole hcn hsn (readProof_ok hposs hok)
    | some e =>
      refine .fail r.clientNonce _ e _ (fun _ h => h) hclient fun frame hframe => ?_
      obtain rfl := List.mem_singleton.mp hframe
      exact openFrame_authFrame fun _ h => absurd h List.not_mem_nil
  · exact .idle

theorem HandshakeRun.resume_step {i : Nat} {random : Bool} (hposs : input.possible net = true) :
    RunStep secret net (freshBytes i) r (r.resume wire secret (draw random i) input sent).1
      (r.resume wire secret (draw random i) input sent).2 := by
  unfold HandshakeRun.resume
  split
  · next hrole => exact clientResume_step sent hrole hposs
  · next hrole => exact serverResume_step sent hrole hposs

end

/-! ## Where the HMACs on the network come from -/

namespace AuthNet

/-- A server run drew `sn`, and sent the CHALLENGE for `cn` with it. -/
def Issued (secret : ClusterSecret) (s : AuthNet) (cn sn : List SymByte) : Prop :=
  ∃ (j : Nat) (r : HandshakeRun), s.runs[j]? = some r ∧ r.role = .server ∧ r.clientNonce = some cn ∧ r.serverNonce = some sn ∧
    authFrame kindChallenge [sn, secret.mac [labelServer, cn, sn]] ∈ s.net

/-- A client run that drew `cn` received `sn`, and sent the PROOF. -/
def Proved (secret : ClusterSecret) (s : AuthNet) (cn sn : List SymByte) : Prop :=
  ∃ (i : Nat) (r : HandshakeRun), s.runs[i]? = some r ∧ r.role = .client ∧ r.clientNonce = some cn ∧ r.serverNonce = some sn ∧
    r.clientMac = some (secret.mac [labelClient, sn, cn]) ∧
    authFrame kindProof [secret.mac [labelClient, sn, cn]] ∈ s.net

/-- Why there is an HMAC of a message. -/
inductive Origin (secret : ClusterSecret) (s : AuthNet) : List SymByte → Prop where
  | challenge {cn sn : List SymByte} (length : cn.length = nonceLen) (issued : s.Issued secret cn sn) :
      Origin secret s (concat [labelServer, cn, sn])
  | proof {cn sn : List SymByte} (length : sn.length = nonceLen) (proved : s.Proved secret cn sn) :
      Origin secret s (concat [labelClient, sn, cn])
  | other {message : List SymByte} (label : otherLabel <+: message) : Origin secret s message

def Authentic (secret : ClusterSecret) (s : AuthNet) (frame : List SymByte) : Prop :=
  ∀ x ∈ frame, x.isOpen ∨ ∃ message i, x = .hmac secret.bytes message i ∧ s.Origin secret message

/-- What a run knows about its peer. -/
structure Honest (secret : ClusterSecret) (s : AuthNet) (i : Nat) (r : HandshakeRun) : Prop where
  clientNonce : r.role = .client → ∀ cn, r.clientNonce = some cn → cn = freshBytes i
  serverNonce : r.role = .server → ∀ sn, r.serverNonce = some sn → sn = freshBytes i
  challenged : r.role = .client → ∀ sn, r.serverNonce = some sn →
    ∃ cn, r.clientNonce = some cn ∧ s.Issued secret cn sn
  accepted : ∀ key, r.result = some (.ok key) → ∃ cn sn, r.clientNonce = some cn ∧ r.serverNonce = some sn ∧
    key = secret.mac [labelKey, cn, sn] ∧
    (r.role = .server → r.clientMac = some (secret.mac [labelClient, sn, cn]) ∧ s.Proved secret cn sn)

structure Sound (secret : ClusterSecret) (s : AuthNet) : Prop where
  runs : ∀ (i : Nat) r, s.runs[i]? = some r → s.Honest secret i r
  net : ∀ frame ∈ s.net, s.Authentic secret frame

/-- A later state of a run. -/
structure Extends (r r' : HandshakeRun) : Prop where
  role : r'.role = r.role
  clientNonce : ∀ cn, r.clientNonce = some cn → r'.clientNonce = some cn
  serverNonce : ∀ sn, r.serverNonce = some sn → r'.serverNonce = some sn
  clientMac : r.role = .client → ∀ sn, r.serverNonce = some sn → r'.clientMac = r.clientMac

structure Grows (s s' : AuthNet) : Prop where
  runs : ∀ (i : Nat) r, s.runs[i]? = some r → ∃ r', s'.runs[i]? = some r' ∧ Extends r r'
  net : ∀ frame ∈ s.net, frame ∈ s'.net

variable {secret : ClusterSecret} {s s' : AuthNet}

theorem Extends.refl (r : HandshakeRun) : Extends r r := ⟨rfl, fun _ h => h, fun _ h => h, fun _ _ _ => rfl⟩

theorem Issued.mono {cn sn : List SymByte} (h : s.Issued secret cn sn) (hgrows : Grows s s') :
    s'.Issued secret cn sn := by
  obtain ⟨j, r, hget, hrole, hcn, hsn, hframe⟩ := h
  obtain ⟨r', hget', hext⟩ := hgrows.runs j r hget
  exact ⟨j, r', hget', hext.role.trans hrole, hext.clientNonce _ hcn, hext.serverNonce _ hsn, hgrows.net _ hframe⟩

theorem Proved.mono {cn sn : List SymByte} (h : s.Proved secret cn sn) (hgrows : Grows s s') :
    s'.Proved secret cn sn := by
  obtain ⟨i, r, hget, hrole, hcn, hsn, hmac, hframe⟩ := h
  obtain ⟨r', hget', hext⟩ := hgrows.runs i r hget
  exact ⟨i, r', hget', hext.role.trans hrole, hext.clientNonce _ hcn, hext.serverNonce _ hsn,
    (hext.clientMac hrole _ hsn).trans hmac, hgrows.net _ hframe⟩

variable {message : List SymByte}

theorem Origin.mono (h : s.Origin secret message) (hgrows : Grows s s') : s'.Origin secret message := by
  cases h with
  | challenge length issued => exact .challenge length (issued.mono hgrows)
  | proof length proved => exact .proof length (proved.mono hgrows)
  | other label => exact .other label

theorem Authentic.mono (h : s.Authentic secret frame) (hgrows : Grows s s') : s'.Authentic secret frame := by
  intro x hx
  rcases h x hx with hopen | ⟨message, i, rfl, horigin⟩
  · exact .inl hopen
  · exact .inr ⟨message, i, rfl, horigin.mono hgrows⟩

theorem Honest.mono {i : Nat} (h : s.Honest secret i r) (hgrows : Grows s s') : s'.Honest secret i r := by
  refine ⟨h.clientNonce, h.serverNonce, fun hrole sn hsn => ?_, fun key hkey => ?_⟩
  · obtain ⟨cn, hcn, hissued⟩ := h.challenged hrole sn hsn
    exact ⟨cn, hcn, hissued.mono hgrows⟩
  · obtain ⟨cn, sn, hcn, hsn, heq, hserver⟩ := h.accepted key hkey
    exact ⟨cn, sn, hcn, hsn, heq, fun hrole => ⟨(hserver hrole).1, (hserver hrole).2.mono hgrows⟩⟩

/-- Only what is new has to be looked at. -/
theorem Sound.of_grows (h : s.Sound secret) (hgrows : Grows s s')
    (hruns : ∀ (i : Nat) r, s'.runs[i]? = some r → s.runs[i]? = some r ∨ s'.Honest secret i r)
    (hnet : ∀ frame ∈ s'.net, frame ∈ s.net ∨ s'.Authentic secret frame) : s'.Sound secret where
  runs i r hget := (hruns i r hget).elim (fun hold => (h.runs i r hold).mono hgrows) id
  net frame hframe := (hnet frame hframe).elim (fun hold => (h.net frame hold).mono hgrows) id

theorem authentic_of_open (h : OpenFrame frame) : s.Authentic secret frame :=
  fun x hx => .inl (h x hx)

theorem authentic_hmacBytes (h : s.Origin secret message) : s.Authentic secret (hmacBytes secret.bytes message) := by
  intro x hx
  obtain ⟨i, rfl⟩ := mem_hmacBytes hx
  exact .inr ⟨message, i, rfl, h⟩

theorem authentic_authFrame {kind : UInt8} (h : ∀ part ∈ parts, s.Authentic secret part) :
    s.Authentic secret (authFrame kind parts) := by
  intro x hx
  simp only [authFrame, List.mem_cons, List.mem_flatten] at hx
  rcases hx with rfl | rfl | ⟨part, hpart, hx⟩
  · exact .inl trivial
  · exact .inl trivial
  · exact h part hpart x hx

/-! ## What the attacker has -/

theorem Sound.secret_unknown (h : s.Sound secret) : knowsAll s.net secret.bytes = false := by
  rw [Bool.eq_false_iff]
  intro hall
  have hknows := knowsAll_iff.mp hall _ secret.head_mem
  obtain ⟨frame, hframe, hmem⟩ := seen_iff.mp hknows
  rcases h.net frame hframe _ hmem with hopen | ⟨message, i, heq, -⟩
  · exact hopen
  · cases heq

/-- A known byte of an HMAC under the secret has an origin. -/
theorem Sound.origin (h : s.Sound secret) {i : Nat}
    (hknows : knows s.net (.hmac secret.bytes message i) = true) : s.Origin secret message := by
  obtain ⟨frame, hframe, hmem⟩ := seen_iff.mp (seen_of_knows_hmac h.secret_unknown hknows)
  rcases h.net frame hframe _ hmem with hopen | ⟨message', i', heq, horigin⟩
  · exact hopen.elim
  · injection heq with _ hmessage _
    rw [hmessage]
    exact horigin

theorem Sound.origin_mac (h : s.Sound secret)
    (hknown : knowsAll s.net (secret.mac parts) = true) : s.Origin secret (concat parts) :=
  h.origin (knowsAll_iff.mp hknown _ (head_mem_hmacBytes _ _))

/-- The origin of a message of the handshake, read off its label. -/
theorem Origin.of_concat {label a b : List SymByte} (hlabel : label ∈ [labelServer, labelClient, labelKey])
    (ha : a.length = nonceLen) (h : s.Origin secret (concat [label, a, b])) :
    label = labelServer ∧ s.Issued secret a b ∨ label = labelClient ∧ s.Proved secret b a := by
  obtain ⟨hlength, hother⟩ := label_facts label hlabel
  generalize hmessage : concat [label, a, b] = message at h
  cases h with
  | challenge length issued =>
    have hserver := (label_facts labelServer (by simp)).1
    obtain ⟨rfl, rfl, rfl⟩ := concat_inj (hlength.trans hserver.symm) (ha.trans length.symm) hmessage
    exact .inl ⟨rfl, issued⟩
  | proof length proved =>
    have hclient := (label_facts labelClient (by simp)).1
    obtain ⟨rfl, rfl, rfl⟩ := concat_inj (hlength.trans hclient.symm) (ha.trans length.symm) hmessage
    exact .inr ⟨rfl, proved⟩
  | other hprefix =>
    -- the label is longer than `oxs1-`, which would have to be its beginning
    have hmine : label <+: message := ⟨a ++ b, by rw [← hmessage]; simp [concat]⟩
    refine absurd (List.prefix_of_prefix_length_le hprefix hmine ?_) hother
    rw [hlength]
    decide

/-! ## Steps -/

theorem grows_append (s : AuthNet) (r : HandshakeRun) (frames : List (List SymByte)) :
    Grows s ⟨s.runs ++ [r], s.net ++ frames⟩ where
  runs _ r' hget :=
    ⟨r', (List.getElem?_append_left (List.getElem?_eq_some_iff.mp hget).1).trans hget, .refl r'⟩
  net _ hframe := List.mem_append_left _ hframe

variable {r' : HandshakeRun}

theorem grows_set {i : Nat} (hget : s.runs[i]? = some r) (hext : Extends r r')
    (frames : List (List SymByte)) : Grows s ⟨s.runs.set i r', s.net ++ frames⟩ where
  runs j q hq := by
    by_cases hij : i = j
    · subst hij
      rw [hget] at hq
      cases hq
      exact ⟨r', List.getElem?_set_self (List.getElem?_eq_some_iff.mp hget).1, hext⟩
    · exact ⟨q, (List.getElem?_set_ne hij).trans hq, .refl q⟩
  net _ hframe := List.mem_append_left _ hframe

variable {frames : List (List SymByte)}

theorem Sound.append (h : s.Sound secret)
    (hnew : ∀ s' : AuthNet, s'.Honest secret s.runs.length r) (hframes : ∀ frame ∈ frames, OpenFrame frame) :
    Sound secret ⟨s.runs ++ [r], s.net ++ frames⟩ := by
  refine h.of_grows (grows_append s r frames) (fun i q hq => ?_) fun frame hframe => ?_
  · rcases Nat.lt_or_ge i s.runs.length with hlt | hge
    · exact .inl ((List.getElem?_append_left hlt).symm.trans hq)
    obtain ⟨hi, hget⟩ := List.getElem?_eq_some_iff.mp hq
    have hlen : i = s.runs.length := by
      simp only [List.length_append, List.length_cons, List.length_nil] at hi
      omega
    subst hlen
    obtain rfl : r = q := by simpa using hget
    exact .inr (hnew _)
  · exact (List.mem_append.mp hframe).imp id fun hnew => authentic_of_open (hframes frame hnew)

theorem Sound.set (h : s.Sound secret) {i : Nat} (hget : s.runs[i]? = some r) (hext : Extends r r')
    (hnew : Honest secret ⟨s.runs.set i r', s.net ++ frames⟩ i r')
    (hframes : ∀ frame ∈ frames, Authentic secret ⟨s.runs.set i r', s.net ++ frames⟩ frame) :
    Sound secret ⟨s.runs.set i r', s.net ++ frames⟩ := by
  refine h.of_grows (grows_set hget hext frames) (fun j q hq => ?_) fun frame hframe => ?_
  · by_cases hij : i = j
    · subst hij
      have hself := List.getElem?_set_self (a := r') (List.getElem?_eq_some_iff.mp hget).1
      rw [hself] at hq
      cases hq
      exact .inr hnew
    · exact .inl ((List.getElem?_set_ne hij).symm.trans hq)
  · exact (List.mem_append.mp hframe).imp id (hframes frame)

theorem Sound.resume (h : s.Sound secret) {i : Nat}
    (hget : s.runs[i]? = some r) (hstep : RunStep secret s.net (freshBytes i) r r' frames) :
    Sound secret ⟨s.runs.set i r', s.net ++ frames⟩ := by
  have hr := h.runs i r hget
  have hself : ∀ q, (s.runs.set i q)[i]? = some q :=
    fun q => List.getElem?_set_self (List.getElem?_eq_some_iff.mp hget).1
  cases hstep with
  | idle =>
    have hgrows := grows_set hget (.refl r) []
    exact h.set hget (.refl r) (hr.mono hgrows) fun _ hframe => absurd hframe List.not_mem_nil
  | fail clientNonce clientMac e frames kept role opened =>
    have hext : Extends r { r with clientNonce, clientMac, result := some (.error e) } :=
      ⟨rfl, kept, fun _ hsn => hsn, fun hrole _ _ => (role hrole).2⟩
    have hgrows := grows_set hget hext frames
    refine h.set hget hext ⟨fun hrole cn hcn => ?_, hr.serverNonce, fun hrole sn hsn => ?_, nofun⟩
      fun frame hframe => authentic_of_open (opened frame hframe)
    · exact hr.clientNonce hrole cn ((role hrole).1.symm.trans hcn)
    · obtain ⟨cn, hcn, hissued⟩ := hr.challenged hrole sn hsn
      exact ⟨cn, (role hrole).1.trans hcn, hissued.mono hgrows⟩
  | prove cn sn e role hcn hsn length known =>
    have hext : Extends r { r with
        serverNonce := some sn
        clientMac := some (secret.mac [labelClient, sn, cn])
        result := e.map .error } :=
      ⟨rfl, fun _ h => h, fun _ h => (nomatch hsn.symm.trans h), fun _ _ h => (nomatch hsn.symm.trans h)⟩
    have hgrows := grows_set hget hext [authFrame kindProof [secret.mac [labelClient, sn, cn]]]
    have hcnlen : cn.length = nonceLen := by
      rw [hr.clientNonce role cn hcn]
      exact length_freshBytes i
    -- the MAC of the challenge can only come from a server run
    have hissued : s.Issued secret cn sn := by
      rcases (h.origin_mac known).of_concat (by simp) hcnlen with ⟨-, hissued⟩ | ⟨hlabel, -⟩
      · exact hissued
      · exact absurd hlabel labels_distinct.1
    refine h.set hget hext ⟨hr.clientNonce, fun hserver => ?_, fun _ sn' hsn' => ?_, fun key hkey => ?_⟩
      fun frame hframe => ?_
    · exact nomatch role.symm.trans hserver
    · cases hsn'
      exact ⟨cn, hcn, hissued.mono hgrows⟩
    · cases e <;> cases hkey
    obtain rfl := List.mem_singleton.mp hframe
    refine authentic_authFrame fun part hpart => ?_
    obtain rfl := List.mem_singleton.mp hpart
    exact authentic_hmacBytes (.proof length ⟨i, _, hself _, role, hcn, rfl, rfl,
      List.mem_append_right _ (List.mem_singleton_self _)⟩)
  | finish cn sn role hcn hsn =>
    have hext : Extends r { r with result := some (.ok (secret.mac [labelKey, cn, sn])) } :=
      ⟨rfl, fun _ h => h, fun _ h => h, fun _ _ _ => rfl⟩
    have hmono := hr.mono (grows_set hget hext [])
    refine h.set hget hext ⟨hmono.clientNonce, hmono.serverNonce, hmono.challenged, fun key hkey => ?_⟩
      fun _ hframe => absurd hframe List.not_mem_nil
    cases hkey
    refine ⟨cn, sn, hcn, hsn, rfl, fun hserver => ?_⟩
    exact nomatch role.symm.trans hserver
  | issue cn e role hcn hsn length =>
    have hext : Extends r { r with
        clientNonce := some cn, serverNonce := some (freshBytes i), result := e.map .error } :=
      ⟨rfl, fun _ h => (nomatch hcn.symm.trans h), fun _ h => (nomatch hsn.symm.trans h),
        fun _ _ h => (nomatch hsn.symm.trans h)⟩
    have hclient : ∀ {p : Prop}, r.role = .client → p := fun h => nomatch role.symm.trans h
    refine h.set hget hext ⟨hclient, fun _ sn hsn' => ?_, hclient, fun key hkey => ?_⟩ fun frame hframe => ?_
    · cases hsn'
      rfl
    · cases e <;> cases hkey
    obtain rfl := List.mem_singleton.mp hframe
    refine authentic_authFrame fun part hpart => ?_
    rcases List.mem_pair.mp hpart with rfl | rfl
    · exact authentic_of_open (openFrame_freshBytes i)
    · exact authentic_hmacBytes (.challenge length ⟨i, _, hself _, role, rfl, rfl,
        List.mem_append_right _ (List.mem_singleton_self _)⟩)
  | accept cn sn role hcn hsn known =>
    have hclient : ∀ {p : Prop}, r.role = .client → p := fun h => nomatch role.symm.trans h
    have hext : Extends r { r with
        clientMac := some (secret.mac [labelClient, sn, cn])
        result := some (.ok (secret.mac [labelKey, cn, sn])) } :=
      ⟨rfl, fun _ h => h, fun _ h => h, hclient⟩
    have hgrows := grows_set hget hext [authFrame kindOk []]
    have hsnlen : sn.length = nonceLen := by
      rw [hr.serverNonce role sn hsn]
      exact length_freshBytes i
    -- the MAC of the proof can only come from a client run
    have hproved : s.Proved secret cn sn := by
      rcases (h.origin_mac known).of_concat (by simp) hsnlen with ⟨hlabel, -⟩ | ⟨-, hproved⟩
      · exact absurd hlabel.symm labels_distinct.1
      · exact hproved
    refine h.set hget hext ⟨hclient, hr.serverNonce, hclient, fun key hkey => ?_⟩ fun frame hframe => ?_
    · cases hkey
      exact ⟨cn, sn, hcn, hsn, rfl, fun _ => ⟨rfl, hproved.mono hgrows⟩⟩
    · obtain rfl := List.mem_singleton.mp hframe
      exact authentic_of_open (openFrame_authFrame fun _ h => absurd h List.not_mem_nil)

section

variable [Host] {wire : SymByte → UInt8}

theorem Sound.startClient (h : s.Sound secret) (random : Bool) (sent : Sent) :
    (s.step wire secret (.startClient random sent)).Sound secret := by
  cases random with
  | false => exact h.append (fun _ => ⟨nofun, nofun, nofun, nofun⟩) fun _ hframe => absurd hframe List.not_mem_nil
  | true =>
    refine h.append (fun s' => ⟨fun _ cn hcn => ?_, nofun, nofun, fun key hkey => ?_⟩) fun frame hframe => ?_
    · cases hcn
      rfl
    · have hkey' : sent.error.map Except.error = some (.ok key) := hkey
      cases hsent : sent.error with
      | none | some =>
        rw [hsent] at hkey'
        cases hkey'
    obtain rfl := List.mem_singleton.mp hframe
    refine openFrame_authFrame fun part hpart => ?_
    rcases List.mem_pair.mp hpart with rfl | rfl
    · exact openFrame_plain [authVersion]
    · exact openFrame_freshBytes _

theorem Sound.step (h : s.Sound secret) (event : AuthEvent) : (s.step wire secret event).Sound secret := by
  cases event with
  | startClient random sent => exact h.startClient random sent
  | startServer =>
    have hrun : Sound secret ⟨s.runs ++ [serverStart], s.net ++ []⟩ :=
      h.append (fun _ => ⟨nofun, nofun, nofun, nofun⟩) fun _ hframe => absurd hframe List.not_mem_nil
    rw [List.append_nil] at hrun
    exact hrun
  | resume i input random sent =>
    unfold AuthNet.step
    dsimp only
    split
    · exact h
    next r hget =>
    split
    · next hposs => exact h.resume hget (r.resume_step sent hposs)
    · exact h
  | otherMac message =>
    unfold AuthNet.step
    dsimp only
    split
    · next hother =>
      refine h.of_grows ⟨fun i r hget => ⟨r, hget, .refl r⟩, fun _ hframe => List.mem_append_left _ hframe⟩
        (fun _ _ hget => .inl hget) fun frame hframe => ?_
      refine (List.mem_append.mp hframe).imp id fun hnew => ?_
      obtain rfl := List.mem_singleton.mp hnew
      exact authentic_hmacBytes (.other hother.1)
    · exact h

omit [Host] in
theorem sound_empty (secret : ClusterSecret) : Sound secret empty :=
  ⟨fun _ _ hget => by simp [empty] at hget, List.forall_mem_nil _⟩

theorem Sound.run (events : List AuthEvent) :
    ∀ {s : AuthNet}, s.Sound secret → (runFrom (AuthNet.step wire secret) s events).Sound secret := by
  induction events with
  | nil => exact fun h => h
  | cons event rest ih => exact fun h => ih (h.step event)

end

/-! ## Agreement -/

/-- The run `i` is one of `role` and returned `key`, for the nonces `cn` and `sn`. -/
def Accepted (s : AuthNet) (role : EndpointRole) (i : Nat) (cn sn key : List SymByte) : Prop :=
  ∃ r, s.runs[i]? = some r ∧ r.role = role ∧ r.clientNonce = some cn ∧ r.serverNonce = some sn ∧
    r.result = some (.ok key)

variable {role : EndpointRole} {i : Nat} {cn sn key : List SymByte}

theorem Sound.key_eq (h : s.Sound secret) (hacc : s.Accepted role i cn sn key) :
    key = secret.mac [labelKey, cn, sn] := by
  obtain ⟨r, hget, -, hcn, hsn, hkey⟩ := hacc
  obtain ⟨cn', sn', hcn', hsn', heq, -⟩ := (h.runs i r hget).accepted key hkey
  rw [hcn] at hcn'
  rw [hsn] at hsn'
  cases hcn'
  cases hsn'
  exact heq

theorem Sound.proved (h : s.Sound secret) (hacc : s.Accepted .server i cn sn key) : s.Proved secret cn sn := by
  obtain ⟨r, hget, hrole, hcn, hsn, hkey⟩ := hacc
  obtain ⟨cn', sn', hcn', hsn', -, hserver⟩ := (h.runs i r hget).accepted key hkey
  rw [hcn] at hcn'
  rw [hsn] at hsn'
  cases hcn'
  cases hsn'
  exact (hserver hrole).2

theorem Sound.issued (h : s.Sound secret) (hacc : s.Accepted .client i cn sn key) : s.Issued secret cn sn := by
  obtain ⟨r, hget, hrole, hcn, hsn, -⟩ := hacc
  obtain ⟨cn', hcn', hissued⟩ := (h.runs i r hget).challenged hrole sn hsn
  rw [hcn] at hcn'
  cases hcn'
  exact hissued

theorem Sound.client_unique (h : s.Sound secret) {i' : Nat} (hget : s.runs[i]? = some r)
    (hget' : s.runs[i']? = some r') (hrole : r.role = .client) (hrole' : r'.role = .client)
    (hcn : r.clientNonce = some cn) (hcn' : r'.clientNonce = some cn) : i' = i :=
  freshBytes_inj (((h.runs i' r' hget').clientNonce hrole' cn hcn').symm.trans
    ((h.runs i r hget).clientNonce hrole cn hcn))

/-- The label of the key is that of no message anyone MACs for the network. -/
theorem Sound.key_secret (h : s.Sound secret) (hacc : s.Accepted role i cn sn key) :
    ∀ x ∈ key, knows s.net x = false := by
  have hlen : cn.length = nonceLen := by
    -- the nonce is drawn by a client run, which is the run itself or the one that proved
    have hdrawn : ∃ j, cn = freshBytes j := by
      cases role with
      | client =>
        obtain ⟨r, hget, hrole, hcn, -⟩ := hacc
        exact ⟨i, (h.runs i r hget).clientNonce hrole cn hcn⟩
      | server =>
        obtain ⟨j, r, hget, hrole, hcn, -⟩ := h.proved hacc
        exact ⟨j, (h.runs j r hget).clientNonce hrole cn hcn⟩
    obtain ⟨j, rfl⟩ := hdrawn
    exact length_freshBytes j
  intro x hx
  rw [h.key_eq hacc] at hx
  obtain ⟨k, rfl⟩ := mem_hmacBytes hx
  rw [Bool.eq_false_iff]
  intro hknows
  rcases (h.origin hknows).of_concat (by simp) hlen with ⟨hlabel, -⟩ | ⟨hlabel, -⟩
  · exact labels_distinct.2.1 hlabel.symm
  · exact labels_distinct.2.2 hlabel.symm

end AuthNet

/-- **Agreement and secrecy of the handshake**, after any events on the attacker's network.

A server run that returned a key for `cn` and `sn` talked to a client run that drew `cn`, received `sn` and
sent the proof it accepted; no other client run drew `cn`, and no other server run accepted the pair.  A
client run that returned a key for `cn` and `sn` got `sn` from a server run that answered `cn` with it.  Runs
that returned for one pair returned the same key, and the attacker has no byte of it. -/
theorem handshake_agreement [Host] (wire : SymByte → UInt8) (secret : ClusterSecret) (events : List AuthEvent) :
    let s := runFrom (AuthNet.step wire secret) .empty events
    (∀ j cn sn key, s.Accepted .server j cn sn key →
      (∃ (i : Nat) (r q : HandshakeRun), s.runs[i]? = some r ∧ r.role = .client ∧ r.clientNonce = some cn ∧ r.serverNonce = some sn ∧
        s.runs[j]? = some q ∧ r.clientMac = q.clientMac ∧
        (∃ tag, r.clientMac = some tag ∧ authFrame kindProof [tag] ∈ s.net) ∧
        ∀ (i' : Nat) (r' : HandshakeRun), s.runs[i']? = some r' → r'.role = .client → r'.clientNonce = some cn → i' = i) ∧
      ∀ j' key', s.Accepted .server j' cn sn key' → j' = j) ∧
    (∀ i cn sn key, s.Accepted .client i cn sn key →
      ∃ (j : Nat) (q : HandshakeRun), s.runs[j]? = some q ∧ q.role = .server ∧ q.clientNonce = some cn ∧ q.serverNonce = some sn ∧
        authFrame kindChallenge [sn, secret.mac [labelServer, cn, sn]] ∈ s.net) ∧
    (∀ i j cn sn key key', s.Accepted .client i cn sn key → s.Accepted .server j cn sn key' → key = key') ∧
    ∀ role i cn sn key, s.Accepted role i cn sn key → ∀ x ∈ key, knows s.net x = false := by
  intro s
  have h : s.Sound secret := AuthNet.Sound.run events (AuthNet.sound_empty secret)
  refine ⟨fun j cn sn key hacc => ⟨?_, fun j' key' hacc' => ?_⟩, fun i cn sn key hacc => h.issued hacc,
    fun i j cn sn key key' hacc hacc' => (h.key_eq hacc).trans (h.key_eq hacc').symm,
    fun role i cn sn key hacc => h.key_secret hacc⟩
  · obtain ⟨i, r, hget, hrole, hcn, hsn, hmac, hframe⟩ := h.proved hacc
    obtain ⟨q, hgetq, hroleq, hcnq, hsnq, hkey⟩ := hacc
    obtain ⟨cn', sn', hcn', hsn', -, hserver⟩ := (h.runs j q hgetq).accepted key hkey
    rw [hcnq] at hcn'
    rw [hsnq] at hsn'
    cases hcn'
    cases hsn'
    exact ⟨i, r, q, hget, hrole, hcn, hsn, hgetq, hmac.trans (hserver hroleq).1.symm, ⟨_, hmac, hframe⟩,
      fun i' r' hget' hrole' hcn' => h.client_unique hget hget' hrole hrole' hcn hcn'⟩
  obtain ⟨q, hget, hrole, -, hsn, -⟩ := hacc
  obtain ⟨q', hget', hrole', -, hsn', -⟩ := hacc'
  exact freshBytes_inj (((h.runs j' q' hget').serverNonce hrole' sn hsn').symm.trans
    ((h.runs j q hget).serverNonce hrole sn hsn))

/-! ## An undisturbed handshake -/

theorem knowsAll_of_mem {net : List (List SymByte)} {frame : List SymByte} (h : frame ∈ net) :
    knowsAll net frame = true := by
  refine knowsAll_iff.mpr fun b hb => ?_
  have hseen : seen net b = true := seen_iff.mpr ⟨frame, h, hb⟩
  cases b <;> simp [knows, hseen]

theorem recvAuthFrame_short {frame : List SymByte} (h : frame.length ≤ 66) :
    recvAuthFrame (.frame frame) = .ok (some frame) :=
  if_neg (Nat.not_lt.mpr (h.trans (by decide)))

section Relay

variable [Host] (wire : SymByte → UInt8) (secret : ClusterSecret)

/-- The frames of a handshake with the nonces `cn` and `sn`, up to the OK. -/
def helloFrame (cn : List SymByte) : List SymByte := authFrame kindHello [[.byte authVersion], cn]
def challengeFrame (cn sn : List SymByte) : List SymByte :=
  authFrame kindChallenge [sn, secret.mac [labelServer, cn, sn]]
def proofFrame (cn sn : List SymByte) : List SymByte := authFrame kindProof [secret.mac [labelClient, sn, cn]]

variable {cn sn : List SymByte}

omit [Host] in
theorem checkHello_sent (hc : cn.length = nonceLen) : checkHello wire (.frame (helloFrame cn)) = .ok cn := by
  unfold checkHello serverFrame
  rw [recvAuthFrame_short (by simp [helloFrame, authFrame, hc, nonceLen])]
  simp [splitAuthFrame, helloFrame, authFrame, hc, Nat.add_comm]

theorem checkChallenge_sent (hs : sn.length = nonceLen) :
    checkChallenge wire secret cn (.frame (challengeFrame secret cn sn)) = .ok sn := by
  have hmac : (secret.mac [labelServer, cn, sn]).length = macLen := length_hmacBytes _ _
  unfold checkChallenge clientFrame
  rw [recvAuthFrame_short (by simp [challengeFrame, authFrame, hs, hmac, nonceLen, macLen])]
  simp [splitAuthFrame, challengeFrame, authFrame, hs, hmac, List.take_left' hs, List.drop_left' hs,
    ClusterSecret.verifyMac]

omit [Host] in
theorem readProof_sent : readProof (.frame (proofFrame secret cn sn)) = .ok (secret.mac [labelClient, sn, cn]) := by
  have hmac : (secret.mac [labelClient, sn, cn]).length = macLen := length_hmacBytes _ _
  unfold readProof serverFrame
  rw [recvAuthFrame_short (by simp [proofFrame, authFrame, hmac, macLen])]
  simp [splitAuthFrame, proofFrame, authFrame, hmac]

/-- A frame of the network is handed to a run that waits. -/
theorem AuthNet.step_handed {s : AuthNet} {i : Nat} {r r' : HandshakeRun} {frame : List SymByte}
    {frames : List (List SymByte)} (hget : s.runs[i]? = some r) (hmem : frame ∈ s.net)
    (hresume : r.resume wire secret (some (freshBytes i)) (.frame frame) .ok = (r', frames)) :
    s.step wire secret (.resume i (.frame frame) true .ok) = ⟨s.runs.set i r', s.net ++ frames⟩ := by
  have hpossible : (Received.frame frame).possible s.net = true := knowsAll_of_mem hmem
  simp only [AuthNet.step, hget, hpossible, if_true, draw, hresume]

/-- The attacker hands on what a new client, run `i`, and a new server, run `i + 1`, say. -/
def relayed (i : Nat) : List AuthEvent :=
  let cn := freshBytes i
  let sn := freshBytes (i + 1)
  [.startClient true .ok, .startServer, .resume (i + 1) (.frame (helloFrame cn)) true .ok,
    .resume i (.frame (challengeFrame secret cn sn)) true .ok,
    .resume (i + 1) (.frame (proofFrame secret cn sn)) true .ok, .resume i (.frame (authFrame kindOk [])) true .ok]

/-- **The handshake completes.**  Whatever happened on the network before, a client and a server that start now and
whose frames are handed on both return, with the key of their two nonces. -/
theorem handshake_completes (before : AuthNet) :
    let i := before.runs.length
    let cn := freshBytes i
    let sn := freshBytes (i + 1)
    let tag := secret.mac [labelClient, sn, cn]
    let key := secret.mac [labelKey, cn, sn]
    (runFrom (AuthNet.step wire secret) before (relayed secret i)).runs = before.runs ++
      [⟨.client, some cn, some sn, some tag, some (.ok key)⟩,
        ⟨.server, some cn, some sn, some tag, some (.ok key)⟩] := by
  obtain ⟨runs, net⟩ := before
  intro i cn sn tag key
  have hstarted : ∀ later,
      runFrom (AuthNet.step wire secret) ⟨runs, net⟩ (.startClient true .ok :: .startServer :: later) =
      runFrom (AuthNet.step wire secret) ⟨runs ++ [⟨.client, some cn, none, none, none⟩, serverStart],
        net ++ [helloFrame cn]⟩ later := by
    intro later
    simp [runFrom, AuthNet.step, clientStart, draw, Sent.error, helloFrame, cn, i]
  have hclient : ∀ {a a' b : HandshakeRun} {net frame frames}, frame ∈ net →
      a.resume wire secret (some cn) (.frame frame) .ok = (a', frames) →
      AuthNet.step wire secret ⟨runs ++ [a, b], net⟩ (.resume i (.frame frame) true .ok) =
        ⟨runs ++ [a', b], net ++ frames⟩ := by
    intro a a' b net frame frames hmem hresume
    rw [AuthNet.step_handed wire secret (r := a) (by simp [i]) hmem hresume]
    simp [i]
  have hserver : ∀ {a b b' : HandshakeRun} {net frame frames}, frame ∈ net →
      b.resume wire secret (some sn) (.frame frame) .ok = (b', frames) →
      AuthNet.step wire secret ⟨runs ++ [a, b], net⟩ (.resume (i + 1) (.frame frame) true .ok) =
        ⟨runs ++ [a, b'], net ++ frames⟩ := by
    intro a b b' net frame frames hmem hresume
    rw [AuthNet.step_handed wire secret (r := b) (by simp [i]) hmem hresume]
    simp [i]
  have hchallenge : serverStart.resume wire secret (some sn) (.frame (helloFrame cn)) .ok =
      (⟨.server, some cn, some sn, none, none⟩, [challengeFrame secret cn sn]) := by
    simp only [HandshakeRun.resume, serverStart, serverResume, checkHello_sent wire (length_freshBytes i), cn]
    rfl
  have hproof : (⟨.client, some cn, none, none, none⟩ : HandshakeRun).resume wire secret (some cn)
      (.frame (challengeFrame secret cn sn)) .ok =
      (⟨.client, some cn, some sn, some tag, none⟩, [proofFrame secret cn sn]) := by
    simp only [HandshakeRun.resume, clientResume, checkChallenge_sent wire secret (length_freshBytes (i + 1)), sn]
    rfl
  have hok : (⟨.server, some cn, some sn, none, none⟩ : HandshakeRun).resume wire secret (some sn)
      (.frame (proofFrame secret cn sn)) .ok =
      (⟨.server, some cn, some sn, some tag, some (.ok key)⟩, [authFrame kindOk []]) := by
    simp [HandshakeRun.resume, serverResume, readProof_sent, ClusterSecret.verifyMac, Sent.error, tag, key]
  have hdone : (⟨.client, some cn, some sn, some tag, none⟩ : HandshakeRun).resume wire secret (some cn)
      (.frame (authFrame kindOk [])) .ok = (⟨.client, some cn, some sn, some tag, some (.ok key)⟩, []) := rfl
  unfold relayed
  rw [hstarted]
  simp only [runFrom, List.foldl_cons, List.foldl_nil]
  rw [hserver (by simp [cn]) hchallenge, hclient (by simp) hproof, hserver (by simp) hok,
    hclient (by simp) hdone]

end Relay

end OxideSwarm
