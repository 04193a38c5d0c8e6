import OxideSwarm.Core.Base
import OxideSwarm.Lib.Channel
import OxideSwarm.Lib.Pool

/-!
# The AEAD record layer (`core/src/protocol.rs:133-342`)

A record is `[0x04][seq: 8 bytes BE][ciphertext][16-byte tag]`.  The writer numbers the records of its
direction; the reader takes exactly the next number and closes at the first record it refuses.

The cipher is ideal: `IdealAead` remembers every triple it sealed and opens no other.  Which ciphertexts it
hands out is left open.  `Guarded` relates a writer and a reader of one key to the channel between them, and
every call is a step of that channel (`Guarded.encryptFrame`, `Guarded.decryptFrame`), whatever frame is
presented.
-/

namespace OxideSwarm

/-! ## Bytes -/

def checkedAdd (a b : UInt64) : Option UInt64 := if a.toNat + b.toNat < 2 ^ 64 then some (a + b) else none

def toBeBytes (n : UInt64) : Bytes := (List.range 8).map fun i => UInt8.ofNat (n.toNat / 256 ^ (7 - i))

def fromBeBytes (bytes : Bytes) : UInt64 := UInt64.ofNat (bytes.foldl (fun n b => n * 256 + b.toNat) 0)

theorem checkedAdd_one {a c : UInt64} (h : checkedAdd a 1 = some c) : c.toNat = a.toNat + 1 := by
  unfold checkedAdd at h
  split at h
  · next hlt =>
    cases h
    rw [UInt64.toNat_add]
    exact Nat.mod_eq_of_lt hlt
  · cases h

theorem fromBeBytes_toBeBytes (n : UInt64) : fromBeBytes (toBeBytes n) = n := by
  have hlt := n.toNat_lt
  apply UInt64.toNat_inj.mp
  simp [fromBeBytes, toBeBytes, List.range, List.range.loop]
  omega

theorem toBeBytes_injective : Function.Injective toBeBytes :=
  Function.LeftInverse.injective fromBeBytes_toBeBytes

/-! ## The ideal cipher -/

/-- A call that sealed a plaintext. -/
structure Sealed (Key : Type) where
  key : Key
  nonce : Bytes
  aad : Bytes
  plaintext : Bytes
  ciphertext : Bytes
deriving DecidableEq, Repr

/-- ChaCha20-Poly1305 as an ideal cipher: `cipher` chooses the ciphertext with its tag (or fails), `sealed`
has the calls that sealed a plaintext. -/
structure IdealAead (Key : Type) where
  cipher : Key → Bytes → Bytes → Bytes → Option Bytes
  calls : List (Sealed Key)

section

variable {Key : Type}

def IdealAead.sealInPlaceAppendTag (aead : IdealAead Key) (key : Key) (nonce aad plaintext : Bytes) :
    Option Bytes × IdealAead Key :=
  match aead.cipher key nonce aad plaintext with
  | none => (none, aead)
  | some ciphertext =>
    (some ciphertext, { aead with calls := aead.calls ++ [⟨key, nonce, aad, plaintext, ciphertext⟩] })

def IdealAead.openInPlace [DecidableEq Key] (aead : IdealAead Key) (key : Key) (nonce aad ciphertext : Bytes) :
    Option Bytes :=
  (aead.calls.find? fun s => s.key = key ∧ s.nonce = nonce ∧ s.aad = aad ∧ s.ciphertext = ciphertext).map
    Sealed.plaintext

theorem IdealAead.openInPlace_eq_some [DecidableEq Key] {aead : IdealAead Key} {key : Key}
    {nonce aad ciphertext plaintext : Bytes} (h : aead.openInPlace key nonce aad ciphertext = some plaintext) :
    ∃ s ∈ aead.calls, s.key = key ∧ s.nonce = nonce ∧ s.plaintext = plaintext := by
  obtain ⟨s, hs, rfl⟩ := Option.map_eq_some_iff.mp h
  have hcall := List.find?_some hs
  rw [decide_eq_true_eq] at hcall
  exact ⟨s, List.mem_of_find?_eq_some hs, hcall.1, hcall.2.1, rfl⟩

end

/-! ## Sessions -/

inductive EndpointRole where
  | client | server
deriving DecidableEq, Repr

/-- The errors of the record layer (`ProtocolError`). -/
inductive ProtocolError where
  | frameTooLarge (size max : Nat)
  | violation (text : String)
deriving DecidableEq, Repr

def wireFormatEncrypted : UInt8 := 0x04
/-- Format byte, sequence number and tag. -/
def aeadRecordOverhead : Nat := 1 + 8 + 16

def aeadErrTooShort : String := "Encrypted frame too short to be an AEAD record"
def aeadErrNotEncrypted : String := "Expected encrypted wire format (0x04) after the handshake"
def aeadErrSequence : String :=
  "Anti-replay check failed: record out of sequence (replayed, reordered or dropped)"
def aeadErrIntegrity : String := "Ciphertext integrity verification failed"
def aeadErrOverflow : String := "AEAD sequence counter overflow"
def aeadErrClosed : String := "AEAD session closed after an earlier record failure"

structure AeadWriterSession (Key : Type) where
  key : Key
  seq : UInt64
deriving DecidableEq, Repr

structure AeadReaderSession (Key : Type) where
  key : Key
  expectedSeq : UInt64
  failed : Bool
deriving DecidableEq, Repr

/-- The nonce `0x00000000 || seq`. -/
def nonceBytes (seq : UInt64) : Bytes := [0, 0, 0, 0] ++ toBeBytes seq

/-- The header of a record, which is its AAD. -/
def recordHeader (seq : UInt64) : Bytes := wireFormatEncrypted :: toBeBytes seq

theorem nonceBytes_injective : Function.Injective nonceBytes := by
  intro a b h
  exact toBeBytes_injective (List.append_cancel_left h)

section

variable {Key : Type}

def AeadWriterSession.new (writeKey : Key) : AeadWriterSession Key := ⟨writeKey, 0⟩

def AeadReaderSession.new (readKey : Key) : AeadReaderSession Key := ⟨readKey, 0, false⟩

def AeadWriterSession.encryptFrame (w : AeadWriterSession Key) (aead : IdealAead Key) (plaintext : Bytes) :
    Except ProtocolError Bytes × AeadWriterSession Key × IdealAead Key :=
  let size := plaintext.length + aeadRecordOverhead
  if maxFrameSize < size then (.error (.frameTooLarge size maxFrameSize), w, aead)
  else
    match checkedAdd w.seq 1 with
    | none => (.error (.violation aeadErrOverflow), w, aead)
    | some nextSeq =>
      match aead.sealInPlaceAppendTag w.key (nonceBytes w.seq) (recordHeader w.seq) plaintext with
      | (none, aead) => (.error (.violation "AEAD encryption failure"), w, aead)
      -- the counter moves once the record is sealed
      | (some inOut, aead) => (.ok (recordHeader w.seq ++ inOut), { w with seq := nextSeq }, aead)

/-- `AeadReaderSession::open`. -/
def AeadReaderSession.openFrame [DecidableEq Key] (r : AeadReaderSession Key) (aead : IdealAead Key)
    (frame : Bytes) : Except ProtocolError Bytes × AeadReaderSession Key :=
  if frame.length < aeadRecordOverhead then (.error (.violation aeadErrTooShort), r)
  else if frame.head? ≠ some wireFormatEncrypted then (.error (.violation aeadErrNotEncrypted), r)
  else
    let seq := fromBeBytes ((frame.drop 1).take 8)
    if seq ≠ r.expectedSeq then (.error (.violation aeadErrSequence), r)
    else
      match aead.openInPlace r.key (nonceBytes seq) (frame.take 9) (frame.drop 9) with
      | none => (.error (.violation aeadErrIntegrity), r)
      | some plaintext =>
        match checkedAdd r.expectedSeq 1 with
        | none => (.error (.violation aeadErrOverflow), r)
        | some expectedSeq => (.ok plaintext, { r with expectedSeq })

def AeadReaderSession.decryptFrame [DecidableEq Key] (r : AeadReaderSession Key) (aead : IdealAead Key)
    (frame : Bytes) : Except ProtocolError Bytes × AeadReaderSession Key :=
  if r.failed then (.error (.violation aeadErrClosed), r)
  else
    let (opened, r) := r.openFrame aead frame
    (opened, { r with failed := !opened.isOk })

/-- HMAC-SHA256 as a keyed function without collisions. -/
class Hmac (Key : Type) where
  sign : Key → Bytes → Key
  sign_injective : ∀ key, Function.Injective (sign key)

def deriveAeadKeys [Hmac Key] (sessionKey : Key) (role : EndpointRole) :
    AeadWriterSession Key × AeadReaderSession Key :=
  let clientWriteKey := Hmac.sign sessionKey (asciiBytes "oxs1-aead-c2s")
  let serverWriteKey := Hmac.sign sessionKey (asciiBytes "oxs1-aead-s2c")
  match role with
  | .client => (.new clientWriteKey, .new serverWriteKey)
  | .server => (.new serverWriteKey, .new clientWriteKey)

/-! ## One direction -/

/-- The channel after a call of the writer. -/
def afterEncrypt (c : Channel Bytes) (plaintext : Bytes) : Except ProtocolError Bytes → Channel Bytes
  | .ok _ => { c with sent := c.sent ++ [plaintext] }
  | .error _ => c

/-- The channel after a call of the reader. -/
def afterDecrypt (c : Channel Bytes) : Except ProtocolError Bytes → Channel Bytes
  | .ok plaintext => { c with taken := c.taken ++ [plaintext] }
  | .error _ => { c with closed := true }

/-- No two calls under one key used the same nonce. -/
def NoncesUnique (aead : IdealAead Key) : Prop :=
  aead.calls.Pairwise fun s s' => s.key = s'.key → s.nonce ≠ s'.nonce

/-- The writer has numbered what was sent, and whatever was sealed under its key carries its number. -/
structure Numbered (w : AeadWriterSession Key) (aead : IdealAead Key) (c : Channel Bytes) : Prop where
  seq : w.seq.toNat = c.sent.length
  calls : ∀ s ∈ aead.calls, s.key = w.key →
    ∃ n : UInt64, s.nonce = nonceBytes n ∧ c.sent[n.toNat]? = some s.plaintext

/-- A writer and a reader of one key, and the channel between them. -/
structure Guarded (w : AeadWriterSession Key) (r : AeadReaderSession Key) (aead : IdealAead Key)
    (c : Channel Bytes) : Prop where
  key : r.key = w.key
  numbered : Numbered w aead c
  failed : r.failed = c.closed
  expected : c.closed = false → r.expectedSeq.toNat = c.taken.length

section

variable {w : AeadWriterSession Key} {r : AeadReaderSession Key} {aead aead' : IdealAead Key} {c : Channel Bytes}

/-- The call that seals `plaintext` as `ciphertext`. -/
def AeadWriterSession.call (w : AeadWriterSession Key) (plaintext ciphertext : Bytes) : Sealed Key :=
  ⟨w.key, nonceBytes w.seq, recordHeader w.seq, plaintext, ciphertext⟩

/-- A plaintext is refused and nothing changes, or it is sealed under the next number. -/
theorem encryptFrame_cases (w : AeadWriterSession Key) (aead : IdealAead Key) (plaintext : Bytes) :
    (∃ e, w.encryptFrame aead plaintext = (.error e, w, aead)) ∨ ∃ next ciphertext, checkedAdd w.seq 1 = some next ∧
      w.encryptFrame aead plaintext = (.ok (recordHeader w.seq ++ ciphertext), { w with seq := next },
        { aead with calls := aead.calls ++ [w.call plaintext ciphertext] }) := by
  unfold AeadWriterSession.encryptFrame
  dsimp only
  split
  · exact .inl ⟨_, rfl⟩
  split
  · exact .inl ⟨_, rfl⟩
  next next hnext =>
  unfold IdealAead.sealInPlaceAppendTag
  cases aead.cipher w.key (nonceBytes w.seq) (recordHeader w.seq) plaintext with
  | none => exact .inl ⟨_, rfl⟩
  | some ciphertext => exact .inr ⟨next, ciphertext, hnext, rfl⟩

theorem encryptFrame_oversized (w : AeadWriterSession Key) (aead : IdealAead Key) {plaintext : Bytes}
    (h : maxFrameSize < plaintext.length + aeadRecordOverhead) : w.encryptFrame aead plaintext =
      (.error (.frameTooLarge (plaintext.length + aeadRecordOverhead) maxFrameSize), w, aead) :=
  if_pos h

/-- A frame is refused and the reader has failed, or it opens as a plaintext sealed under its key with the
expected number. -/
theorem decryptFrame_cases [DecidableEq Key] (r : AeadReaderSession Key) (aead : IdealAead Key) (frame : Bytes) :
    (∃ e, r.decryptFrame aead frame = (.error e, { r with failed := true })) ∨
    ∃ next, ∃ s ∈ aead.calls, r.failed = false ∧ checkedAdd r.expectedSeq 1 = some next ∧ s.key = r.key ∧
      s.nonce = nonceBytes r.expectedSeq ∧
      r.decryptFrame aead frame = (.ok s.plaintext, { r with expectedSeq := next, failed := false }) := by
  unfold AeadReaderSession.decryptFrame
  split
  · next hfailed =>
    refine .inl ⟨.violation aeadErrClosed, ?_⟩
    obtain ⟨key, seq, failed⟩ := r
    cases hfailed
    rfl
  next hfailed =>
  unfold AeadReaderSession.openFrame
  dsimp only
  split
  · exact .inl ⟨_, rfl⟩
  split
  · exact .inl ⟨_, rfl⟩
  split
  · exact .inl ⟨_, rfl⟩
  next hseq =>
  rw [not_not] at hseq
  rw [hseq]
  split
  · exact .inl ⟨_, rfl⟩
  next plaintext hopen =>
  obtain ⟨s, hs, hkey, hnonce, rfl⟩ := IdealAead.openInPlace_eq_some hopen
  split
  · exact .inl ⟨_, rfl⟩
  · next next hnext => exact .inr ⟨next, s, hs, by simpa using hfailed, hnext, hkey, hnonce, rfl⟩

/-- The number of a new record is fresh. -/
theorem Numbered.nonce_ne (h : Numbered w aead c) {s : Sealed Key} (hs : s ∈ aead.calls) (hkey : s.key = w.key) :
    s.nonce ≠ nonceBytes w.seq := by
  intro hnonce
  obtain ⟨n, hn, hsent⟩ := h.calls s hs hkey
  cases nonceBytes_injective (hn.symm.trans hnonce)
  rw [h.seq, List.getElem?_eq_none (Nat.le_refl _)] at hsent
  cases hsent

theorem Numbered.sealed (h : Numbered w aead c) {next : UInt64} (hnext : checkedAdd w.seq 1 = some next)
    (plaintext ciphertext : Bytes) :
    Numbered { w with seq := next } { aead with calls := aead.calls ++ [w.call plaintext ciphertext] }
      { c with sent := c.sent ++ [plaintext] } where
  seq := by
    rw [checkedAdd_one hnext, h.seq, List.length_append, List.length_singleton]
  calls s hs hkey := by
    rcases List.mem_append.mp hs with hs | hs
    · obtain ⟨n, hn, hsent⟩ := h.calls s hs hkey
      refine ⟨n, hn, ?_⟩
      obtain ⟨hlt, -⟩ := List.getElem?_eq_some_iff.mp hsent
      rw [List.getElem?_append_left hlt]
      exact hsent
    obtain rfl := List.mem_singleton.mp hs
    refine ⟨w.seq, rfl, ?_⟩
    rw [h.seq]
    exact List.getElem?_concat_length

/-- What another writer seals is under another key. -/
theorem Numbered.other (h : Numbered w aead c) {s : Sealed Key} (hs : s.key ≠ w.key) :
    Numbered w { aead with calls := aead.calls ++ [s] } c where
  seq := h.seq
  calls s' hs' hkey := by
    rcases List.mem_append.mp hs' with hs' | hs'
    · exact h.calls s' hs' hkey
    · obtain rfl := List.mem_singleton.mp hs'
      exact absurd hkey hs

theorem NoncesUnique.sealed (h : NoncesUnique aead) (hw : Numbered w aead c) (plaintext ciphertext : Bytes) :
    NoncesUnique { aead with calls := aead.calls ++ [w.call plaintext ciphertext] } := by
  refine List.pairwise_append.mpr ⟨h, List.pairwise_singleton _ _, fun s hs s' hs' hkey => ?_⟩
  obtain rfl := List.mem_singleton.mp hs'
  exact hw.nonce_ne hs hkey

theorem guarded_new (cipher : Key → Bytes → Bytes → Bytes → Option Bytes) (key : Key) :
    Guarded (.new key) (.new key) ⟨cipher, []⟩ .empty where
  key := rfl
  numbered := ⟨rfl, List.forall_mem_nil _⟩
  failed := rfl
  expected _ := rfl

theorem afterEncrypt_step (c : Channel Bytes) (plaintext : Bytes) (result : Except ProtocolError Bytes) :
    c.Step (afterEncrypt c plaintext result) := by
  cases result with
  | ok frame => exact .send plaintext
  | error e => exact .idle

/-- Sealing is a step of the channel. -/
theorem Guarded.encryptFrame (h : Guarded w r aead c) (plaintext : Bytes) :
    Guarded (w.encryptFrame aead plaintext).2.1 r (w.encryptFrame aead plaintext).2.2
      (afterEncrypt c plaintext (w.encryptFrame aead plaintext).1) := by
  rcases encryptFrame_cases w aead plaintext with ⟨e, he⟩ | ⟨next, ciphertext, hnext, hok⟩
  · rw [he]
    exact h
  · rw [hok]
    exact ⟨h.key, h.numbered.sealed hnext plaintext ciphertext, h.failed, h.expected⟩

/-- So is opening, whatever frame is presented. -/
theorem Guarded.decryptFrame [DecidableEq Key] (h : Guarded w r aead c) (frame : Bytes) :
    Guarded w (r.decryptFrame aead frame).2 aead (afterDecrypt c (r.decryptFrame aead frame).1) ∧
      c.Step (afterDecrypt c (r.decryptFrame aead frame).1) := by
  rcases decryptFrame_cases r aead frame with ⟨e, he⟩ | ⟨next, s, hs, hlive, hnext, hkey, hnonce, hok⟩
  · rw [he]
    exact ⟨⟨h.key, ⟨h.numbered.seq, h.numbered.calls⟩, rfl, nofun⟩, .close⟩
  rw [hok]
  have hopen : c.closed = false := h.failed.symm.trans hlive
  have hexpected := h.expected hopen
  -- the call that sealed the plaintext carries the expected number
  obtain ⟨n, hn, hsent⟩ := h.numbered.calls s hs (hkey.trans h.key)
  cases nonceBytes_injective (hn.symm.trans hnonce)
  rw [hexpected] at hsent
  refine ⟨⟨h.key, ⟨h.numbered.seq, h.numbered.calls⟩, hopen.symm, fun _ => ?_⟩, .take s.plaintext hopen hsent⟩
  show next.toNat = (c.taken ++ [s.plaintext]).length
  rw [checkedAdd_one hnext, hexpected, List.length_append, List.length_singleton]

end

/-! ## A writer and a reader -/

/-- A writer and a reader session, the cipher and what they have done. -/
structure SessionPair (Key : Type) where
  writer : AeadWriterSession Key
  reader : AeadReaderSession Key
  aead : IdealAead Key
  channel : Channel Bytes

/-- A plaintext given to the writer, or a frame presented to the reader. -/
inductive RecordEvent where
  | encrypt (plaintext : Bytes)
  | decrypt (frame : Bytes)
deriving DecidableEq, Repr

namespace SessionPair

/-- Both sessions created with `key`. -/
def new (cipher : Key → Bytes → Bytes → Bytes → Option Bytes) (key : Key) : SessionPair Key :=
  ⟨.new key, .new key, ⟨cipher, []⟩, .empty⟩

def step [DecidableEq Key] (p : SessionPair Key) : RecordEvent → SessionPair Key
  | .encrypt plaintext =>
    let (result, writer, aead) := p.writer.encryptFrame p.aead plaintext
    { p with writer, aead, channel := afterEncrypt p.channel plaintext result }
  | .decrypt frame =>
    let (result, reader) := p.reader.decryptFrame p.aead frame
    { p with reader, channel := afterDecrypt p.channel result }

/-- What holds between two sessions of one key. -/
structure Secure (p : SessionPair Key) : Prop where
  guarded : Guarded p.writer p.reader p.aead p.channel
  ordered : p.channel.Ordered
  nonces : (p.aead.calls.map Sealed.nonce).Nodup
  keys : ∀ s ∈ p.aead.calls, s.key = p.writer.key

theorem secure_new (cipher : Key → Bytes → Bytes → Bytes → Option Bytes) (key : Key) : (new cipher key).Secure where
  guarded := guarded_new cipher key
  ordered := Channel.ordered_empty
  nonces := List.nodup_nil
  keys := nofun

variable [DecidableEq Key] {p : SessionPair Key}

/-- Every event is a step of the channel and keeps the sessions secure. -/
theorem Secure.step (h : p.Secure) (event : RecordEvent) :
    (p.step event).Secure ∧ p.channel.Step (p.step event).channel := by
  cases event with
  | encrypt plaintext =>
    have hstep := afterEncrypt_step p.channel plaintext (p.writer.encryptFrame p.aead plaintext).1
    have hguarded := h.guarded.encryptFrame plaintext
    refine ⟨⟨hguarded, hstep.ordered h.ordered, ?_, ?_⟩, hstep⟩
    · show ((p.writer.encryptFrame p.aead plaintext).2.2.calls.map Sealed.nonce).Nodup
      rcases encryptFrame_cases p.writer p.aead plaintext with ⟨e, he⟩ | ⟨next, ciphertext, hnext, hok⟩
      · rw [he]
        exact h.nonces
      rw [hok, List.map_append, List.map_singleton, List.nodup_append]
      refine ⟨h.nonces, List.nodup_singleton _, fun nonce hmem nonce' hmem' => ?_⟩
      obtain ⟨s, hs, rfl⟩ := List.mem_map.mp hmem
      obtain rfl := List.mem_singleton.mp hmem'
      exact h.guarded.numbered.nonce_ne hs (h.keys s hs)
    show ∀ s ∈ (p.writer.encryptFrame p.aead plaintext).2.2.calls,
      s.key = (p.writer.encryptFrame p.aead plaintext).2.1.key
    rcases encryptFrame_cases p.writer p.aead plaintext with ⟨e, he⟩ | ⟨next, ciphertext, hnext, hok⟩
    · rw [he]
      exact h.keys
    rw [hok]
    intro s hs
    rcases List.mem_append.mp hs with hs | hs
    · exact h.keys s hs
    · obtain rfl := List.mem_singleton.mp hs
      rfl
  | decrypt frame =>
    obtain ⟨hguarded, hstep⟩ := h.guarded.decryptFrame frame
    exact ⟨⟨hguarded, hstep.ordered h.ordered, h.nonces, h.keys⟩, hstep⟩

theorem Secure.run (h : p.Secure) (events : List RecordEvent) : (runFrom SessionPair.step p events).Secure := by
  induction events generalizing p with
  | nil => exact h
  | cons event rest ih => exact ih (h.step event).1

theorem Secure.closed (h : p.Secure) (hclosed : p.channel.closed = true) (events : List RecordEvent) :
    (runFrom SessionPair.step p events).channel.taken = p.channel.taken := by
  induction events generalizing p with
  | nil => rfl
  | cons event rest ih =>
    obtain ⟨hsecure, hstep⟩ := h.step event
    obtain ⟨hclosed', htaken⟩ := hstep.closed hclosed
    exact (ih hsecure hclosed').trans htaken

end SessionPair

end

end OxideSwarm
