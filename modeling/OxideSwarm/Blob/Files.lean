import OxideSwarm.Blob.Store
import OxideSwarm.Lib.Files
import OxideSwarm.Lib.Pool

/-!
# The blob store's operations, interleaved (`master/src/blob_store.rs`)

`BlobStore` is the index with the directory it describes and everything in flight: at most one write
per owner (`writes`), reads past their index lookup (`reads`), and temporary files that an abort or a
sweep has taken out of the table and not yet removed (`removals`).  A step is one lock hold or one
blocking file operation; `Io` says how the file operations of the step went.  An aborted owner starts
nothing new, and the write it had in flight goes on.
-/

namespace OxideSwarm

variable [Host]

inductive BlobPath where
  | object (id : BlobId)
  /-- `tmp/{id}.{owner}.part` -/
  | part (owner : BlobOwner) (id : BlobId)
deriving DecidableEq, Repr

inductive BlobReply where
  | missing (ids : List BlobId)
  | chunk (id : BlobId) (offset totalSize : Nat) (data : Bytes)
  | notFound (id : BlobId)
  | written (id : BlobId) (received : Nat) (complete : Bool)
  | failed (message : String)
deriving DecidableEq, Repr

/-- Where the write an owner has in flight stands. -/
inductive WritePhase where
  /-- `evict_to_fit(None)` before the first chunk -/
  | evict (total offset : Nat) (data : Bytes)
  | create (total offset : Nat) (data : Bytes)
  | append (total offset : Nat) (data : Bytes) (upload : Upload)
  | putBack (upload : Upload)
  | commit (upload : Upload)
  /-- the lock hold of `commit` -/
  | install (upload : Upload)
  /-- `abandon_slot`, then `remove_file` if there is a temporary file -/
  | abandon (file : Bool) (message : String)
  | unlink (message : String)
  /-- `evict_to_fit(Some(&id))` after the commit -/
  | trim (total : Nat)
deriving DecidableEq, Repr

structure Write where
  id : BlobId
  phase : WritePhase
deriving DecidableEq, Repr

inductive ReadPhase where
  | open (id : BlobId) (offset len size : Nat)
  | read (id : BlobId) (file : Inode) (offset len size : Nat)
  | forget (id : BlobId)
deriving DecidableEq, Repr

/-- How the file operations of one step went. -/
structure Io where
  now : Instant
  ok : Bool
  error : String
  /-- how much a failed `write_all` wrote -/
  written : Nat
  /-- whether the temporary file could be removed -/
  unlinked : Bool
  /-- which evicted files could be removed -/
  removed : BlobId → Bool

def Io.fine : Io := ⟨0, true, "", 0, true, fun _ => true⟩

/-- The store with its directory and everything in flight.  `hashed` records every content whose digest
was computed, here or by whoever stored the objects the store was opened with. -/
structure BlobStore where
  maxBytes : Nat
  inner : BlobInner
  files : FileSystem BlobPath
  writes : FMap BlobOwner Write
  reads : List ReadPhase
  removals : List (BlobOwner × BlobId)
  aborted : Finset BlobOwner
  replies : List BlobReply
  hashed : List Bytes

namespace BlobStore

def reply (s : BlobStore) (r : BlobReply) : BlobStore := { s with replies := s.replies ++ [r] }

/-- The write of `owner` answers `r` and is over. -/
def finish (s : BlobStore) (owner : BlobOwner) (r : BlobReply) : BlobStore :=
  { s with writes := s.writes.del owner, replies := s.replies ++ [r] }

def goto (s : BlobStore) (owner : BlobOwner) (id : BlobId) (phase : WritePhase) : BlobStore :=
  { s with writes := s.writes.set owner ⟨id, phase⟩ }

def withFiles (s : BlobStore) (files : FileSystem BlobPath) : BlobStore := { s with files := files }

/-- `let _ = std::fs::remove_file(path)`. -/
def removeFile (s : BlobStore) (path : BlobPath) (ok : Bool) : BlobStore :=
  if ok then s.withFiles (s.files.unlink path) else s

/-- Takes an upload out of the table and gives its bytes back. -/
def releaseSlot (s : BlobStore) (owner : BlobOwner) (id : BlobId) : BlobStore :=
  match s.inner.uploads.get (owner, id) with
  | some slot =>
    { s with inner := { s.inner with
        uploads := s.inner.uploads.del (owner, id)
        uploadBytes := s.inner.uploadBytes - slot.total } }
  | none => s

def setSlot (s : BlobStore) (owner : BlobOwner) (id : BlobId) (slot : UploadSlot) : BlobStore :=
  { s with inner := { s.inner with uploads := s.inner.uploads.set (owner, id) slot } }

def touch (s : BlobStore) (id : BlobId) : BlobStore := { s with inner := s.inner.touch id }

def addUploadBytes (s : BlobStore) (total : Nat) : BlobStore :=
  { s with inner := { s.inner with uploadBytes := s.inner.uploadBytes + total } }

/-! ## Writing -/

/-- Reserves room for a new upload, the common end of two branches of `write_chunk`. -/
def reserve (s : BlobStore) (owner : BlobOwner) (id : BlobId) (total offset : Nat) (data : Bytes) :
    BlobStore :=
  if s.inner.uploadBytes + total > s.maxBytes then
    s.reply (.failed ("cannot upload blob " ++ id.toHex ++ " (" ++ toString total ++
      " bytes): uploads in progress already reserve " ++ toString s.inner.uploadBytes ++ " of " ++
      toString s.maxBytes ++ " bytes; raise \x60master --blob-store-mb\x60"))
  else ((s.addUploadBytes total).setSlot owner id (.writing total)).goto owner id
    (.evict total offset data)

/-- `write_chunk` when the store already holds the blob. -/
def alreadyHere (s : BlobStore) (io : Io) (owner : BlobOwner) (id : BlobId) (total : Nat) :
    BlobStore :=
  match s.inner.uploads.get (owner, id) with
  | some (.idle _) =>
    ((s.releaseSlot owner id).removeFile (.part owner id) io.unlinked).reply (.written id total true)
  | _ => (s.releaseSlot owner id).reply (.written id total true)

/-- `write_chunk` when it does not. -/
def openSlot (s : BlobStore) (io : Io) (owner : BlobOwner) (id : BlobId) (total offset : Nat)
    (data : Bytes) : BlobStore :=
  match s.inner.uploads.get (owner, id) with
  | some (.writing _) =>
    s.reply (.failed ("an upload of blob " ++ id.toHex ++
      " is already writing a chunk on this connection"))
  | some (.idle upload) =>
    if offset ≠ 0 then
      (s.setSlot owner id (.writing upload.total)).goto owner id (.append total offset data upload)
    else
      -- starting over: the old attempt is dropped
      ((s.releaseSlot owner id).removeFile (.part owner id) io.unlinked).reserve owner id total offset
        data
  | none =>
    if offset = 0 then s.reserve owner id total offset data
    else s.reply (.failed ("no upload of blob " ++ id.toHex ++
      " in progress here; start at offset 0"))

/-- `write_chunk` up to `spawn_blocking`. -/
def writeChunk (s : BlobStore) (io : Io) (owner : BlobOwner) (id : BlobId) (total offset : Nat)
    (data : Bytes) : BlobStore :=
  if total > s.maxBytes then
    s.reply (.failed ("blob " ++ id.toHex ++ " has " ++ toString total ++
      " bytes, more than the master's whole blob store (" ++ toString s.maxBytes ++
      " bytes); raise \x60master --blob-store-mb\x60"))
  else if s.inner.contains id then (s.touch id).alreadyHere io owner id total
  else (s.touch id).openSlot io owner id total offset data

def checkChunkLen (len remaining : Nat) : Except String Unit :=
  if len > maxChunkBytes ∨ len > remaining then
    .error ("chunk of " ++ toString len ++ " bytes is longer than allowed (" ++
      toString (min remaining maxChunkBytes) ++ " bytes)")
  else if len = 0 ∧ remaining > 0 then .error "empty chunk while bytes of the blob remain"
  else .ok ()

/-- The checks of `append` before it writes. -/
def checkChunk (id : BlobId) (total offset : Nat) (data : Bytes) (upload : Upload) :
    Except String Unit :=
  if upload.total ≠ total then
    .error ("blob " ++ id.toHex ++ " was announced with " ++ toString upload.total ++
      " bytes, now with " ++ toString total)
  else if offset ≠ upload.received then
    .error ("chunk of blob " ++ id.toHex ++ " at offset " ++ toString offset ++ ", but " ++
      toString upload.received ++ " bytes were received so far")
  else (checkChunkLen data.length (total - upload.received)).mapError fun e =>
    "blob " ++ id.toHex ++ ": " ++ e

/-- The upload after a chunk: what is hashed is what is written. -/
def takeChunk (upload : Upload) (data : Bytes) (now : Instant) : Upload :=
  { upload with
    hashed := upload.hashed ++ data
    received := upload.received + data.length
    lastChunk := now }

/-- `append` once the upload is open. -/
def append (s : BlobStore) (io : Io) (owner : BlobOwner) (id : BlobId) (total offset : Nat)
    (data : Bytes) (upload : Upload) : BlobStore :=
  match checkChunk id total offset data upload with
  | .error e => s.goto owner id (.abandon true e)
  | .ok () =>
    if io.ok then
      let next := takeChunk upload data io.now
      let s' := s.withFiles (s.files.append upload.file data)
      if next.received < total then s'.goto owner id (.putBack next)
      else s'.goto owner id (.commit next)
    else
      -- `write_all` failed somewhere in the chunk
      (s.withFiles (s.files.append upload.file (data.take io.written))).goto owner id
        (.abandon true ("cannot store blob " ++ id.toHex ++ ": " ++ io.error))

def create (s : BlobStore) (io : Io) (owner : BlobOwner) (id : BlobId) (total offset : Nat)
    (data : Bytes) : BlobStore :=
  if io.ok then
    (s.withFiles (s.files.create (.part owner id)).2).goto owner id
      (.append total offset data ⟨(s.files.create (.part owner id)).1, [], 0, total, io.now⟩)
  else s.goto owner id
    (.abandon false ("cannot store blob " ++ id.toHex ++ ": " ++ io.error))

/-- The end of `append` for an upload that is not complete. -/
def putBack (s : BlobStore) (owner : BlobOwner) (id : BlobId) (upload : Upload) : BlobStore :=
  match s.inner.uploads.get (owner, id) with
  | some (.writing _) =>
    (s.setSlot owner id (.idle upload)).finish owner (.written id upload.received false)
  | _ => s.goto owner id (.unlink ("upload of blob " ++ id.toHex ++ " was aborted"))

/-- `commit` before it takes the lock: the digest, `sync_all` and the object's directory. -/
def commit (s : BlobStore) (io : Io) (owner : BlobOwner) (id : BlobId) (upload : Upload) :
    BlobStore :=
  let s' := { s with hashed := upload.hashed :: s.hashed }
  if BlobId.of upload.hashed ≠ id then
    s'.goto owner id (.abandon true ("the uploaded content of blob " ++ id.toHex ++
      " hashes to " ++ (BlobId.of upload.hashed).toHex ++ " (did the file change during the upload?)"))
  else if io.ok then s'.goto owner id (.install upload)
  else s'.goto owner id
    (.abandon true ("cannot store blob " ++ id.toHex ++ ": " ++ io.error))

def index (s : BlobStore) (id : BlobId) (size : Nat) : BlobStore :=
  { s with inner := s.inner.insert id size }

/-- The lock hold of `commit`. -/
def install (s : BlobStore) (io : Io) (owner : BlobOwner) (id : BlobId) (upload : Upload) :
    BlobStore :=
  match s.inner.uploads.get (owner, id) with
  | none => s.goto owner id (.unlink ("upload of blob " ++ id.toHex ++ " was aborted"))
  | some _ =>
    let s' := s.releaseSlot owner id
    match if io.ok then s'.files.rename (.part owner id) (.object id) else none with
    | some files => ((s'.withFiles files).index id upload.total).goto owner id (.trim upload.total)
    | none =>
      let s'' := s'.removeFile (.part owner id) io.unlinked
      if (s''.files.read (.object id)).isSome then
        (s''.index id upload.total).goto owner id (.trim upload.total)
      else s''.finish owner (.failed ("cannot store blob " ++ id.toHex ++ ": " ++ io.error))

/-- Takes one evicted blob out of the index and removes its file. -/
def evictOne (io : Io) (s : BlobStore) (id : BlobId) : BlobStore :=
  removeFile { s with inner := s.inner.remove id } (.object id) (io.removed id)

/-- One lock hold of `evict_to_fit`; the answer says whether the loop goes on. -/
def evictToFit (s : BlobStore) (io : Io) (keep : Option BlobId) : Bool × BlobStore :=
  let batch := s.inner.evictionBatch s.maxBytes keep
  (decide (batch.length ≥ evictionBatchSize), batch.foldl (evictOne io) s)

/-- The next step of the write `owner` has in flight. -/
def advance (s : BlobStore) (io : Io) (owner : BlobOwner) (w : Write) : BlobStore :=
  match w.phase with
  | .evict total offset data =>
    if (s.evictToFit io none).1 then (s.evictToFit io none).2
    else (s.evictToFit io none).2.goto owner w.id (.create total offset data)
  | .create total offset data => s.create io owner w.id total offset data
  | .append total offset data upload => s.append io owner w.id total offset data upload
  | .putBack upload => s.putBack owner w.id upload
  | .commit upload => s.commit io owner w.id upload
  | .install upload => s.install io owner w.id upload
  | .abandon true e => (s.releaseSlot owner w.id).goto owner w.id (.unlink e)
  | .abandon false e => (s.releaseSlot owner w.id).finish owner (.failed e)
  | .unlink e => (s.removeFile (.part owner w.id) io.unlinked).finish owner (.failed e)
  | .trim total =>
    if (s.evictToFit io (some w.id)).1 then (s.evictToFit io (some w.id)).2
    else (s.evictToFit io (some w.id)).2.finish owner (.written w.id total true)

/-! ## Reading -/

/-- `read_chunk` up to `spawn_blocking`. -/
def readChunk (s : BlobStore) (id : BlobId) (offset maxLen : Nat) : BlobStore :=
  match s.inner.sizeOf id with
  | none => (s.touch id).reply (.notFound id)
  | some size =>
    if offset > size then
      (s.touch id).reply (.failed ("offset " ++ toString offset ++ " is past the end of blob " ++
        id.toHex ++ " (" ++ toString size ++ " bytes)"))
    else
      let s' := s.touch id
      { s' with reads := s'.reads ++
          [.open id offset (min (min (size - offset) maxLen) blobChunkBytes) size] }

/-- The next step of a read, with the read that is left. -/
def advanceRead (s : BlobStore) (io : Io) : ReadPhase → List ReadPhase × BlobStore
  | .open id offset len size =>
    if io.ok then
      match s.files.names.get (.object id) with
      | some file => ([.read id file offset len size], s)
      | none => ([.forget id], s)
    else ([], s.reply (.failed ("reading blob " ++ id.toHex ++ " failed: " ++ io.error)))
  | .read id file offset len size =>
    -- `read_exact` fails on a file that is too short
    if io.ok ∧ offset + len ≤ (s.files.contents file).length then
      ([], s.reply (.chunk id offset size (((s.files.contents file).drop offset).take len)))
    else ([], s.reply (.failed ("reading blob " ++ id.toHex ++ " failed: " ++ io.error)))
  | .forget id => ([], reply { s with inner := s.inner.remove id } (.notFound id))

/-! ## Aborts, sweeps and pins -/

/-- Drops one upload; the temporary file of an idle one is still to be removed. -/
def dropUpload (s : BlobStore) (key : BlobOwner × BlobId) : BlobStore :=
  match s.inner.uploads.get key with
  | some (.idle _) =>
    { s.releaseSlot key.1 key.2 with removals := s.removals ++ [key] }
  | _ => s.releaseSlot key.1 key.2

def abortUploads (s : BlobStore) (order : SetOrder (BlobOwner × BlobId)) (owner : BlobOwner) :
    BlobStore :=
  ((order.list s.inner.uploads.keys).filter fun key => key.1 = owner).foldl dropUpload s

def isStale (now : Instant) : UploadSlot → Bool
  | .idle u => decide (now - u.lastChunk > staleUploadAfter)
  | .writing _ => false

def sweepStaleUploads (s : BlobStore) (order : SetOrder (BlobOwner × BlobId)) (now : Instant) :
    BlobStore :=
  ((order.list s.inner.uploads.keys).filter fun key =>
    (s.inner.uploads.get key).any (isStale now)).foldl dropUpload s

/-- The lock holds that only pin and unpin. -/
inductive PinOp where
  | pinTask (now : Instant) (t : TaskId) (ids : List BlobId)
  | unpinTask (t : TaskId)
  | checkAndPinOutputs (ids : List BlobId)
  | dropGuard (ids : List BlobId)
  | commitTerminal (order : SetOrder TaskId) (now : Instant) (t : TaskId) (ids : List BlobId)
  | sweepExpiredOutputPins (order : SetOrder TaskId) (now : Instant) (retention : Nat)

def PinOp.apply (inner : BlobInner) (maxBytes : Nat) : PinOp → BlobInner
  | .pinTask now t ids => (inner.pinTask now t ids).2
  | .unpinTask t => inner.unpinTask t
  | .checkAndPinOutputs ids => (inner.checkAndPinOutputs ids).2
  | .dropGuard ids => inner.releasePins ids
  | .commitTerminal order now t ids => inner.commitTerminal order maxBytes now t ids
  | .sweepExpiredOutputPins order now retention => inner.sweepExpiredOutputPins order now retention

/-! ## The interleaved store -/

inductive Label where
  | write (owner : BlobOwner) (id : BlobId) (total offset : Nat) (data : Bytes) (io : Io)
  | advance (owner : BlobOwner) (io : Io)
  /-- the blocking task of a write panics -/
  | joinError (owner : BlobOwner) (error : String)
  | read (id : BlobId) (offset maxLen : Nat)
  | advanceRead (i : Nat) (io : Io)
  | dropRead (i : Nat)
  | missing (ids : List BlobId)
  | abort (owner : BlobOwner)
  | abortUploads (order : SetOrder (BlobOwner × BlobId)) (owner : BlobOwner)
  | sweepStaleUploads (order : SetOrder (BlobOwner × BlobId)) (now : Instant)
  | removal (i : Nat) (io : Io)
  | evict (io : Io)
  | pins (op : PinOp)

/-- One step.  A write starts only if its owner is not aborted and has none in flight. -/
def step (s : BlobStore) : Label → BlobStore
  | .write owner id total offset data io =>
    if owner ∈ s.aborted ∨ (s.writes.get owner).isSome then s
    else s.writeChunk io owner id total offset data
  | .advance owner io =>
    match s.writes.get owner with
    | some w => s.advance io owner w
    | none => s
  | .joinError owner error =>
    match s.writes.get owner with
    | some w => (s.releaseSlot owner w.id).finish owner
        (.failed ("storing blob " ++ w.id.toHex ++ " failed: " ++ error))
    | none => s
  | .read id offset maxLen => s.readChunk id offset maxLen
  | .advanceRead i io =>
    match s.reads[i]? with
    | some r =>
      let (rest, s') := s.advanceRead io r
      { s' with reads := s.reads.eraseIdx i ++ rest }
    | none => s
  | .dropRead i => { s with reads := s.reads.eraseIdx i }
  | .missing ids =>
    if ids.length > maxMissingQuery then
      s.reply (.failed ("a Missing request may name at most " ++ toString maxMissingQuery ++
        " blobs, this one names " ++ toString ids.length))
    else
      let (missing, inner) := s.inner.missingIds [] ids
      reply { s with inner := inner } (.missing missing)
  | .abort owner => { s with aborted := insert owner s.aborted }
  | .abortUploads order owner => if owner ∈ s.aborted then s.abortUploads order owner else s
  | .sweepStaleUploads order now => s.sweepStaleUploads order now
  | .removal i io =>
    match s.removals[i]? with
    | some key =>
      { s.removeFile (.part key.1 key.2) io.unlinked with removals := s.removals.eraseIdx i }
    | none => s
  | .evict io => (s.evictToFit io none).2
  | .pins op => { s with inner := op.apply s.inner s.maxBytes }

/-! ## Opening a directory -/

def new (maxBytes : Nat) : BlobStore :=
  ⟨maxBytes, .empty, .empty, ∅, [], [], ∅, [], []⟩

/-- Indexes one object file found in the directory. -/
def adopt (s : BlobStore) (object : BlobId × Bytes) : BlobStore :=
  match s.files.names.get (.object object.1) with
  | some _ => s
  | none =>
    let opened := s.files.create (.object object.1)
    index { s with files := opened.2.append opened.1 object.2, hashed := object.2 :: s.hashed }
      object.1 object.2.length

/-- `BlobStore::open` on a directory that holds `objects`, oldest first. -/
def openDir (maxBytes : Nat) (objects : List (BlobId × Bytes)) (removed : BlobId → Bool) : BlobStore :=
  let s := objects.foldl adopt (new maxBytes)
  (s.inner.evictionVictims maxBytes none).foldl (evictOne { Io.fine with removed := removed }) s

end BlobStore

end OxideSwarm
