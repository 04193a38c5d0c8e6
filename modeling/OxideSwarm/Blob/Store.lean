import OxideSwarm.Core.Blob
import Mathlib.Data.List.Sort
import Mathlib.Data.List.MinMax
import Std.Data.ExtTreeMap.Lemmas

/-!
# The blob store's index and pins (`master/src/blob_store.rs`)

What `Mutex<Inner>` protects: the indexed blobs with their recency order, the uploads in progress, the
blobs that tasks pin as inputs (`pins`), those that finished tasks keep as outputs (`outputPins`), and
for each blob how many of both hold it (`pinCounts`).  Each function here is one lock hold; the files
themselves are in `Blob/Files.lean`.
-/

namespace OxideSwarm

variable [Host]

/-- Token of one connection's uploads, from `BlobStore::new_owner`. -/
abbrev BlobOwner := Nat

/-- An open file; files are named by number, paths point at them. -/
abbrev Inode := Nat

def staleUploadAfter : Nat := 600 * 1000000000
def evictionBatchSize : Nat := 64
def blobChunkBytes : Nat := 4 * 1024 * 1024
def maxChunkBytes : Nat := 8 * 1024 * 1024
def maxMissingQuery : Nat := 65536

structure BlobEntry where
  size : Nat
  tick : Nat
deriving DecidableEq, Repr

/-- `Upload`; `hashed` is what its hasher was fed. -/
structure Upload where
  file : Inode
  hashed : Bytes
  received : Nat
  total : Nat
  lastChunk : Instant
deriving DecidableEq, Repr

inductive UploadSlot where
  | idle (upload : Upload)
  | writing (total : Nat)
deriving DecidableEq, Repr

def UploadSlot.total : UploadSlot → Nat
  | .idle u => u.total
  | .writing total => total

structure OutputPinEntry where
  pinnedAt : Instant
  seq : Nat
  ids : List BlobId
deriving DecidableEq, Repr

/-- `Inner`. -/
structure BlobInner where
  entries : FMap BlobId BlobEntry
  /-- least recently used first -/
  lru : Std.ExtTreeMap Nat BlobId compare
  tick : Nat
  totalBytes : Nat
  uploadBytes : Nat
  pins : FMap TaskId (Instant × List BlobId)
  outputPins : FMap TaskId OutputPinEntry
  outputPinCounts : FMap BlobId Nat
  outputPinSeq : Nat
  pinCounts : FMap BlobId Nat
  uploads : FMap (BlobOwner × BlobId) UploadSlot

namespace BlobInner

/-- `Inner::default()`. -/
def empty : BlobInner :=
  ⟨∅, ∅, 0, 0, 0, ∅, ∅, ∅, 0, ∅, ∅⟩

/-! ## The index -/

def contains (s : BlobInner) (id : BlobId) : Bool := (s.entries.get id).isSome

def sizeOf (s : BlobInner) (id : BlobId) : Option Nat := (s.entries.get id).map BlobEntry.size

/-- `Inner::touch`: the answer is `contains`, and the clock ticks even for an unknown blob. -/
def touch (s : BlobInner) (id : BlobId) : BlobInner :=
  match s.entries.get id with
  | some entry =>
    { s with
      tick := s.tick + 1
      entries := s.entries.set id { entry with tick := s.tick + 1 }
      lru := (s.lru.erase entry.tick).insert (s.tick + 1) id }
  | none => { s with tick := s.tick + 1 }

def insert (s : BlobInner) (id : BlobId) (size : Nat) : BlobInner :=
  if s.contains id then s.touch id
  else
    { s with
      tick := s.tick + 1
      entries := s.entries.set id ⟨size, s.tick + 1⟩
      lru := s.lru.insert (s.tick + 1) id
      totalBytes := s.totalBytes + size }

def remove (s : BlobInner) (id : BlobId) : BlobInner :=
  match s.entries.get id with
  | some entry =>
    { s with
      entries := s.entries.del id
      lru := s.lru.erase entry.tick
      totalBytes := s.totalBytes - entry.size }
  | none => s

def outputPinnedBytes (s : BlobInner) : Nat :=
  ∑ id ∈ s.outputPinCounts.keys, (s.sizeOf id).getD 0

/-- `total_bytes + upload_bytes`. -/
def used (s : BlobInner) : Nat := s.totalBytes + s.uploadBytes

/-- The loop over `lru` of `evict_to_fit` and of `eviction_victims`: unpinned blobs in that order until
`excess` is covered or `room` are chosen. -/
def victims (s : BlobInner) (keep : Option BlobId) : Nat → Nat → List BlobId → List BlobId
  | _, _, [] => []
  | excess, room, id :: rest =>
    if excess = 0 ∨ room = 0 then []
    else if (s.pinCounts.get id).isSome ∨ keep = some id then victims s keep excess room rest
    else id :: victims s keep (excess - max ((s.sizeOf id).getD 0) 1) (room - 1) rest

/-- The victims of one lock hold of `evict_to_fit`. -/
def evictionBatch (s : BlobInner) (maxBytes : Nat) (keep : Option BlobId) : List BlobId :=
  s.victims keep (s.used - maxBytes) evictionBatchSize s.lru.values

/-- `Inner::eviction_victims`, of which `BlobStore::open` drops all at once. -/
def evictionVictims (s : BlobInner) (maxBytes : Nat) (keep : Option BlobId) : List BlobId :=
  s.victims keep (s.used - maxBytes) s.lru.values.length s.lru.values

def removeAll (s : BlobInner) (ids : List BlobId) : BlobInner := ids.foldl remove s

/-- `missing_ids`: the blobs the store lacks, without repeats; those it holds count as just used. -/
def missingIds (s : BlobInner) : List BlobId → List BlobId → List BlobId × BlobInner
  | _, [] => ([], s)
  | seen, id :: rest =>
    if id ∈ seen then missingIds s seen rest
    else
      let (missing, s') := missingIds (s.touch id) (id :: seen) rest
      (if s.contains id then missing else id :: missing, s')

/-! ## Pins of inputs -/

/-- `*pin_counts.entry(id).or_insert(0) += 1`. -/
def bump (counts : FMap BlobId Nat) (id : BlobId) : FMap BlobId Nat :=
  counts.set id ((counts.get id).getD 0 + 1)

/-- One step of `release_pins`. -/
def lower (counts : FMap BlobId Nat) (id : BlobId) : FMap BlobId Nat :=
  match counts.get id with
  | some count => if count - 1 = 0 then counts.del id else counts.set id (count - 1)
  | none => counts

def releasePins (s : BlobInner) (ids : List BlobId) : BlobInner :=
  { s with pinCounts := ids.foldl lower s.pinCounts }

def releaseOutputPins (s : BlobInner) (ids : List BlobId) : BlobInner :=
  releasePins { s with outputPinCounts := ids.foldl lower s.outputPinCounts } ids

/-- `pin_task`: the ids that are no longer in the store, and the store with `ids` pinned. -/
def pinTask (s : BlobInner) (now : Instant) (t : TaskId) (ids : List BlobId) :
    List BlobId × BlobInner :=
  let gone := ids.filter fun id => !s.contains id
  let s' := { s with pinCounts := ids.foldl bump s.pinCounts, pins := s.pins.set t (now, ids) }
  match s.pins.get t with
  | some (_, previous) => (gone, s'.releasePins previous)
  | none => (gone, s')

/-- The lock hold of `unpin_task`. -/
def unpinTask (s : BlobInner) (t : TaskId) : BlobInner :=
  match s.pins.get t with
  | some (_, ids) => releasePins { s with pins := s.pins.del t } ids
  | none => s

/-- `pinned_tasks`, in the order a run walks the map. -/
def pinnedTasks (s : BlobInner) (order : SetOrder TaskId) : List (TaskId × Instant) :=
  (order.list s.pins.keys).filterMap fun t => (s.pins.get t).map fun pin => (t, pin.1)

/-! ## Pins of outputs -/

/-- `check_and_pin_outputs`: pins all of `ids`, or nothing and says which are missing. -/
def checkAndPinOutputs (s : BlobInner) (ids : List BlobId) :
    Except (List BlobId) (List BlobId) × BlobInner :=
  let unique := ids.reverse.dedup.reverse
  let missing := unique.filter fun id => !s.contains id
  let s' := unique.foldl touch s
  if missing ≠ [] then (.error missing, s')
  else (.ok unique, { s' with pinCounts := unique.foldl bump s'.pinCounts })

/-- The oldest output pin of a task other than `t`. -/
def oldestOther (s : BlobInner) (order : SetOrder TaskId) (t : TaskId) : Option TaskId :=
  ((order.list s.outputPins.keys).filter fun u => u ≠ t).argmin
    fun u => ((s.outputPins.get u).map OutputPinEntry.seq).getD 0

def dropOutputPin (s : BlobInner) (t : TaskId) : BlobInner :=
  match s.outputPins.get t with
  | some entry => releaseOutputPins { s with outputPins := s.outputPins.del t } entry.ids
  | none => s

/-- The `while` of `commit_terminal`; every round drops one output pin, so `fuel` is their number. -/
def shedOutputPins (order : SetOrder TaskId) (maxBytes : Nat) (t : TaskId) :
    Nat → BlobInner → BlobInner
  | 0, s => s
  | fuel + 1, s =>
    if s.outputPins.keys.card > 1 ∧ s.outputPinnedBytes > maxBytes then
      match s.oldestOther order t with
      | some oldest => shedOutputPins order maxBytes t fuel (s.dropOutputPin oldest)
      | none => s
    else s

/-- `OutputPinGuard::commit_terminal`: binds the guard's `ids` to the terminal task. -/
def commitTerminal (s : BlobInner) (order : SetOrder TaskId) (maxBytes : Nat) (now : Instant)
    (t : TaskId) (ids : List BlobId) : BlobInner :=
  if ids = [] then s
  else
    let s' := { s with
      outputPinCounts := ids.foldl bump s.outputPinCounts
      outputPinSeq := s.outputPinSeq + 1
      outputPins := s.outputPins.set t ⟨now, s.outputPinSeq + 1, ids⟩ }
    let s'' := match s.outputPins.get t with
      | some previous => s'.releaseOutputPins previous.ids
      | none => s'
    shedOutputPins order maxBytes t s''.outputPins.keys.card s''

def sweepExpiredOutputPins (s : BlobInner) (order : SetOrder TaskId) (now : Instant)
    (retention : Nat) : BlobInner :=
  let expired := (order.list s.outputPins.keys).filter fun t =>
    (s.outputPins.get t).any fun entry => now - entry.pinnedAt ≥ retention
  expired.foldl dropOutputPin s

end BlobInner

/-! ## Resolving a task's inputs -/

/-- `check_present`, given what `size_of` answered. -/
def checkPresent (stored : Option Nat) (id : BlobId) (size : Nat) (path : String) :
    Except String Unit :=
  match stored with
  | some stored =>
    if stored = size then .ok ()
    else .error ("input '" ++ path ++ "': blob " ++ id.toHex ++ " has " ++ toString stored ++
      " bytes on the master, the task says " ++ toString size)
  | none => .error ("input '" ++ path ++ "': blob " ++ id.toHex ++
      " is not on the master; upload the inputs before " ++
      "submitting (it may also have been evicted: raise \x60master --blob-store-mb\x60)")

def joinBlobPath (base path : String) : String :=
  if base = sandboxRoot then path else base ++ "/" ++ path

/-- What `resolve_inputs` reads while it runs: the size the index gives when the blob of an input is
looked up, and the content of a manifest. -/
structure BlobReadings where
  sizeOf : String → BlobId → Option Nat
  readAll : BlobId → Except String Bytes

/-- The ids one input needs. -/
def resolveInput (seen : BlobReadings) (input : TaskInput) : Except String (List BlobId) :=
  match input.source with
  | .file id size _ => do
    checkPresent (seen.sizeOf input.path id) id size input.path
    return [id]
  | .tree manifest manifestSize => do
    checkPresent (seen.sizeOf input.path manifest) manifest manifestSize input.path
    let bytes ← seen.readAll manifest
    let tree ← (TreeManifest.decode bytes).mapError fun e => "input '" ++ input.path ++ "': " ++ e
    tree.files.forM fun file =>
      let path := joinBlobPath input.path file.path
      checkPresent (seen.sizeOf path file.id) file.id file.size path
    return manifest :: tree.files.map BlobFile.id

/-- `resolve_inputs`: every blob the inputs need, sorted and without repeats. -/
def resolveInputs (seen : BlobReadings) (inputs : List TaskInput) : Except String (List BlobId) := do
  let ids ← inputs.mapM (resolveInput seen)
  return (ids.flatten.insertionSort fun a b => a.bits.toNat ≤ b.bits.toNat).dedup

end OxideSwarm
