import OxideSwarm.Blob.Files
import OxideSwarm.Lib.Fallible

/-!
# Moving blobs between peers (`core/src/blob_transfer.rs`)

A peer calls the master and waits for the answer.  `BlobChannel` is how the successive calls of one
transfer are answered, each answer depending on its request: a channel may stand for the master's blob
store, for one that lies or for a connection that breaks.  The routines recurse over the channel, one
call at a time.
-/

namespace OxideSwarm

open Fallible

variable [Host]

def transferConcurrency : Nat := 8

inductive BlobRequest where
  | missing (ids : List BlobId)
  | read (id : BlobId) (offset maxLen : Nat)
  | write (id : BlobId) (totalSize offset : Nat) (data : Bytes)
deriving DecidableEq, Repr

inductive BlobError where
  | notFound (id : BlobId)
  | corrupt (id : BlobId) (reason : String)
  | refused (message : String)
  | transport (message : String)
  | io (message : String)
deriving DecidableEq, Repr

/-- The `Display` of a `BlobError`. -/
def BlobError.display : BlobError → String
  | .notFound id => "blob " ++ id.toHex ++ " is not on the master (never uploaded, or evicted from its blob store)"
  | .corrupt id reason => "blob " ++ id.toHex ++ " failed verification: " ++ reason
  | .refused message => "blob transfer refused: " ++ message
  | .transport message => "blob transfer failed: " ++ message
  | .io message => "I/O error during blob transfer: " ++ message

def BlobId.short (id : BlobId) : String := String.ofList (id.toHex.toList.take 12)

/-- The `Debug` of a blob id. -/
def BlobId.debug (id : BlobId) : String := "BlobId(" ++ id.short ++ ")"

/-- The derived `Debug` of a `BlobReply`. -/
def BlobReply.debug : BlobReply → String
  | .missing ids => "Missing \x7b ids: [" ++ Text.join ", " (ids.map BlobId.debug) ++ "] \x7d"
  | .chunk id offset totalSize data => "Chunk \x7b id: " ++ id.debug ++ ", offset: " ++ toString offset ++
      ", total_size: " ++ toString totalSize ++ ", data: " ++ Host.debugBytes data ++ " \x7d"
  | .notFound id => "NotFound \x7b id: " ++ id.debug ++ " \x7d"
  | .written id received complete => "Written \x7b id: " ++ id.debug ++ ", received: " ++ toString received ++
      ", complete: " ++ toString complete ++ " \x7d"
  | .failed message => "Failed \x7b message: \"" ++ Host.escapeDebug message ++ "\" \x7d"

def unexpected (reply : BlobReply) (wanted : String) : BlobError :=
  match reply with
  | .failed message => .refused message
  | .notFound id => .notFound id
  | other => .transport ("expected " ++ wanted ++ ", the master answered " ++ other.debug)

/-- How the calls of a transfer are answered, one after the other; a call past the end finds the connection
closed. -/
abbrev BlobChannel := List (BlobRequest → Except BlobError BlobReply)

def connectionEnded : BlobError := .transport "the connection to the master ended"

def checkChunkLen (len remaining : Nat) : Except String Unit :=
  if len > maxChunkBytes ∨ len > remaining then
    .error ("chunk of " ++ toString len ++ " bytes is longer than allowed (" ++
      toString (min remaining maxChunkBytes) ++ " bytes)")
  else if len = 0 ∧ remaining > 0 then .error "empty chunk while bytes of the blob remain"
  else .ok ()

def missingBlobs : BlobChannel → List BlobId → Except BlobError (List BlobId)
  | _, [] => .ok []
  | [], _ :: _ => .error connectionEnded
  | answer :: channel, ids => do
    match ← answer (.missing (ids.take maxMissingQuery)) with
    | .missing lacking => return lacking ++ (← missingBlobs channel (ids.drop maxMissingQuery))
    | other => .error (unexpected other "Missing")

/-- The loop of `upload_blob` from `offset` on, with `content` behind the reader. -/
def uploadBlob (id : BlobId) (size : Nat) (content : Bytes) : Nat → BlobChannel → Except BlobError Nat
  | _, [] => .error connectionEnded
  | offset, answer :: channel => do
    let want := min (size - offset) blobChunkBytes
    let data := (content.drop offset).take want
    if data.length < want then
      .error (.corrupt id ("the source ended before " ++ toString size ++
        " bytes (did it change during the upload?)"))
    match ← answer (.write id size offset data) with
    | .written _ received complete =>
      if complete then return offset + want
      else if received = offset + want ∧ offset + want < size then
        uploadBlob id size content (offset + want) channel
      else .error (.transport ("the master holds " ++ toString received ++ " bytes of blob " ++ id.toHex ++
        " after " ++ toString (offset + want) ++ " were sent"))
    | other => .error (unexpected other "Written")

/-- What `download_blob` does with one reply after it received `got`: everything received by then, and the
size the master reports. -/
def downloadChunk (id : BlobId) (expectedSize : Option Nat) (got : Bytes) (reply : BlobReply) :
    Except BlobError (Bytes × Nat) :=
  match reply with
  | .chunk chunkId chunkOffset totalSize data =>
    if chunkId ≠ id then .error (unexpected reply "Chunk")
    else
      match expectedSize.filter (· ≠ totalSize) with
      | some expected => .error (.corrupt id ("expected " ++ toString expected ++ " bytes, the master holds " ++
          toString totalSize))
      | none =>
        if chunkOffset ≠ got.length ∨ got.length > totalSize then
          .error (.transport ("asked for offset " ++ toString got.length ++ " of blob " ++ id.toHex ++ " (" ++
            toString totalSize ++ " bytes), got " ++ toString chunkOffset))
        else
          match checkChunkLen data.length (totalSize - got.length) with
          | .error reason => .error (.corrupt id reason)
          | .ok () => .ok (got ++ data, totalSize)
  | other => .error (unexpected other "Chunk")

/-- `download_blob` after `got` was written: the whole content. -/
def downloadBlob (id : BlobId) (expectedSize : Option Nat) : Bytes → BlobChannel → Except BlobError Bytes
  | _, [] => .error connectionEnded
  | got, answer :: channel => do
    let reply ← answer (.read id got.length blobChunkBytes)
    let (got, totalSize) ← downloadChunk id expectedSize got reply
    if got.length = totalSize then
      if BlobId.of got ≠ id then .error (.corrupt id ("content hashes to " ++ (BlobId.of got).toHex))
      else return got
    else downloadBlob id expectedSize got channel

/-- `for_each_concurrently`: the first `transferConcurrency` jobs are in flight, and `picks` says which of them
ends next. -/
def forEachConcurrently {α : Type} (job : α → Except BlobError Nat) (picks : List Nat) (items : List α) :
    Except BlobError Nat :=
  go items.length picks items
where
  go : Nat → List Nat → List α → Except BlobError Nat
    | 0, _, _ => .ok 0
    | n + 1, picks, items =>
      let k := picks.headD 0 % min transferConcurrency items.length
      match items[k]? with
      | none => .ok 0
      | some item => do
        let bytes ← job item
        let rest ← go n picks.tail (items.eraseIdx k)
        return bytes + rest

/-- **A download is verified.**  Whatever the master answers, what `download_blob` returns has the id asked for. -/
theorem downloadBlob_verified {id : BlobId} {expectedSize : Option Nat} {content : Bytes} :
    ∀ {channel : BlobChannel} {got : Bytes}, downloadBlob id expectedSize got channel = .ok content →
      BlobId.of content = id := by
  intro channel
  induction channel with
  | nil => exact fun h => nomatch h
  | cons answer channel ih =>
    intro got h
    obtain ⟨reply, -, h⟩ := bind_ok.mp h
    obtain ⟨⟨got', totalSize⟩, -, h⟩ := bind_ok.mp h
    dsimp only at h
    split at h
    · obtain ⟨hid, h⟩ := ite_error_ok.mp h
      cases h
      exact not_not.mp hid
    · exact ih h

end OxideSwarm
