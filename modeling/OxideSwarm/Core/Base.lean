import OxideSwarm.Lib.FMap
import OxideSwarm.Lib.Text

/-!
# Identifiers, time and what the program takes from outside the repository

`Host` collects the functions that the repository calls but does not contain: IEEE arithmetic, the
text tables of the standard library, the `uuid` crate and the BLAKE3 digest.  Every theorem of the
development is about an arbitrary `Host`, so nothing is assumed about any of them that a statement
does not say.
-/

namespace OxideSwarm

/-- A 128-bit UUID; as a number it has the byte order `Uuid::cmp` uses. -/
abbrev Uuid := BitVec 128

/-- `Uuid::nil()`. -/
def Uuid.nil : Uuid := 0

/-- `task.rs:412`. -/
structure TaskId where
  uuid : Uuid
deriving DecidableEq, Repr

/-- BLAKE3 hash of a blob's content, its name everywhere (`blob.rs:50`). -/
structure BlobId where
  bits : BitVec 256
deriving DecidableEq, Repr

abbrev Bytes := List UInt8

/-- The bytes of an ASCII literal. -/
def asciiBytes (s : String) : Bytes := s.toList.map fun c => UInt8.ofNat c.toNat

/-- `MAX_FRAME_SIZE` (`protocol.rs:16`). -/
def maxFrameSize : Nat := 64 * 1024 * 1024

/-- One file of a tree manifest or of a task's outputs (`blob.rs:286`). -/
structure BlobFile where
  path : String
  id : BlobId
  size : Nat
  executable : Bool
deriving DecidableEq, Repr

/-- A reading of the monotonic clock, in nanoseconds. -/
abbrev Instant := Nat

/-- `instant + Duration::from_millis(ms)`. -/
def Instant.plusMillis (i : Instant) (ms : Nat) : Instant := i + ms * 1000000

/-- What one call reads from the two clocks: `Instant::now()` and `Utc::now().timestamp()`. -/
structure Clock where
  instant : Instant
  epoch : Nat
deriving DecidableEq, Repr

/-- An `f32`, as its bits. -/
structure F32 where
  bits : BitVec 32
deriving DecidableEq, Repr

/-- An `f64`, as its bits. -/
structure F64 where
  bits : BitVec 64
deriving DecidableEq, Repr

/-- The functions the master calls that are not part of the repository. -/
class Host where
  -- IEEE arithmetic and the `as` casts to and from `f64`
  natToF64 : Nat → F64
  f32ToF64 : F32 → F64
  f64ToNat : F64 → Nat
  add : F64 → F64 → F64
  mul : F64 → F64 → F64
  div : F64 → F64 → F64
  powi : F64 → Nat → F64
  ceil : F64 → F64
  round : F64 → F64
  partialCmp : F64 → F64 → Option Ordering
  gtF32 : F32 → F32 → Bool
  maxF32 : F32 → F32 → F32
  -- the standard library's text tables and the `uuid` crate
  escapeDebug : String → String
  debugChar : Char → String
  debugBytes : Bytes → String
  fromUtf8Lossy : Bytes → String
  displayUuid : Uuid → String
  parseUuid : String → Option Uuid
  -- BLAKE3, and what `bincode` says of bytes it cannot decode
  blake3 : Bytes → BlobId
  bincodeError : Bytes → String

/-- A host for concrete runs that compute no float and read no text table. -/
@[reducible] def Host.blank : Host where
  natToF64 _ := ⟨0⟩
  f32ToF64 _ := ⟨0⟩
  f64ToNat _ := 0
  add _ _ := ⟨0⟩
  mul _ _ := ⟨0⟩
  div _ _ := ⟨0⟩
  powi _ _ := ⟨0⟩
  ceil _ := ⟨0⟩
  round _ := ⟨0⟩
  partialCmp _ _ := some .eq
  gtF32 _ _ := false
  maxF32 x _ := x
  escapeDebug s := s
  debugChar c := c.toString
  debugBytes _ := ""
  fromUtf8Lossy _ := ""
  displayUuid _ := ""
  parseUuid _ := none
  blake3 _ := ⟨0⟩
  bincodeError _ := ""

/-- The errors of the queue and the registry (`error.rs`). -/
inductive GridError where
  | config (message : String)
  | queueFull (capacity : Nat)
  | queueByteLimitExceeded (taskBytes inUseBytes maxBytes : Nat)
  | taskNotFound (id : Uuid)
  | invalidTaskState (taskId : Uuid) (current attempted : String)
  | workerNotFound (id : Uuid)
  | connectionClosed
deriving DecidableEq, Repr

end OxideSwarm
