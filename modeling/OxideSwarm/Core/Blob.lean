import OxideSwarm.Core.Base
import OxideSwarm.Lib.Codec

/-!
# Blob paths, task inputs and output patterns (`core/src/blob.rs`)

The checks a task's inputs and output patterns pass before the queue accepts it, and the tree
manifests inputs may name.  Errors carry the source's own texts.
-/

namespace OxideSwarm

variable [Host]

def maxManifestBytes : Nat := 64 * 1024 * 1024
def maxTreeFiles : Nat := 500000
def maxTaskInputs : Nat := 1024
def maxOutputPatterns : Nat := 256
def maxBlobPathBytes : Nat := 4096
def maxPathSegmentBytes : Nat := 255
def sandboxRoot : String := "."
/-- First bytes of every encoded manifest. -/
def manifestMagic : Bytes := "oxideswarm-tree/1\n".toUTF8.toList

def BlobId.of (data : Bytes) : BlobId := Host.blake3 data

/-- `BlobId::to_hex`: 64 lower-case digits, also how a blob id is displayed. -/
def BlobId.toHex (id : BlobId) : String :=
  String.ofList ((List.range 64).map fun i => Nat.digitChar (id.bits.toNat / 16 ^ (63 - i) % 16))

/-- `truncate_for_message`: at most 64 bytes, cut at a character boundary. -/
def truncateForMessage (text : String) : String := Text.truncate 64 text

/-- One segment of `validate_blob_path`'s loop. -/
def validateBlobSegment (path segment : String) : Except String Unit :=
  if segment = "" then .error ("path '" ++ path ++ "' has an empty segment")
  else if segment = "." ∨ segment = ".." then
    .error ("path '" ++ path ++ "' contains '" ++ segment ++ "'; it must be canonical and relative")
  else if Text.len segment > maxPathSegmentBytes then
    .error ("path '" ++ path ++ "' has a segment longer than " ++ toString maxPathSegmentBytes ++ " bytes")
  else .ok ()

/-- `validate_blob_path`: a canonical relative path. -/
def validateBlobPath (path : String) : Except String Unit :=
  if path = "" then .error "a path cannot be empty"
  else if Text.len path > maxBlobPathBytes then
    .error ("path '" ++ truncateForMessage path ++ "…' is longer than " ++ toString maxBlobPathBytes ++ " bytes")
  else if Text.startsWith "/" path then
    .error ("path '" ++ path ++ "' is absolute; it must be relative")
  else
    match path.toList.find? fun c => c = '\\' ∨ c = ':' ∨ c = '\x00' with
    | some c =>
      .error ("path '" ++ Host.escapeDebug path ++ "' contains " ++ Host.debugChar c ++
        ", which is not allowed in a relative path")
    | none => (Text.split '/' path).forM (validateBlobSegment path)

/-! ## Tree manifests

`bincode` with fixed-width integers: lengths and `u64` are 8 bytes, lowest first, a `bool` is one byte. -/

omit [Host] in
theorem fromUTF8_toUTF8 (s : String) : String.fromUTF8? ⟨s.toUTF8.data.toList.toArray⟩ = some s := by
  rw [Array.toArray_toList, String.toUTF8_eq_toByteArray]
  exact dif_pos s.isValidUTF8

/-- A `String`: its UTF-8 bytes. -/
def stringCodec : Codec String :=
  (Codec.bytes 8).via (fun s => s.toUTF8.data.toList) (fun b => String.fromUTF8? ⟨b.toArray⟩) fromUTF8_toUTF8

/-- A `BlobId`: the 32 raw bytes. -/
def BlobId.codec : Codec BlobId :=
  (Codec.be 32).via (fun id => id.bits.toNat) (fun n => some ⟨BitVec.ofNat 256 n⟩)
    fun id => by rw [BitVec.ofNat_toNat, BitVec.setWidth_eq]

def boolCodec : Codec Bool :=
  (Codec.le 1).via Bool.toNat (fun n => if n = 0 then some false else if n = 1 then some true else none)
    fun b => by cases b <;> rfl

/-- A `BlobFile`: its fields in the order of the struct. -/
def BlobFile.codec : Codec BlobFile :=
  (stringCodec.pair (BlobId.codec.pair ((Codec.le 8).pair boolCodec))).via
    (fun f => (f.path, f.id, f.size, f.executable)) (fun t => some ⟨t.1, t.2.1, t.2.2.1, t.2.2.2⟩) fun _ => rfl

/-- A `Vec<BlobFile>`. -/
def blobFilesCodec : Codec (List BlobFile) := BlobFile.codec.list 8

structure TreeManifest where
  files : List BlobFile
deriving DecidableEq, Repr

namespace TreeManifest

/-- The first loop of `validate`: valid paths, none listed twice. -/
def validatePaths : List String → List BlobFile → Except String (List String)
  | paths, [] => .ok paths
  | paths, file :: rest => do
    validateBlobPath file.path
    if file.path ∈ paths then .error ("path '" ++ file.path ++ "' is listed twice")
    validatePaths (file.path :: paths) rest

/-- The proper prefixes of `path` that end before a `/`. -/
def parents (path : String) : List String :=
  ((List.range path.toList.length).filter fun i => path.toList[i]? = some '/').map fun i =>
    String.ofList (path.toList.take i)

def validate (m : TreeManifest) : Except String Unit := do
  if m.files.length > maxTreeFiles then
    .error ("directory has " ++ toString m.files.length ++ " files; at most " ++
      toString maxTreeFiles ++ " can be sent")
  let paths ← validatePaths [] m.files
  m.files.forM fun file =>
    match (parents file.path).find? fun p => p ∈ paths with
    | some parent =>
      .error ("'" ++ parent ++ "' is listed as a file and as the directory of '" ++ file.path ++ "'")
    | none => .ok ()

def new (files : List BlobFile) : Except String TreeManifest := do
  let manifest : TreeManifest := ⟨files.insertionSort fun a b => a.path.toList ≤ b.path.toList⟩
  manifest.validate
  return manifest

def encode (m : TreeManifest) : Bytes := manifestMagic ++ blobFilesCodec.encode m.files

def id (m : TreeManifest) : BlobId := BlobId.of m.encode

/-- `files.windows(2).any(|w| w[0].path >= w[1].path)`. -/
def unsorted : List BlobFile → Bool
  | a :: b :: rest => !decide (a.path.toList < b.path.toList) || unsorted (b :: rest)
  | _ => false

def decode (bytes : Bytes) : Except String TreeManifest := do
  if bytes.length > maxManifestBytes then
    .error ("manifest of " ++ toString bytes.length ++ " bytes exceeds the limit of " ++
      toString maxManifestBytes ++ " bytes")
  match manifestMagic.isPrefixOf? bytes with
  | none => .error "not a directory manifest (unknown header)"
  | some body =>
    match blobFilesCodec.decode body with
    | none => .error ("corrupt directory manifest: " ++ Host.bincodeError body)
    | some files =>
      if unsorted files then .error "directory manifest is not sorted by path"
      validate ⟨files⟩
      return ⟨files⟩

end TreeManifest

/-! ## Task inputs -/

inductive InputSource where
  | file (id : BlobId) (size : Nat) (executable : Bool)
  | tree (manifest : BlobId) (manifestSize : Nat)
deriving DecidableEq, Repr

structure TaskInput where
  path : String
  source : InputSource
deriving DecidableEq, Repr

namespace TaskInput

/-- The blob an input names directly: the file, or the tree's manifest. -/
def blobId (i : TaskInput) : BlobId :=
  match i.source with
  | .file id _ _ => id
  | .tree manifest _ => manifest

def isTree (i : TaskInput) : Bool :=
  match i.source with
  | .tree _ _ => true
  | .file _ _ _ => false

def validate (i : TaskInput) : Except String Unit :=
  if i.isTree ∧ i.path = sandboxRoot then .ok ()
  else (validateBlobPath i.path).mapError fun e => "input destination: " ++ e

end TaskInput

def validateInputsLoop : List String → List TaskInput → Except String Unit
  | _, [] => .ok ()
  | seen, input :: rest => do
    input.validate
    if input.path ∈ seen then .error ("input destination '" ++ input.path ++ "' is used twice")
    validateInputsLoop (input.path :: seen) rest

def validateTaskInputs (inputs : List TaskInput) : Except String Unit :=
  if inputs.length > maxTaskInputs then
    .error ("a task can have at most " ++ toString maxTaskInputs ++ " inputs, this one has " ++
      toString inputs.length)
  else validateInputsLoop [] inputs

/-! ## Output patterns -/

inductive PatternSegment where
  | literal (name : String)
  | wildcard (pattern : String)
  | anyDepth
deriving DecidableEq, Repr

structure OutputPattern where
  text : String
  segments : List PatternSegment
deriving DecidableEq, Repr

/-- The segments of `OutputPattern::parse`; a `**` right after a `**` adds nothing. -/
def patternSegments (text : String) : List PatternSegment → List String → Except String (List PatternSegment)
  | segments, [] => .ok segments
  | segments, raw :: rest =>
    if raw = "" ∨ raw = "." then patternSegments text segments rest
    else if raw = ".." then
      .error ("output pattern '" ++ text ++ "' contains '..'; it must stay in the sandbox")
    else if raw = "**" then
      if segments.getLast? = some .anyDepth then patternSegments text segments rest
      else patternSegments text (segments ++ [.anyDepth]) rest
    else if Text.containsChar '*' raw ∨ Text.containsChar '?' raw then
      patternSegments text (segments ++ [.wildcard raw]) rest
    else patternSegments text (segments ++ [.literal raw]) rest

def OutputPattern.parse (pattern : String) : Except String OutputPattern := do
  let text := Text.trim pattern
  if text = "" then .error "an output pattern cannot be empty"
  if Text.len text > maxBlobPathBytes then
    .error ("output pattern '" ++ truncateForMessage text ++ "…' is longer than " ++
      toString maxBlobPathBytes ++ " bytes")
  if Text.containsChar '\x00' text then .error "an output pattern cannot contain NUL"
  let normalized := Text.replace '\\' '/' text
  if Text.startsWith "/" normalized then
    .error ("output pattern '" ++ text ++ "' is absolute; it must be relative to the task sandbox")
  if Text.containsChar ':' normalized then
    .error ("output pattern '" ++ text ++ "' contains ':' (drive letters are not allowed)")
  let segments ← patternSegments text [] (Text.split '/' normalized)
  if segments = [] then
    .error ("output pattern '" ++ text ++
      "' names the sandbox itself; name the files or directories to bring back")
  return ⟨text, segments⟩

def validateOutputPatterns (patterns : List String) : Except String Unit :=
  if patterns.length > maxOutputPatterns then
    .error ("a task can have at most " ++ toString maxOutputPatterns ++
      " output patterns, this one has " ++ toString patterns.length)
  else patterns.forM fun p => (OutputPattern.parse p).map fun _ => ()

end OxideSwarm
