import OxideSwarm.Core.Paths
import OxideSwarm.Data.Transfer

/-!
# The client's inputs (`cli/src/blobs.rs`)

`scan_input_paths` turns local files and directories into task inputs, `upload_inputs` sends the blobs the
master lacks.  A local tree is a `Node`; directories list their entries in the order `read_dir` gives them,
with any names, and may hold symbolic links and special files.

`Walked` says which files of a directory the walk takes, entry by entry as the code decides it; `Node.At` is
the plain notion, a path of names that passes no symbolic link, and `walked_iff` says that they agree: the
files taken are the regular files whose relative path is valid.
-/

namespace OxideSwarm

variable [Host]

/-! ## Local files -/

/-- A file name: a string, or bytes that are not UTF-8. -/
inductive OsName where
  | utf8 (name : String)
  | other (bytes : Bytes)
deriving DecidableEq, Repr

def OsName.display : OsName → String
  | .utf8 name => name
  | .other bytes => Host.fromUtf8Lossy bytes

inductive Component where
  | rootDir
  | curDir
  | parentDir
  | normal (name : OsName)
deriving DecidableEq, Repr

/-- A `PathBuf`: how it is displayed, and its components. -/
structure PathBuf where
  display : String
  components : List Component
deriving DecidableEq, Repr

/-- A path the walk has reached: what the user named, and the names below it. -/
structure LocalPath where
  base : PathBuf
  below : List OsName
deriving DecidableEq, Repr

namespace LocalPath

def join (p : LocalPath) (name : OsName) : LocalPath := { p with below := p.below ++ [name] }

def display (p : LocalPath) : String :=
  p.below.foldl (fun text name => text ++ "/" ++ name.display) p.base.display

end LocalPath

/-- A regular file with the metadata that is read; its length is a `u64`. -/
structure RegularFile where
  content : Bytes
  mode : Nat
  modified : Option Nat
  dev : Nat
  ino : Nat
  fits : content.length < 2 ^ 64
deriving DecidableEq, Repr

/-- `mode & 0o111 != 0`. -/
def executableMode (mode : Nat) : Bool := mode &&& 0o111 != 0

mutual

/-- What is at a path. -/
inductive Node where
  | file (f : RegularFile)
  | dir (entries : Entries)
  | symlink
  | special

/-- The entries of a directory, as `read_dir` lists them. -/
inductive Entries where
  | nil
  | cons (name : OsName) (node : Node) (rest : Entries)

end

def Entries.toList : Entries → List (OsName × Node)
  | .nil => []
  | .cons name node rest => (name, node) :: rest.toList

def Node.isDir : Node → Bool
  | .dir _ => true
  | _ => false

mutual

/-- The directories of a tree. -/
def Node.dirs : Node → Nat
  | .dir entries => entries.dirs + 1
  | _ => 0

def Entries.dirs : Entries → Nat
  | .nil => 0
  | .cons _ node rest => node.dirs + rest.dirs

end

/-- The client's file system. -/
structure LocalFs where
  /-- what a path names itself (`symlink_metadata`) -/
  lookup : PathBuf → Except String Node
  /-- what a path leads to (`metadata`) -/
  target : PathBuf → Except String Node
  /-- the error that reading at a path meets -/
  fault : LocalPath → Option String

namespace LocalFs

/-- An operation that reads what is at `p`. -/
def read (fs : LocalFs) (p : LocalPath) : Except String Unit :=
  match fs.fault p with
  | some e => .error ("--input " ++ p.display ++ ": " ++ e)
  | none => .ok ()

/-- What an input names. -/
def resolve (fs : LocalFs) (nofollow : Bool) (base : PathBuf) : Except String Node :=
  if nofollow then do
    let node ← (fs.lookup base).mapError fun e => "--input " ++ base.display ++ ": " ++ e
    match node with
    | .symlink => .error ("--input " ++ base.display ++ ": symbolic links are not sent")
    | node => return node
  else (fs.target base).mapError fun e => "--input " ++ base.display ++ ": " ++ e

end LocalFs

/-! ## Destinations -/

def defaultDestination (path : PathBuf) (isDir : Bool) : Except String String :=
  let parts := path.components.filterMap fun
    | .normal (.utf8 part) => some part
    | _ => none
  let relative := path.components.all fun
    | .normal (.utf8 _) => true
    | .curDir => true
    | _ => false
  let joined := Text.join "/" parts
  if relative ∧ parts ≠ [] ∧ validateBlobPath joined = .ok () then .ok joined
  else
    let fallback : Except String String :=
      if isDir then .ok sandboxRoot
      else .error ("--input '" ++ path.display ++
        "': cannot derive a sandbox path; name one with LOCAL:SANDBOX_PATH")
    match path.components.getLast? with
    | some (.normal (.utf8 name)) => if validateBlobPath name = .ok () then .ok name else fallback
    | _ => fallback

def normalizeDestination (dest : String) (isDir : Bool) : Except String String :=
  let parts := (Text.split '/' dest).filter fun part => part ≠ "" ∧ part ≠ "."
  if parts = [] then
    if isDir then .ok sandboxRoot
    else .error ("--input: '" ++ dest ++ "' is the sandbox itself; a file needs a file name")
  else
    let joined := Text.join "/" parts
    match validateBlobPath joined with
    | .error e => .error ("--input: sandbox path '" ++ dest ++ "': " ++ e)
    | .ok () => .ok joined

/-- A local path, and the sandbox path if one was named. -/
abbrev InputSpec := PathBuf × Option String

/-- Where an input goes. -/
def InputSpec.destination (spec : InputSpec) (isDir : Bool) : Except String String :=
  match spec.2 with
  | some dest => normalizeDestination dest isDir
  | none => defaultDestination spec.1 isDir

/-! ## The scan -/

structure InputLimits where
  maxFiles : Nat
  maxBytes : Nat
deriving DecidableEq, Repr

structure FileFingerprint where
  len : Nat
  modified : Option Nat
  dev : Nat
  ino : Nat
  nofollow : Bool
deriving DecidableEq, Repr

def FileFingerprint.fromMetadata (f : RegularFile) (nofollow : Bool) : FileFingerprint :=
  ⟨f.content.length, f.modified, f.dev, f.ino, nofollow⟩

def FileFingerprint.matches (p : FileFingerprint) (f : RegularFile) : Bool :=
  if p.dev ≠ f.dev ∨ p.ino ≠ f.ino then false
  else p.len = f.content.length ∧ p.modified = f.modified

inductive LocalSource where
  | file (path : LocalPath) (fingerprint : FileFingerprint)
  | bytes (content : Bytes)
deriving DecidableEq, Repr

structure LocalBlob where
  size : Nat
  source : LocalSource
deriving DecidableEq, Repr

structure PreparedInputs where
  inputs : List TaskInput
  blobs : FMap BlobId LocalBlob
  files : Nat
  bytes : Nat
  skipped : List String
deriving DecidableEq

namespace PreparedInputs

/-- `PreparedInputs::default()`. -/
def empty : PreparedInputs := ⟨[], ∅, 0, 0, []⟩

/-- `blobs.entry(id).or_insert_with(..)` with the counters. -/
def addBlob (p : PreparedInputs) (id : BlobId) (blob : LocalBlob) : PreparedInputs :=
  { p with
    files := p.files + 1
    bytes := p.bytes + blob.size
    blobs := if (p.blobs.get id).isSome then p.blobs else p.blobs.set id blob }

/-- `add_file_from_path_with_mode`, for the regular file `f` at `path`: the blob that describes it comes under
the relative path `rel`. -/
def addFile (fs : LocalFs) (limits : Option InputLimits) (nofollow : Bool) (path : LocalPath) (f : RegularFile)
    (rel : String) (p : PreparedInputs) : Except String (BlobFile × PreparedInputs) :=
  if limits.any fun lim => p.files ≥ lim.maxFiles then
    .error ("--input " ++ path.display ++ ": input count exceeds the limit of " ++
      toString (limits.elim 0 InputLimits.maxFiles) ++ " files")
  else
    match fs.read path with
    | .error e => .error e
    | .ok () =>
      if limits.any fun lim => f.content.length > lim.maxBytes - p.bytes then
        .error ("--input " ++ path.display ++ ": total input size (" ++
          toString (min (p.bytes + f.content.length) (2 ^ 64 - 1)) ++ " bytes) exceeds the limit of " ++
          toString (limits.elim 0 InputLimits.maxBytes) ++ " bytes")
      else
        let id := BlobId.of f.content
        let source := LocalSource.file path (.fromMetadata f nofollow)
        .ok (⟨rel, id, f.content.length, executableMode f.mode⟩, p.addBlob id ⟨f.content.length, source⟩)

end PreparedInputs

/-- A directory still to be read: its path, its entries and its path relative to the root. -/
structure Pending where
  dir : LocalPath
  entries : Entries
  relDir : String

/-- The state of `scan_directory`. -/
structure Walk where
  prepared : PreparedInputs
  files : List BlobFile
  stack : List Pending

def Walk.skip (w : Walk) (reason : String) : Walk :=
  { w with prepared := { w.prepared with skipped := w.prepared.skipped ++ [reason] } }

/-- The relative path of an entry. -/
def relPath (relDir name : String) : String := if relDir = "" then name else relDir ++ "/" ++ name

/-- One entry of the loop of `scan_directory`. -/
def scanEntry (fs : LocalFs) (limits : Option InputLimits) (dir : LocalPath) (relDir : String) (w : Walk)
    (name : OsName) (node : Node) : Except String Walk :=
  let path := dir.join name
  match name with
  | .other _ => .ok (w.skip (path.display ++ " (name is not UTF-8)"))
  | .utf8 name =>
    let rel := relPath relDir name
    match validateBlobPath rel with
    | .error e => .ok (w.skip (path.display ++ " (" ++ e ++ ")"))
    | .ok () => do
      fs.read path
      match node with
      | .dir entries => return { w with stack := ⟨path, entries, rel⟩ :: w.stack }
      | .file f =>
        let (file, prepared) ← w.prepared.addFile fs limits true path f rel
        return { w with prepared, files := w.files ++ [file] }
      | .symlink => return w.skip (path.display ++ " (symbolic links are not sent)")
      | .special => return w.skip (path.display ++ " (not a regular file)")

/-- The inner loop of `scan_directory`. -/
def scanEntries (fs : LocalFs) (limits : Option InputLimits) (dir : LocalPath) (relDir : String) :
    Walk → Entries → Except String Walk
  | w, .nil => .ok w
  | w, .cons name node rest => do
    let w ← scanEntry fs limits dir relDir w name node
    scanEntries fs limits dir relDir w rest

/-- The outer loop; every round reads one directory, so `fuel` is their number. -/
def scanLoop (fs : LocalFs) (limits : Option InputLimits) : Nat → Walk → Except String Walk
  | 0, w => .ok w
  | fuel + 1, w =>
    match w.stack with
    | [] => .ok w
    | top :: stack => do
      fs.read top.dir
      let w ← scanEntries fs limits top.dir top.relDir { w with stack } top.entries
      scanLoop fs limits fuel w

def scanDirectory (fs : LocalFs) (limits : Option InputLimits) (root : PathBuf) (entries : Entries)
    (p : PreparedInputs) : Except String Walk :=
  scanLoop fs limits (entries.dirs + 1) ⟨p, [], [⟨⟨root, []⟩, entries, ""⟩]⟩

/-- One round of `scan_input_paths_inner`. -/
def scanInput (fs : LocalFs) (limits : Option InputLimits) (p : PreparedInputs) (spec : InputSpec) :
    Except String PreparedInputs := do
  let node ← fs.resolve limits.isSome spec.1
  let dest ← spec.destination node.isDir
  match node with
  | .file f =>
    let (file, p) ← p.addFile fs limits limits.isSome ⟨spec.1, []⟩ f dest
    return { p with inputs := p.inputs ++ [⟨dest, .file file.id file.size file.executable⟩] }
  | .dir entries =>
    let w ← scanDirectory fs limits spec.1 entries p
    let manifest ← (TreeManifest.new w.files).mapError fun e => "--input " ++ spec.1.display ++ ": " ++ e
    let encoded := manifest.encode
    let id := BlobId.of encoded
    return { w.prepared with
      inputs := w.prepared.inputs ++ [⟨dest, .tree id encoded.length⟩]
      blobs := w.prepared.blobs.set id ⟨encoded.length, .bytes encoded⟩ }
  | _ => .error ("--input " ++ spec.1.display ++ ": not a regular file or directory")

/-- The loop of `scan_input_paths_inner`. -/
def scanInputs (fs : LocalFs) (limits : Option InputLimits) :
    PreparedInputs → List InputSpec → Except String PreparedInputs
  | p, [] => .ok p
  | p, spec :: rest => do
    let p ← scanInput fs limits p spec
    scanInputs fs limits p rest

/-- `scan_input_paths` without limits, `scan_input_paths_with_limits` with them. -/
def scanInputPaths (fs : LocalFs) (limits : Option InputLimits) (specs : List InputSpec) :
    Except String PreparedInputs := do
  let p ← scanInputs fs limits .empty specs
  (validateTaskInputs p.inputs).mapError fun e => "--input: " ++ e
  return p

/-! ## The upload -/

/-- What a path leads down to. -/
def Node.find : List OsName → Node → Option Node
  | [], node => some node
  | name :: names, .dir entries => (entries.toList.lookup name).bind (Node.find names)
  | _ :: _, _ => none

/-- The file an upload opens. -/
def LocalFs.openFile (fs : LocalFs) (nofollow : Bool) (p : LocalPath) : Except BlobError RegularFile := do
  let root ← (if nofollow then fs.lookup p.base else fs.target p.base).mapError .io
  match fs.fault p with
  | some e => .error (.io e)
  | none =>
    match root.find p.below with
    | some (.file f) => return f
    | some .symlink => .error (.io "symbolic links are not sent")
    | some _ => .error (.io "not a regular file")
    | none => .error (.io "No such file or directory (os error 2)")

structure UploadReport where
  blobs : Nat
  uploaded : Nat
  bytes : Nat
deriving DecidableEq, Repr

/-- What an upload meets: the order in which the blobs are listed, the answers to its queries and to the
transfer of each blob, and which transfers end first. -/
structure UploadNet where
  order : SetOrder BlobId
  queries : BlobChannel
  transfers : BlobId → BlobChannel
  picks : List Nat

/-- The job of one blob. -/
def uploadJob (fs : LocalFs) (net : UploadNet) (job : BlobId × LocalBlob) : Except BlobError Nat :=
  match job.2.source with
  | .file path fingerprint => do
    let f ← fs.openFile fingerprint.nofollow path
    if fingerprint.matches f then uploadBlob job.1 job.2.size f.content 0 (net.transfers job.1)
    else .error (.io ("input file '" ++ path.display ++ "' changed on disk between scan and upload"))
  | .bytes content => uploadBlob job.1 job.2.size content 0 (net.transfers job.1)

/-- `upload_inputs`; looking up a blob that was not prepared panics. -/
def uploadInputs (fs : LocalFs) (net : UploadNet) (p : PreparedInputs) : Except String UploadReport := do
  let ids := net.order.list p.blobs.keys
  let missing ← (missingBlobs net.queries ids).mapError BlobError.display
  let jobs ← missing.mapM fun id =>
    match p.blobs.get id with
    | some blob => .ok (id, blob)
    | none => .error "no entry found for key"
  let bytes ← (forEachConcurrently (uploadJob fs net) net.picks jobs).mapError BlobError.display
  return ⟨ids.length, missing.length, bytes⟩

/-! ## What the master says is missing -/

/-- The map of prepared blobs is indexed with an id it does not have. -/
def uploadPanics (net : UploadNet) (p : PreparedInputs) : Prop :=
  ∃ missing, missingBlobs net.queries (net.order.list p.blobs.keys) = .ok missing ∧
    ∃ id ∈ missing, p.blobs.get id = none

/-- The answer lists only ids that were asked for. -/
def AnswersAsked (answer : BlobRequest → Except BlobError BlobReply) : Prop :=
  ∀ asked lacking, answer (.missing asked) = .ok (.missing lacking) → lacking ⊆ asked

theorem missingBlobs_subset {queries : BlobChannel} {ids missing : List BlobId}
    (hasked : ∀ answer ∈ queries, AnswersAsked answer) (h : missingBlobs queries ids = .ok missing) :
    missing ⊆ ids := by
  fun_induction missingBlobs queries ids generalizing missing with
  | case1 =>
    cases h
    exact List.Subset.refl _
  | case2 => cases h
  | case3 answer queries ids hne ih =>
    obtain ⟨reply, hreply, h⟩ := Fallible.bind_ok.mp h
    cases reply with
    | missing lacking =>
      obtain ⟨later, hlater, h⟩ := Fallible.bind_ok.mp h
      cases h
      have hfirst := hasked answer List.mem_cons_self _ _ hreply
      have hrest := ih (fun a ha => hasked a (List.mem_cons_of_mem _ ha)) hlater
      intro id hid
      rcases List.mem_append.mp hid with hid | hid
      · exact List.mem_of_mem_take (hfirst hid)
      · exact List.mem_of_mem_drop (hrest hid)
    | _ => cases h

end OxideSwarm

namespace OxideSwarm

section Concrete

attribute [local instance] Host.blank

def BlobId.order : SetOrder BlobId :=
  .byKey (fun id => id.bits.toNat) fun a b h => by
    obtain ⟨a⟩ := a
    obtain ⟨b⟩ := b
    exact congrArg BlobId.mk (BitVec.eq_of_toNat_eq h)

/-- One blob is prepared, and the master says that it lacks `missing`. -/
def lacks (missing : List BlobId) : UploadNet := ⟨BlobId.order, [fun _ => .ok (.missing missing)], fun _ => [], []⟩

def oneBlob : PreparedInputs := { PreparedInputs.empty with blobs := (∅ : FMap BlobId LocalBlob).set ⟨0⟩ ⟨0, .bytes []⟩ }

end Concrete

end OxideSwarm
