import OxideSwarm.Core.Patterns
import OxideSwarm.Data.Scan
import OxideSwarm.Worker.Tasks

/-!
# Collecting a task's output files (`worker/src/staging.rs`)

`collect_outputs` walks the sandbox from the literal prefix of every pattern, gathers the regular files that are
selected, and moves them into the blob cache in the order of their paths.

The sandbox is a tree that nobody else changes during the call (`SandboxTree`): an operation that fails for a reason of
its own does so whenever it is tried, and looking up a path meets the error of every directory on the way.  What lies
behind a symbolic link is not part of the tree (`beyond`); the operations of the source that follow links reach it.
-/

namespace OxideSwarm

variable [Host]

/-- Directory entries a collection walk may visit before it gives up. -/
def maxWalkEntries : Nat := 1000000

structure OutputLimits where
  maxBytes : Nat
  maxFiles : Nat
deriving DecidableEq, Repr

/-! ## The sandbox -/

/-- A name a directory entry can have. -/
def OsName.Plain : OsName → Prop
  | .utf8 name => name ≠ "" ∧ '/' ∉ name.toList
  | .other _ => True

instance (name : OsName) : Decidable name.Plain :=
  match name with
  | .utf8 _ => inferInstanceAs (Decidable (_ ∧ _))
  | .other _ => isTrue trivial

mutual

/-- Every directory of the tree lists each of its names once. -/
def Node.WellNamed : Node → Prop
  | .dir entries => entries.WellNamed
  | _ => True

def Entries.WellNamed : Entries → Prop
  | .nil => True
  | .cons name node rest =>
    name.Plain ∧ (∀ e ∈ rest.toList, e.1 ≠ name) ∧ node.WellNamed ∧ rest.WellNamed

end

/-- What a path that cannot be read tells: `NotFound` or `NotADirectory`, or another error. -/
inductive StatError where
  | absent
  | other (text : String)
deriving DecidableEq, Repr

/-- The operations on the sandbox that may fail for a reason of their own. -/
inductive SandboxCall where
  | readDir
  | nextEntry
  | fileType
  | metadata
  | openFile
deriving DecidableEq, Repr

structure SandboxTree where
  /-- how the canonical path of the root is displayed -/
  root : String
  entries : Entries
  wellNamed : entries.WellNamed
  /-- the error that `canonicalize` meets -/
  canonical : Option String
  /-- the error that looking up a path meets at its last name -/
  lookup : List OsName → Option String
  fault : SandboxCall → List OsName → Option String
  /-- what a path that passes or ends at a symbolic link leads to -/
  beyond : List OsName → Except StatError Node

namespace SandboxTree

variable (fs : SandboxTree)

def display (path : List OsName) : String := path.foldl (fun text name => text ++ "/" ++ name.display) fs.root

/-- An operation at `path`; `text` is the message for its error. -/
def call (c : SandboxCall) (path : List OsName) (text : String → String) : Except String Unit :=
  match fs.fault c path with
  | some e => .error (text e)
  | none => .ok ()

/-- The lookup of the names `names` below `node`, which is at `path`. -/
def lstatFrom : List OsName → Node → List OsName → Except StatError Node
  | path, node, [] =>
    match fs.lookup path with
    | some e => .error (.other e)
    | none => .ok node
  | path, node, name :: names =>
    match fs.lookup path with
    | some e => .error (.other e)
    | none =>
      match node with
      | .dir entries =>
        match entries.toList.lookup name with
        | none => .error .absent
        | some child => lstatFrom (path ++ [name]) child names
      | .symlink => fs.beyond (path ++ name :: names)
      | _ => .error .absent

/-- `symlink_metadata`. -/
def lstat (path : List OsName) : Except StatError Node := fs.lstatFrom [] (.dir fs.entries) path

/-- `metadata`, when the files `moved` have gone. -/
def stat (moved : List (List OsName)) (path : List OsName) : Except StatError Node :=
  if path ∈ moved then .error .absent
  else
    match fs.lstat path with
    | .ok .symlink => fs.beyond path
    | r => r

def isExecutable (moved : List (List OsName)) (path : List OsName) : Bool :=
  match fs.stat moved path with
  | .ok (.file f) => executableMode f.mode
  | _ => false

/-- `File::open` for reading. -/
def openFile (moved : List (List OsName)) (path : List OsName) : Except String RegularFile :=
  match fs.stat moved path with
  | .ok (.file f) =>
    match fs.fault .openFile path with
    | some e => .error e
    | none => .ok f
  | .ok _ => .error "Is a directory (os error 21)"
  | .error .absent => .error noSuchFile
  | .error (.other e) => .error e

end SandboxTree

/-! ## Gathering the selected files -/

/-- A file a pattern selected. -/
structure Found where
  path : List OsName
  size : Nat
deriving DecidableEq, Repr

/-- What the loop over the patterns carries along. -/
structure Gathered where
  found : Std.ExtTreeMap String Found compare
  notProduced : List String
  visited : Nat

def Gathered.empty : Gathered := ⟨∅, [], 0⟩

/-- `found.entry(rel).or_insert(file)`. -/
def Gathered.orInsert (g : Gathered) (rel : String) (file : Found) : Gathered :=
  { g with found := g.found.insertIfNew rel file }

/-- A directory the walk has still to read. -/
structure OpenDir where
  dir : List OsName
  relDir : String
  dirUtf8 : Bool
  entries : Entries

def OsName.isUtf8 : OsName → Bool
  | .utf8 _ => true
  | .other _ => false

def checkSelectedEntryPath (rel : String) (entryUtf8 : Bool) : Except String Unit :=
  if entryUtf8 then (validateBlobPath rel).mapError fun e => "output '" ++ rel ++ "': " ++ e
  else .error ("output '" ++ rel ++ "' has a name that is not valid UTF-8")

section Walk

variable (fs : SandboxTree) (pattern : OutputPattern)

/-- One entry of the directory `q`: what is gathered then, and the directory it adds to the stack. -/
def walkEntry (q : OpenDir) (name : OsName) (node : Node) (g : Gathered) : Except String (Gathered × List OpenDir) := do
  let path := q.dir ++ [name]
  fs.call .nextEntry path fun e => "cannot read output directory '" ++ q.relDir ++ "': " ++ e
  let g := { g with visited := g.visited + 1 }
  if g.visited > maxWalkEntries then
    .error ("the task sandbox has more than " ++ toString maxWalkEntries ++
      " entries below the output patterns; narrow them")
  else do
    fs.call .fileType path fun e => "cannot read output '" ++ fs.display path ++ "': " ++ e
    let rel := relPath q.relDir name.display
    let entryUtf8 := q.dirUtf8 && name.isUtf8
    match node with
    | .dir entries => return (g, [⟨path, rel, entryUtf8, entries⟩])
    | .file f =>
      if pattern.selects rel then do
        checkSelectedEntryPath rel entryUtf8
        fs.call .metadata path fun e => "cannot read output '" ++ rel ++ "': " ++ e
        return (g.orInsert rel ⟨path, f.content.length⟩, [])
      else return (g, [])
    | _ => return (g, [])

/-- The entries of one directory; the directory found last is read first. -/
def walkEntries (q : OpenDir) : Entries → Gathered → Except String (Gathered × List OpenDir)
  | .nil, g => return (g, [])
  | .cons name node rest, g => do
    let (g, pushed) ← walkEntry fs pattern q name node g
    let (g, later) ← walkEntries q rest g
    return (g, later ++ pushed)

/-- The loop of `walk`; every round reads one directory, so `fuel` is their number. -/
def walkLoop : Nat → List OpenDir → Gathered → Except String Gathered
  | 0, _, g => return g
  | _ + 1, [], g => return g
  | fuel + 1, q :: stack, g => do
    fs.call .readDir q.dir fun e => "cannot read output directory '" ++ q.relDir ++ "': " ++ e
    let (g, pushed) ← walkEntries fs pattern q q.entries g
    walkLoop fuel (pushed ++ stack) g

/-- `walk`. -/
def walkOutputs (dir : List OsName) (relDir : String) (entries : Entries) (g : Gathered) : Except String Gathered :=
  walkLoop fs pattern (entries.dirs + 1) [⟨dir, relDir, true, entries⟩] g

def sandboxPath (rel : String) : Except String (List OsName) := do
  validateBlobPath rel
  return (Text.split '/' rel).map .utf8

/-- An ancestor of the literal prefix is a symbolic link. -/
def traversesLink : Bool :=
  pattern.literalPrefix ≠ "" &&
    (Sandbox.ancestors (Text.split '/' pattern.literalPrefix).dropLast).any fun ancestor =>
      match fs.lstat (ancestor.map .utf8) with
      | .ok .symlink => true
      | _ => false

/-- What a round of the loop over the patterns does with what is at `start`. -/
def collectStart (start : List OsName) (g : Gathered) : Except String Gathered :=
  match fs.lstat start with
  | .error .absent =>
    .ok (if pattern.isLiteral then { g with notProduced := g.notProduced ++ [pattern.text] } else g)
  | .error (.other e) => .error ("cannot read output '" ++ pattern.text ++ "': " ++ e)
  | .ok (.file f) =>
    .ok (if pattern.selects pattern.literalPrefix then
      g.orInsert pattern.literalPrefix ⟨start, f.content.length⟩ else g)
  | .ok (.dir entries) => walkOutputs fs pattern start pattern.literalPrefix entries g
  | .ok _ =>
    if pattern.isLiteral then
      .error ("output '" ++ pattern.text ++
        "' is not a regular file or directory (symbolic links are never returned)")
    else .ok g

/-- One round of the loop over the patterns. -/
def collectPattern (g : Gathered) : Except String Gathered :=
  match if pattern.literalPrefix = "" then .ok [] else sandboxPath pattern.literalPrefix with
  | .error e => .error ("output '" ++ pattern.text ++ "': " ++ e)
  | .ok start =>
    if traversesLink fs pattern then
      if pattern.isLiteral then
        .error ("output '" ++ pattern.text ++ "' traverses a symbolic link (symbolic links are never returned)")
      else .ok g
    else collectStart fs pattern start g

end Walk

/-! ## Sizes in messages -/

/-- The quotient rounded to the nearest number, to the even one of two. -/
def roundHalfEven (n d : Nat) : Nat :=
  if 2 * (n % d) < d ∨ 2 * (n % d) = d ∧ n / d % 2 = 0 then n / d else n / d + 1

/-- `bytes as f64`. -/
def asF64 (bytes : Nat) : Nat :=
  let unit := 2 ^ (bytes.log2 - 52)
  roundHalfEven bytes unit * unit

/-- `human_bytes`; the value is `scaled / 1024 ^ k`. -/
def humanBytes (bytes : Nat) : String :=
  if bytes < 1024 then toString bytes ++ " B"
  else
    let scaled := asF64 bytes
    let k := if scaled < 1024 ^ 2 then 1 else if scaled < 1024 ^ 3 then 2 else if scaled < 1024 ^ 4 then 3 else 4
    let tenths := roundHalfEven (10 * scaled) (1024 ^ k)
    toString (tenths / 10) ++ "." ++ toString (tenths % 10) ++ " " ++ (["KiB", "MiB", "GiB", "TiB"].getD (k - 1) "")

/-! ## Into the cache -/

/-- What `insert_file_inner` meets in the cache and on the disk. -/
structure InsertChoice where
  /-- the blob is indexed and its object file is there -/
  held : Bool
  /-- the file has one link and could be renamed -/
  movable : Bool
  /-- the error of `copy_verified` -/
  copy : Option String
  /-- the error of `adopt_inner` -/
  adopt : Option String
deriving DecidableEq, Repr

section Insert

variable (fs : SandboxTree) (choice : String → InsertChoice)

/-- `insert_file_inner` for a file of the sandbox: its id and size, and the files that have gone. -/
def insertFileInner (moved : List (List OsName)) (path : List OsName) (c : InsertChoice) :
    Except String ((BlobId × Nat) × List (List OsName)) := do
  let f ← fs.openFile moved path
  let blob := (BlobId.of f.content, f.content.length)
  if c.held then return (blob, moved)
  else if c.movable then
    match c.adopt with
    | some e => .error e
    | none => return (blob, path :: moved)
  else
    match c.copy, c.adopt with
    | some e, _ => .error e
    | none, some e => .error e
    | none, none => return (blob, moved)

/-- The loop over `found`. -/
def insertOutputs : List (List OsName) → List (String × Found) → Except String (List BlobFile)
  | _, [] => return []
  | moved, (rel, file) :: rest => do
    let executable := fs.isExecutable moved file.path
    let (blob, moved) ← (insertFileInner fs moved file.path (choice rel)).mapError fun e =>
      "output '" ++ rel ++ "': " ++ e
    let outputs ← insertOutputs moved rest
    return ⟨rel, blob.1, blob.2, executable⟩ :: outputs

/-- `found.iter().max_by_key(|(_, f)| f.size)`: the last of the largest. -/
def largestOutput (found : List (String × Found)) : String × Nat :=
  found.foldl (fun best file => if best.2 ≤ file.2.size then (file.1, file.2.size) else best) ("", 0)

/-- `found.values().map(|f| f.size).sum()`, a `u64`. -/
def totalSize (found : List (String × Found)) : Nat := (found.map fun file => file.2.size).sum % 2 ^ 64

/-- `collect_outputs` and, as far as the files and the list go, `collect_outputs_pinned`. -/
def collectOutputs (patterns : List String) (limits : OutputLimits) (processFailed : Bool) :
    Except String (List BlobFile) := do
  let patterns ← patterns.mapM OutputPattern.parse
  match fs.canonical with
  | some e => .error ("cannot read the task sandbox: " ++ e)
  | none =>
    let g ← patterns.foldlM (fun g pattern => collectPattern fs pattern g) Gathered.empty
    if g.notProduced ≠ [] ∧ processFailed = false then
      .error ("the task did not produce " ++
        Text.join ", " (g.notProduced.map fun p => "'" ++ p ++ "'") ++
        " (declared with --output; use a wildcard pattern for optional outputs)")
    else
      let found := g.found.toList
      let total := totalSize found
      if found.length > limits.maxFiles ∨ total > limits.maxBytes then
        let largest := largestOutput found
        .error ("the output patterns select " ++ toString found.length ++ " files, " ++ humanBytes total ++
          " in total (largest: '" ++ largest.1 ++ "', " ++ humanBytes largest.2 ++ "); this worker returns at most " ++
          toString limits.maxFiles ++ " files and " ++ humanBytes limits.maxBytes ++
          " per task: narrow the patterns or raise \x60worker --output-limit-mb\x60")
      else insertOutputs fs choice [] found

end Insert

end OxideSwarm
