import OxideSwarm.Core.Base

/-!
# Placement constraints and worker tags (`core/src/placement.rs`)

`Placement.fromTaskTags` reads the `require:<key>=<value>` entries of a task's tags and
`Placement.matches` decides whether a worker satisfies them.
-/

namespace OxideSwarm

variable [Host]

def requirePrefix : String := "require:"
def osTagPrefix : String := "os:"
def archTagPrefix : String := "arch:"
def slotsTagPrefix : String := "slots:"
def linkTagPrefix : String := "link:"
def idTagPrefix : String := "id:"
def stateTagPrefix : String := "state:"

/-- Tag prefixes only the worker or the master may set. -/
def reservedTagPrefixes : List String :=
  [osTagPrefix, archTagPrefix, slotsTagPrefix, linkTagPrefix, idTagPrefix, stateTagPrefix]

/-- Longest user tag, in bytes. -/
def maxUserTagLen : Nat := 64

def validateUserTag (tag : String) : Except String Unit :=
  if tag = "" then .error "a worker tag cannot be empty"
  else if Text.len tag > maxUserTagLen then
    .error ("worker tag `" ++ tag ++ "` is " ++ toString (Text.len tag) ++ " bytes long; the limit is " ++
      toString maxUserTagLen)
  else if tag.toList.any fun c => Text.isWhitespace c || c = '=' || c = ',' then
    .error ("worker tag `" ++ tag ++ "` contains whitespace, `=` or `,`")
  else
    match reservedTagPrefixes.find? fun p => Text.startsWith p tag with
    | some p =>
      .error ("worker tag `" ++ tag ++ "` starts with `" ++ p ++
        "`, which only the worker or the master may set")
    | none => .ok ()

/-- `tag_value`: the value of the first tag that starts with `p`. -/
def tagValue (tags : List String) (p : String) : Option String :=
  tags.findSome? (Text.stripPrefix p)

/-- `advertised_slots`: the worker's own task limit, if it advertises a positive one. -/
def advertisedSlots (tags : List String) : Option Nat :=
  ((tagValue tags slotsTagPrefix).bind (Text.parseNat (2 ^ 64 - 1))).filter fun n => decide (1 ≤ n)

def normalizeOs (value : String) : String :=
  let lower := Text.toAsciiLowercase value
  if lower ∈ ["mac", "darwin", "osx", "macosx"] then "macos"
  else if lower ∈ ["win", "win32", "win64"] then "windows"
  else lower

def normalizeArch (value : String) : String :=
  let lower := Text.toAsciiLowercase value
  if lower ∈ ["amd64", "x64", "x86-64"] then "x86_64"
  else if lower = "arm64" then "aarch64"
  else if lower ∈ ["i386", "i686"] then "x86"
  else lower

/-- The placement constraints of one task. -/
structure Placement where
  os : Option String := none
  arch : Option String := none
  worker : Option String := none
  tags : List String := []
deriving DecidableEq, Repr

namespace Placement

def isEmpty (p : Placement) : Bool :=
  p.os.isNone && p.arch.isNone && p.worker.isNone && p.tags.isEmpty

/-- One `require:` entry, `constraint` being the text after the prefix. -/
def addConstraint (p : Placement) (tag constraint : String) : Except String Placement :=
  match Text.splitOnce '=' constraint with
  | none =>
    .error ("placement constraint `" ++ tag ++ "` is not of the form require:<key>=<value>")
  | some (key, value) =>
    let once (slot : Option String) (filled : Placement) : Except String Placement :=
      if slot.isSome then .error ("placement constraint `" ++ key ++ "` is given more than once")
      else .ok filled
    if value = "" then .error ("placement constraint `" ++ tag ++ "` has an empty value")
    else if key = "os" then once p.os { p with os := some (normalizeOs value) }
    else if key = "arch" then once p.arch { p with arch := some (normalizeArch value) }
    else if key = "worker" then once p.worker { p with worker := some value }
    else if key = "tag" then
      match validateUserTag value with
      | .error e => .error ("placement constraint `" ++ tag ++ "`: " ++ e)
      | .ok () => .ok { p with tags := p.tags ++ [value] }
    else
      .error ("unknown placement constraint `" ++ key ++ "` in `" ++ tag ++
        "` (known: os, arch, worker, tag)")

/-- The loop of `from_task_tags`; tags without the prefix are ignored. -/
def addTags : Placement → List String → Except String Placement
  | p, [] => .ok p
  | p, tag :: rest =>
    match Text.stripPrefix requirePrefix tag with
    | none => addTags p rest
    | some constraint =>
      match addConstraint p tag constraint with
      | .error e => .error e
      | .ok p' => addTags p' rest

/-- Neighbouring duplicates dropped (`Vec::dedup`). -/
def dedup : List String → List String
  | a :: b :: rest => if a = b then dedup (b :: rest) else a :: dedup (b :: rest)
  | l => l

def fromTaskTags (taskTags : List String) : Except String Placement :=
  (addTags {} taskTags).map fun p => { p with tags := dedup (Text.sort p.tags) }

/-- The `Display` text of the constraints. -/
def display (p : Placement) : String :=
  if p.isEmpty then "any worker"
  else
    Text.join ", " ((p.os.map ("os=" ++ ·)).toList ++ (p.arch.map ("arch=" ++ ·)).toList ++
      (p.worker.map ("worker=" ++ ·)).toList ++ p.tags.map ("tag=" ++ ·))

/-- Some tag with prefix `p` has a value that normalizes to `wanted`. -/
def hasValue (workerTags : List String) (p wanted : String) (normalize : String → String) : Bool :=
  (workerTags.filterMap (Text.stripPrefix p)).any fun v => normalize v == wanted

/-- `Placement::matches`. -/
def «matches» (p : Placement) (workerId : Uuid) (workerName : String) (workerTags : List String) : Bool :=
  (p.os.all fun os => hasValue workerTags osTagPrefix os normalizeOs) &&
  (p.arch.all fun arch => hasValue workerTags archTagPrefix arch normalizeArch) &&
  (p.worker.all fun worker =>
    Host.parseUuid worker == some workerId || Text.eqIgnoreAsciiCase workerName worker) &&
  p.tags.all fun wanted => workerTags.contains wanted

end Placement

end OxideSwarm
