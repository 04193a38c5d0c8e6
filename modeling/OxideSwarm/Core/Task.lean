import OxideSwarm.Core.Blob
import OxideSwarm.Core.Placement

/-!
# Tasks and their results (`core/src/task.rs`)

The task a client submits, `Task.validate`, which the queue runs before it accepts one, and the
result a worker reports.  `env` and `source_files` maps are association lists: the model only adds
up their lengths and asks whether they are empty.
-/

namespace OxideSwarm

variable [Host]

structure TaskRequirements where
  cpuCores : Nat
  ramMb : Nat
  gpuRequired : Bool
  timeoutSecs : Nat
  maxRetries : Option Nat
deriving DecidableEq, Repr

def TaskRequirements.validate (r : TaskRequirements) : Except String Unit :=
  if r.timeoutSecs = 0 then .error "Task timeout_secs must be greater than 0" else .ok ()

/-! ## Specifications -/

inductive Engine3D where
  | auto | sdf | tripoSr | trellis
deriving DecidableEq, Repr

namespace Engine3D

def requiresGpu : Engine3D → Bool
  | auto => false
  | sdf => false
  | tripoSr => false
  | trellis => false

def parse (s : String) : Except String Engine3D :=
  let name := Text.toAsciiLowercase (Text.trim s)
  if name ∈ ["auto", ""] then .ok auto
  else if name ∈ ["sdf", "tier0_sdf", "tier0", "tier-0", "procedural", "procedural_sdf"] then .ok sdf
  else if name ∈ ["triposr", "tripo_sr", "triposr-cuda", "triposr-cpu", "tripo"] then .ok tripoSr
  else if name = "trellis" then .ok trellis
  else .error ("unknown 3D engine '" ++ Text.trim s ++ "'; valid engines are: auto, sdf, triposr")

end Engine3D

structure Generative3DSpec where
  prompt : Option String
  imageData : Option Bytes
  quality : String
  enginePreference : Option String
  exportTexture : Bool
deriving DecidableEq, Repr

namespace Generative3DSpec

def tryEngine (s : Generative3DSpec) : Except String Engine3D :=
  match s.enginePreference with
  | some raw => Engine3D.parse raw
  | none => .ok .auto

def engine (s : Generative3DSpec) : Engine3D :=
  match s.tryEngine with
  | .ok e => e
  | .error _ => .auto

/-- The `Generative3D` arm of `TaskSpec::validate`. -/
def validate (s : Generative3DSpec) : Except String Unit := do
  let hasPrompt := s.prompt.any fun p => Text.trim p ≠ ""
  let hasImage := s.imageData.any fun img => img ≠ []
  if !hasPrompt && !hasImage then
    .error "Generative3D requires at least a non-empty prompt or non-empty image_data"
  if Text.trim s.quality = "" then .error "Generative3D quality cannot be empty"
  let engine ← s.tryEngine
  if engine = .trellis then
    .error "Trellis 3D neural engine is not supported; use sdf or triposr"
  if hasImage then
    match engine with
    | .auto =>
      .error "Image input is only supported with neural 3D engines (e.g. triposr); the auto engine does not accept images"
    | .sdf =>
      .error "Tier 0 procedural SDF engine does not support image input (text prompt only)"
    | .tripoSr | .trellis => .ok ()

end Generative3DSpec

structure AutoRigSpec where
  inputMesh : Bytes
  rigPreset : String
  embedAnimations : List String
  preferredProvider : Option String
deriving DecidableEq, Repr

inductive TaskSpec where
  | command (program : String) (args : List String) (env : List (String × String))
      (workingDir : Option String) (stdin : Option Bytes)
  | shellScript (script : String) (interpreter : Option String) (env : List (String × String))
  | rustCompilation (crateName : String) (sourceFiles : List (String × String))
      (compilerFlags : List String) (targetDir : Option String)
  | gpuCompute (kernelName : String) (inputData : Bytes)
      (workGroupSize simulatedMatrixDim computeIntensity : Nat)
  | builtinTest (testName : String) (iterations durationMs : Nat) (shouldFail requireGpu : Bool)
  | generative3D (spec : Generative3DSpec)
  | autoRig (spec : AutoRigSpec)
deriving DecidableEq, Repr

namespace TaskSpec

def taskType : TaskSpec → String
  | command .. => "Command"
  | shellScript .. => "ShellScript"
  | rustCompilation .. => "RustCompilation"
  | gpuCompute .. => "GpuCompute"
  | builtinTest .. => "BuiltinTest"
  | generative3D .. => "Generative3D"
  | autoRig .. => "AutoRig"

def validate : TaskSpec → Except String Unit
  | command program .. =>
    if Text.trim program = "" then .error "Command program cannot be empty" else .ok ()
  | shellScript script .. =>
    if Text.trim script = "" then .error "Shell script cannot be empty" else .ok ()
  | rustCompilation crateName sourceFiles .. =>
    if Text.trim crateName = "" then .error "Rust compilation crate_name cannot be empty"
    else if sourceFiles = [] then .error "Rust compilation requires at least one source file"
    else .ok ()
  | gpuCompute kernelName .. =>
    if Text.trim kernelName = "" then .error "GPU kernel_name cannot be empty" else .ok ()
  | builtinTest .. => .ok ()
  | generative3D spec => spec.validate
  | autoRig spec =>
    if spec.inputMesh = [] then .error "AutoRig input_mesh cannot be empty"
    else if Text.trim spec.rigPreset = "" then .error "AutoRig rig_preset cannot be empty"
    else .ok ()

def requiresGpu : TaskSpec → Bool
  | gpuCompute .. => true
  | builtinTest _ _ _ _ requireGpu => requireGpu
  | generative3D spec => spec.engine.requiresGpu
  | _ => false

/-- The specifications that run in a sandbox the task controls. -/
def isSandboxed : TaskSpec → Bool
  | command .. | shellScript .. | rustCompilation .. => true
  | _ => false

/-- Compilation and GPU specs, which throttled or low-battery mobile workers must not receive. -/
def isHeavy : TaskSpec → Bool
  | rustCompilation .. | gpuCompute .. => true
  | _ => false

end TaskSpec

/-! ## Sandbox paths -/

def maxStagedFileBytes : Nat := 32 * 1024 * 1024
def maxAggregateStagedBytes : Nat := 32 * 1024 * 1024

def windowsReservedDeviceNames : List String :=
  ["CON", "PRN", "AUX", "NUL", "COM1", "COM2", "COM3", "COM4", "COM5", "COM6", "COM7", "COM8",
   "COM9", "LPT1", "LPT2", "LPT3", "LPT4", "LPT5", "LPT6", "LPT7", "LPT8", "LPT9"]

def isDotOrSpace (c : Char) : Bool := c = ' ' || c = '.'

/-- One segment of `validate_relative_sandbox_path`'s loop; `none` for a segment that is skipped. -/
def sandboxSegment (raw seg : String) : Except String (Option String) :=
  let segTrimmed := Text.trim seg
  if segTrimmed = "" ∨ segTrimmed = "." then .ok none
  else if segTrimmed = ".." then
    .error ("Parent directory traversal ('..') is prohibited: '" ++ raw ++ "'")
  else
    let cleaned := Text.trimEndMatches isDotOrSpace segTrimmed
    if cleaned = "" then
      .error ("Illegal path component '" ++ segTrimmed ++ "' consisting only of dots/spaces: '" ++ raw ++ "'")
    else
      let baseName := Text.toAsciiUppercase
        (Text.trimEndMatches isDotOrSpace ((Text.split '.' cleaned).headD cleaned))
      if baseName ∈ windowsReservedDeviceNames then
        .error ("Windows reserved device name '" ++ segTrimmed ++ "' is prohibited: '" ++ raw ++ "'")
      else .ok (some segTrimmed)

/-- `validate_relative_sandbox_path`: the canonical form of `raw`. -/
def validateRelativeSandboxPath (raw : String) : Except String String := do
  if raw = "" then .error "Path cannot be empty"
  if Text.containsChar '\x00' raw then .error "Path contains prohibited null byte"
  if Text.startsWith "/" raw || Text.startsWith "\\" raw then
    .error ("Absolute paths are prohibited: '" ++ raw ++ "'")
  if Text.containsChar ':' raw then
    .error ("Colons and drive letters are prohibited: '" ++ raw ++ "'")
  let trimmed := Text.trim (Text.replace '\\' '/' raw)
  if trimmed = "" then .error "Path cannot be empty"
  if Text.startsWith "/" trimmed then .error ("Absolute paths are prohibited: '" ++ raw ++ "'")
  if Text.startsWith "//" trimmed then .error ("UNC prefix is prohibited: '" ++ raw ++ "'")
  let segments ← (Text.split '/' trimmed).mapM (sandboxSegment raw)
  let segments := segments.filterMap id
  if segments = [] then .error ("Path resolved to empty after normalization: '" ++ raw ++ "'")
  return Text.join "/" segments

/-! ## Tasks -/

structure CheckpointData where
  sequence : Nat
  deltaState : Bytes
  timestamp : Nat
deriving DecidableEq, Repr

structure StagedFile where
  path : String
  size : Nat
  sha256 : Bytes
  executable : Bool
  data : Bytes
deriving DecidableEq, Repr

structure OutputArtifact where
  path : String
  size : Nat
  sha256 : Bytes
  data : Bytes
deriving DecidableEq, Repr

structure Task where
  id : TaskId
  spec : TaskSpec
  requirements : TaskRequirements
  createdAtUtc : Nat
  tags : List String
  latestCheckpoint : Option CheckpointData
  stagedFiles : List StagedFile
  expectedOutputs : List String
  inputs : List TaskInput
  outputGlobs : List String
deriving DecidableEq, Repr

/-- The staged-file loop of `Task::validate`, `total` being the bytes seen so far. -/
def validateStagedFiles : Nat → List StagedFile → Except String Unit
  | _, [] => .ok ()
  | total, file :: rest => do
    if file.data.length ≠ file.size then
      .error ("Staged file '" ++ file.path ++ "' payload length " ++ toString file.data.length ++
        " does not match declared size " ++ toString file.size)
    if file.size > maxStagedFileBytes then
      .error ("Staged file '" ++ file.path ++ "' size " ++ toString file.size ++
        " exceeds single file limit of 32 MiB")
    let total := total + file.size
    if total > maxAggregateStagedBytes then
      .error "Aggregate staged files size exceeds limit of 32 MiB"
    discard (validateRelativeSandboxPath file.path)
    validateStagedFiles total rest

namespace Task

/-- True when the task moves files through the blob store. -/
def usesBlobs (t : Task) : Bool := !t.inputs.isEmpty || !t.outputGlobs.isEmpty

def placement (t : Task) : Except String Placement := Placement.fromTaskTags t.tags

/-- The task or its specification needs a GPU. -/
def requiresGpu (t : Task) : Bool := t.requirements.gpuRequired || t.spec.requiresGpu

def validate (t : Task) : Except String Unit := do
  t.spec.validate
  t.requirements.validate
  if t.spec.requiresGpu && !t.requirements.gpuRequired then
    .error "TaskSpec requires GPU, but TaskRequirements.gpu_required is false"
  discard t.placement
  validateStagedFiles 0 t.stagedFiles
  t.expectedOutputs.forM fun output => discard (validateRelativeSandboxPath output)
  if t.usesBlobs then
    if !t.spec.isSandboxed then
      .error ("Input and output files are supported for Command, ShellScript and RustCompilation tasks, not " ++
        t.spec.taskType)
    validateTaskInputs t.inputs
    validateOutputPatterns t.outputGlobs

/-- A small valid task, for concrete runs. -/
def echo (n : Nat) : Task where
  id := ⟨BitVec.ofNat 128 n⟩
  spec := .command "echo" [] [] none none
  requirements := ⟨1, 512, false, 60, none⟩
  createdAtUtc := 0
  tags := []
  latestCheckpoint := none
  stagedFiles := []
  expectedOutputs := []
  inputs := []
  outputGlobs := []

end Task

/-! ## Results -/

structure TaskResult where
  workerId : Uuid
  taskId : TaskId
  exitCode : Int
  stdout : Bytes
  stderr : Bytes
  executionTimeMs : Nat
  isGpuExecuted : Bool
  deviceName : Option String
  error : Option String
  assetBytes : Option Bytes
  artifacts : List OutputArtifact
  outputs : List BlobFile
deriving DecidableEq, Repr

namespace TaskResult

def isSuccess (r : TaskResult) : Bool := r.exitCode == 0 && r.error.isNone

def failure (workerId : Uuid) (taskId : TaskId) (exitCode : Int) (stdout stderr : Bytes)
    (executionTimeMs : Nat) (error : Option String) : TaskResult :=
  { workerId, taskId, exitCode, stdout, stderr, executionTimeMs, isGpuExecuted := false,
    deviceName := none, error, assetBytes := none, artifacts := [], outputs := [] }

/-- A successful result without output, for concrete runs. -/
def done (w : Uuid) (t : TaskId) : TaskResult :=
  { failure w t 0 [] [] 0 none with isGpuExecuted := false }

end TaskResult

end OxideSwarm
