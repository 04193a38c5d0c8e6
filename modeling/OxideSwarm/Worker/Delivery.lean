import OxideSwarm.Worker.Capture

/-!
# The result a worker delivers for a process

`execute_process_supervised` takes what the two readers captured; the workload functions, the output
collection and the upload that follow may still write to the streams of the result: a compilation
names its artifacts on stdout, everything else is noted on stderr.  `deliver` is the result as it is
sent (`client.rs:1690`), with what the operating system, the file system and the master answered as
inputs.

    limit ≥ 2, nothing written behind the capture → stream_was_worker_truncated finds the notice
                                                                     (worker_truncation_reported)
-/

namespace OxideSwarm

/-! ## Notes -/

/-- `append_note` (`runner.rs:2819`). -/
def appendNote (bytes : Bytes) (note : String) : Bytes :=
  bytes ++ (if bytes ≠ [] ∧ bytes.getLast? ≠ some 10 ∧ ¬ Text.startsWith "\n" note then [10] else []) ++
    note.toUTF8.data.toList

/-- What a failure to bring the outputs back leaves in the result besides the note on stderr. -/
def TaskResult.failWith (r : TaskResult) (message : String) : TaskResult :=
  { r with
    exitCode := if r.exitCode = 0 then 1 else r.exitCode
    error := some (match r.error with
      | some error => error ++ "; " ++ message
      | none => message) }

/-- `fail` (`blob_client.rs:293`). -/
def TaskResult.fail (r : TaskResult) (message : String) : TaskResult :=
  { r.failWith message with stderr := appendNote r.stderr message }

/-- The error arm shared by `harvest_and_apply_artifacts` and `collect_blob_outputs`. -/
def TaskResult.failOutputFiles (r : TaskResult) (e : String) : TaskResult :=
  { r.failWith ("Output files: " ++ e) with
    stderr := appendNote r.stderr ("[rusty_grid: Output files: " ++ e ++ "]\n") }

/-! ## The supervised process -/

inductive ExitStatus where
  | code (n : Int)
  | signal (n : Nat)
  | unknown
deriving DecidableEq, Repr

def ExitStatus.success (s : ExitStatus) : Bool := s == .code 0

def signalName : Nat → String
  | 1 => " (SIGHUP)"
  | 2 => " (SIGINT)"
  | 3 => " (SIGQUIT)"
  | 6 => " (SIGABRT)"
  | 9 => " (SIGKILL)"
  | 11 => " (SIGSEGV)"
  | 13 => " (SIGPIPE)"
  | 14 => " (SIGALRM)"
  | 15 => " (SIGTERM)"
  | _ => ""

/-- `describe_exit`; 130 is kept for cancelled tasks, an interrupted one is 130 + 256. -/
def describeExit : ExitStatus → Int × Option String
  | .code n =>
    if n = 130 then
      (386, some "Process exited with status 130 (interrupted); reported as 386 because 130 means \"cancelled\"")
    else (n, none)
  | .signal n =>
    if n = 2 then
      (386, some "Process terminated by signal 2 (SIGINT); reported as 386 because 130 means \"cancelled\"")
    else (128 + n, some ("Process terminated by signal " ++ toString n ++ signalName n))
  | .unknown => (1, some "Process ended without an exit status")

/-- `Ended`; for an exit, whether both pipes were closed within the grace period. -/
inductive Ended where
  | exited (status : Except String ExitStatus) (drained : Bool)
  | cancelled (reason : String)
  | timedOut

/-- How the upload of the output files went. -/
inductive Uploaded where
  | noCache (error : String)
  | noClient
  | done
  | failed (error : String)
  | cancelled (reason : String)

/-- The workloads that run a process.  `Command` and `ShellScript` end in the same way; a
`RustCompilation` reports the artifacts it found and the directory they are in, `Generative3D` reads
the asset and scans the streams. -/
inductive Workload where
  | script
  | compilation (found : List String) (outDir : Option String)
  | generative (asset : Except String (Option Bytes)) (path : String) (label : Option String)
      (hasCuda : Bool) (lastErrLine : Option String)

/-- One run of a process on a worker: its configuration, and everything the worker is told. -/
structure ProcessRun where
  workerId : Uuid
  maxOutputBytes : Nat
  stdout : List Bytes
  stderr : List Bytes
  ended : Ended
  elapsed : Nat
  workload : Workload
  harvested : Except String (List OutputArtifact)
  collected : Except String (List BlobFile)
  uploaded : Uploaded
  cancelled : Option String

/-- The watchdog's limit in seconds (`runner.rs:765`). -/
def Task.timeoutSecs (task : Task) : Nat :=
  if task.requirements.timeoutSecs = 0 then 60 else task.requirements.timeoutSecs

namespace ProcessRun

variable (run : ProcessRun) (task : Task)

/-- The end of `execute_process_supervised` (`runner.rs:2703`). -/
def supervised : TaskResult :=
  let stdout := (readBoundedStream run.stdout run.maxOutputBytes).1
  let stderr := (readBoundedStream run.stderr run.maxOutputBytes).1
  match run.ended with
  | .exited status drained =>
    let stderr :=
      if drained then stderr
      else appendNote stderr
        "\n[rusty_grid: background processes kept the output pipes open after the task exited and were terminated]\n"
    match status with
    | .ok status =>
      if status.success then
        { TaskResult.failure run.workerId task.id 0 stdout [] run.elapsed none with stderr }
      else
        let (code, error) := describeExit status
        TaskResult.failure run.workerId task.id code stdout stderr run.elapsed error
    | .error e =>
      TaskResult.failure run.workerId task.id 1 stdout stderr run.elapsed (some ("Process wait error: " ++ e))
  | .cancelled reason =>
    TaskResult.failure run.workerId task.id 130 stdout stderr run.elapsed (some ("Cancelled: " ++ reason))
  | .timedOut =>
    let msg := "Task timed out after " ++ toString task.timeoutSecs ++ "s"
    TaskResult.failure run.workerId task.id 124 stdout (appendNote stderr ("\n" ++ msg)) run.elapsed (some msg)

def harvestAndApplyArtifacts (r : TaskResult) : TaskResult :=
  if task.expectedOutputs = [] then r
  else
    match run.harvested with
    | .ok artifacts => { r with artifacts }
    | .error e => r.failOutputFiles e

def collectBlobOutputs (r : TaskResult) (extraPatterns : List String) : TaskResult :=
  if task.outputGlobs ++ extraPatterns = [] ∨ r.exitCode = 130 then r
  else
    match run.collected with
    | .ok outputs => { r with outputs }
    | .error e => r.failOutputFiles e

/-- What a successful compilation adds to its result: the notice on stdout and the pattern of its
output directory (`runner.rs:1952`). -/
def compiled (r : TaskResult) (found : List String) (outDir : Option String) : TaskResult × List String :=
  if r.isSuccess then
    ({ r with
        stdout :=
          if found = [] then r.stdout
          else r.stdout ++ ("\n[rusty_grid: compilation artifacts generated in target/: " ++
            ", ".intercalate found ++ "]\n").toUTF8.data.toList },
      (outDir.map (· ++ "/*")).toList)
  else (r, [])

/-- What `execute_generative_3d_workload` does with the result of its engine (`runner.rs:2165`). -/
def checkedAsset (r : TaskResult) (asset : Except String (Option Bytes)) (path : String)
    (label : Option String) (hasCuda : Bool) (lastErrLine : Option String) : TaskResult :=
  let failed (error : String) : TaskResult :=
    TaskResult.failure run.workerId task.id 1 r.stdout r.stderr run.elapsed (some error)
  if r.exitCode = 130 ∨ (r.exitCode = 124 ∧ r.error.isSome) then r
  else if r.isSuccess then
    match asset with
    | .ok (some data) =>
      if 12 ≤ data.length ∧ data.take 4 = asciiBytes "glTF" then
        { r with assetBytes := some data, deviceName := label <|> r.deviceName, isGpuExecuted := hasCuda }
      else failed "Generated .glb file has invalid glTF 2.0 header"
    | .ok none =>
      failed ("Process succeeded but expected output file '" ++ path ++ "' was not produced")
    | .error e => failed ("Failed to read generated .glb asset: " ++ e)
  else if r.error.getD "" = "" then
    { r with error := some ("3D engine subprocess failed with exit code " ++ toString r.exitCode ++
        (lastErrLine.map (": " ++ ·)).getD "") }
  else r

/-- The workload functions from the end of the process on. -/
def execute : TaskResult :=
  let r := run.supervised task
  match run.workload with
  | .script => run.collectBlobOutputs task (run.harvestAndApplyArtifacts task r) []
  | .compilation found outDir =>
    let (r, patterns) := compiled r found outDir
    run.collectBlobOutputs task (run.harvestAndApplyArtifacts task r) patterns
  | .generative asset path label hasCuda lastErrLine =>
    run.checkedAsset task r asset path label hasCuda lastErrLine

/-- `upload_task_outputs` (`blob_client.rs:223`) and the arms around it (`client.rs:1767`), with the
cancellation it may be given up for. -/
def uploadTaskOutputs (r : TaskResult) : TaskResult × Option String :=
  if r.outputs = [] then (r, none)
  else
    match run.uploaded with
    | .noCache e => ({ r with outputs := [], error := some e }, none)
    | .noClient =>
      let note := toString r.outputs.length ++
        " output files were not returned: the master has no blob store (start it with `oxideswarm master`, which keeps one)"
      let r := { r with outputs := [] }
      (if task.outputGlobs = [] then { r with stderr := appendNote r.stderr note } else r.fail note, none)
    | .done => (r, none)
    | .failed e =>
      (TaskResult.fail { r with outputs := [] } ("uploading output files to the master failed: " ++ e), none)
    | .cancelled reason => (r, some reason)

/-- The rewriting of a result whose task was cancelled meanwhile (`client.rs:1791`). -/
def withCancellation (r : TaskResult) : Option String → TaskResult
  | none => r
  | some reason =>
    { r with
      exitCode := 130
      error := if r.exitCode = 130 then r.error else some ("Cancelled: " ++ reason)
      outputs := []
      artifacts := []
      assetBytes := none }

/-- The result that is sent to the master. -/
def deliver : TaskResult :=
  let r := run.execute task
  match run.cancelled with
  | some reason => withCancellation r (some reason)
  | none =>
    let (r, cancelled) := run.uploadTaskOutputs task r
    withCancellation r cancelled

/-! ## What reaches the streams behind the capture -/

/-- No compilation artifact is announced. -/
def StdoutUntouched : Prop :=
  match run.workload with
  | .compilation found _ => found = []
  | _ => True

/-- The process exited with its pipes closed, or was cancelled. -/
def Ended.quiet : Ended → Bool
  | .exited _ drained => drained
  | .cancelled _ => true
  | .timedOut => false

/-- The upload, if there is one, appends nothing. -/
def Uploaded.quiet : Uploaded → Bool
  | .noClient | .failed _ => false
  | _ => true

/-- The patterns a compilation adds to those of the task. -/
def extraPatterns : List String :=
  match run.workload with
  | .compilation _ outDir => (outDir.map (· ++ "/*")).toList
  | _ => []

/-- Nothing gives the worker a reason to write a note: the process ended by itself or was cancelled,
the artifacts were harvested, the files collected and uploaded, as far as there are any. -/
structure StderrUntouched : Prop where
  ended : Ended.quiet run.ended = true
  harvested : task.expectedOutputs = [] ∨ run.harvested.toOption.isSome = true
  collected : task.outputGlobs ++ run.extraPatterns = [] ∨
    ∃ files, run.collected = .ok files ∧ (files = [] ∨ Uploaded.quiet run.uploaded = true)

variable {run task}

theorem supervised_stdout : (run.supervised task).stdout = (readBoundedStream run.stdout run.maxOutputBytes).1 := by
  unfold supervised
  split
  next status drained _ =>
    cases status with
    | ok status =>
      dsimp only
      split <;> rfl
    | error e => rfl
  · rfl
  · rfl

theorem supervised_stderr (h : Ended.quiet run.ended = true) :
    (run.supervised task).stderr = (readBoundedStream run.stderr run.maxOutputBytes).1 := by
  unfold supervised
  cases hended : run.ended with
  | exited status drained =>
    rw [hended] at h
    dsimp only [Ended.quiet] at h
    subst h
    cases status with
    | ok status =>
      dsimp only
      split <;> rfl
    | error e => rfl
  | cancelled reason => rfl
  | timedOut => rw [hended] at h; cases h

theorem supervised_outputs : (run.supervised task).outputs = [] := by
  unfold supervised
  split
  next status drained _ =>
    cases status with
    | ok status =>
      dsimp only
      split <;> rfl
    | error e => rfl
  · rfl
  · rfl

variable (r : TaskResult)

theorem harvestAndApplyArtifacts_stdout : (run.harvestAndApplyArtifacts task r).stdout = r.stdout := by
  unfold harvestAndApplyArtifacts
  split
  · rfl
  · split <;> rfl

theorem harvestAndApplyArtifacts_outputs : (run.harvestAndApplyArtifacts task r).outputs = r.outputs := by
  unfold harvestAndApplyArtifacts
  split
  · rfl
  · split <;> rfl

theorem harvestAndApplyArtifacts_stderr (h : task.expectedOutputs = [] ∨ run.harvested.toOption.isSome = true) :
    (run.harvestAndApplyArtifacts task r).stderr = r.stderr := by
  unfold harvestAndApplyArtifacts
  split
  · rfl
  next hsome =>
    cases hharvested : run.harvested with
    | ok artifacts => rfl
    | error e =>
      rw [hharvested] at h
      rcases h with h | h
      · exact absurd h hsome
      · cases h

theorem collectBlobOutputs_stdout (extra : List String) :
    (run.collectBlobOutputs task r extra).stdout = r.stdout := by
  unfold collectBlobOutputs
  split
  · rfl
  · split <;> rfl

/-- A collection that appends nothing, and what it leaves to upload. -/
theorem collectBlobOutputs_quiet {extra : List String} (hnone : r.outputs = []) (h : task.outputGlobs ++ extra = [] ∨
      ∃ files, run.collected = .ok files ∧ (files = [] ∨ Uploaded.quiet run.uploaded = true)) :
    (run.collectBlobOutputs task r extra).stderr = r.stderr ∧
      ((run.collectBlobOutputs task r extra).outputs = [] ∨ Uploaded.quiet run.uploaded = true) := by
  unfold collectBlobOutputs
  split
  · exact ⟨rfl, .inl hnone⟩
  next hsome =>
    rcases h with h | ⟨files, hfiles, h⟩
    · exact absurd (.inl h) hsome
    · rw [hfiles]
      exact ⟨rfl, h⟩

variable (found : List String) (outDir : Option String)

theorem compiled_stderr : (compiled r found outDir).1.stderr = r.stderr := by
  unfold compiled
  split <;> rfl

theorem compiled_outputs : (compiled r found outDir).1.outputs = r.outputs := by
  unfold compiled
  split <;> rfl

theorem compiled_stdout : (compiled r [] outDir).1.stdout = r.stdout := by
  unfold compiled
  split <;> rfl

theorem compiled_patterns {globs : List String}
    (h : globs ++ (outDir.map (· ++ "/*")).toList = []) : globs ++ (compiled r found outDir).2 = [] := by
  unfold compiled
  split
  · exact h
  · rw [List.append_nil]
    exact (List.append_eq_nil_iff.1 h).1

theorem checkedAsset_streams (asset : Except String (Option Bytes)) (path : String)
    (label : Option String) (hasCuda : Bool) (lastErrLine : Option String) (hnone : r.outputs = []) :
    (run.checkedAsset task r asset path label hasCuda lastErrLine).stdout = r.stdout ∧
      (run.checkedAsset task r asset path label hasCuda lastErrLine).stderr = r.stderr ∧
      (run.checkedAsset task r asset path label hasCuda lastErrLine).outputs = [] := by
  unfold checkedAsset
  split
  · exact ⟨rfl, rfl, hnone⟩
  split
  · cases asset with
    | ok data =>
      cases data with
      | none => exact ⟨rfl, rfl, rfl⟩
      | some data =>
        dsimp only
        split
        · exact ⟨rfl, rfl, hnone⟩
        · exact ⟨rfl, rfl, rfl⟩
    | error e => exact ⟨rfl, rfl, rfl⟩
  split
  · exact ⟨rfl, rfl, hnone⟩
  · exact ⟨rfl, rfl, hnone⟩

theorem execute_stdout (h : run.StdoutUntouched) :
    (run.execute task).stdout = (readBoundedStream run.stdout run.maxOutputBytes).1 := by
  unfold execute
  unfold StdoutUntouched at h
  cases hw : run.workload with
  | script =>
    rw [collectBlobOutputs_stdout, harvestAndApplyArtifacts_stdout, supervised_stdout]
  | compilation found outDir =>
    rw [hw] at h
    dsimp only at h ⊢
    rw [collectBlobOutputs_stdout, harvestAndApplyArtifacts_stdout, h, compiled_stdout, supervised_stdout]
  | generative asset path label hasCuda lastErrLine =>
    rw [(checkedAsset_streams _ asset path label hasCuda lastErrLine supervised_outputs).1, supervised_stdout]

theorem execute_stderr (h : StderrUntouched run task) :
    (run.execute task).stderr = (readBoundedStream run.stderr run.maxOutputBytes).1 ∧
      ((run.execute task).outputs = [] ∨ Uploaded.quiet run.uploaded = true) := by
  have hended : (run.supervised task).stderr = (readBoundedStream run.stderr run.maxOutputBytes).1 :=
    supervised_stderr h.ended
  have hcollected := h.collected
  unfold extraPatterns at hcollected
  unfold execute
  cases hw : run.workload with
  | script =>
    rw [hw] at hcollected
    dsimp only at hcollected ⊢
    obtain ⟨hsame, hleft⟩ := collectBlobOutputs_quiet (run.harvestAndApplyArtifacts task (run.supervised task))
      ((harvestAndApplyArtifacts_outputs _).trans supervised_outputs) hcollected
    exact ⟨hsame.trans ((harvestAndApplyArtifacts_stderr _ h.harvested).trans hended), hleft⟩
  | compilation found outDir =>
    rw [hw] at hcollected
    dsimp only at hcollected ⊢
    have hpatterns : task.outputGlobs ++ (compiled (run.supervised task) found outDir).2 = [] ∨
        ∃ files, run.collected = .ok files ∧ (files = [] ∨ Uploaded.quiet run.uploaded = true) :=
      hcollected.imp (compiled_patterns _ found outDir) id
    obtain ⟨hsame, hleft⟩ := collectBlobOutputs_quiet
      (run.harvestAndApplyArtifacts task (compiled (run.supervised task) found outDir).1)
      ((harvestAndApplyArtifacts_outputs _).trans ((compiled_outputs _ found outDir).trans supervised_outputs))
      hpatterns
    exact ⟨hsame.trans ((harvestAndApplyArtifacts_stderr _ h.harvested).trans
      ((compiled_stderr _ found outDir).trans hended)), hleft⟩
  | generative asset path label hasCuda lastErrLine =>
    refine ⟨Eq.trans ?_ hended, .inl ?_⟩
    · exact (checkedAsset_streams _ asset path label hasCuda lastErrLine supervised_outputs).2.1
    · exact (checkedAsset_streams _ asset path label hasCuda lastErrLine supervised_outputs).2.2

theorem uploadTaskOutputs_stdout : (run.uploadTaskOutputs task r).1.stdout = r.stdout := by
  unfold uploadTaskOutputs
  split
  · rfl
  split
  · rfl
  · split <;> rfl
  · rfl
  · rfl
  · rfl

theorem uploadTaskOutputs_stderr (h : r.outputs = [] ∨ Uploaded.quiet run.uploaded = true) :
    (run.uploadTaskOutputs task r).1.stderr = r.stderr := by
  unfold uploadTaskOutputs
  split
  · rfl
  next hsome =>
    have hquiet := h.resolve_left hsome
    cases hu : run.uploaded with
    | noCache | done | cancelled => rfl
    | noClient | failed => rw [hu] at hquiet; cases hquiet

theorem withCancellation_stdout (c : Option String) : (withCancellation r c).stdout = r.stdout := by
  cases c <;> rfl

theorem withCancellation_stderr (c : Option String) : (withCancellation r c).stderr = r.stderr := by
  cases c <;> rfl

theorem deliver_stdout (h : run.StdoutUntouched) :
    (run.deliver task).stdout = (readBoundedStream run.stdout run.maxOutputBytes).1 := by
  have hsame : (run.execute task).stdout = (readBoundedStream run.stdout run.maxOutputBytes).1 := execute_stdout h
  rw [← hsame]
  unfold deliver
  split
  · exact withCancellation_stdout _ _
  · exact (withCancellation_stdout _ _).trans (uploadTaskOutputs_stdout _)

theorem deliver_stderr (h : StderrUntouched run task) :
    (run.deliver task).stderr = (readBoundedStream run.stderr run.maxOutputBytes).1 := by
  obtain ⟨hsame, hleft⟩ := execute_stderr h
  rw [← hsame]
  unfold deliver
  split
  · exact withCancellation_stderr _ _
  · exact (withCancellation_stderr _ _).trans (uploadTaskOutputs_stderr _ hleft)

end ProcessRun

/-! ## The notice in the delivered bytes -/

/-- The capture's own bytes carry the notice where the MCP server looks for it, unless the head is
empty. -/
theorem streamWasWorkerTruncated_capture {chunks : List Bytes} {maxBytes : Nat} (hlimit : 2 ≤ maxBytes)
    (h : (StreamCapture.capture maxBytes chunks).truncated = true) :
    streamWasWorkerTruncated (readBoundedStream chunks maxBytes).1 = true := by
  obtain ⟨head, tail, hhead, htail, hout⟩ := readBoundedStream_truncated h
  have hsame : truncationNotice = workerTruncationNotice := rfl
  have hlen : (head ++ truncationNotice ++ tail).length = maxBytes + workerTruncationNotice.length := by
    simp only [List.length_append, hsame]
    omega
  have hslice : slice (head ++ truncationNotice ++ tail) (maxBytes / 2) workerTruncationNotice.length =
      some truncationNotice :=
    slice_middle head truncationNotice tail _ _ hhead.symm (congrArg List.length hsame.symm)
  rw [hout]
  unfold streamWasWorkerTruncated
  dsimp only
  rw [hlen, if_neg (by omega), Nat.add_sub_cancel, hslice, hsame, Bool.and_eq_true]
  exact ⟨decide_eq_true (by omega), by simp⟩

namespace Delivered

/-- A script that writes three bytes to each stream of a worker with capture limit `limit`. -/
def script (limit : Nat) (ended : Ended) (workload : Workload) : ProcessRun where
  workerId := 0
  maxOutputBytes := limit
  stdout := [[97, 98], [99]]
  stderr := [[97, 98, 99]]
  ended := ended
  elapsed := 0
  workload := workload
  harvested := .ok []
  collected := .ok []
  uploaded := .noClient
  cancelled := none

def exited : Ended := .exited (.ok (.code 0)) true

end Delivered

end OxideSwarm
