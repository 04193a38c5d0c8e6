import OxideSwarm.Master.Waiters
import OxideSwarm.Worker.Capture

/-!
# MapReduce jobs (`master/src/mapreduce.rs`)

`MapReduceEngine::execute` cuts the input into partitions, submits one map task for each, groups what they
print by key and reduces each key, on the master or by one more task.  It never looks at the queue's
states: for each task it puts a sender into the waiter map, submits and waits for what the sender is given.

A `Job` is one call of `execute`.  Its futures (`Flight`) take their steps in between the steps of the
master, so `Grid` is the master together with one job, and `Grid.step` a step of either.  How long a wait has
gone without a sign of life is decided by the environment (`late`).  The engine is the one the server
builds, with the worker registry.

Two fields of a job and one of the grid record history and are read by no step: `drawn`, `submitted` and
`completions`.
-/

namespace OxideSwarm

/-- `serde_json`, and `reduce_builtin`'s arithmetic on its values. -/
class SerdeJson where
  Value : Type
  fromStr : String → Option Value
  /-- a field of an object -/
  get : Value → String → Option Value
  asStr : Value → Option String
  string : String → Value
  one : Value
  /-- `to_vec` of a `GroupedKeyValue` -/
  groupedToVec : String → List Value → Except String Bytes
  reduceBuiltin : String → List Value → Except GridError (Option Value)

/-! ## Specifications -/

inductive MapFunctionSpec where
  | command (program : String) (args : List String)
  | shellScript (script : String)
  | builtin (operator : String)
deriving DecidableEq, Repr

inductive ReduceFunctionSpec where
  | command (program : String) (args : List String)
  | shellScript (script : String)
  | builtin (operator : String)
deriving DecidableEq, Repr

structure MapReduceJobSpec where
  jobId : Uuid
  inputData : List String
  mapper : MapFunctionSpec
  reducer : ReduceFunctionSpec
  partitionCount : Nat
  timeoutSecs : Nat
deriving DecidableEq, Repr

structure MapReduceResult [SerdeJson] where
  jobId : Uuid
  status : String
  output : FMap String SerdeJson.Value
  mapTasksTotal : Nat
  mapTasksCompleted : Nat
  reduceTasksTotal : Nat
  reduceTasksCompleted : Nat
  error : Option String

/-- The errors of `execute`. -/
inductive JobError where
  | grid (e : GridError)
  | timeout (operation : String) (durationSecs : Nat)
  | serialization (message : String)
deriving DecidableEq, Repr

def builtinMapScript (operator : String) : Except GridError String :=
  if operator = "word_count" then
    .ok ("while IFS= read -r line || [ -n \"$line\" ]; do\n  for word in $line; do\n" ++
      "    printf \"%s\\t1\\n\" \"$word\"\n  done\ndone")
  else if operator = "line_count" then
    .ok ("count=0\nwhile IFS= read -r line || [ -n \"$line\" ]; do\n  count=$((count + 1))\ndone\n" ++
      "printf \"lines\\t%d\\n\" \"$count\"")
  else if operator = "identity" then
    .ok "while IFS= read -r line || [ -n \"$line\" ]; do\n  printf \"%s\\t1\\n\" \"$line\"\ndone"
  else .error (.config ("Unsupported builtin mapper operator: " ++ operator))

def validateBuiltinReducer (operator : String) : Except GridError Unit :=
  if operator ∈ ["sum", "count", "max", "min", "concat"] then .ok ()
  else .error (.config ("Unsupported builtin reducer operator: " ++ operator))

/-- The checks that fail a job before anything is submitted. -/
def MapReduceJobSpec.checkOperators (spec : MapReduceJobSpec) : Except GridError Unit := do
  match spec.mapper with
  | .builtin operator => discard (builtinMapScript operator)
  | _ => .ok ()
  match spec.reducer with
  | .builtin operator => validateBuiltinReducer operator
  | _ => .ok ()

/-- The timeout of a job's waits, and of its tasks. -/
def MapReduceJobSpec.timeout (spec : MapReduceJobSpec) : Nat :=
  if spec.timeoutSecs = 0 then 60 else spec.timeoutSecs

/-- The input dealt out to the partitions in turn. -/
def MapReduceJobSpec.chunks (spec : MapReduceJobSpec) : List (List String) :=
  let numPartitions := min (max spec.partitionCount 1) spec.inputData.length
  let dealt := spec.inputData.zipIdx.foldl
    (fun chunks p => chunks.modify (p.2 % numPartitions) (· ++ [p.1])) (List.replicate numPartitions [])
  dealt.filter fun chunk => chunk ≠ []

def mapTaskSpec (mapper : MapFunctionSpec) (chunk : List String) : TaskSpec :=
  let stdin := some (Text.join "\n" chunk).toUTF8.toList
  match mapper with
  | .builtin operator => .command "sh" ["-c", (builtinMapScript operator).toOption.getD ""] [] none stdin
  | .shellScript script => .command "sh" ["-c", script] [] none stdin
  | .command program args => .command program args [] none stdin

/-- `Task::new` with `TaskRequirements::generic(1, timeout_secs)`. -/
def MapReduceJobSpec.newTask (spec : MapReduceJobSpec) (id : TaskId) (task : TaskSpec) (createdAtUtc : Nat) : Task where
  id
  spec := task
  requirements := ⟨1, 512, false, spec.timeout, none⟩
  createdAtUtc
  tags := []
  latestCheckpoint := none
  stagedFiles := []
  expectedOutputs := []
  inputs := []
  outputGlobs := []

def GridError.isTransient : GridError → Bool
  | .connectionClosed => true
  | .queueFull capacity => decide (0 < capacity)
  | .queueByteLimitExceeded taskBytes _ maxBytes => decide (taskBytes ≤ maxBytes ∧ 0 < maxBytes)
  | _ => false

/-- The submission waits for room in the queue. -/
def GridError.waitsForRoom (e : GridError) : Bool :=
  match e with
  | .queueFull _ | .queueByteLimitExceeded .. => e.isTransient
  | _ => false

variable [Host]

/-- The text of an error. -/
def GridError.display : GridError → String
  | .config message => "Configuration error: " ++ message
  | .queueFull capacity => "Task queue is full (" ++ toString capacity ++
      " queued or running tasks; wait, or raise --max-queue-size)"
  | .queueByteLimitExceeded taskBytes inUseBytes maxBytes => "Task queue active byte limit reached (task requires " ++
      toString taskBytes ++ " bytes, " ++ toString inUseBytes ++ " bytes in use, limit " ++ toString maxBytes ++
      " bytes; raise --max-active-mb)"
  | .taskNotFound id => "Task not found: " ++ Host.displayUuid id
  | .invalidTaskState taskId current attempted => "Invalid task state transition for task " ++
      Host.displayUuid taskId ++ ": cannot transition from " ++ current ++ " to " ++ attempted
  | .workerNotFound id => "Worker not found: " ++ Host.displayUuid id
  | .connectionClosed => "Connection closed unexpectedly"

def taskFailureDetail (r : TaskResult) (usesSh : Bool) : String :=
  let stderr := Text.trim (Host.fromUtf8Lossy r.stderr)
  let detail := if stderr ≠ "" then stderr else r.error.getD "unknown error"
  let isShSpawnError := Text.contains "Failed to spawn process 'sh'" detail ||
    Text.contains "Failed to spawn command 'sh'" detail || r.error.any (Text.contains "Process spawn error")
  let lowerDetail := Text.toAsciiLowercase detail
  let lowerErr := Text.toAsciiLowercase (r.error.getD "")
  let isNotFound := [lowerDetail, lowerErr].any fun text =>
    ["not found", "no such file", "cannot find the file", "os error 2"].any fun pat => Text.contains pat text
  if usesSh && isShSpawnError && isNotFound then
    detail ++ " (worker does not have 'sh' on PATH; install a POSIX shell such as Git for Windows or pass " ++
      "--map-cmd / --reduce-cmd)"
  else detail

variable [SerdeJson]

def reduceTaskSpec (reducer : ReduceFunctionSpec) (key : String) (values : List SerdeJson.Value) :
    Except JobError TaskSpec := do
  let (program, args) ← match reducer with
    | .shellScript script => .ok ("sh", ["-c", script])
    | .command program args => .ok (program, args)
    | .builtin operator => .error (.grid (.config
        ("Builtin reducer '" ++ operator ++ "' runs on the master and has no task")))
  match SerdeJson.groupedToVec key values with
  | .ok stdin => return .command program args [] none (some stdin)
  | .error e => .error (.serialization e)

/-! ## Reading results -/

/-- One line of `parse_map_output`, trimmed and not empty. -/
def parseMapLine (line : String) : String × SerdeJson.Value :=
  let pair := do
    let value ← SerdeJson.fromStr line
    let k ← SerdeJson.get value "key"
    let v ← SerdeJson.get value "value"
    return ((SerdeJson.asStr k).getD "", v)
  let delimited := (Text.splitOnce '\t' line <|> Text.splitOnce ' ' line).map fun p =>
    (p.1, (SerdeJson.fromStr p.2).getD (SerdeJson.string p.2))
  (pair <|> delimited).getD (line, SerdeJson.one)

/-- `parse_map_output`.  Each line is trimmed, so it does not matter that `lines` would also drop a carriage
return at its end. -/
def parseMapOutput (r : TaskResult) : List (String × SerdeJson.Value) :=
  (((Text.split '\n' (Host.fromUtf8Lossy r.stdout)).map Text.trim).filter fun line => line ≠ "").map parseMapLine

/-- The value a reduce task printed. -/
def reducedValue (r : TaskResult) : SerdeJson.Value :=
  let text := Text.trim (Host.fromUtf8Lossy r.stdout)
  (SerdeJson.fromStr text).getD (SerdeJson.string text)

/-- Shuffle and group by key. -/
def groupByKey (pairs : List (String × SerdeJson.Value)) : FMap String (List SerdeJson.Value) :=
  pairs.foldl (fun grouped p => grouped.set p.1 ((grouped.get p.1).getD [] ++ [p.2])) ∅

/-! ## Jobs -/

/-- Where a future of `submit_and_await` is.  From `submit` on its sender is in the waiter map, from `wait`
on its task is in the queue. -/
inductive Phase where
  | enrol (task : Task)
  | submit (task : Task) (k : WaiterId)
  | wait (k : WaiterId)
  | done (outcome : Except JobError TaskResult)

/-- A future in the buffer of `buffer_unordered`: the position of its item in the stream and the id its task
was created with. -/
structure Flight where
  slot : Nat
  id : TaskId
  phase : Phase

/-- Where a call of `execute` is. -/
inductive Stage where
  | mapping (chunks : List (List String)) (perPartition : List (List (String × SerdeJson.Value))) (completed : Nat)
  | reducing (mapTasks : Nat × Nat) (groups : List (String × List SerdeJson.Value)) (output : FMap String SerdeJson.Value)
      (completed : Nat)
  | returned (outcome : Except JobError MapReduceResult)
  /-- the caller went away -/
  | dropped

structure Job where
  spec : MapReduceJobSpec
  parallelism : Nat
  stage : Stage
  /-- how many items the stream of the stage has handed out -/
  next : Nat
  flights : List Flight
  /-- the ids of the tasks created so far -/
  drawn : List TaskId
  /-- the tasks submitted so far -/
  submitted : List TaskId

def failedResult (spec : MapReduceJobSpec) (mapTasks reduceTasks : Nat × Nat) (error : String) : MapReduceResult where
  jobId := spec.jobId
  status := "Failed"
  output := ∅
  mapTasksTotal := mapTasks.1
  mapTasksCompleted := mapTasks.2
  reduceTasksTotal := reduceTasks.1
  reduceTasksCompleted := reduceTasks.2
  error := some error

/-- The result of a job that succeeded. -/
def completedResult (spec : MapReduceJobSpec) (mapTasks reduceTasks : Nat × Nat) (output : FMap String SerdeJson.Value) :
    MapReduceResult where
  jobId := spec.jobId
  status := "Completed"
  output
  mapTasksTotal := mapTasks.1
  mapTasksCompleted := mapTasks.2
  reduceTasksTotal := reduceTasks.1
  reduceTasksCompleted := reduceTasks.2
  error := none

/-- `execute` up to its first stream. -/
def Job.start (spec : MapReduceJobSpec) (parallelism : Nat) : Job where
  spec
  parallelism := max parallelism 1
  stage :=
    if spec.inputData = [] then .returned (.ok (completedResult spec (0, 0) (0, 0) ∅))
    else
      match spec.checkOperators with
      | .error e => .returned (.error (.grid e))
      | .ok () => .mapping spec.chunks (List.replicate spec.chunks.length []) 0
  next := 0
  flights := []
  drawn := []
  submitted := []

/-- What the stream of the stage makes of its `i`-th item. -/
def Stage.item? (spec : MapReduceJobSpec) (i : Nat) : Stage → Option (Except JobError TaskSpec)
  | .mapping chunks _ _ => chunks[i]?.map fun chunk => .ok (mapTaskSpec spec.mapper chunk)
  | .reducing _ groups _ _ => groups[i]?.map fun g => reduceTaskSpec spec.reducer g.1 g.2
  | .returned _ | .dropped => none

/-- What the loop of the map phase makes of the outcome of partition `idx`. -/
def judgeMap (spec : MapReduceJobSpec) (chunks : List (List String)) (perPartition : List (List (String × SerdeJson.Value)))
    (completed idx : Nat) : Except JobError TaskResult → Stage
  | .error e => .returned (.error e)
  | .ok r =>
    if r.exitCode ≠ 0 then
      let usesSh := match spec.mapper with
        | .command .. => false
        | _ => true
      .returned (.ok (failedResult spec (chunks.length, completed) (0, 0)
        ("Map partition " ++ toString idx ++ " failed with exit code " ++ toString r.exitCode ++ ": " ++
          taskFailureDetail r usesSh)))
    else if stdoutWasTruncated r then
      .returned (.ok (failedResult spec (chunks.length, completed) (0, 0)
        ("Map partition " ++ toString idx ++ " produced more output than a worker captures and it was truncated, " ++
          "so the result would be incomplete; use more partitions (--chunks) or have the mapper aggregate its output")))
    else .mapping chunks (perPartition.modify idx (· ++ parseMapOutput r)) (completed + 1)

/-- What the loop of the reduce phase makes of the outcome of the task of `key`. -/
def judgeReduce (spec : MapReduceJobSpec) (mapTasks : Nat × Nat) (groups : List (String × List SerdeJson.Value))
    (output : FMap String SerdeJson.Value) (completed : Nat) (key : String) : Except JobError TaskResult → Stage
  | .error e => .returned (.error e)
  | .ok r =>
    if r.exitCode ≠ 0 then
      let usesSh := match spec.reducer with
        | .shellScript _ => true
        | _ => false
      .returned (.ok (failedResult spec mapTasks (groups.length, completed)
        ("Reducer for key '" ++ key ++ "' failed: " ++ taskFailureDetail r usesSh)))
    else if stdoutWasTruncated r then
      .returned (.ok (failedResult spec mapTasks (groups.length, completed)
        ("Reducer for key '" ++ key ++ "' produced more output than a worker captures and it was truncated")))
    else .reducing mapTasks groups (output.set key (reducedValue r)) (completed + 1)

/-- The loop body of the stage. -/
def Stage.judge (spec : MapReduceJobSpec) (slot : Nat) (outcome : Except JobError TaskResult) : Stage → Stage
  | .mapping chunks perPartition completed => judgeMap spec chunks perPartition completed slot outcome
  | .reducing mapTasks groups output completed =>
    judgeReduce spec mapTasks groups output completed ((groups[slot]?.map Prod.fst).getD "") outcome
  | stage => stage

/-- The reduce phase of a built-in reducer, on the groups still to reduce. -/
def reduceGroups (spec : MapReduceJobSpec) (operator : String) (mapTasks : Nat × Nat) (total : Nat) :
    List (String × List SerdeJson.Value) → FMap String SerdeJson.Value → Nat → MapReduceResult
  | [], output, completed => completedResult spec mapTasks (total, completed) output
  | (key, values) :: rest, output, completed =>
    match SerdeJson.reduceBuiltin operator values with
    | .ok reduced =>
      reduceGroups spec operator mapTasks total rest (reduced.elim output (output.set key)) (completed + 1)
    | .error e => failedResult spec mapTasks (total, completed)
        ("Reducer for key '" ++ key ++ "' failed: " ++ e.display)

/-- What follows the loop of the stage. -/
def Stage.drained (spec : MapReduceJobSpec) (order : SetOrder String) : Stage → Stage
  | .mapping chunks perPartition completed =>
    let grouped := groupByKey perPartition.flatten
    let groups := (order.list grouped.keys).map fun key => (key, (grouped.get key).getD [])
    let mapTasks := (chunks.length, completed)
    match spec.reducer with
    | .builtin operator => .returned (.ok (reduceGroups spec operator mapTasks groups.length groups ∅ 0))
    | _ => .reducing mapTasks groups ∅ 0
  | .reducing mapTasks groups output completed =>
    .returned (.ok (completedResult spec mapTasks (groups.length, completed) output))
  | stage => stage

def Stage.isOpen : Stage → Bool
  | .mapping .. | .reducing .. => true
  | _ => false

/-- The status that the job has reported. -/
def Stage.status : Stage → Option String
  | .returned (.ok result) => some result.status
  | _ => none

/-! ## The master and a job -/

/-- The master while it runs a job. -/
structure Grid where
  master : Master
  job : Job
  /-- the results with which `record_result_from` has put tasks into the state `Completed` -/
  completions : List (TaskId × TaskResult)

namespace Grid

/-- Somebody uses the id `t`. -/
def knows (m : Master) (t : TaskId) : Bool :=
  (m.shared.queue.tasks.get t).isSome || (m.shared.recorded.get t).isSome || (m.shared.waiters.get t).isSome ||
    (m.pending.any fun a => a.wakes = some t) || m.shared.sent.any fun d => d.task = t

/-- The stream hands out its next item, if the buffer has room.  A task gets an id that nobody uses
(`Uuid::new_v4`). -/
def launch (g : Grid) (id : TaskId) (createdAtUtc : Nat) : Grid :=
  let job := g.job
  if job.flights.length < job.parallelism ∧ id ∉ job.drawn ∧ knows g.master id = false then
    match job.stage.item? job.spec job.next with
    | none => g
    | some built =>
      let phase := match built with
        | .ok task => .enrol (job.spec.newTask id task createdAtUtc)
        | .error e => .done (.error e)
      { g with job := { job with
          next := job.next + 1
          flights := job.flights ++ [⟨job.next, id, phase⟩]
          drawn := job.drawn ++ [id] } }
  else g

/-- The error of a wait that has gone on for too long. -/
def timedOut (spec : MapReduceJobSpec) (operation : String) : Except JobError TaskResult :=
  .error (.timeout operation spec.timeout)

/-- The queue accepts the task of a flight. -/
def accept (s : MasterState) (t : TaskId) (q : TaskQueueInner) : MasterState :=
  { s with
    queue := q
    recorded := s.recorded.del t
    accepted := s.accepted.set t []
    events := s.events ++ [.accepted t] }

/-- One step of a future: the master, where the future is then and the task it submitted. -/
def pollFlight (spec : MapReduceJobSpec) (m : Master) (f : Flight) (seen : TaskQueueInner) (clock : Clock) (late : Bool) :
    Master × Phase × Option TaskId :=
  match f.phase with
  | .enrol task =>
    if m.shared.waitersHeld then (m, f.phase, none)
    else ({ m with shared := m.shared.push f.id }, .submit task m.shared.nextWaiter, none)
  | .submit task k =>
    let tried := m.shared.queue.trySubmitSlot (some task) seen clock
    match tried.1 with
    | .ok t => ({ m with shared := accept m.shared t tried.2.2 }, .wait k, some t)
    | .error e =>
      if e.waitsForRoom && !late then ({ m with shared := m.shared.withQueue tried.2.2 }, f.phase, none)
      else
        let outcome := if e.waitsForRoom then
            timedOut spec ("MapReduce task " ++ Host.displayUuid f.id.uuid ++ " waiting for queue room (" ++
              e.display ++ ")")
          else .error (.grid e)
        (m.spawn ((m.shared.withQueue tried.2.2).close k) ⟨.detached, [.pruneWaiters f.id]⟩, .done outcome, none)
  | .wait k =>
    if late then
      (m.spawn (m.shared.close k)
          ⟨.detached, [.pruneWaiters f.id, .pruneWaiters f.id, .cancel f.id "MapReduce wait timed out"]⟩,
        .done (timedOut spec ("MapReduce task " ++ Host.displayUuid f.id.uuid)), none)
    else
      match m.shared.sent.find? fun d => d.waiter = k with
      | some d => (m, .done (.ok d.value), none)
      | none =>
        if k ∈ (m.shared.waiters.get f.id).getD [] then (m, f.phase, none)
        else (m, .done (.error (.grid .connectionClosed)), none)
  | .done _ => (m, f.phase, none)

def poll (g : Grid) (i : Nat) (seen : TaskQueueInner) (clock : Clock) (late : Bool) : Grid :=
  match g.job.flights[i]? with
  | none => g
  | some f =>
    let polled := pollFlight g.job.spec g.master f seen clock late
    { g with
      master := polled.1
      job := { g.job with
        flights := g.job.flights.set i { f with phase := polled.2.1 }
        submitted := g.job.submitted ++ polled.2.2.toList } }

/-- A future is dropped: its receiver, and then its `AbandonGuard`. -/
def dropFlight (m : Master) (f : Flight) : Master :=
  match f.phase with
  | .enrol _ | .done _ => m
  | .submit _ k => m.spawn (m.shared.close k) ⟨.detached, [.pruneWaiters f.id]⟩
  | .wait k => m.spawn (m.shared.close k)
      ⟨.detached, [.pruneWaiters f.id, .cancel f.id "MapReduce job abandoned"]⟩

/-- The job goes on with `stage`; when it is over, what it still has in flight is dropped. -/
def enter (g : Grid) (stage : Stage) (flights : List Flight) : Grid :=
  if stage.isOpen then { g with job := { g.job with stage, flights } }
  else { g with master := flights.foldl dropFlight g.master, job := { g.job with stage, flights := [] } }

/-- The loop of the stage takes the outcome of a future that is done. -/
def take (g : Grid) (i : Nat) : Grid :=
  match g.job.flights[i]? with
  | some ⟨slot, _, .done outcome⟩ => g.enter (g.job.stage.judge g.job.spec slot outcome) (g.job.flights.eraseIdx i)
  | _ => g

/-- The stream of the stage has ended. -/
def drain (g : Grid) (order : SetOrder String) : Grid :=
  if g.job.flights = [] ∧ (g.job.stage.item? g.job.spec g.job.next).isNone then
    ({ g with job := { g.job with next := 0 } } : Grid).enter (g.job.stage.drained g.job.spec order) []
  else g

/-- The caller drops the job. -/
def abandon (g : Grid) : Grid := if g.job.stage.isOpen then g.enter .dropped g.job.flights else g

/-- The result with which a step of the master completes a task. -/
def completion (m : Master) : Label → Option (TaskId × TaskResult)
  | .advance i c =>
    match m.next? i with
    | some (_, .record w session r _) =>
      match (m.shared.queue.recordResultFrom w (some session) r c.clock).1 with
      | .ok o => if o.disposition = .terminal ∧ o.state = .completed then some (r.taskId, r) else none
      | .error _ => none
    | _ => none
  | _ => none

/-- A step of the master or of the job. -/
inductive Act where
  | master (l : Label)
  | launch (id : TaskId) (createdAtUtc : Nat)
  | poll (i : Nat) (seen : TaskQueueInner) (clock : Clock) (late : Bool)
  | take (i : Nat)
  | drain (order : SetOrder String)
  | abandon

def step (g : Grid) : Act → Grid
  | .master l => { g with
      master := g.master.step l
      completions := g.completions ++ (completion g.master l).toList }
  | .launch id createdAtUtc => g.launch id createdAtUtc
  | .poll i seen clock late => g.poll i seen clock late
  | .take i => g.take i
  | .drain order => g.drain order
  | .abandon => g.abandon

/-- A master that starts a job. -/
def start (m : Master) (spec : MapReduceJobSpec) (parallelism : Nat) : Grid := ⟨m, Job.start spec parallelism, []⟩

def run (g : Grid) (acts : List Act) : Grid := runFrom Grid.step g acts

end Grid

end OxideSwarm
