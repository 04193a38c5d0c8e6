import OxideSwarm.Core.Paths
import OxideSwarm.Data.Transfer
import OxideSwarm.Worker.Cache

/-!
# The tasks of a worker and the blob cache they share

`fetch_task_inputs` (`blob_client.rs`), `materialize_inputs` and the collection of outputs (`staging.rs`), the
upload of outputs and `evict_to_fit`, as threads over one `CacheState` (`Lib/Pool.lean`).  A section is one
lock hold of the cache or one operation on its object files; between two sections the others may run.  What a
call carries along (the ids under its pin, the sandbox it fills, its part files) belongs to the thread.

A pin that `fetch_task_inputs` returned is a thread that `holds` it, and the next step of that thread drops
it.  A pin that is dropped on the way out of a call is the section `dropPin`.  A future may be dropped wherever
it is (`CacheChoice.cancelled`); blocking calls run to their end.
-/

namespace OxideSwarm

variable [Host]

/-! ## Sandboxes -/

inductive SandboxEntry where
  | dir
  | file (content : Bytes) (mode : Nat)
deriving DecidableEq, Repr

/-- What is below the root of a sandbox, by the names that lead to it. -/
abbrev Sandbox := FMap (List String) SandboxEntry

namespace Sandbox

def isFile (box : Sandbox) (path : List String) : Bool :=
  (box.get path).any fun
    | .file _ _ => true
    | .dir => false

/-- The directories from the one below the root down to `dir`. -/
def ancestors (dir : List String) : List (List String) := dir.inits.tail

/-- `create_dir`, where nothing is yet. -/
def createDir (box : Sandbox) (path : List String) : Sandbox :=
  if (box.get path).isSome then box else box.set path .dir

def createDirAll (box : Sandbox) (dir : List String) : Except String Sandbox :=
  if (ancestors dir.dropLast).any box.isFile then .error "Not a directory (os error 20)"
  else if box.isFile dir then .error "File exists (os error 17)"
  else .ok ((ancestors dir).foldl createDir box)

end Sandbox

/-- The mode a placed file gets. -/
def placedMode (executable : Bool) : Nat := if executable then 0o755 else 0o644

/-! ## What the calls carry along -/

/-- `fetch_task_inputs`: `ids` are under its pin, `todo` are the inputs the loop over trees has still to visit,
and `current` is the input whose files are being fetched. -/
structure Fetch where
  inputs : List TaskInput
  ids : List BlobId
  todo : List TaskInput
  current : Option String
  online : Bool
deriving DecidableEq

/-- A file still to be placed. -/
structure ToPlace where
  rel : String
  id : BlobId
  executable : Bool
deriving DecidableEq, Repr

/-- `materialize_inputs`: `files` are those of the input at hand. -/
structure Placing where
  todo : List TaskInput
  files : List ToPlace
  placed : Nat
  box : Sandbox
deriving DecidableEq

/-- The collection of a task's outputs: `ids` are under its pin, if it has one. -/
structure Collecting where
  task : TaskId
  pinned : Bool
  ids : List BlobId
  files : List Bytes
deriving DecidableEq

/-- Who calls `read_verified` for the manifest of an input. -/
inductive Reader where
  | fetch (f : Fetch) (input : TaskInput)
  | place (p : Placing) (input : TaskInput)
deriving DecidableEq

inductive CacheSection where
  -- `fetch_task_inputs`
  | fetchPin (inputs : List TaskInput) (online : Bool)
  | fetchCheck (f : Fetch) (blobs : List (BlobId × Nat)) (seen : List BlobId) (missing : List (BlobId × Nat))
  | fetchJobs (f : Fetch) (jobs : List (BlobId × Nat))
  | fetchNext (f : Fetch)
  | fetchExtend (f : Fetch) (input : TaskInput) (files : List (BlobId × Nat))
  | fetchFailed (message : String)
  | holds (f : Fetch)
  | dropPin (ids : List BlobId)
  -- `read_verified`
  | readMeta (r : Reader) (id : BlobId)
  | readData (r : Reader) (id : BlobId)
  | readTouch (r : Reader) (id : BlobId) (data : Bytes)
  | readCorrupt (r : Reader) (id : BlobId)
  -- `materialize_inputs`
  | place (p : Placing)
  | placeTouch (p : Placing) (file : ToPlace) (data : Bytes)
  | placeCorrupt (p : Placing) (file : ToPlace)
  | placeGone (p : Placing) (file : ToPlace) (error : String)
  | placeForget (p : Placing) (file : ToPlace)
  | placed (result : Except String Nat) (box : Sandbox)
  -- outputs
  | insertCheck (k : Collecting)
  | insertAdopt (k : Collecting) (data : Bytes)
  | keepOutputs (t : TaskId) (ids : List BlobId)
  | takeOutputs (t : TaskId) (ids : List BlobId)
  | pinOutputs (ids : List BlobId)
  | releaseOutputs (t : TaskId)
  -- the rest
  | evict
  | contains (id : BlobId)
deriving DecidableEq

/-- A failed file operation. -/
structure IoFault where
  notFound : Bool
  text : String
deriving DecidableEq, Repr

/-- What the environment decides in one step. -/
structure CacheChoice where
  /-- the future is dropped here -/
  cancelled : Bool
  fault : Option IoFault
  renamed : Bool
  removed : BlobId → Bool
  /-- which transfer ends next, and how its calls are answered -/
  pick : Nat
  channel : BlobChannel

abbrev CacheThread := Thread Unit CacheSection
abbrev CachePool := Pool CacheState Unit CacheSection
abbrev CacheOutcome := Outcome CacheState Unit CacheSection

/-! ## What the sections do -/

/-- `corrupt`. -/
def corruptText (id : BlobId) : String :=
  "cached blob " ++ id.toHex ++ " no longer matches its id (it was dropped; run the task again)"

def noSuchFile : String := "No such file or directory (os error 2)"

/-- The blob of an input with its size. -/
def TaskInput.top (i : TaskInput) : BlobId × Nat :=
  match i.source with
  | .file id size _ => (id, size)
  | .tree manifest size => (manifest, size)

/-- An error of `fetch_missing`. -/
def Fetch.missingError (f : Fetch) (message : String) : String :=
  match f.current with
  | some path => "input '" ++ path ++ "': " ++ message
  | none => message

namespace CacheSection

/-- The call fails: its pin is dropped. -/
def failFetch (f : Fetch) (message : String) : List CacheSection := [.dropPin f.ids, .fetchFailed message]

/-- The calls that a failed `read_verified` ends. -/
def failRead : Reader → String → List CacheSection
  | .fetch f input, e => failFetch f ("input '" ++ input.path ++ "': directory manifest: " ++ e)
  | .place p input, e => [.placed (.error ("input '" ++ input.path ++ "': directory manifest: " ++ e)) p.box]

/-- What a call goes on with once it has read a manifest. -/
def afterRead : Reader → Bytes → List CacheSection
  | .fetch f input, data =>
    match TreeManifest.decode data with
    | .error e => failFetch f ("input '" ++ input.path ++ "': " ++ e)
    | .ok tree => [.fetchExtend f input (tree.files.map fun file => (file.id, file.size))]
  | .place p input, data =>
    match TreeManifest.decode data with
    | .error e => [.placed (.error ("input '" ++ input.path ++ "': " ++ e)) p.box]
    | .ok tree => [.place { p with files := tree.files.map fun file =>
        ⟨joinBlobPath input.path file.path, file.id, file.executable⟩ }]

/-- The ids under the pin that the section's call owns. -/
def owned : CacheSection → List BlobId
  | .fetchCheck f _ _ _ | .fetchJobs f _ | .fetchNext f | .fetchExtend f _ _ | .holds f => f.ids
  | .readMeta (.fetch f _) _ | .readData (.fetch f _) _ | .readTouch (.fetch f _) _ _
  | .readCorrupt (.fetch f _) _ => f.ids
  | .dropPin ids | .keepOutputs _ ids => ids
  | .insertCheck k | .insertAdopt k _ => k.ids
  | _ => []

/-- The section drops a blob from the index, pinned or not. -/
def drops : CacheSection → Bool
  | .readCorrupt _ _ | .placeCorrupt _ _ | .placeForget _ _ => true
  | _ => false

/-- The section is part of a future that can be dropped. -/
def droppable : CacheSection → Bool
  | .fetchCheck _ _ _ _ | .fetchJobs _ _ | .fetchNext _ | .fetchExtend _ _ _ => true
  | .readMeta (.fetch _ _) _ | .readData (.fetch _ _) _ | .readTouch (.fetch _ _) _ _
  | .readCorrupt (.fetch _ _) _ => true
  | _ => false

end CacheSection

namespace CacheState

open CacheSection

variable (s : CacheState) (c : CacheChoice)

def goOn (code : List CacheSection) : CacheOutcome := ⟨s, code, []⟩

/-- `pin.extend(top)`. -/
def fetchPin (inputs : List TaskInput) (online : Bool) : CacheOutcome :=
  let top := inputs.map TaskInput.top
  let ids := top.map Prod.fst
  { s with inner := s.inner.pinIds ids }.goOn [.fetchCheck ⟨inputs, ids, inputs, none, online⟩ top [] []]

/-- One item of the filter of `fetch_missing`, or what follows it. -/
def fetchCheck (f : Fetch) (blobs : List (BlobId × Nat)) (seen : List BlobId) (missing : List (BlobId × Nat)) :
    CacheOutcome :=
  match blobs with
  | [] =>
    if missing = [] then s.goOn [.fetchNext f]
    else if f.online then s.goOn [.fetchJobs f missing]
    else s.goOn (failFetch f (f.missingError (toString missing.length ++
      " input blobs are not in this worker's cache, and it is not connected to a master with a blob store " ++
      "to fetch them from")))
  | blob :: rest =>
    if blob.1 ∈ seen then s.goOn [.fetchCheck f rest seen missing]
    else
      let missing := if s.inner.contains blob.1 then missing else missing ++ [blob]
      { s with inner := s.inner.touch blob.1 }.goOn [.fetchCheck f rest (blob.1 :: seen) missing]

/-- `fetch_one` of the transfer that ends next. -/
def fetchJobs (f : Fetch) (jobs : List (BlobId × Nat)) : CacheOutcome :=
  let k := c.pick % min transferConcurrency jobs.length
  let fail (e : BlobError) := s.goOn (failFetch f (f.missingError
    ("fetching inputs from the master failed: " ++ e.display)))
  match jobs[k]? with
  | none => s.goOn [.fetchNext f]
  | some job =>
    match c.fault with
    | some fault => fail (.io fault.text)
    | none =>
      match downloadBlob job.1 (some job.2) [] c.channel with
      | .error e => fail e
      | .ok data =>
        match s.adopt job.1 data job.2 c.renamed with
        | none => fail (.io noSuchFile)
        | some s' => s'.goOn [.fetchJobs f (jobs.eraseIdx k)]

/-- The loop over the trees. -/
def fetchNext (f : Fetch) : CacheOutcome :=
  match f.todo with
  | [] => s.goOn [.holds f]
  | input :: todo =>
    match input.source with
    | .file _ _ _ => s.goOn [.fetchNext { f with todo }]
    | .tree manifest _ => s.goOn [.readMeta (.fetch { f with todo } input) manifest]

def fetchExtend (f : Fetch) (input : TaskInput) (files : List (BlobId × Nat)) : CacheOutcome :=
  let ids := files.map Prod.fst
  { s with inner := s.inner.pinIds ids }.goOn
    [.fetchCheck { f with ids := f.ids ++ ids, current := some input.path } files [] []]

def readMeta (r : Reader) (id : BlobId) : CacheOutcome :=
  match c.fault, s.objects.get id with
  | some fault, _ => s.goOn (failRead r fault.text)
  | none, none => s.goOn (failRead r noSuchFile)
  | none, some data =>
    if data.length > maxManifestBytes then
      s.goOn (failRead r ("blob " ++ id.toHex ++ " has " ++ toString data.length ++ " bytes, more than the " ++
        toString maxManifestBytes ++ " allowed here"))
    else s.goOn [.readData r id]

def readData (r : Reader) (id : BlobId) : CacheOutcome :=
  match c.fault, s.objects.get id with
  | some fault, _ => s.goOn (failRead r fault.text)
  | none, none => s.goOn (failRead r noSuchFile)
  | none, some data =>
    if BlobId.of data ≠ id then s.goOn [.readCorrupt r id] else s.goOn [.readTouch r id data]

/-- The next file of `materialize_inputs` up to the end of `copy_verified`, or the next input. -/
def place (p : Placing) : CacheOutcome :=
  match p.files with
  | [] =>
    match p.todo with
    | [] => s.goOn [.placed (.ok p.placed) p.box]
    | input :: todo =>
      match input.source with
      | .file id _ executable => s.goOn [.place { p with todo, files := [⟨input.path, id, executable⟩] }]
      | .tree manifest _ => s.goOn [.readMeta (.place { p with todo } input) manifest]
  | file :: files =>
    let fail (box : Sandbox) (e : String) := s.goOn [.placed (.error ("input '" ++ file.rel ++ "'" ++ e)) box]
    match validateBlobPath file.rel with
    | .error e => fail p.box (": " ++ e)
    | .ok () =>
      match p.box.createDirAll (segments file.rel).dropLast with
      | .error e => fail p.box (": cannot create its directory: " ++ e)
      | .ok box =>
        match s.objects.get file.id with
        | none => s.goOn [.placeGone { p with box } file noSuchFile]
        | some data =>
          if (box.get (segments file.rel)).isSome then
            fail box " collides with another input or a file the task already has"
          else
            match c.fault with
            | some fault =>
              if fault.notFound then s.goOn [.placeGone { p with box } file fault.text]
              else fail box (": " ++ fault.text)
            | none =>
              if BlobId.of data ≠ file.id then s.goOn [.placeCorrupt { p with box } file]
              else s.goOn [.placeTouch { p with box := box.set (segments file.rel) (.file data 0o666), files } file data]

/-- `materialize` after a copy that succeeded. -/
def placeTouch (p : Placing) (file : ToPlace) (data : Bytes) : CacheOutcome :=
  let s' := { s with inner := s.inner.touch file.id }
  match c.fault with
  | some fault => s'.goOn [.placed (.error ("input '" ++ file.rel ++ "': " ++ fault.text)) p.box]
  | none => s'.goOn [.place { p with
      box := p.box.set (segments file.rel) (.file data (placedMode file.executable))
      placed := p.placed + 1 }]

/-- `!src.exists()`, after `copy_verified` failed with `NotFound`. -/
def placeGone (p : Placing) (file : ToPlace) (error : String) : CacheOutcome :=
  if (s.objects.get file.id).isSome then s.goOn [.placed (.error ("input '" ++ file.rel ++ "': " ++ error)) p.box]
  else s.goOn [.placeForget p file]

/-- The first lock hold of `insert_file_inner`, or the end of the collection. -/
def insertCheck (k : Collecting) : CacheOutcome :=
  match k.files with
  | [] => s.goOn (if k.pinned then [.keepOutputs k.task k.ids] else [])
  | data :: files =>
    let id := BlobId.of data
    match c.fault with
    | some _ => s.goOn [.dropPin k.ids]
    | none =>
      let inner := s.inner.touch id
      if s.inner.contains id ∧ (s.objects.get id).isSome then
        if k.pinned then
          { s with inner := inner.pinIds [id] }.goOn [.insertCheck { k with ids := k.ids ++ [id], files }]
        else { s with inner }.goOn [.insertCheck { k with files }]
      else { s with inner }.goOn [.insertAdopt { k with files } data]

/-- The lock hold of `adopt_inner` for an output. -/
def insertAdopt (k : Collecting) (data : Bytes) : CacheOutcome :=
  let id := BlobId.of data
  match c.fault with
  | some _ => s.goOn [.dropPin k.ids]
  | none =>
    match s.adopt id data data.length c.renamed with
    | none => s.goOn [.dropPin k.ids]
    | some s' =>
      if k.pinned then
        { s' with inner := s'.inner.pinIds [id] }.goOn [.insertCheck { k with ids := k.ids ++ [id] }]
      else s'.goOn [.insertCheck k]

/-- The start of `upload_task_outputs`: the pin kept for the task becomes a guard of the call. -/
def takeOutputs (t : TaskId) (ids : List BlobId) : CacheOutcome :=
  match s.inner.taskPins.get t with
  | none => s.goOn [.pinOutputs ids]
  | some kept =>
    { s with inner := { s.inner with taskPins := s.inner.taskPins.del t } }.goOn [.pinOutputs ids, .dropPin kept]

/-- One section that is run. -/
def run (a : CacheSection) : CacheOutcome :=
  match a with
  | .fetchPin inputs online => s.fetchPin inputs online
  | .fetchCheck f blobs seen missing => s.fetchCheck f blobs seen missing
  | .fetchJobs f jobs => s.fetchJobs c f jobs
  | .fetchNext f => s.fetchNext f
  | .fetchExtend f input files => s.fetchExtend f input files
  | .fetchFailed message => s.goOn [.fetchFailed message]
  | .holds f => { s with inner := s.inner.unpinIds f.ids }.goOn []
  | .dropPin ids => { s with inner := s.inner.unpinIds ids }.goOn []
  | .readMeta r id => s.readMeta c r id
  | .readData r id => s.readData c r id
  | .readTouch r id data => { s with inner := s.inner.touch id }.goOn (afterRead r data)
  | .readCorrupt r id => (s.dropCorrupt id).goOn (failRead r (corruptText id))
  | .place p => s.place c p
  | .placeTouch p file data => s.placeTouch c p file data
  | .placeCorrupt p file => (s.dropCorrupt file.id).goOn
      [.placed (.error ("input '" ++ file.rel ++ "': " ++ corruptText file.id)) p.box]
  | .placeGone p file error => s.placeGone p file error
  | .placeForget p file => { s with inner := s.inner.remove file.id }.goOn
      [.placed (.error ("input '" ++ file.rel ++ "': blob " ++ file.id.toHex ++
        " is not in the worker's blob cache")) p.box]
  | .placed result box => s.goOn [.placed result box]
  | .insertCheck k => s.insertCheck c k
  | .insertAdopt k data => s.insertAdopt c k data
  | .keepOutputs t ids => { s with inner := s.inner.keepTaskOutputs t ids }.goOn []
  | .takeOutputs t ids => s.takeOutputs t ids
  | .pinOutputs ids => { s with inner := s.inner.pinIds ids }.goOn [.dropPin ids]
  | .releaseOutputs t => { s with inner := s.inner.releaseTaskOutputs t }.goOn []
  | .evict => (s.evictBatch c.removed).goOn (if s.evictionBatch.length < evictionBatchSize then [] else [.evict])
  | .contains id => { s with inner := s.inner.touch id }.goOn []

/-- One section, or the future is dropped. -/
def exec (a : CacheSection) : CacheOutcome :=
  if c.cancelled ∧ a.droppable then s.goOn [.dropPin a.owned] else s.run c a

theorem exec_eq_run {a : CacheSection} (h : a.droppable = false) : s.exec c a = s.run c a := by
  unfold exec
  rw [if_neg]
  rintro ⟨-, hdrop⟩
  rw [h] at hdrop
  cases hdrop

/-- What a lock hold can do to the cache; one that drops a blob from the index does so whether it is pinned or not. -/
inductive Move (s : CacheState) : Bool → CacheState → Prop where
  | same {drops : Bool} : Move s drops s
  | touch {drops : Bool} (id : BlobId) : Move s drops { s with inner := s.inner.touch id }
  | adopt {drops : Bool} {id : BlobId} {data : Bytes} {size : Nat} {renamed : Bool} {s' : CacheState}
      (adopted : s.adopt id data size renamed = some s') (verified : BlobId.of data = id) : Move s drops s'
  | pins {drops : Bool} {s' : CacheState} (before : Move s drops s') (pins : FMap BlobId Nat)
      (taskPins : FMap TaskId (List BlobId)) : Move s drops { s' with inner := { s'.inner with pins, taskPins } }
  | evict {drops : Bool} (removed : BlobId → Bool) : Move s drops (s.evictBatch removed)
  | drop (id : BlobId) (objects : FMap BlobId Bytes) : Move s true { s with inner := s.inner.remove id, objects }

/-- **One section.** -/
theorem exec_move (a : CacheSection) : Move s a.drops (s.exec c a).shared := by
  unfold exec
  split
  · exact .same
  unfold run
  cases a with
  | readCorrupt r id => exact .drop id _
  | placeCorrupt _ file | placeForget _ file => exact .drop file.id _
  | fetchPin | fetchExtend | holds | dropPin | pinOutputs | releaseOutputs => exact .pins .same _ _
  | readTouch _ id | contains id => exact .touch id
  | evict => exact .evict c.removed
  | fetchFailed | placed => exact .same
  | fetchCheck f blobs seen missing =>
    unfold fetchCheck goOn
    dsimp only
    split
    · repeat' split
      all_goals exact .same
    · split
      · exact .same
      · exact .touch _
  | fetchJobs f jobs =>
    unfold fetchJobs goOn
    dsimp only
    split
    · exact .same
    split
    · exact .same
    split
    · exact .same
    next data hdownload =>
    split
    · exact .same
    · next s' hadopt => exact .adopt hadopt (downloadBlob_verified hdownload)
  | fetchNext f =>
    unfold fetchNext goOn
    dsimp only
    repeat' split
    all_goals exact .same
  | readMeta r id =>
    unfold readMeta goOn
    dsimp only
    repeat' split
    all_goals exact .same
  | readData r id =>
    unfold readData goOn
    dsimp only
    repeat' split
    all_goals exact .same
  | place p =>
    unfold place goOn
    dsimp only
    repeat' split
    all_goals exact .same
  | placeGone p file error =>
    unfold placeGone goOn
    dsimp only
    split <;> exact .same
  | placeTouch p file data =>
    unfold placeTouch goOn
    dsimp only
    split <;> exact .touch file.id
  | insertCheck k =>
    unfold insertCheck goOn
    dsimp only
    split
    · exact .same
    split
    · exact .same
    split
    · split
      · exact .pins (.touch _) _ _
      · exact .touch _
    · exact .touch _
  | insertAdopt k data =>
    unfold insertAdopt goOn
    dsimp only
    split
    · exact .same
    split
    · exact .same
    next s' hadopt =>
    split
    · exact .pins (.adopt hadopt rfl) _ _
    · exact .adopt hadopt rfl
  | keepOutputs t ids =>
    unfold goOn CacheInner.keepTaskOutputs
    dsimp only
    split
    · exact .same
    · exact .pins .same _ _
  | takeOutputs t ids =>
    unfold takeOutputs goOn
    dsimp only
    split
    · exact .same
    · exact .pins .same _ _

end CacheState

/-! ## Runs -/

/-- The calls on the cache. -/
inductive CacheCall where
  | fetchTaskInputs (inputs : List TaskInput) (online : Bool)
  | materializeInputs (inputs : List TaskInput) (box : Sandbox)
  | collectOutputs (t : TaskId) (pinned : Bool) (files : List Bytes)
  | uploadTaskOutputs (t : TaskId) (ids : List BlobId)
  | releaseTaskOutputs (t : TaskId)
  | evictToFit
  | contains (id : BlobId)

def CacheCall.code : CacheCall → CacheSection
  | .fetchTaskInputs inputs online => .fetchPin inputs online
  | .materializeInputs inputs box => .place ⟨inputs, [], 0, box⟩
  | .collectOutputs t pinned files => .insertCheck ⟨t, pinned, [], files⟩
  | .uploadTaskOutputs t ids => .takeOutputs t ids
  | .releaseTaskOutputs t => .releaseOutputs t
  | .evictToFit => .evict
  | .contains id => .contains id

def CacheCall.thread (call : CacheCall) : CacheThread := ⟨(), [call.code]⟩

/-- Thread `i` has `a` to run and nothing else. -/
def CachePool.At (m : CachePool) (i : Nat) (a : CacheSection) : Prop := m.threads[i]? = some ⟨(), [a]⟩

instance (m : CachePool) (i : Nat) (a : CacheSection) : Decidable (m.At i a) :=
  inferInstanceAs (Decidable (_ = _))

/-- A call starts, or a thread runs its next section. -/
inductive CacheLabel where
  | start (call : CacheCall)
  | advance (i : Nat) (c : CacheChoice)

def cacheExec (c : CacheChoice) (_ : Unit) (a : CacheSection) (s : CacheState) : CacheOutcome := s.exec c a

def CachePool.step (m : CachePool) : CacheLabel → CachePool
  | .start call => m.spawn m.shared call.thread
  | .advance i c => m.advance cacheExec i c

end OxideSwarm
