import OxideSwarm.Master.Frames

/-!
# What a section can be followed by

`Follows c k s a b`: if a task of `k` runs `a` in the state `s`, it may continue with `b`.  Each
constructor is one place where the code of `Master/Exec.lean` goes on, with what is known there.  A
property of the sections still to run is proved for a section `b` by looking at the few constructors that
lead to `b`.  `Starts` does the same for the tasks a section starts.
-/

namespace OxideSwarm

variable [Host]

namespace MasterState

open TaskQueueInner

/-- A task of `k` that runs `a` in `s` may continue with `b`. -/
inductive Follows (c : Choice) (k : Owner) (s : MasterState) : Section → Section → Prop where
  | ack_serve {w n} : Follows c k s (.ack w n) (.serve w n)
  | ack_unregister {w n reason immediate} : Follows c k s (.ack w n) (.unregister w n reason immediate)
  | ack_hangUp {w n} : Follows c k s (.ack w n) (.hangUp n)
  | serve_registry {w n op} : Follows c k s (.serve w n) (.registry op)
  | serve_serve {w n} : Follows c k s (.serve w n) (.serve w n)
  | serve_progress {w n t} : Follows c k s (.serve w n) (.progress w n t)
  | serve_checkpoint {w n t cp} : Follows c k s (.serve w n) (.checkpoint w n t cp)
  | serve_unregister {w n reason immediate} : Follows c k s (.serve w n) (.unregister w n reason immediate)
  | serve_hangUp {w n} : Follows c k s (.serve w n) (.hangUp n)
  | unregister_sweep {w n reason immediate} (gone : (s.registry.unregister w (some n) k.conn).1.1 = true) :
      Follows c k s (.unregister w n reason immediate) (.sweep w n reason immediate)
  | sweep_resolve {w n reason immediate t}
      (swept : t ∈ (s.queue.handleSessionDisconnected w (some n) reason immediate c.taskOrder c.clock).1) :
      Follows c k s (.sweep w n reason immediate) (.resolve t (some w))
  | reapScan_reapWrite {candidates} : Follows c k s .reapScan (.reapWrite candidates)
  | reapWrite_registry {candidates op} : Follows c k s (.reapWrite candidates) (.registry op)
  | reapWrite_sweep {candidates w n reason immediate}
      (reaped : (w, n) ∈ (s.registry.reapStaleSessions c.clock.instant s.config.reapTimeout k.conn
        candidates).1.1) : Follows c k s (.reapWrite candidates) (.sweep w n reason immediate)
  | resolve_resolveResult {t info fallback} (get : s.queue.tasks.get t = some info)
      (terminal : info.state.isTerminal = true) :
      Follows c k s (.resolve t fallback) (.resolveResult t info fallback)
  | resolveResult_wake {t info fallback} :
      Follows c k s (.resolveResult t info fallback)
        (.wake t ((s.queue.getResult t).getD (fallbackResult t info fallback)))
  | wake_wake {t r} (held : s.waitersHeld = true) : Follows c k s (.wake t r) (.wake t r)
  | pinOutputs_record {w n r r' pin} (same : r'.taskId = r.taskId) :
      Follows c k s (.pinOutputs w n r) (.record w n r' pin)
  | record_giveBack {w n r pin} : Follows c k s (.record w n r pin) (.giveBack ⟨r.taskId, w, n⟩)
  | record_registry {w n r pin op} : Follows c k s (.record w n r pin) (.registry op)
  | record_outputs {w n r ids op} (hop : op = .dropOutputs ids ∨ op = .commitOutputs r.taskId ids) :
      Follows c k s (.record w n r (some ids)) (.store op)
  | record_unpin {w n r pin}
      (finished : ResultOutcome.finished (s.queue.recordResultFrom w (some n) r c.clock).1 = true) :
      Follows c k s (.record w n r pin) (.store (.unpin r.taskId))
  | record_wake {w n r pin}
      (finished : ResultOutcome.finished (s.queue.recordResultFrom w (some n) r c.clock).1 = true) :
      Follows c k s (.record w n r pin) (.wake r.taskId r)
  | oversized_giveBack {a size} : Follows c k s (.oversized a size) (.giveBack a)
  | oversized_unpin {a size}
      (finished : (s.queue.failUnsendableAssignment a.workerId (some a.sessionId)
        (oversizedResult a size)).1 = .ok .terminal) :
      Follows c k s (.oversized a size) (.store (.unpin a.taskId))
  | oversized_wake {a size}
      (finished : (s.queue.failUnsendableAssignment a.workerId (some a.sessionId)
        (oversizedResult a size)).1 = .ok .terminal) :
      Follows c k s (.oversized a size) (.wake a.taskId (oversizedResult a size))
  | cancel_wake {t reason o r} (cancelled : (s.queue.cancelTaskDetailed t (some reason)).1 = .ok o)
      (newly : o.newlyCancelled = true) (result : ∀ x, o.result = some x → r = x) :
      Follows c k s (.cancel t reason) (.wake t r)
  | cancel_sendToWorker {t reason o w} (cancelled : (s.queue.cancelTaskDetailed t (some reason)).1 = .ok o)
      (newly : o.newlyCancelled = true) : Follows c k s (.cancel t reason) (.sendToWorker w t)
  | sendToWorker_sendCancel {w t n} : Follows c k s (.sendToWorker w t) (.sendCancel n t)
  | known_enrol {task} : Follows c k s (.known task true) (.enrol ⟨task, true, true, []⟩)
  | known_submit {task} : Follows c k s (.known task false) (.submit ⟨task, false, true, []⟩ none)
  | known_admitBlobTask {task wait} (absent : s.queue.tasks.get task.id = none) :
      Follows c k s (.known task wait) (.admitBlobTask task wait)
  | admitBlobTask_enrol {task} (nothing : resolveInputs c.readings task.inputs = .ok []) :
      Follows c k s (.admitBlobTask task true) (.enrol ⟨task, true, false, []⟩)
  | admitBlobTask_submit {task} (nothing : resolveInputs c.readings task.inputs = .ok []) :
      Follows c k s (.admitBlobTask task false) (.submit ⟨task, false, false, []⟩ none)
  | admitBlobTask_pin {task wait ids} (needs : resolveInputs c.readings task.inputs = .ok ids) :
      Follows c k s (.admitBlobTask task wait) (.pin task wait ids)
  | pin_enrol {task ids} : Follows c k s (.pin task true ids) (.enrol ⟨task, true, false, ids⟩)
  | pin_submit {task ids} : Follows c k s (.pin task false ids) (.submit ⟨task, false, false, ids⟩ none)
  | pin_unpin {task wait ids} : Follows c k s (.pin task wait ids) (.store (.unpin task.id))
  | enrol_enrol {sub} : Follows c k s (.enrol sub) (.enrol sub)
  | enrol_submit {sub} (free : s.waitersHeld = false) :
      Follows c k s (.enrol sub) (.submit sub (some s.nextWaiter))
  | submit_await {sub waiter}
      (ok : (s.queue.submitWithPriority sub.task 0 c.clock).1 = .ok sub.task.id) :
      Follows c k s (.submit sub (some waiter)) (.await sub.task.id waiter false)
  | submit_pruneWaiters {sub waiter} : Follows c k s (.submit sub waiter) (.pruneWaiters sub.task.id)
  | submit_unpin {sub waiter} (unknown : sub.known = false) :
      Follows c k s (.submit sub waiter) (.store (.unpin sub.task.id))
  | pruneWaiters_pruneWaiters {t} : Follows c k s (.pruneWaiters t) (.pruneWaiters t)
  | await_await {t waiter prune} : Follows c k s (.await t waiter prune) (.await t waiter prune)
  | await_pruneWaiters {t waiter prune} : Follows c k s (.await t waiter prune) (.pruneWaiters t)
  | waitKnown_waitCheck {t} (found : (s.queue.tasks.get t).isSome = true) :
      Follows c k s (.waitKnown t) (.waitCheck t)
  | waitCheck_waitLock {t} (unfinished : s.isFinished t = false) :
      Follows c k s (.waitCheck t) (.waitLock t)
  | waitLock_waitLock {t} : Follows c k s (.waitLock t) (.waitLock t)
  | waitLock_waitRecheck {t} (free : s.waitersHeld = false) :
      Follows c k s (.waitLock t) (.waitRecheck t)
  | waitRecheck_waitPush {t} (unfinished : s.isFinished t = false) :
      Follows c k s (.waitRecheck t) (.waitPush t)
  | waitPush_await {t} : Follows c k s (.waitPush t) (.await t s.nextWaiter true)
  | retries_workers {max} : Follows c k s (.retries max) (.workers max)
  | workers_loads {max listed} (hlisted : ∀ w ∈ listed,
      w ∈ s.registry.listSchedulableWorkers c.workerOrder c.clock.instant) :
      Follows c k s (.workers max) (.loads listed max)
  | loads_demand {listed loads max} : Follows c k s (.loads listed max) (.demand listed loads max)
  | demand_page {listed loads max gpu rrCursor} : Follows c k s (.demand listed loads max)
      (.page (Pass.start s.config.scheduler listed loads gpu rrCursor max))
  | demand_commit {listed loads max gpu rrCursor} : Follows c k s (.demand listed loads max)
      (.commit (Pass.start s.config.scheduler listed loads gpu rrCursor max))
  | page_page {n} {p : Pass n} : Follows c k s (.page p) (.page (p.page s.queue).2)
  | page_commit {n} {p : Pass n} : Follows c k s (.page p) (.commit (p.page s.queue).2)
  | commit_reserve {n} {p : Pass n} {a} (triple : (a.taskId, a.workerId, a.sessionId) ∈ p.triples) :
      Follows c k s (.commit p) (.reserve a)
  | reserve_channel {a} (ok : (s.registry.reserveDispatch a.workerId a.sessionId).1 = .ok ()) :
      Follows c k s (.reserve a) (.channel a)
  | reserve_requeue {a err} (failed : (s.registry.reserveDispatch a.workerId a.sessionId).1 = .error err) :
      Follows c k s (.reserve a) (.requeue a)
  | channel_deliver {a} : Follows c k s (.channel a) (.deliver a)
  | channel_rollback {a} : Follows c k s (.channel a) (.rollback a)
  | channel_requeue {a} : Follows c k s (.channel a) (.requeue a)
  | channel_unregister {a reason immediate} :
      Follows c k s (.channel a) (.unregister a.workerId a.sessionId reason immediate)
  | deliver_release {a} : Follows c k s (.deliver a) (.release a)
  | pinned_sweepPin {t at'} : Follows c k s .pinned (.sweepPin t at')
  | sweepPin_unpin {t at'} (abandoned : s.isAbandoned c.clock.instant t at' = true) :
      Follows c k s (.sweepPin t at') (.store (.unpin t))

/-- A task of `k` that runs `a` in `s` may start `task`. -/
inductive Starts : Section → MasterTask → Prop where
  | supersede {w old reason immediate} :
      Starts (.spawnSweep w old) ⟨.detached, [.sweep w old reason immediate]⟩
  | result {w n r} : Starts (.serve w n) ⟨.detached, [.pinOutputs w n r]⟩

section

variable (c : Choice) (k : Owner) (s : MasterState)

omit [Host] in
theorem only {P : Section → Prop} {a : Section} (h : P a) : ∀ b ∈ [a], P b := List.forall_mem_singleton.mpr h

omit [Host] in
theorem nothing {P : Section → Prop} : ∀ b ∈ ([] : List Section), P b := List.forall_mem_nil P

omit [Host] in
theorem also {P : Section → Prop} {a : Section} {code : List Section} (h : P a) (hrest : ∀ b ∈ code, P b) :
    ∀ b ∈ a :: code, P b := List.forall_mem_cons.mpr ⟨h, hrest⟩

theorem serve_follows (w : Uuid) (n : Nat) : ∀ b ∈ (s.serve c w n).code, Follows c k s (.serve w n) b := by
  have hclosing : ∀ reason immediate, ∀ b ∈ closing w n reason immediate,
      Follows c k s (.serve w n) b :=
    fun _ _ => also .serve_unregister (also .serve_unregister (only .serve_hangUp))
  unfold serve
  split
  · exact also .serve_registry (only .serve_serve)
  · exact also .serve_registry (only .serve_serve)
  · exact also .serve_progress (only .serve_serve)
  · exact only .serve_serve
  · exact also .serve_checkpoint (only .serve_serve)
  · exact hclosing _ _
  · exact hclosing _ _
  · exact hclosing _ _
  · exact only .serve_serve

theorem dropGuard_follows (w : Uuid) (n : Nat) (r : TaskResult) (pin : Option (List BlobId)) :
    ∀ b ∈ dropGuard pin, Follows c k s (.record w n r pin) b := by
  cases pin with
  | none => exact nothing
  | some ids => exact only (.record_outputs (Or.inl rfl))

theorem afterRecord_follows (w : Uuid) (n : Nat) (r : TaskResult) (pin : Option (List BlobId))
    {o : ResultOutcome} (ho : (s.queue.recordResultFrom w (some n) r c.clock).1 = .ok o) :
    ∀ b ∈ afterRecord ⟨r.taskId, w, n⟩ r pin o, Follows c k s (.record w n r pin) b := by
  refine also .record_giveBack (List.forall_mem_append.mpr ⟨?_, ?_⟩)
  · split
    · exact only .record_registry
    split
    · exact only .record_registry
    · exact nothing
  split
  · next hterm =>
    have hfin : ResultOutcome.finished (s.queue.recordResultFrom w (some n) r c.clock).1 = true := by
      rw [ho]
      simp [ResultOutcome.finished, hterm]
    refine also (.record_unpin hfin) (List.forall_mem_append.mpr ⟨?_, only (.record_wake hfin)⟩)
    cases pin with
    | none => exact nothing
    | some ids => exact only (.record_outputs (Or.inr rfl))
  · exact dropGuard_follows c k s w n r pin

theorem record_follows (w : Uuid) (n : Nat) (r : TaskResult) (pin : Option (List BlobId)) :
    ∀ b ∈ (s.record c w n r pin).code, Follows c k s (.record w n r pin) b := by
  change ∀ b ∈ recordedCode ⟨r.taskId, w, n⟩ r pin (s.queue.recordResultFrom w (some n) r c.clock).1, _
  unfold recordedCode
  split
  · next o ho =>
    split
    · exact dropGuard_follows c k s w n r pin
    · exact afterRecord_follows c k s w n r pin ho
  · exact dropGuard_follows c k s w n r pin

theorem oversized_follows (a : Assignment) (size : Nat) :
    ∀ b ∈ (s.oversized a size).code, Follows c k s (.oversized a size) b := by
  change ∀ b ∈ oversizedCode a (oversizedResult a size) (s.queue.failUnsendableAssignment a.workerId
    (some a.sessionId) (oversizedResult a size)).1, _
  unfold oversizedCode
  split
  · next hfin => exact also .oversized_giveBack (also (.oversized_unpin hfin) (only (.oversized_wake hfin)))
  · exact nothing
  · exact nothing
  · exact only .oversized_giveBack

theorem cancel_follows (t : TaskId) (reason : String) :
    ∀ b ∈ (s.cancel t reason).code, Follows c k s (.cancel t reason) b := by
  unfold cancel
  dsimp only
  split
  · next o ho =>
    split
    · next hnew =>
      refine List.forall_mem_append.mpr ⟨fun b hb => ?_, only (.cancel_wake ho hnew fun x hx => ?_)⟩
      · rw [Option.mem_toList, Option.map_eq_some_iff] at hb
        obtain ⟨w, -, rfl⟩ := hb
        exact .cancel_sendToWorker ho hnew
      · rw [hx]
        rfl
    · exact nothing
  · exact nothing

theorem admitBlobTask_follows (task : Task) (wait : Bool) :
    ∀ b ∈ (s.admitBlobTask c task wait).code, Follows c k s (.admitBlobTask task wait) b := by
  have hnothing : resolveInputs c.readings task.inputs = .ok [] →
      ∀ b ∈ admitted ⟨task, wait, false, []⟩, Follows c k s (.admitBlobTask task wait) b := by
    intro hres
    cases wait with
    | true => exact only (.admitBlobTask_enrol hres)
    | false => exact only (.admitBlobTask_submit hres)
  unfold admitBlobTask
  split
  · next huses =>
    have hinputs : task.inputs = [] := by
      cases hi : task.inputs with
      | nil => rfl
      | cons x rest => simp [Task.usesBlobs, hi] at huses
    refine hnothing ?_
    rw [hinputs]
    rfl
  split
  · exact nothing
  split
  · exact nothing
  · next hres => exact hnothing hres
  · next ids hres => exact only (.admitBlobTask_pin hres)

omit [Host] in
theorem mem_assignmentsOf (triples : List (TaskId × Uuid × Nat)) :
    ∀ {scheduled : List TaskId} {a : Assignment}, a ∈ assignmentsOf scheduled triples →
      (a.taskId, a.workerId, a.sessionId) ∈ triples := by
  induction triples with
  | nil => exact fun h => absurd h List.not_mem_nil
  | cons x rest ih =>
    obtain ⟨t, w, n⟩ := x
    intro scheduled a h
    unfold assignmentsOf at h
    split at h
    · rcases List.mem_cons.mp h with rfl | h
      · exact List.mem_cons_self
      · exact List.mem_cons_of_mem _ (ih h)
    · exact List.mem_cons_of_mem _ (ih h)

/-- **Continuations.**  What a section goes on with follows it. -/
theorem exec_follows (a : Section) : ∀ b ∈ (exec c k a s).code, Follows c k s a b := by
  cases a with
  | ack w n =>
    simp only [exec, next]
    split
    · exact only .ack_serve
    · exact also .ack_unregister (only .ack_hangUp)
  | serve w n => exact serve_follows c k s w n
  | unregister w n reason immediate =>
    simp only [exec, unregister, next]
    split
    · next hgone => exact only (.unregister_sweep hgone)
    · exact nothing
  | sweep w n reason immediate => exact List.forall_mem_map.mpr fun t ht => .sweep_resolve ht
  | reapScan => exact only .reapScan_reapWrite
  | reapWrite candidates => exact also .reapWrite_registry (List.forall_mem_map.mpr fun x hx => .reapWrite_sweep hx)
  | resolve t fallback =>
    simp only [exec, resolve]
    split
    · next info hinfo =>
      simp only [next]
      split
      · next hterm => exact only (.resolve_resolveResult hinfo hterm)
      · exact nothing
    · exact nothing
  | resolveResult t info fallback => exact only .resolveResult_wake
  | wake t r =>
    simp only [exec, wake]
    split
    · next hheld => exact only (.wake_wake hheld)
    · exact nothing
  | pinOutputs w n r =>
    simp only [exec, pinOutputs]
    split
    · exact only (.pinOutputs_record rfl)
    split
    · exact only (.pinOutputs_record rfl)
    · exact only (.pinOutputs_record rfl)
  | record w n r pin => exact record_follows c k s w n r pin
  | oversized a size => exact oversized_follows c k s a size
  | cancel t reason => exact cancel_follows c k s t reason
  | sendToWorker w t =>
    simp only [exec, sendToWorker, next]
    split
    · exact only .sendToWorker_sendCancel
    · exact nothing
  | known task wait =>
    simp only [exec, next]
    split
    · cases wait with
      | true => exact only .known_enrol
      | false => exact only .known_submit
    · next habsent => exact only (.known_admitBlobTask (by simpa using habsent))
  | admitBlobTask task wait => exact admitBlobTask_follows c k s task wait
  | pin task wait ids =>
    simp only [exec, pin, next]
    split
    · cases wait with
      | true => exact only .pin_enrol
      | false => exact only .pin_submit
    · exact only .pin_unpin
  | enrol sub =>
    simp only [exec, enrol]
    split
    · exact only .enrol_enrol
    · next hfree => exact only (.enrol_submit (by simpa using hfree))
  | submit sub waiter =>
    simp only [exec, submit]
    split
    · next t ht =>
      have hid : t = sub.task.id := by
        rcases submitWithPriority_entries (r := .ok t) (Prod.ext ht rfl) with ⟨⟨err, herr⟩, -⟩ | ⟨hok, -, -⟩
        · cases herr
        · cases hok
          rfl
      subst hid
      cases waiter with
      | none => exact nothing
      | some waiter => exact only (.submit_await ht)
    refine also .submit_pruneWaiters ?_
    split
    · exact nothing
    · next hknown => exact only (.submit_unpin (by simpa using hknown))
  | pruneWaiters t =>
    simp only [exec, pruneWaiters]
    split
    · exact only .pruneWaiters_pruneWaiters
    · split <;> exact nothing
  | await t waiter prune =>
    simp only [exec, await]
    split
    · exact only .await_await
    simp only [next]
    split
    · exact only .await_pruneWaiters
    · exact nothing
  | waitKnown t =>
    simp only [exec, next]
    split
    · next hfound => exact only (.waitKnown_waitCheck hfound)
    · exact nothing
  | waitCheck t =>
    simp only [exec, next]
    split
    · exact nothing
    · next hfin => exact only (.waitCheck_waitLock (by simpa using hfin))
  | waitLock t =>
    simp only [exec]
    split
    · exact only .waitLock_waitLock
    · next hfree => exact only (.waitLock_waitRecheck (by simpa using hfree))
  | waitRecheck t =>
    simp only [exec, waitRecheck]
    split
    · exact nothing
    · next hfin => exact only (.waitRecheck_waitPush (by simpa using hfin))
  | waitPush t => exact only .waitPush_await
  | retries max => exact only .retries_workers
  | workers max =>
    simp only [exec, workers, next]
    split
    · exact nothing
    · exact only (.workers_loads fun w hw => (List.mem_insertionSort _).mp hw)
  | loads listed max => exact only .loads_demand
  | demand listed loads max =>
    refine only ?_
    split
    · exact .demand_page
    · exact .demand_commit
  | page p =>
    simp only [exec, page]
    split
    · exact only .page_page
    · exact only .page_commit
  | commit p => exact List.forall_mem_map.mpr fun a ha => .commit_reserve (mem_assignmentsOf _ ha)
  | reserve a =>
    simp only [exec, reserve, next]
    split
    · next hok => exact only (.reserve_channel hok)
    · next err herr => exact only (.reserve_requeue herr)
  | channel a =>
    simp only [exec, channel, next]
    split
    · exact only .channel_deliver
    · exact also .channel_rollback (also .channel_requeue (only .channel_unregister))
  | deliver a =>
    simp only [exec, deliver]
    split
    · exact nothing
    · exact only .deliver_release
  | pinned => exact List.forall_mem_map.mpr fun _ _ => .pinned_sweepPin
  | sweepPin t at' =>
    simp only [exec, sweepPin, next]
    split
    · next hrelease => exact only (.sweepPin_unpin hrelease)
    · exact nothing
  | _ => exact nothing

theorem reserve_code_ok {c : Choice} {k : Owner} {x : Assignment} {s : MasterState} {u : Unit}
    (h : (s.registry.reserveDispatch x.workerId x.sessionId).1 = .ok u) :
    (exec c k (.reserve x) s).code = [.channel x] := by
  simp only [exec, MasterState.reserve, MasterState.next, h]

theorem reserve_code_error {c : Choice} {k : Owner} {x : Assignment} {s : MasterState} {e : GridError}
    (h : (s.registry.reserveDispatch x.workerId x.sessionId).1 = .error e) :
    (exec c k (.reserve x) s).code = [.requeue x] := by
  simp only [exec, MasterState.reserve, MasterState.next, h]

/-- **New tasks.**  Two sections start one. -/
theorem exec_starts (a : Section) : ∀ t ∈ (exec c k a s).spawned, Starts a t := by
  intro t ht
  cases a with
  | spawnSweep w old =>
    rw [show t = _ from List.mem_singleton.mp ht]
    exact .supersede
  | serve w n =>
    simp only [exec, serve] at ht
    split at ht
    case h_4 =>
      rw [show t = _ from List.mem_singleton.mp ht]
      exact .result
    all_goals cases ht
  | resolve t fallback =>
    simp only [exec, resolve] at ht
    split at ht <;> cases ht
  | wake t r =>
    simp only [exec, wake] at ht
    split at ht <;> cases ht
  | pinOutputs w n r =>
    simp only [exec, pinOutputs] at ht
    split at ht
    · cases ht
    · split at ht <;> cases ht
  | cancel t reason =>
    simp only [exec, cancel] at ht
    split at ht
    · split at ht <;> cases ht
    · cases ht
  | admitBlobTask task wait =>
    simp only [exec, admitBlobTask] at ht
    split at ht
    · cases ht
    · split at ht
      · cases ht
      · split at ht <;> cases ht
  | enrol sub =>
    simp only [exec, enrol] at ht
    split at ht <;> cases ht
  | submit sub waiter =>
    simp only [exec, submit] at ht
    split at ht <;> cases ht
  | pruneWaiters t =>
    simp only [exec, pruneWaiters] at ht
    split at ht
    · cases ht
    · split at ht <;> cases ht
  | await t waiter prune =>
    simp only [exec, await] at ht
    split at ht <;> cases ht
  | waitLock t =>
    simp only [exec] at ht
    split at ht <;> cases ht
  | waitRecheck t =>
    simp only [exec, waitRecheck] at ht
    split at ht <;> cases ht
  | page p =>
    simp only [exec, page] at ht
    split at ht <;> cases ht
  | deliver a =>
    simp only [exec, deliver] at ht
    split at ht <;> cases ht
  | _ => cases ht

end

end MasterState

/-! ## Steps of the master -/

namespace Master

open MasterState

/-- The registration a `Register` message of `w` makes. -/
def registration (m : Master) (w : Uuid) (capabilities : WorkerCapabilities)
    (features : ProtocolCapabilities) (now : Instant) :
    (Registration × Option ConnId) × WorkerRegistryInner :=
  m.shared.registry.registerSession w capabilities features (some m.shared.registry.nextSessionId)
    (some m.shared.registry.nextSessionId) now

/-- A section with which a task can begin. -/
inductive Begins (m : Master) : Label → Owner → Section → Prop where
  | setRxClock {w capabilities features now} : Begins m (.connect w capabilities features now)
      (.handler m.shared.registry.nextSessionId)
      (.registry (.setRxClock w m.shared.registry.nextSessionId))
  | spawnSweep {w capabilities features now old}
      (superseded : (m.registration w capabilities features now).1.1.supersededSession = some old) :
      Begins m (.connect w capabilities features now) (.handler m.shared.registry.nextSessionId)
        (.spawnSweep w old)
  | ack {w capabilities features now} : Begins m (.connect w capabilities features now)
      (.handler m.shared.registry.nextSessionId) (.ack w m.shared.registry.nextSessionId)
  | known {task wait} : Begins m (.start (.submitTask task wait)) .detached (.known task wait)
  | waitKnown {t} : Begins m (.start (.waitTask t)) .detached (.waitKnown t)
  | cancel {t reason} : Begins m (.start (.cancelTask t reason)) .detached (.cancel t reason)
  | retries {max} : Begins m (.start (.scheduleBatch max)) .detached (.retries max)
  | reapScan : Begins m (.start .reaperTick) .detached .reapScan
  | sweepOutputs : Begins m (.start .blobSweepTick) .detached (.store .sweepOutputs)
  | pinned : Begins m (.start .blobSweepTick) .detached .pinned
  | evictTasks {max} : Begins m (.start (.evictTerminalTasks max)) .detached (.evictTasks max)
  | index {id size} : Begins m (.start (.storeBlob id size)) .detached (.store (.index id size))
  | evict {r keep} : Begins m (.start r) .detached (.store (.evict keep))
  | oversized {i size a} (mem : a ∈ m.shared.outbox) :
      Begins m (.transmit i size) (.writer a.sessionId) (.oversized a size)

omit [Host] in
theorem code_begins (m : Master) (r : Request) : ∀ a ∈ r.code, Begins m (.start r) .detached a := by
  intro a ha
  cases r <;> simp only [Request.code, List.mem_cons, List.not_mem_nil, or_false] at ha
  case submitTask => subst ha; exact .known
  case waitTask => subst ha; exact .waitKnown
  case cancelTask => subst ha; exact .cancel
  case scheduleBatch => subst ha; exact .retries
  case reaperTick => subst ha; exact .reapScan
  case blobSweepTick =>
    rcases ha with rfl | rfl
    · exact .sweepOutputs
    · exact .pinned
  case evictTerminalTasks => subst ha; exact .evictTasks
  case storeBlob =>
    rcases ha with rfl | rfl
    · exact .index
    · exact .evict
  case evictBlobs => subst ha; exact .evict

/-- The section a step runs. -/
def Runs (m : Master) (l : Label) (c : Choice) (k : Owner) (a : Section) : Prop :=
  ∃ i, l = .advance i c ∧ m.next? i = some (k, a)

theorem Runs.fires {m : Master} {l : Label} {c : Choice} {k : Owner} {a : Section} (h : m.Runs l c k a) :
    Pool.Fires m (m.step l) k a (exec c k a m.shared) := by
  obtain ⟨i, rfl, hnext⟩ := h
  rcases Pool.advance_fires exec m i c with ⟨hnone, -⟩ | ⟨k', a', hnext', hfires⟩
  · cases hnone.symm.trans hnext
  · cases hnext'.symm.trans hnext
    exact hfires

/-- The section a step runs, if it runs one. -/
def ran (m : Master) : Label → Option Section
  | .advance i _ => (m.next? i).map Prod.snd
  | _ => none

omit [Host] in
theorem Runs.ran {m : Master} {l : Label} {c : Choice} {k : Owner} {a : Section} (h : m.Runs l c k a) :
    m.ran l = some a := by
  obtain ⟨i, rfl, hnext⟩ := h
  simp [Master.ran, hnext]

omit [Host] in
theorem Runs.unique {m : Master} {l : Label} {c c' : Choice} {k k' : Owner} {a a' : Section}
    (h : m.Runs l c k a) (h' : m.Runs l c' k' a') : a = a' :=
  Option.some.inj (h.ran.symm.trans h'.ran)

/-- The structures a section does not change stay the same over its step. -/
theorem Runs.same {m : Master} {l : Label} {c : Choice} {k : Owner} {a : Section} (h : m.Runs l c k a) :
    Same m.shared (m.step l).shared a.changes := by
  rw [h.fires.shared]
  exact exec_same c k a m.shared

/-- The task whose submission the step accepts. -/
def accepts (m : Master) : Label → Option Task
  | .advance i c =>
    match m.next? i with
    | some (_, .submit sub _) =>
      if (m.shared.queue.submitWithPriority sub.task 0 c.clock).1.isOk then some sub.task else none
    | _ => none
  | _ => none

theorem Runs.accepts {m : Master} {l : Label} {c : Choice} {k : Owner} {sub : Submission}
    {waiter : Option WaiterId} (h : m.Runs l c k (.submit sub waiter)) {t : TaskId}
    (ok : (m.shared.queue.submitWithPriority sub.task 0 c.clock).1 = .ok t) : sub.task ∈ m.accepts l := by
  obtain ⟨i, rfl, hnext⟩ := h
  simp only [Master.accepts, hnext, ok]
  rfl

/-- What a step does to the shared state: it runs a section, registers a worker, or touches none of the
four structures. -/
theorem step_shared (m : Master) (l : Label) :
    (∃ c k a, m.Runs l c k a ∧ Pool.Fires m (m.step l) k a (exec c k a m.shared)) ∨
    (∃ w capabilities features now, l = .connect w capabilities features now ∧ (m.step l).shared = { m.shared with
        registry := (m.registration w capabilities features now).2
        aborting := m.shared.aborting ∪ (m.registration w capabilities features now).1.2.toFinset }) ∨
    ∃ outbox hungUp, (m.step l).shared = { m.shared with outbox := outbox, hungUp := hungUp } := by
  cases l with
  | connect w capabilities features now => exact .inr (Or.inl ⟨w, capabilities, features, now, rfl, rfl⟩)
  | start r => exact .inr (Or.inr ⟨_, _, rfl⟩)
  | advance i c =>
    rcases Pool.advance_fires exec m i c with ⟨-, hsame⟩ | ⟨k, a, hnext, hfires⟩
    · refine .inr (Or.inr ⟨m.shared.outbox, m.shared.hungUp, ?_⟩)
      show (m.advance exec i c).shared = _
      rw [hsame]
    · exact .inl ⟨c, k, a, ⟨i, rfl, hnext⟩, hfires⟩
  | abort session =>
    refine .inr (Or.inr ?_)
    show ∃ outbox hungUp, (m.abort session).shared = _
    unfold abort
    split
    · exact ⟨_, _, rfl⟩
    · exact ⟨_, _, rfl⟩
  | dropWriter session =>
    refine .inr (Or.inr ?_)
    show ∃ outbox hungUp, (m.dropWriter session).shared = _
    unfold dropWriter
    split
    · exact ⟨_, _, rfl⟩
    · exact ⟨_, _, rfl⟩
  | transmit i size =>
    refine .inr (Or.inr ?_)
    show ∃ outbox hungUp, (m.transmit i size).shared = _
    unfold transmit
    split
    · exact ⟨_, _, rfl⟩
    dsimp only
    split
    · exact ⟨_, _, rfl⟩
    · exact ⟨_, _, rfl⟩

/-- The tasks of `k` are cancelled by the step. -/
def kills (m : Master) : Label → Owner → Bool
  | .abort session, k =>
    decide (session ∈ m.shared.aborting) && decide (k = .handler session ∨ k = .writer session)
  | .dropWriter session, k => decide (session ∈ m.shared.hungUp) && decide (k = .writer session)
  | _, _ => false

/-- What a step does to the tasks: it runs a section, starts a task, or cancels those that `kills` names. -/
inductive Threads (m : Master) (l : Label) (m' : Master) : Prop where
  | runs {c k a} (runs : m.Runs l c k a) (fires : Pool.Fires m m' k a (exec c k a m.shared))
  | spawn {t : MasterTask} (idle : m.ran l = none) (begins : ∀ a ∈ t.code, m.Begins l t.owner a)
      (threads : m'.threads = (Pool.spawn m m.shared t).threads)
  | kill (idle : m.ran l = none) (threads : m'.threads = (Pool.kill m (m.kills l)).threads)

theorem step_threads (m : Master) (l : Label) : Threads m l (m.step l) := by
  have hsame : (∀ k, m.kills l k = false) → m.threads = (Pool.kill m (m.kills l)).threads := by
    intro hnone
    simp [Pool.kill, hnone]
  cases l with
  | connect w capabilities features now =>
    refine .spawn rfl (fun a ha => ?_) rfl
    rw [List.cons_append, List.mem_cons, List.mem_append, List.mem_singleton] at ha
    rcases ha with rfl | ha | rfl
    · exact .setRxClock
    · rw [Option.mem_toList, Option.map_eq_some_iff] at ha
      obtain ⟨old, hold, rfl⟩ := ha
      exact .spawnSweep hold
    · exact .ack
  | start r => exact .spawn rfl (code_begins m r) rfl
  | advance i c =>
    rcases Pool.advance_fires exec m i c with ⟨hnone, hstill⟩ | ⟨k, a, hnext, hfires⟩
    · refine .kill (by rw [Master.ran, hnone]; rfl) ?_
      show (m.advance exec i c).threads = _
      rw [hstill]
      exact hsame fun _ => rfl
    · exact .runs ⟨i, rfl, hnext⟩ hfires
  | abort session =>
    refine .kill rfl ?_
    show (m.abort session).threads = _
    unfold abort
    split
    · next hmem => simp only [Pool.kill, kills, hmem, decide_true, Bool.true_and]
    · next hmem => exact hsame fun k => by simp only [kills, hmem, decide_false, Bool.false_and]
  | dropWriter session =>
    refine .kill rfl ?_
    show (m.dropWriter session).threads = _
    unfold dropWriter
    split
    · next hmem => simp only [Pool.kill, kills, hmem, decide_true, Bool.true_and]
    · next hmem => exact hsame fun k => by simp only [kills, hmem, decide_false, Bool.false_and]
  | transmit i size =>
    show Threads m _ (m.transmit i size)
    unfold transmit
    split
    · exact .kill rfl (hsame fun _ => rfl)
    next a ha =>
    dsimp only
    split
    · exact .spawn rfl (only (.oversized (List.mem_of_getElem? ha))) rfl
    · exact .kill rfl (hsame fun _ => rfl)

/-- **Sections still to run.**  A property of all of them survives a step if it survives the change of
the state and holds of what the step brings. -/
theorem step_all {m : Master} {l : Label} {R R' : Owner → Section → Prop} (h : m.All R)
    (hkeep : ∀ k a, R k a → R' k a) (hbegins : ∀ k a, m.Begins l k a → R' k a)
    (hfollows : ∀ c k a b, m.Runs l c k a → R k a → Follows c k m.shared a b → R' k b)
    (hstarts : ∀ c k a t, m.Runs l c k a → R k a → Starts a t → ∀ b ∈ t.code, R' t.owner b) : (m.step l).All R' := by
  have hall : m.All R' := h.mono hkeep
  cases m.step_threads l with
  | @runs c k a hruns hfires =>
    have ha : R k a := hfires.all_head h
    exact hfires.all hall (fun b hb => hfollows c k a b hruns ha (exec_follows c k m.shared a b hb))
      (fun t ht => hstarts c k a t hruns ha (exec_starts c k m.shared a t ht))
  | spawn idle begins threads => exact (hall.spawn fun a ha => hbegins _ a (begins a ha)).congr threads
  | kill idle threads => exact hall.kill.congr threads

/-- A section still to run is the one the step runs, or is still to run, unless its task is cancelled. -/
theorem step_has {m : Master} {l : Label} {P : Owner → Section → Prop} (h : m.Has P)
    (hkills : m.All fun k a => P k a → m.kills l k = false) :
    (∃ c k a, m.Runs l c k a ∧ P k a) ∨ (m.step l).Has P := by
  cases m.step_threads l with
  | runs hruns hfires => exact (hfires.has h).imp_left fun hP => ⟨_, _, _, hruns, hP⟩
  | spawn idle begins threads => exact .inr (h.spawn.congr threads)
  | kill idle threads => exact .inr ((h.kill hkills).congr threads)

theorem step_count {m : Master} {l : Label} {f : Section → Bool} (hbegins : ∀ k a, m.Begins l k a → f a = false)
    (hstarts : ∀ a t, Starts a t → ∀ b ∈ t.code, f b = false)
    (hkills : m.All fun k a => f a = true → m.kills l k = false) :
    (∃ c k a, m.Runs l c k a ∧ (m.step l).pending.countP f + [a].countP f =
      m.pending.countP f + (exec c k a m.shared).code.countP f) ∨
    (m.ran l = none ∧ (m.step l).pending.countP f = m.pending.countP f) := by
  have hzero : ∀ code : List Section, (∀ a ∈ code, f a = false) → code.countP f = 0 :=
    fun code hcode => List.countP_eq_zero.mpr fun a ha => Bool.eq_false_iff.mp (hcode a ha)
  cases m.step_threads l with
  | @runs c k a hruns hfires =>
    refine .inl ⟨c, k, a, hruns, ?_⟩
    have hspawned : ((exec c k a m.shared).spawned.flatMap Thread.code).countP f = 0 := by
      refine hzero _ fun b hb => ?_
      obtain ⟨t, ht, hb⟩ := List.mem_flatMap.mp hb
      exact hstarts a t (exec_starts c k m.shared a t ht) b hb
    have hcount := hfires.count f
    rw [hspawned, Nat.add_zero] at hcount
    exact hcount
  | spawn idle begins threads =>
    refine .inr ⟨idle, ?_⟩
    rw [Pool.pending_congr threads, Pool.count_spawn, hzero _ fun a ha => hbegins _ a (begins a ha), Nat.add_zero]
  | kill idle threads =>
    refine .inr ⟨idle, ?_⟩
    rw [Pool.pending_congr threads]
    exact Pool.count_kill f hkills

theorem step_idle {m : Master} {l : Label} (h : m.ran l = none) :
    ∃ begun, (∀ a ∈ begun, ∃ k, m.Begins l k a) ∧ (m.step l).pending.Sublist (m.pending ++ begun) := by
  cases m.step_threads l with
  | runs hruns hfires => cases h.symm.trans hruns.ran
  | @spawn t idle begins threads =>
    refine ⟨t.code, fun a ha => ⟨_, begins a ha⟩, ?_⟩
    rw [Pool.pending_congr threads, Pool.pending_spawn]
  | kill idle threads =>
    refine ⟨[], List.forall_mem_nil _, ?_⟩
    rw [Pool.pending_congr threads, List.append_nil]
    exact Pool.pending_kill m (m.kills l)

theorem step_queue (m : Master) (l : Label) :
    (∃ c k a, m.Runs l c k a ∧ QueueStep c m.shared (m.step l).shared.queue a) ∨
    (m.step l).shared.queue = m.shared.queue := by
  rcases step_shared m l with ⟨c, k, a, hruns, hfires⟩ | ⟨_, _, _, _, -, hs⟩ | ⟨_, _, hs⟩
  · refine .inl ⟨c, k, a, hruns, ?_⟩
    rw [hfires.shared]
    exact exec_queueStep c k m.shared a
  · exact .inr (by rw [hs])
  · exact .inr (by rw [hs])

end Master

/-! ## Steps and the registry -/

namespace Master

open MasterState WorkerRegistryInner

theorem step_registry (m : Master) (l : Label) : (∃ c k a, m.Runs l c k a ∧
      Tended m.shared.registry (m.step l).shared.registry (disconnects c k m.shared a)) ∨
    (∃ w capabilities features now, l = .connect w capabilities features now ∧
      (m.step l).shared.registry = (m.registration w capabilities features now).2 ∧ (m.step l).shared.aborting =
        m.shared.aborting ∪ (m.registration w capabilities features now).1.2.toFinset) ∨
    (m.step l).shared.registry = m.shared.registry ∧ (m.step l).shared.aborting = m.shared.aborting := by
  rcases m.step_shared l with ⟨c, k, a, hruns, hfires⟩ | ⟨w, caps, features, now, hl, hs⟩ | ⟨_, _, hs⟩
  · refine .inl ⟨c, k, a, hruns, ?_⟩
    rw [hfires.shared]
    exact exec_tended c k m.shared a
  · exact .inr (Or.inl ⟨w, caps, features, now, hl, by rw [hs], by rw [hs]⟩)
  · exact .inr (Or.inr (by rw [hs]; exact ⟨rfl, rfl⟩))

theorem registered_step {m : Master} (l : Label) (h : m.shared.registry.Registered) :
    (m.step l).shared.registry.Registered := by
  rcases step_registry m l with ⟨c, k, a, -, htended⟩ | ⟨w, caps, features, now, -, hreg, -⟩ | ⟨hreg, -⟩
  · exact htended.registered h
  · obtain ⟨e', hsession, hstatus, hhandle, -, heq⟩ := registerSession_get m.shared.registry w caps features
      (some m.shared.registry.nextSessionId) (some m.shared.registry.nextSessionId) now
    rw [hreg, registration, heq]
    intro u e he
    rw [FMap.get_set] at he
    split at he
    · cases he
      refine ⟨by rw [hsession]; exact Nat.lt_succ_self _, fun c hc => ?_⟩
      rw [hhandle] at hc
      cases hc
      exact ⟨hsession.symm, by rw [hstatus]; decide⟩
    · exact ⟨Nat.lt_succ_of_lt (h u e he).1, (h u e he).2⟩
  · rw [hreg]
    exact h

theorem next_le_step (m : Master) (l : Label) :
    m.shared.registry.nextSessionId ≤ (m.step l).shared.registry.nextSessionId := by
  rcases step_registry m l with ⟨c, k, a, -, htended⟩ | ⟨w, caps, features, now, -, hreg, -⟩ | ⟨hreg, -⟩
  · rw [htended.next]
  · obtain ⟨e', -, -, -, -, heq⟩ := registerSession_get m.shared.registry w caps features
      (some m.shared.registry.nextSessionId) (some m.shared.registry.nextSessionId) now
    rw [hreg, registration, heq]
    exact Nat.le_succ _
  · rw [hreg]

end Master

/-! ## Entries over a step -/

theorem finished_stays {m : Master} {l : Label} {t : TaskId} {e e' : TaskEntry} (he : m.shared.queue.tasks.get t = some e)
    (hterm : e.state.isTerminal = true) (he' : (m.step l).shared.queue.tasks.get t = some e') : e' = e := by
  rcases m.step_queue l with ⟨c, k, a, -, hstep⟩ | hsame
  · have hentry := hstep.entry t
    rw [he, he'] at hentry
    cases hentry with
    | same => rfl
    | assign queued =>
      rw [queued] at hterm
      cases hterm
    | start scheduled =>
      rw [scheduled] at hterm
      cases hterm
    | settle kept => exact kept.settled hterm
  · rw [hsame] at he'
    exact Option.some.inj (he'.symm.trans he)

theorem accepted_of_new {m : Master} {l : Label} {t : TaskId} {e' : TaskEntry}
    (hnone : m.shared.queue.tasks.get t = none) (he' : (m.step l).shared.queue.tasks.get t = some e') :
    ∃ c k sub waiter, m.Runs l c k (.submit sub waiter) ∧ sub.task.id = t ∧
      (m.shared.queue.submitWithPriority sub.task 0 c.clock).1 = .ok t := by
  rcases m.step_queue l with ⟨c, k, a, hruns, hstep⟩ | hsame
  · have hentry := hstep.entry t
    rw [hnone, he'] at hentry
    cases hentry with
    | accept runs id ok =>
      subst runs id
      exact ⟨c, k, _, _, hruns, rfl, ok⟩
  · rw [hsame] at he'
    cases hnone.symm.trans he'

/-! ## Sections that are never cancelled -/

/-- The sections of `schedule_batch`, of client requests, and of a result up to its pin guard. -/
def Section.uncancelled : Section → Bool
  | .retries _ | .workers _ | .loads .. | .demand .. | .page _ | .commit _ | .reserve _ | .channel _
  | .deliver _ | .release _ | .rollback _ | .requeue _ => true
  | .known .. | .admitBlobTask .. | .pin .. | .enrol _ | .submit .. => true
  | .waitKnown _ | .waitCheck _ | .waitLock _ | .waitRecheck _ | .waitPush _ => true
  | .pinOutputs .. | .record .. | .store (.commitOutputs ..) | .store (.dropOutputs _) => true
  | _ => false

theorem follows_uncancelled {c : Choice} {k : Owner} {s : MasterState} {a b : Section}
    (h : s.Follows c k a b) (hb : b.uncancelled = true) : a.uncancelled = true := by
  cases h <;> first | rfl | cases hb

omit [Host] in
/-- These sections run in tasks of nobody's. -/
def Detached (k : Owner) (a : Section) : Prop := a.uncancelled = true → k = .detached

theorem Master.detached_step {m : Master} (l : Label) (h : m.All Detached) : (m.step l).All Detached := by
  refine Master.step_all h (fun _ _ ha => ha) (fun k a hbegins => ?_)
    (fun c k a b _ ha hfollows hb => ha (follows_uncancelled hfollows hb))
    (fun c k a t _ _ hstarts b hb => ?_)
  · cases hbegins with
    | setRxClock | spawnSweep | ack | oversized => exact nofun
    | _ => exact fun _ => rfl
  · cases hstarts <;> exact fun _ => rfl

omit [Host] in
theorem Master.kills_detached (m : Master) (l : Label) : m.kills l .detached = false := by
  cases l <;> simp [Master.kills]

omit [Host] in
/-- No step cancels a section of a detached task. -/
theorem Master.uncancelled_alive {m : Master} (h : m.All Detached) (l : Label) {P : Section → Prop}
    (hP : ∀ a, P a → a.uncancelled = true) : m.All fun k a => P a → m.kills l k = false := by
  intro t ht a ha hPa
  rw [h t ht a ha (hP a hPa)]
  exact m.kills_detached l

end OxideSwarm
