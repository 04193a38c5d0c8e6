import OxideSwarm.Master.Completions

/-!
# A MapReduce job that reports `Completed`

`execute` judges a task by the exit code and the output of the result it is given; the queue goes by
`TaskResult::is_success`, which also asks that there is no error.  As long as no result with exit code 0 and
an error is recorded for a task of the job, a job that reports `Completed` has had all its tasks completed
(`completed_job_succeeded`); one such result is enough for a failed task to go unnoticed
(`failed_task_in_completed_job`).

`Touched` is what a step of the job can do to the master, and `Grid.Sound` is the invariant.
-/

namespace OxideSwarm

open TaskQueueInner MasterState

theorem map_set_of_getElem? {α β : Type*} {l : List α} {i : Nat} {a b : α} {f : α → β} (h : l[i]? = some a)
    (hf : f b = f a) : (l.set i b).map f = l.map f := by
  obtain ⟨hi, rfl⟩ := List.getElem?_eq_some_iff.mp h
  have hmapped : i < (l.map f).length := by rwa [List.length_map]
  rw [List.map_set, hf, ← List.getElem_map f]
  exact List.set_getElem_self hmapped

section

variable [Host]

/-! ## What a job does to the master -/

/-- A step of the job took the master from `m` to `m'`: nothing is sent or about to be sent, a history is only
forgotten, and the senders that are new have new numbers. -/
structure Touched (m m' : Master) : Prop where
  coherent : Coherent m.shared.queue → Coherent m'.shared.queue
  recorded : Recorded m.shared.queue m.shared.recorded → Recorded m'.shared.queue m'.shared.recorded
  history : ∀ t r, m'.shared.recorded.get t = some r → m.shared.recorded.get t = some r
  sections : ∀ P : Owner → Section → Prop, (∀ k a, a.sends = none → P k a) → m.All P → m'.All P
  sent : m'.shared.sent = m.shared.sent
  counter : m.shared.nextWaiter ≤ m'.shared.nextWaiter
  waits : ∀ t j, m'.shared.Waits t j →
    m.shared.Waits t j ∨ (m.shared.nextWaiter ≤ j ∧ j < m'.shared.nextWaiter)

variable {t : TaskId}

section

variable {m m' m'' : Master}

section

omit [Host]

theorem Touched.refl (m : Master) : Touched m m :=
  ⟨id, id, fun _ _ h => h, fun _ _ h => h, rfl, le_rfl, fun _ _ h => Or.inl h⟩

theorem Touched.trans (h : Touched m m') (h' : Touched m' m'') : Touched m m'' where
  coherent hq := h'.coherent (h.coherent hq)
  recorded hr := h'.recorded (h.recorded hr)
  history t r hr := h.history t r (h'.history t r hr)
  sections P hP hm := h'.sections P hP (h.sections P hP hm)
  sent := h'.sent.trans h.sent
  counter := h.counter.trans h'.counter
  waits t j hj := by
    rcases h'.waits t j hj with hmid | ⟨hle, hlt⟩
    · rcases h.waits t j hmid with hold | ⟨hle, hlt⟩
      · exact .inl hold
      · exact .inr ⟨hle, lt_of_lt_of_le hlt h'.counter⟩
    · exact .inr ⟨h.counter.trans hle, hlt⟩

theorem touched_close (m : Master) (j : WaiterId) (task : MasterTask) (htask : ∀ a ∈ task.code, a.sends = none) :
    Touched m (m.spawn (m.shared.close j) task) where
  coherent := id
  recorded := id
  history _ _ h := h
  sections _ hP hm := hm.spawn fun a ha => hP _ a (htask a ha)
  sent := rfl
  counter := le_rfl
  waits _ _ h := Or.inl ⟨h.1, fun hclosed => h.2 (Finset.mem_insert_of_mem hclosed)⟩

theorem touched_push (m : Master) (t : TaskId) : Touched m { m with shared := m.shared.push t } where
  coherent := id
  recorded := id
  history _ _ h := h
  sections _ _ hm := hm
  sent := rfl
  counter := Nat.le_succ _
  waits u j hj := by
    rcases push_waits hj with hold | ⟨-, rfl⟩
    · exact .inl hold
    · exact .inr ⟨le_rfl, Nat.lt_succ_self _⟩

end

/-- `try_submit_slot` refuses the task and leaves the queue, or accepts it under a free id. -/
theorem trySubmitSlot_answer (q : TaskQueueInner) (task : Task) (seen : TaskQueueInner) (clock : Clock) :
    ((∃ e, (q.trySubmitSlot (some task) seen clock).1 = .error e) ∧ (q.trySubmitSlot (some task) seen clock).2.2 = q) ∨
    ((q.trySubmitSlot (some task) seen clock).1 = .ok task.id ∧ ∃ sequence,
      (q.trySubmitSlot (some task) seen clock).2.2.tasks =
        q.tasks.set task.id (TaskEntry.fresh task 0 sequence clock)) := by
  unfold trySubmitSlot
  dsimp only
  split
  · exact .inl ⟨⟨_, rfl⟩, rfl⟩
  split
  · exact .inl ⟨⟨_, rfl⟩, rfl⟩
  split
  · exact .inl ⟨⟨_, rfl⟩, rfl⟩
  · split
    · exact .inl ⟨⟨_, rfl⟩, rfl⟩
    · exact .inr ⟨rfl, q.nextSequence, rfl⟩

theorem touched_accept (m : Master) (task : Task) (seen : TaskQueueInner) (clock : Clock) {sequence : Nat}
    (hentered : (m.shared.queue.trySubmitSlot (some task) seen clock).2.2.tasks =
      m.shared.queue.tasks.set task.id (TaskEntry.fresh task 0 sequence clock)) : Touched m { m with
      shared := Grid.accept m.shared task.id (m.shared.queue.trySubmitSlot (some task) seen clock).2.2 } where
  coherent hq := (apply_evolves hq (.trySubmitSlot (some task) seen clock)).coherent hq
  recorded hr := hr.accept hentered
  history t r hr := by
    replace hr : (m.shared.recorded.del task.id).get t = some r := hr
    rw [FMap.get_del] at hr
    split at hr
    · cases hr
    · exact hr
  sections _ _ hm := hm
  sent := rfl
  counter := le_rfl
  waits _ _ h := Or.inl h

section

omit [Host]

theorem WellKept.touched (h : WellKept m) (ht : Touched m m') : WellKept m' where
  coherent := ht.coherent h.coherent
  recorded := ht.recorded h.recorded
  issued := by
    refine ⟨fun t j hj => ?_, fun d hd => ?_⟩
    · rcases ht.waits t j hj with hold | ⟨-, hlt⟩
      · exact lt_of_lt_of_le (h.issued.waits t j hold) ht.counter
      · exact hlt
    · rw [ht.sent] at hd
      exact lt_of_lt_of_le (h.issued.sent d hd) ht.counter

theorem Vouched.touched {log : List (TaskId × TaskResult)} (h : Vouched m log t) (ht : Touched m m') : Vouched m' log t where
  history r hr := h.history r (ht.history t r hr)
  sends := by
    refine ht.sections _ (fun k a ha x hx => ?_) h.sends
    rw [ha] at hx
    cases hx
  sent d hd := h.sent d (by rw [← ht.sent]; exact hd)

theorem SenderOf.touched {j : WaiterId} (h : SenderOf m.shared j t) (ht : Touched m m') : SenderOf m'.shared j t where
  issued := lt_of_lt_of_le h.issued ht.counter
  waits u hu := by
    rcases ht.waits u j hu with hold | ⟨hnew, -⟩
    · exact h.waits u hold
    · exact absurd h.issued (Nat.not_lt.2 hnew)
  sent d hd := h.sent d (by rw [← ht.sent]; exact hd)

end

end

/-! ## Futures -/

/-- What one step of a future does, to the master and to the future. -/
inductive Polled (m : Master) (id : TaskId) : Phase → Master × Phase × Option TaskId → Prop where
  | idle {p : Phase} : Polled m id p (m, p, none)
  | enrol {task : Task} :
      Polled m id (.enrol task) ({ m with shared := m.shared.push id }, .submit task m.shared.nextWaiter, none)
  | accept {task : Task} {j : WaiterId} {m' : Master} (touched : Touched m m') :
      Polled m id (.submit task j) (m', .wait j, some task.id)
  | receive {j : WaiterId} {d : Delivery} (sent : d ∈ m.shared.sent) (mine : d.waiter = j) :
      Polled m id (.wait j) (m, .done (.ok d.value), none)
  | fail {p : Phase} {e : JobError} {m' : Master} (touched : Touched m m') :
      Polled m id p (m', .done (.error e), none)

variable (spec : MapReduceJobSpec)

theorem pollFlight_polled (m : Master) (f : Flight) (seen : TaskQueueInner) (clock : Clock)
    (late : Bool) : Polled m f.id f.phase (Grid.pollFlight spec m f seen clock late) := by
  obtain ⟨slot, id, phase⟩ := f
  cases phase with
  | enrol task =>
    unfold Grid.pollFlight
    dsimp only
    split
    · exact .idle
    · exact .enrol
  | submit task j =>
    unfold Grid.pollFlight
    rcases trySubmitSlot_answer m.shared.queue task seen clock with ⟨⟨e, he⟩, hsame⟩ | ⟨hok, sequence, hentered⟩
    · simp only [he, hsame]
      split
      · exact .idle
      have htouched := touched_close m j ⟨.detached, [.pruneWaiters id]⟩ (by simp [Section.sends])
      split
      · exact .fail htouched
      · exact .fail htouched
    · simp only [hok]
      exact .accept (touched_accept m task seen clock hentered)
  | wait j =>
    unfold Grid.pollFlight
    dsimp only
    split
    · exact .fail (touched_close m j _ (by simp [Section.sends]))
    split
    · next d hd =>
      refine .receive (List.mem_of_find?_eq_some hd) ?_
      exact of_decide_eq_true (List.find?_some (p := fun d : Delivery => decide (d.waiter = j)) hd)
    · split
      · exact .idle
      · exact .fail (Touched.refl m)
  | done outcome => exact .idle

variable {p : Phase}

omit [Host] in
theorem Polled.touched {m : Master} {id : TaskId} {out : Master × Phase × Option TaskId}
    (h : Polled m id p out) : Touched m out.1 := by
  cases h with
  | idle | receive => exact .refl m
  | enrol => exact touched_push m id
  | accept touched | fail touched => exact touched

omit [Host] in
theorem dropFlights_touched (flights : List Flight) : ∀ m : Master, Touched m (flights.foldl Grid.dropFlight m) := by
  induction flights with
  | nil => exact .refl
  | cons f rest ih =>
    intro m
    refine Touched.trans ?_ (ih _)
    obtain ⟨slot, id, phase⟩ := f
    cases phase with
    | enrol | done => exact .refl m
    | submit _ j | wait j => exact touched_close m j _ (by simp [Section.sends])

section

variable {m : Master} {log : List (TaskId × TaskResult)} {id : TaskId}

/-- What is known of a future, by the phase it is in. -/
def Phase.Ok (s : MasterState) (log : List (TaskId × TaskResult)) (id : TaskId) : Phase → Prop
  | .enrol task => task.id = id
  | .submit task j => task.id = id ∧ SenderOf s j id
  | .wait j => SenderOf s j id
  | .done (.ok r) => r.exitCode = 0 → (id, r) ∈ log
  | .done (.error _) => True

omit [Host] in
theorem Phase.Ok.mono {s s' : MasterState} {log' : List (TaskId × TaskResult)} (h : p.Ok s log id)
    (hchannel : ∀ j, SenderOf s j id → SenderOf s' j id) (hlog : log ⊆ log') : p.Ok s' log' id := by
  cases p with
  | enrol task => exact h
  | submit task j => exact ⟨h.1, hchannel j h.2⟩
  | wait j => exact hchannel j h
  | done outcome =>
    cases outcome with
    | ok r => exact fun hzero => hlog (h hzero)
    | error e => trivial

omit [Host] in
/-- **One step of a future.** -/
theorem Phase.Ok.polled {out : Master × Phase × Option TaskId} (hm : WellKept m)
    (hvouched : Vouched m log id) (h : p.Ok m.shared log id) (hp : Polled m id p out) :
    out.2.1.Ok out.1.shared log id ∧ ∀ t ∈ out.2.2, t = id := by
  cases hp with
  | idle => exact ⟨h, nofun⟩
  | enrol =>
    refine ⟨⟨h, Nat.lt_succ_self _, fun u hu => ?_, fun d hd hj => ?_⟩, nofun⟩
    · rcases push_waits hu with hold | ⟨rfl, -⟩
      · exact absurd (hm.issued.waits u _ hold) (Nat.lt_irrefl _)
      · rfl
    · exact absurd (hj ▸ hm.issued.sent d hd) (Nat.lt_irrefl _)
  | accept touched =>
    refine ⟨h.2.touched touched, ?_⟩
    rintro t ⟨⟩
    exact h.1
  | @receive j d sent mine =>
    refine ⟨fun hzero => ?_, nofun⟩
    exact hvouched.sent d sent (h.sent d sent mine) hzero
  | fail touched => exact ⟨trivial, nofun⟩

end

/-! ## Stages -/

variable [SerdeJson]

/-- What the loop of a phase makes of an outcome: it goes on after a result with exit code 0 and untruncated
output; otherwise the job ends, and not as `Completed`. -/
def Judged (outcome : Except JobError TaskResult) (stage : Stage) : Prop :=
  (stage.isOpen = true ∧ ∃ r, outcome = .ok r ∧ r.exitCode = 0 ∧ stdoutWasTruncated r = false) ∨
  (stage.isOpen = false ∧ stage.status ≠ some "Completed")

omit [Host] in
theorem judged_failed {outcome : Except JobError TaskResult} (mapTasks reduceTasks : Nat × Nat)
    (error : String) : Judged outcome (.returned (.ok (failedResult spec mapTasks reduceTasks error))) := by
  refine .inr ⟨rfl, ?_⟩
  show some "Failed" ≠ some "Completed"
  decide

theorem judgeMap_judged (chunks : List (List String))
    (perPartition : List (List (String × SerdeJson.Value))) (completed idx : Nat) (outcome : Except JobError TaskResult) :
    Judged outcome (judgeMap spec chunks perPartition completed idx outcome) := by
  cases outcome with
  | error e => exact .inr ⟨rfl, Option.some_ne_none _ |>.symm⟩
  | ok r =>
    unfold judgeMap
    dsimp only
    split
    · exact judged_failed ..
    next hzero =>
    split
    · exact judged_failed ..
    · next hwhole => exact .inl ⟨rfl, r, rfl, not_not.1 hzero, Bool.eq_false_iff.2 hwhole⟩

theorem judgeReduce_judged (mapTasks : Nat × Nat) (groups : List (String × List SerdeJson.Value))
    (output : FMap String SerdeJson.Value) (completed : Nat) (key : String) (outcome : Except JobError TaskResult) :
    Judged outcome (judgeReduce spec mapTasks groups output completed key outcome) := by
  cases outcome with
  | error e => exact .inr ⟨rfl, Option.some_ne_none _ |>.symm⟩
  | ok r =>
    unfold judgeReduce
    dsimp only
    split
    · exact judged_failed ..
    next hzero =>
    split
    · exact judged_failed ..
    · next hwhole => exact .inl ⟨rfl, r, rfl, not_not.1 hzero, Bool.eq_false_iff.2 hwhole⟩

variable {stage : Stage}

theorem judge_judged (hopen : stage.isOpen = true) (spec : MapReduceJobSpec) (slot : Nat)
    (outcome : Except JobError TaskResult) : Judged outcome (stage.judge spec slot outcome) := by
  cases stage with
  | mapping chunks perPartition completed => exact judgeMap_judged ..
  | reducing mapTasks groups output completed => exact judgeReduce_judged ..
  | returned | dropped => cases hopen

/-! ## The invariant -/

namespace Grid

/-- The queue completed task `t` with an output that is whole. -/
def Succeeded (g : Grid) (t : TaskId) : Prop := ∃ r, (t, r) ∈ g.completions ∧ stdoutWasTruncated r = false

/-- A result with exit code 0 that the step records for a task of the job carries no error. -/
def Candid (g : Grid) : Act → Prop
  | .master l => ∀ a ∈ g.master.ran l, a.Candid g.job.drawn
  | _ => True

structure Sound (g : Grid) : Prop where
  kept : WellKept g.master
  vouched : ∀ t ∈ g.job.drawn, Vouched g.master g.completions t
  drawn : ∀ f ∈ g.job.flights, f.id ∈ g.job.drawn
  phases : ∀ f ∈ g.job.flights, f.phase.Ok g.master.shared g.completions f.id
  idle : g.job.stage.isOpen = false → g.job.flights = []
  accounted : g.job.stage.isOpen = true → ∀ t ∈ g.job.submitted, t ∈ g.job.flights.map Flight.id ∨ g.Succeeded t
  ended : g.job.stage.status = some "Completed" → ∀ t ∈ g.job.submitted, g.Succeeded t

section

variable {g : Grid}

theorem Sound.master (h : g.Sound) (l : Label) (hl : g.Candid (.master l)) : (g.step (.master l)).Sound where
  kept := h.kept.step l
  vouched t ht := (h.vouched t ht).step h.kept.coherent h.kept.recorded fun a ha r hr hid =>
    hl a ha r hr (by rw [List.mem_singleton.1 hid]; exact ht)
  drawn := h.drawn
  phases f hf := (h.phases f hf).mono (fun _ hj => hj.step l) (List.subset_append_left _ _)
  idle := h.idle
  accounted hopen t ht := (h.accounted hopen t ht).imp id fun ⟨r, hr, hwhole⟩ => ⟨r, List.mem_append_left _ hr, hwhole⟩
  ended hstatus t ht := by
    obtain ⟨r, hr, hwhole⟩ := h.ended hstatus t ht
    exact ⟨r, List.mem_append_left _ hr, hwhole⟩

omit [Host] [SerdeJson] in
theorem vouched_unknown {m : Master} (log : List (TaskId × TaskResult)) (h : knows m t = false) :
    Vouched m log t := by
  unfold knows at h
  simp only [Bool.or_eq_false_iff] at h
  obtain ⟨⟨⟨⟨-, hrecorded⟩, -⟩, hpending⟩, hsent⟩ := h
  refine ⟨fun r hr => ?_, fun u hu a ha x hx ht => ?_, fun d hd ht => ?_⟩
  · rw [hr] at hrecorded
    cases hrecorded
  · have hmem : a ∈ m.pending := List.mem_flatMap.2 ⟨u, hu, ha⟩
    have hwakes := List.any_eq_false.1 hpending a hmem
    cases a with
    | wake v r =>
      cases hx
      exact absurd (decide_eq_true (congrArg some ht)) hwakes
    | _ => cases hx
  · exact absurd (decide_eq_true ht) (List.any_eq_false.1 hsent d hd)

section

omit [Host]

theorem status_of_open (h : stage.isOpen = true) {status : String} : stage.status ≠ some status := by
  cases stage with
  | mapping | reducing => exact (Option.some_ne_none _).symm
  | returned | dropped => cases h

theorem Sound.isOpen {f : Flight} {i : Nat} (h : g.Sound) (hf : g.job.flights[i]? = some f) :
    g.job.stage.isOpen = true := by
  by_contra hclosed
  rw [h.idle (Bool.eq_false_iff.2 hclosed)] at hf
  cases hf

theorem Sound.launch (h : g.Sound) (id : TaskId) (createdAtUtc : Nat) : (g.launch id createdAtUtc).Sound := by
  unfold Grid.launch
  dsimp only
  split
  · next hfree =>
    cases hitem : g.job.stage.item? g.job.spec g.job.next with
    | none => exact h
    | some built =>
      have hopen : g.job.stage.isOpen = true := by
        cases hstage : g.job.stage with
        | mapping | reducing => rfl
        | returned | dropped =>
          rw [hstage] at hitem
          cases hitem
      refine ⟨h.kept, fun t ht => ?_, fun f hf => ?_, fun f hf => ?_, fun hclosed => ?_, fun _ t ht => ?_, h.ended⟩
      · rcases List.mem_append.1 ht with hold | hnew
        · exact h.vouched t hold
        · rw [List.mem_singleton.1 hnew]
          exact vouched_unknown g.completions hfree.2.2
      · rcases List.mem_append.1 hf with hold | hnew
        · exact List.mem_append_left _ (h.drawn f hold)
        · rw [List.mem_singleton.1 hnew]
          exact List.mem_append_right _ (List.mem_singleton_self _)
      · rcases List.mem_append.1 hf with hold | hnew
        · exact h.phases f hold
        rw [List.mem_singleton.1 hnew]
        cases built with
        | ok task => rfl
        | error e => trivial
      · cases hopen.symm.trans hclosed
      · refine (h.accounted hopen t ht).imp_left fun hmem => ?_
        rw [List.map_append]
        exact List.mem_append_left _ hmem
  · exact h

end

theorem Sound.poll (h : g.Sound) (i : Nat) (seen : TaskQueueInner) (clock : Clock) (late : Bool) :
    (g.poll i seen clock late).Sound := by
  unfold Grid.poll
  split
  · exact h
  next f hf =>
  have hmem := List.mem_of_getElem? hf
  have hpolled := pollFlight_polled g.job.spec g.master f seen clock late
  have htouched := hpolled.touched
  obtain ⟨hphase, hsubmitted⟩ := (h.phases f hmem).polled h.kept (h.vouched f.id (h.drawn f hmem)) hpolled
  have hopen := h.isOpen hf
  generalize pollFlight g.job.spec g.master f seen clock late = out at hphase hsubmitted htouched
  -- the futures keep their ids
  have hids : (g.job.flights.set i { f with phase := out.2.1 }).map Flight.id = g.job.flights.map Flight.id :=
    map_set_of_getElem? hf rfl
  refine ⟨h.kept.touched htouched, fun t ht => (h.vouched t ht).touched htouched, fun f' hf' => ?_, fun f' hf' => ?_,
    fun hclosed => ?_, fun _ t ht => ?_, fun hstatus => ?_⟩
  · rcases List.mem_or_eq_of_mem_set hf' with hold | rfl
    · exact h.drawn f' hold
    · exact h.drawn f hmem
  · rcases List.mem_or_eq_of_mem_set hf' with hold | rfl
    · exact (h.phases f' hold).mono (fun _ hj => hj.touched htouched) (List.Subset.refl _)
    · exact hphase
  · cases hopen.symm.trans hclosed
  · rw [hids]
    rcases List.mem_append.1 ht with hold | hnew
    · exact h.accounted hopen t hold
    · rw [hsubmitted t (Option.mem_toList.1 hnew)]
      exact .inl (List.mem_map_of_mem hmem)
  · exact absurd hstatus (status_of_open hopen)

omit [Host] in
/-- A stage is entered with some of the futures. -/
theorem Sound.enter (h : g.Sound) {flights : List Flight} (hflights : flights ⊆ g.job.flights)
    (hgoes : stage.isOpen = true → ∀ t ∈ g.job.submitted, t ∈ flights.map Flight.id ∨ g.Succeeded t)
    (hends : stage.status = some "Completed" → ∀ t ∈ g.job.submitted, g.Succeeded t) :
    (g.enter stage flights).Sound := by
  unfold Grid.enter
  split
  · next hopen =>
    exact ⟨h.kept, h.vouched, fun f hf => h.drawn f (hflights hf), fun f hf => h.phases f (hflights hf),
      fun hclosed => absurd (hopen.symm.trans hclosed) (by decide), hgoes, hends⟩
  next hclosed =>
  have htouched := dropFlights_touched flights g.master
  exact ⟨h.kept.touched htouched, fun t ht => (h.vouched t ht).touched htouched,
    List.forall_mem_nil _, List.forall_mem_nil _, fun _ => rfl,
    fun hopen => absurd hopen hclosed, hends⟩

theorem Sound.take (h : g.Sound) (i : Nat) : (g.take i).Sound := by
  unfold Grid.take
  split
  · next slot id outcome hf =>
    have hopen := h.isOpen hf
    have hphase := h.phases _ (List.mem_of_getElem? hf)
    have hjudged := judge_judged hopen g.job.spec slot outcome
    refine h.enter List.eraseIdx_subset (fun hgoes t ht => ?_) (fun hstatus => ?_)
    · rcases hjudged with ⟨-, r, rfl, hzero, hwhole⟩ | ⟨hclosed, -⟩
      · refine (h.accounted hopen t ht).elim (fun hmem => ?_) Or.inr
        obtain ⟨f, hf', rfl⟩ := List.mem_map.1 hmem
        obtain ⟨j, hj⟩ := List.mem_iff_getElem?.1 hf'
        by_cases hij : j = i
        · -- the task of the future that was taken
          rw [hij, hf] at hj
          cases hj
          exact .inr ⟨r, hphase hzero, hwhole⟩
        · exact .inl (List.mem_map_of_mem (List.mem_eraseIdx_iff_getElem?.2 ⟨j, hij, hj⟩))
      · cases hgoes.symm.trans hclosed
    · rcases hjudged with ⟨hgoes, -⟩ | ⟨-, hfailed⟩
      · exact absurd hstatus (status_of_open hgoes)
      · exact absurd hstatus hfailed
  · exact h

theorem Sound.drain (h : g.Sound) (order : SetOrder String) : (g.drain order).Sound := by
  unfold Grid.drain
  split
  · next hdrained =>
    have hrewound : ({ g with job := { g.job with next := 0 } } : Grid).Sound :=
      ⟨h.kept, h.vouched, h.drawn, h.phases, h.idle, h.accounted, h.ended⟩
    cases hopen : g.job.stage.isOpen with
    | true =>
      -- nothing is in flight any more
      have hall : ∀ t ∈ g.job.submitted, g.Succeeded t := by
        intro t ht
        rcases h.accounted hopen t ht with hmem | hdone
        · rw [hdrained.1] at hmem
          cases hmem
        · exact hdone
      exact hrewound.enter (List.nil_subset _) (fun _ t ht => Or.inr (hall t ht)) (fun _ => hall)
    | false =>
      have hsame : g.job.stage.drained g.job.spec order = g.job.stage := by
        cases hstage : g.job.stage with
        | mapping | reducing =>
          rw [hstage] at hopen
          cases hopen
        | returned | dropped => rfl
      rw [hsame]
      exact hrewound.enter (List.nil_subset _) (fun hopen' => absurd (hopen.symm.trans hopen') (by decide)) h.ended
  · exact h

omit [Host] in
theorem Sound.abandon (h : g.Sound) : g.abandon.Sound := by
  unfold Grid.abandon
  split
  · refine h.enter (List.Subset.refl _) (fun hopen => ?_) (fun hstatus => ?_)
    · cases hopen
    · cases hstatus
  · exact h

/-- **One step.** -/
theorem Sound.step (h : g.Sound) (act : Act) (hact : g.Candid act) : (g.step act).Sound := by
  cases act with
  | master l => exact h.master l hact
  | launch id createdAtUtc => exact h.launch id createdAtUtc
  | poll i seen clock late => exact h.poll i seen clock late
  | take i => exact h.take i
  | drain order => exact h.drain order
  | abandon => exact h.abandon

omit [Host] in
theorem sound_start {m : Master} (hm : WellKept m) (spec : MapReduceJobSpec) (parallelism : Nat) :
    (Grid.start m spec parallelism).Sound where
  kept := hm
  vouched _ ht := absurd ht List.not_mem_nil
  drawn _ hf := absurd hf List.not_mem_nil
  phases _ hf := absurd hf List.not_mem_nil
  idle _ := rfl
  accounted _ _ ht := absurd ht List.not_mem_nil
  ended _ _ ht := absurd ht List.not_mem_nil

end

end Grid

/-! ## The report of a job -/

/-- **A completed job succeeded.**  A master that has run for any while (`before`) runs a job and anything else
(`acts`).  If no step records a result with exit code 0 and an error for a task of the job, then a job that
returns with the status `Completed` has had every task it submitted completed by the queue, with an output
that was not truncated. -/
theorem completed_job_succeeded (config : MasterConfig) (queue : QueueConfig) (before : List Label)
    (spec : MapReduceJobSpec) (parallelism : Nat) (acts : List Grid.Act)
    (h : Within Grid.step Grid.Candid (Grid.start ((Master.init config queue).run before) spec parallelism) acts)
    (hstatus : ((Grid.start ((Master.init config queue).run before) spec parallelism).run acts).job.stage.status =
      some "Completed") :
    ∀ t ∈ ((Grid.start ((Master.init config queue).run before) spec parallelism).run acts).job.submitted,
      ∃ r, (t, r) ∈ ((Grid.start ((Master.init config queue).run before) spec parallelism).run acts).completions ∧
        stdoutWasTruncated r = false := by
  have hstart := Grid.sound_start (wellKept_run config queue before) spec parallelism
  have hsound := h.invariant (fun g act (hg : g.Sound) hact => hg.step act hact) hstart
  exact hsound.ended hstatus

end

/-! ### Two runs -/

section Concrete

/-- Text is ASCII. -/
@[reducible] def Host.ascii : Host :=
  { Host.blank with fromUtf8Lossy := fun bytes => String.ofList (bytes.map fun b => Char.ofNat b.toNat) }

/-- Values are texts. -/
@[reducible] def SerdeJson.texts : SerdeJson where
  Value := String
  fromStr _ := none
  get _ _ := none
  asStr _ := none
  string s := s
  one := "1"
  groupedToVec key values := .ok (asciiBytes (Text.join " " (key :: values)))
  reduceBuiltin _ _ := .ok none

attribute [local instance] Host.ascii SerdeJson.texts

instance (g : Grid) (act : Grid.Act) : Decidable (g.Candid act) :=
  match act with
  | .master l => inferInstanceAs (Decidable (∀ a ∈ g.master.ran l, a.Candid g.job.drawn))
  | .launch .. | .poll .. | .take _ | .drain _ | .abandon => inferInstanceAs (Decidable True)

/-- A job of one partition, reduced by a command. -/
def smallJob : MapReduceJobSpec where
  jobId := 1
  inputData := ["a"]
  mapper := .command "cat" []
  reducer := .command "wc" []
  partitionCount := 1
  timeoutSecs := 0

/-- A master with worker 7 starts the job. -/
def smallGrid : Grid :=
  Grid.start ((Master.init .default (.small 3)).run (.connect 7 (.plain 4) .empty 0 :: Label.advances 0 2 (.at 0)))
    smallJob 4

/-- Task `t` is submitted, delivered by the thread `i`, answered with `r`, and its result is taken. -/
def errand (t : TaskId) (i : Nat) (r : TaskResult) : List Grid.Act :=
  let poll := Grid.Act.poll 0 (QueueConfig.small 3).start ⟨1, 0⟩ false
  [.launch t 0, poll, poll] ++
    (.start (.scheduleBatch 10) :: Label.advances i 9 (.at 2) ++ Label.advances 0 1 (.receiving 3 (.result r)) ++
      Label.advances (i + 1) 6 (.at 4)).map .master ++ [poll, .take 0]

/-- Keys by a number of their characters. -/
def keyOrder : SetOrder String :=
  SetOrder.byKey (fun s => Encodable.encode (s.toList.map Char.toNat)) fun _ _ h =>
    String.toList_injective (List.map_injective_iff.2 (fun _ _ => Char.toNat_inj.1) (Encodable.encode_injective h))

/-- The answers of worker 7 to the map task and to the reduce task of the one key. -/
def mapped : TaskResult := { TaskResult.done 7 ⟨1⟩ with stdout := asciiBytes "a\t1\n" }
def reduced : TaskResult := { TaskResult.done 7 ⟨2⟩ with stdout := asciiBytes "1" }

/-- The job runs through both phases. -/
def smallRun : List Grid.Act :=
  errand ⟨1⟩ 1 mapped ++ [.drain keyOrder] ++ errand ⟨2⟩ 3 reduced ++ [.drain keyOrder]

theorem completed_job_succeeded_small : (smallGrid.run smallRun).job.submitted = [⟨1⟩, ⟨2⟩] ∧
    ∀ t ∈ (smallGrid.run smallRun).job.submitted,
      ∃ r, (t, r) ∈ (smallGrid.run smallRun).completions ∧ stdoutWasTruncated r = false :=
  ⟨by decide +kernel,
    completed_job_succeeded .default (.small 3) _ smallJob 4 smallRun (by decide +kernel) (by decide +kernel)⟩

/-- The worker could not store the outputs: it reports the error and keeps the exit code. -/
def unstored : TaskResult := { TaskResult.done 7 ⟨1⟩ with error := some "Worker blob cache is unavailable" }

/-- The only task of the job fails in the queue, and the job reports `Completed`. -/
theorem failed_task_in_completed_job :
    let g := smallGrid.run (errand ⟨1⟩ 1 unstored ++ [.drain keyOrder, .drain keyOrder])
    g.job.stage.status = some "Completed" ∧ g.job.submitted = [⟨1⟩] ∧
      g.master.shared.queue.getState ⟨1⟩ = some .failed ∧ g.completions = [] := by
  decide +kernel

end Concrete

end OxideSwarm
