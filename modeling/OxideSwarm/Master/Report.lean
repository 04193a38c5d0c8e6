import OxideSwarm.Master.Events

/-!
# The report of a scheduling pass

`schedule_batch` reads the queue page by page, commits its placements under one write lock and only then learns
which of them still held.  `Pass.assignments` is the part of its report that says so: each placement takes the
task the commit handed over for its id, once.

* `Committed`: what the commit did to the queue is what the report says, no more and no less.
* `Progress` is the invariant of the task that runs a pass, with nothing assumed about the other tasks: before the
  commit it carries one section, after it the assignments still to be dispatched, in the order of the report.
* `schedule_report_exact`: the report and the messages of a pass, in every run.
-/

namespace OxideSwarm

open MasterState TaskQueueInner

section

variable [Host]

/-! ## The report -/

/-- One `ScheduleAssignment` of a report. -/
structure ScheduleAssignment extends Assignment where
  task : Task

/-- The loop over `assignment_triples`; `scheduled` is what the commit handed over. -/
def reportAssignments : FMap TaskId Task → List (TaskId × Uuid × Nat) → List ScheduleAssignment
  | _, [] => []
  | scheduled, (t, w, session) :: rest =>
    match scheduled.get t with
    | some task => ⟨⟨t, w, session⟩, task⟩ :: reportAssignments (scheduled.del t) rest
    | none => reportAssignments scheduled rest

/-- `report.assignments` of a pass that commits on `q`. -/
def Pass.assignments {n : Nat} (p : Pass n) (q : TaskQueueInner) (now : Instant) : List ScheduleAssignment :=
  reportAssignments
    ((q.scheduleTasksBatchInSessions p.triples now).1.foldl (fun m x => m.set x.1 x.2.2) ∅) p.triples

/-- The commit that turned `q` into `q'` scheduled exactly the tasks of the report, as it says. -/
structure Committed (now : Instant) (q q' : TaskQueueInner) (report : List ScheduleAssignment) : Prop where
  listed : ∀ x ∈ report, ∃ e, q.tasks.get x.taskId = some e ∧ e.state = .queued ∧ e.task = x.task ∧
    q'.tasks.get x.taskId = some (scheduledEntry e x.workerId (some x.sessionId) now)
  others : ∀ t, t ∉ report.map (fun x => x.taskId) → q'.tasks.get t = q.tasks.get t
  nodup : (report.map fun x => x.taskId).Nodup

section

omit [Host]

theorem scheduleBatchInner_cons (now : Instant) (t : TaskId) (w : Uuid) (session : Option Nat)
    (rest : List (TaskId × Uuid × Option Nat)) (q : TaskQueueInner) :
    scheduleBatchInner now ((t, w, session) :: rest) q = ((q.scheduleOne t w session now).1.toList ++
        (scheduleBatchInner now rest (q.scheduleOne t w session now).2).1,
       (scheduleBatchInner now rest (q.scheduleOne t w session now).2).2) :=
  rfl

theorem scheduleBatchInner_queued (now : Instant) (l : List (TaskId × Uuid × Option Nat)) :
    ∀ (q : TaskQueueInner), ∀ x ∈ (scheduleBatchInner now l q).1,
      ∃ e, q.tasks.get x.1 = some e ∧ e.state = .queued ∧ e.task = x.2.2 := by
  induction l with
  | nil => exact fun q x hx => absurd hx List.not_mem_nil
  | cons a rest ih =>
    obtain ⟨t, w, session⟩ := a
    intro q x hx
    rw [scheduleBatchInner_cons, List.mem_append] at hx
    rcases scheduleOne_entries q t w session now with ⟨hone, htasks, -⟩ | ⟨e, he, hqueued, hone, htasks⟩
    · rw [hone] at hx
      obtain ⟨e, he, hqueued, htask⟩ := ih _ x (hx.resolve_left List.not_mem_nil)
      rw [htasks] at he
      exact ⟨e, he, hqueued, htask⟩
    rw [hone] at hx
    rcases hx with hx | hx
    · cases List.mem_singleton.mp hx
      exact ⟨e, he, hqueued, rfl⟩
    obtain ⟨e', he', hqueued', htask⟩ := ih _ x hx
    rw [htasks, FMap.get_set] at he'
    split at he'
    · cases he'
      cases hqueued'
    · exact ⟨e', he', hqueued', htask⟩

/-- `scheduled` holds the tasks of the list. -/
def Holds (scheduled : FMap TaskId Task) (l : List (TaskId × Uuid × Task)) : Prop :=
  ∀ t task, scheduled.get t = some task ↔ ∃ w, (t, w, task) ∈ l

/-- Collecting what a batch hands over into a map loses nothing: no two of its tasks have one id. -/
theorem holds_collected (now : Instant) (l : List (TaskId × Uuid × Option Nat)) (q : TaskQueueInner) :
    Holds ((scheduleBatchInner now l q).1.foldl (fun m x => m.set x.1 x.2.2) ∅) (scheduleBatchInner now l q).1 := by
  have hqueued := scheduleBatchInner_queued now l q
  generalize (scheduleBatchInner now l q).1 = handed at hqueued ⊢
  have hpairs : handed.foldl (fun m x => m.set x.1 x.2.2) (∅ : FMap TaskId Task) =
      (handed.map fun x => (x.1, x.2.2)).foldl (fun m r => m.set r.1 r.2) ∅ := by
    rw [List.foldl_map]
  have hmem : ∀ t task, (t, task) ∈ handed.map (fun x => (x.1, x.2.2)) ↔ ∃ w, (t, w, task) ∈ handed := by
    intro t task
    simp only [List.mem_map, Prod.mk.injEq, Prod.exists]
    grind
  intro t task
  rw [hpairs, ← hmem]
  rcases FMap.get_foldl_set (handed.map fun x => (x.1, x.2.2)) t ∅ with ⟨v, hv, hget⟩ | ⟨hnot, hget⟩
  · rw [hget]
    constructor
    · rintro ⟨⟩
      exact hv
    intro htask
    obtain ⟨w, hw⟩ := (hmem t v).mp hv
    obtain ⟨w', hw'⟩ := (hmem t task).mp htask
    obtain ⟨e, he, -, rfl⟩ := hqueued _ hw
    obtain ⟨e', he', -, rfl⟩ := hqueued _ hw'
    cases he.symm.trans he'
    rfl
  rw [hget, FMap.get_empty]
  constructor
  · rintro ⟨⟩
  · intro htask
    exact absurd (List.mem_map_of_mem (f := Prod.fst) htask) hnot

/-- **The commit.**  Whatever ids the placements repeat, the report says what happened. -/
theorem reportAssignments_committed (now : Instant) (l : List (TaskId × Uuid × Nat)) :
    ∀ (q : TaskQueueInner) (scheduled : FMap TaskId Task), Holds scheduled (q.scheduleTasksBatchInSessions l now).1 →
      Committed now q (q.scheduleTasksBatchInSessions l now).2 (reportAssignments scheduled l) := by
  induction l with
  | nil => exact fun q scheduled _ =>
      ⟨List.forall_mem_nil _, fun t _ => rfl, List.nodup_nil⟩
  | cons a rest ih =>
    obtain ⟨t, w, session⟩ := a
    intro q scheduled hholds
    have hcons : q.scheduleTasksBatchInSessions ((t, w, session) :: rest) now =
        ((q.scheduleOne t w (some session) now).1.toList ++
          ((q.scheduleOne t w (some session) now).2.scheduleTasksBatchInSessions rest now).1,
         ((q.scheduleOne t w (some session) now).2.scheduleTasksBatchInSessions rest now).2) := rfl
    rw [hcons] at hholds ⊢
    generalize hq' : (q.scheduleOne t w (some session) now).2 = q' at hholds ⊢
    have hlater : (∀ e, q'.tasks.get t = some e → e.state ≠ .queued) →
        ∀ w' task, (t, w', task) ∉ (q'.scheduleTasksBatchInSessions rest now).1 := by
      intro hnot w' task hmem
      obtain ⟨e, he, hqueued, -⟩ := scheduleBatchInner_queued now _ q' _ hmem
      exact hnot e he hqueued
    rcases scheduleOne_entries q t w (some session) now with ⟨hone, htasks, hnot⟩ | ⟨e, he, hqueued, hone, htasks⟩
    · -- the task is not queued any more: nothing was handed over for it
      rw [hone] at hholds
      rw [hq'] at htasks
      have hnone : scheduled.get t = none := by
        rw [Option.eq_none_iff_forall_ne_some]
        intro task htask
        obtain ⟨w', hmem⟩ := (hholds t task).mp htask
        exact hlater (by rw [htasks]; exact hnot) w' task hmem
      obtain ⟨hlisted, hothers, hnodup⟩ := ih q' scheduled hholds
      unfold reportAssignments
      rw [hnone]
      refine ⟨fun x hx => ?_, fun u hu => ?_, hnodup⟩
      · obtain ⟨e, he, hrest⟩ := hlisted x hx
        rw [htasks] at he
        exact ⟨e, he, hrest⟩
      · rw [hothers u hu, htasks]
    rw [hone] at hholds
    rw [hq'] at htasks
    have hself : q'.tasks.get t = some (scheduledEntry e w (some session) now) := by
      rw [htasks, FMap.get_set, if_pos rfl]
    have hgone : ∀ e', q'.tasks.get t = some e' → e'.state ≠ .queued := by
      intro e' he' hq
      cases hself.symm.trans he'
      cases hq
    have hsome : scheduled.get t = some e.task := (hholds t e.task).mpr ⟨w, List.mem_cons_self⟩
    have hrest : Holds (scheduled.del t) (q'.scheduleTasksBatchInSessions rest now).1 := by
      intro u task
      rw [FMap.get_del]
      split
      · next hu =>
        subst hu
        constructor
        · rintro ⟨⟩
        · rintro ⟨w', hmem⟩
          exact absurd hmem (hlater hgone w' task)
      next hu =>
      rw [hholds u task]
      constructor
      · rintro ⟨w', hmem⟩
        rcases List.mem_append.mp hmem with hmem | hmem
        · cases List.mem_singleton.mp hmem
          exact absurd rfl hu
        · exact ⟨w', hmem⟩
      · rintro ⟨w', hmem⟩
        exact ⟨w', List.mem_append_right _ hmem⟩
    obtain ⟨hlisted, hothers, hnodup⟩ := ih q' (scheduled.del t) hrest
    have hfresh : t ∉ (reportAssignments (scheduled.del t) rest).map fun x => x.taskId := by
      intro hmem
      obtain ⟨x, hx, rfl⟩ := List.mem_map.mp hmem
      obtain ⟨e', he', hq, -⟩ := hlisted x hx
      exact hgone e' he' hq
    unfold reportAssignments
    rw [hsome]
    refine ⟨fun x hx => ?_, fun u hu => ?_, List.nodup_cons.mpr ⟨hfresh, hnodup⟩⟩
    · rcases List.mem_cons.mp hx with rfl | hx
      · exact ⟨e, he, hqueued, rfl, (hothers t hfresh).trans hself⟩
      obtain ⟨e', he', hx'⟩ := hlisted x hx
      have hne : x.taskId ≠ t := by
        rintro rfl
        exact hfresh (List.mem_map_of_mem hx)
      rw [htasks, FMap.get_set, if_neg hne] at he'
      exact ⟨e', he', hx'⟩
    · rw [List.map_cons, List.mem_cons, not_or] at hu
      rw [hothers u hu.2, htasks, FMap.get_set, if_neg hu.1]

theorem reportAssignments_dispatched (l : List (TaskId × Uuid × Nat)) :
    ∀ (scheduled : FMap TaskId Task) (ids : List TaskId), (∀ t, t ∈ ids ↔ (scheduled.get t).isSome) →
      (reportAssignments scheduled l).map ScheduleAssignment.toAssignment = assignmentsOf ids l := by
  induction l with
  | nil => exact fun _ _ _ => rfl
  | cons a rest ih =>
    obtain ⟨t, w, session⟩ := a
    intro scheduled ids hids
    unfold reportAssignments assignmentsOf
    cases htask : scheduled.get t with
    | none =>
      have hnot : t ∉ ids := by
        rw [hids, htask]
        exact Bool.false_ne_true
      rw [if_neg hnot]
      exact ih scheduled ids hids
    | some task =>
      have hmem : t ∈ ids := by
        rw [hids, htask]
        rfl
      rw [if_pos hmem, List.map_cons]
      refine congrArg _ (ih _ _ fun u => ?_)
      rw [List.mem_filter, FMap.get_del, decide_eq_true_eq, hids]
      by_cases hu : u = t
      · simp [hu]
      · simp [hu]

end

section Commit

variable {n : Nat} (p : Pass n) (q : TaskQueueInner) (now : Instant)

section

omit [Host]

theorem Pass.assignments_committed :
    Committed now q (q.scheduleTasksBatchInSessions p.triples now).2 (p.assignments q now) :=
  reportAssignments_committed now p.triples q _ (holds_collected now _ q)

theorem Pass.assignments_dispatched : (p.assignments q now).map ScheduleAssignment.toAssignment =
    assignmentsOf ((q.scheduleTasksBatchInSessions p.triples now).1.map Prod.fst) p.triples := by
  refine reportAssignments_dispatched p.triples _ _ fun t => ?_
  have hholds := holds_collected now (p.triples.map fun a => (a.1, a.2.1, some a.2.2)) q t
  rw [Option.isSome_iff_exists, List.mem_map]
  constructor
  · rintro ⟨⟨t, w, task⟩, hmem, rfl⟩
    exact ⟨task, (hholds task).mpr ⟨w, hmem⟩⟩
  · rintro ⟨task, htask⟩
    obtain ⟨w, hmem⟩ := (hholds task).mp htask
    exact ⟨(t, w, task), hmem, rfl⟩

theorem reportAssignments_length (l : List (TaskId × Uuid × Nat)) :
    ∀ scheduled : FMap TaskId Task, (reportAssignments scheduled l).length ≤ l.length := by
  induction l with
  | nil => exact fun _ => Nat.le_refl 0
  | cons a rest ih =>
    intro scheduled
    unfold reportAssignments
    split
    · exact Nat.succ_le_succ (ih _)
    · exact (ih _).trans (Nat.le_succ _)

theorem Pass.assignments_length : (p.assignments q now).length ≤ p.placements.length :=
  (reportAssignments_length p.triples _).trans (List.length_map _).le

end

end Commit

/-! ## What a task reports and delivers -/

/-- A section that a task of the master ran. -/
abbrev Executed := Ran MasterState Choice Section

/-- The state the section left behind. -/
def Executed.after (r : Executed) : MasterState := (exec r.choice .detached r.code r.shared).shared

def Section.commits : Section → Bool
  | .commit _ => true
  | _ => false

/-- What a commit adds to the report of its pass. -/
def Section.reports (a : Section) (c : Choice) (s : MasterState) : List ScheduleAssignment :=
  match a with
  | .commit p => p.assignments s.queue c.clock.instant
  | _ => []

/-- `report.assignments` of a task that ran `done`. -/
def reportOf (done : List Executed) : List ScheduleAssignment :=
  done.flatMap fun r => r.code.reports r.choice r.shared

def Event.assigned : Event → Option Assignment
  | .assignTask a => some a
  | _ => none

/-- The `AssignTask` messages the section put on channels. -/
def Executed.delivered (r : Executed) : List Assignment :=
  (r.after.events.drop r.shared.events.length).filterMap Event.assigned

def deliveriesOf (done : List Executed) : List Assignment := done.flatMap fun r => Executed.delivered r

/-- The assignment a dispatch may still deliver. -/
def Section.undelivered : Section → Option Assignment
  | .reserve a | .channel a | .deliver a => some a
  | _ => none

section

variable (c : Choice) (s : MasterState) {a : Section}

theorem delivered_eq (a : Section) : Executed.delivered ⟨s, c, a⟩ = (a.posts c s).filterMap Event.assigned := by
  unfold Executed.delivered Executed.after
  rw [exec_events, List.drop_left]

theorem delivered_none (h : a.undelivered = none) : Executed.delivered ⟨s, c, a⟩ = [] := by
  rw [delivered_eq]
  by_cases hquiet : a.eventful = false
  · rw [posts_quiet c s hquiet]
    rfl
  cases a with
  | submit sub waiter =>
    show (if _ then [Event.accepted sub.task.id] else []).filterMap Event.assigned = []
    split <;> rfl
  | cancel t reason =>
    show (if _ then [Event.cancelled t] else []).filterMap Event.assigned = []
    split <;> rfl
  | sendCancel session t =>
    show (if _ then [Event.cancelTask t session] else []).filterMap Event.assigned = []
    split <;> rfl
  | deliver x => cases h
  | _ => exact absurd rfl hquiet

theorem deliveriesOf_append (done done' : List Executed) :
    deliveriesOf (done ++ done') = deliveriesOf done ++ deliveriesOf done' :=
  List.flatMap_append

theorem deliveriesOf_singleton (r : Executed) : deliveriesOf [r] = r.delivered :=
  List.flatMap_singleton _ _

omit [Host] in
theorem reportOf_commits (done : List Executed) : reportOf done = reportOf (done.filter fun r => r.code.commits) := by
  induction done with
  | nil => rfl
  | cons r rest ih =>
    have hnone : r.code.commits = false → r.code.reports r.choice r.shared = [] := by
      intro hcommit
      unfold Section.reports
      split
      · next hp =>
        rw [hp] at hcommit
        cases hcommit
      · rfl
    rw [List.filter_cons]
    show r.code.reports r.choice r.shared ++ reportOf rest = _
    rw [ih]
    split
    · rfl
    · next hcommit => rw [hnone (Bool.eq_false_iff.mpr hcommit), List.nil_append]

end

/-! ## The task that runs a pass -/

/-- The section belongs to a pass before its commit. -/
def Section.plans : Section → Bool
  | .retries _ | .workers _ | .loads .. | .demand .. | .page _ | .commit _ => true
  | _ => false

/-- A section of `schedule_batch(max)` up to the commit. -/
def Section.Planning (max : Nat) : Section → Prop
  | .retries k | .workers k | .loads _ k | .demand _ _ k => k = max
  | .page p => p.maxBatchSize = max ∧ p.placements.length < max
  | .commit p => p.maxBatchSize = max ∧ p.placements.length ≤ max
  | _ => False

section

variable {max : Nat} {a b : Section} {c : Choice} {k : Owner} {s : MasterState}

/-- Before the commit, a pass goes on with one section or ends. -/
theorem planning_code (h : a.Planning max) (hcommit : a.commits = false) (c : Choice) (s : MasterState) :
    (exec c k a s).code = [] ∨ ∃ b, (exec c k a s).code = [b] ∧ b.Planning max := by
  cases a with
  | retries m => exact .inr ⟨.workers m, rfl, h⟩
  | workers m =>
    show (s.workers c m).code = [] ∨ ∃ b, (s.workers c m).code = [b] ∧ _
    unfold MasterState.workers next
    dsimp only
    split
    · exact .inl rfl
    · exact .inr ⟨_, rfl, h⟩
  | loads listed m => exact .inr ⟨_, rfl, h⟩
  | demand listed loads m =>
    refine .inr ⟨_, rfl, ?_⟩
    split
    · next hgo => exact ⟨h, (show m = max from h) ▸ hgo.2⟩
    · exact ⟨h, Nat.zero_le max⟩
  | page p =>
    obtain ⟨hmax, hlt⟩ := h
    obtain ⟨hmax', hle, hmore⟩ := p.page_bounded s.queue (hmax ▸ hlt)
    show (s.page c p).code = [] ∨ ∃ b, (s.page c p).code = [b] ∧ _
    unfold MasterState.page
    dsimp only
    split
    · next hpage => exact .inr ⟨_, rfl, hmax'.trans hmax, hmax ▸ hmore hpage⟩
    · exact .inr ⟨_, rfl, hmax'.trans hmax, hmax ▸ hle⟩
  | commit p => cases hcommit
  | _ => exact h.elim

theorem follows_plans (h : s.Follows c k a b) (ha : a.plans = false) : b.plans = false := by
  cases h <;> first | rfl | cases ha

theorem follows_undelivered {x : Assignment} (h : s.Follows c k a b) (hb : b.undelivered = some x) :
    a.undelivered = some x ∨ a.commits = true := by
  cases b with
  | reserve y =>
    cases h with
    | commit_reserve triple => exact .inr rfl
  | channel | deliver =>
    cases hb
    cases h
    exact .inl rfl
  | _ => cases hb

/-- After the commit, a section delivers its own assignment at most, or leaves it to the sections it goes on
with. -/
theorem dispatch_code (h : a.plans = false) (c : Choice) (s : MasterState) :
    (Executed.delivered ⟨s, c, a⟩ ++ (exec c k a s).code.filterMap Section.undelivered).Sublist
      a.undelivered.toList := by
  cases hu : a.undelivered with
  | none =>
    rw [delivered_none c s hu, List.nil_append]
    have hcode : (exec c k a s).code.filterMap Section.undelivered = [] := by
      rw [List.filterMap_eq_nil_iff]
      intro b hb
      cases hb' : b.undelivered with
      | none => rfl
      | some x =>
        rcases follows_undelivered (exec_follows c k s a b hb) hb' with hsame | hcommit
        · cases hu.symm.trans hsame
        · cases a with
          | commit p => cases h
          | _ => cases hcommit
    rw [hcode]
    exact List.nil_sublist _
  | some y =>
    cases a with
    | reserve x =>
      cases hu
      rw [delivered_eq]
      show ((s.reserve y).code.filterMap Section.undelivered).Sublist [y]
      unfold MasterState.reserve next
      dsimp only
      split
      · exact List.Sublist.refl _
      · exact List.nil_sublist _
    | channel x =>
      cases hu
      rw [delivered_eq]
      show ((s.channel c y).code.filterMap Section.undelivered).Sublist [y]
      unfold MasterState.channel next
      dsimp only
      split
      · exact List.Sublist.refl _
      · exact List.nil_sublist _
    | deliver x =>
      cases hu
      rw [delivered_eq]
      show ((if s.delivers y then [Event.assignTask y] else []).filterMap Event.assigned ++
        (s.deliver y).code.filterMap Section.undelivered).Sublist [y]
      rcases deliver_code s y with ⟨hsent, hcode⟩ | ⟨hsent, hcode⟩
      · rw [hsent, hcode]
        exact List.Sublist.refl _
      · rw [hsent, hcode]
        exact List.nil_sublist _
    | _ => cases hu

end

/-- How far the task of `schedule_batch(max)` is that ran `past` and has `code` still to run. -/
inductive Progress (max : Nat) (past : List Executed) (code : List Section) : Prop where
  | planning (uncommitted : past.filter (fun r => r.code.commits) = []) (silent : deliveriesOf past = [])
      (planned : code = [] ∨ ∃ a, code = [a] ∧ a.Planning max)
  | dispatching {n : Nat} {p : Pass n} {s : MasterState} {c : Choice}
      (committed : past.filter (fun r => r.code.commits) = [⟨s, c, .commit p⟩])
      (bounded : p.placements.length ≤ max) (planned : ∀ a ∈ code, a.plans = false)
      (rest : (deliveriesOf past ++ code.filterMap Section.undelivered).Sublist
        ((p.assignments s.queue c.clock.instant).map ScheduleAssignment.toAssignment))

section

variable {max : Nat} {past : List Executed} {rest : List Section} {a : Section}

theorem Progress.commit {n : Nat} {p : Pass n} (huncommitted : past.filter (fun r => r.code.commits) = [])
    (hsilent : deliveriesOf past = []) (hbounded : p.placements.length ≤ max) (s : MasterState) (c : Choice) :
    Progress max (past ++ [⟨s, c, .commit p⟩]) (exec c .detached (.commit p) s).code := by
  have hcode : (exec c .detached (.commit p) s).code =
      ((p.assignments s.queue c.clock.instant).map ScheduleAssignment.toAssignment).map .reserve := by
    rw [p.assignments_dispatched]
    rfl
  have hreserved : ∀ l : List Assignment, (l.map Section.reserve).filterMap Section.undelivered = l := by
    intro l
    rw [List.filterMap_map]
    exact List.filterMap_some
  refine .dispatching (p := p) (s := s) (c := c) ?_ hbounded ?_ ?_
  · rw [List.filter_append, huncommitted]
    rfl
  · intro b hb
    rw [hcode] at hb
    obtain ⟨x, -, rfl⟩ := List.mem_map.mp hb
    rfl
  · rw [deliveriesOf_append, hsilent, deliveriesOf_singleton, delivered_none c s rfl, hcode, hreserved]
    exact List.Sublist.refl _

/-- One section of the task, whatever state the others left for it. -/
theorem Progress.step (h : Progress max past (a :: rest)) (s : MasterState) (c : Choice) :
    Progress max (past ++ [⟨s, c, a⟩]) ((exec c .detached a s).code ++ rest) := by
  cases h with
  | planning huncommitted hsilent hplanned =>
    obtain ⟨b, hb, hplanning⟩ := hplanned.resolve_left (List.cons_ne_nil _ _)
    cases hb
    rw [List.append_nil]
    by_cases hcommit : a.commits = false
    · have hundelivered : a.undelivered = none := by
        cases a with
        | reserve | channel | deliver => cases hplanning
        | _ => rfl
      refine .planning ?_ ?_ (planning_code hplanning hcommit c s)
      · rw [List.filter_append, huncommitted, List.filter_cons_of_neg (by rw [hcommit]; exact Bool.false_ne_true)]
        rfl
      · rw [deliveriesOf_append, hsilent, deliveriesOf_singleton, delivered_none c s hundelivered]
        rfl
    · cases a with
      | commit p => exact .commit huncommitted hsilent hplanning.2 s c
      | _ => exact absurd rfl hcommit
  | @dispatching n p s₀ c₀ hcommitted hbounded hplanned hrest =>
    have ha : a.plans = false := hplanned a List.mem_cons_self
    refine .dispatching (p := p) (s := s₀) (c := c₀) ?_ hbounded ?_ ?_
    · have hcommit : a.commits = false := by
        cases a with
        | commit p => cases ha
        | _ => rfl
      rw [List.filter_append, hcommitted, List.filter_cons_of_neg (by rw [hcommit]; exact Bool.false_ne_true)]
      rfl
    · intro b hb
      rcases List.mem_append.mp hb with hb | hb
      · exact follows_plans (exec_follows c .detached s a b hb) ha
      · exact hplanned b (List.mem_cons_of_mem _ hb)
    refine List.Sublist.trans ?_ hrest
    have hcons : (a :: rest).filterMap Section.undelivered =
        a.undelivered.toList ++ rest.filterMap Section.undelivered := by
      rw [List.filterMap_cons]
      split
      · next hnone => rw [hnone]; rfl
      · next x hx => rw [hx]; rfl
    rw [deliveriesOf_append, deliveriesOf_singleton, List.filterMap_append, hcons, List.append_assoc]
    refine List.Sublist.append_left ?_ _
    rw [← List.append_assoc]
    exact (dispatch_code ha c s).append_right _

end

/-- **Exactness of a scheduling report.**  `schedule_batch(n)` is started in any state of the master and runs
interleaved with anything else.  It commits at most once; its report lists exactly the tasks the commit moved from
`Queued` to `Scheduled`, each once, with the worker, the session and the task that the entry then had; there are at
most `n`; and each `AssignTask` it puts on a channel is one of them, for the session of the report, and no task gets
two. -/
theorem schedule_report_exact (m : Master) (n : Nat) (later : List Label) :
    let done := (m.step (.start (.scheduleBatch n))).watch m.threads.length later
    let commits := done.filter fun r => r.code.commits
    let report := reportOf done
    commits.length ≤ 1 ∧
    (∀ t, t ∈ report.map (fun x => x.taskId) ↔ ∃ r ∈ commits,
      (∃ e, r.shared.queue.tasks.get t = some e ∧ e.state = .queued) ∧
      ∃ e, (Executed.after r).queue.tasks.get t = some e ∧ e.state = .scheduled) ∧
    (report.map fun x => x.taskId).Nodup ∧
    (∀ x ∈ report, ∃ r ∈ commits, ∃ e, (Executed.after r).queue.tasks.get x.taskId = some e ∧
      e.assignedWorkerId = some x.workerId ∧ e.assignedSession = some x.sessionId ∧ e.task = x.task) ∧
    report.length ≤ n ∧
    (∀ a ∈ deliveriesOf done, a ∈ report.map ScheduleAssignment.toAssignment) ∧
    ((deliveriesOf done).map fun a => a.taskId).Nodup := by
  intro done commits report
  have hstart : (m.step (.start (.scheduleBatch n))).threads[m.threads.length]? =
      some ⟨.detached, [.retries n]⟩ := by
    show (m.threads ++ [_])[m.threads.length]? = _
    rw [List.getElem?_append_right (Nat.le_refl _), Nat.sub_self]
    rfl
  obtain ⟨code, halone⟩ := Master.watch_alone later hstart
  have hbegin : Progress n [] [.retries n] := .planning rfl rfl (Or.inr ⟨_, rfl, rfl⟩)
  have hprogress : Progress n ([] ++ done) code :=
    halone.invariant (fun past s c a rest h => h.step s c) hbegin
  rw [List.nil_append] at hprogress
  have hreport : report = reportOf commits := reportOf_commits done
  cases hprogress with
  | planning huncommitted hsilent _ =>
    have hnone : report = [] := by
      rw [hreport]
      exact congrArg reportOf huncommitted
    rw [hnone, hsilent, show commits = [] from huncommitted]
    refine ⟨Nat.zero_le 1, fun t => ?_, List.nodup_nil, ?_, Nat.zero_le n, ?_, List.nodup_nil⟩
    · simp
    · exact List.forall_mem_nil _
    · exact List.forall_mem_nil _
  | @dispatching k p s c hcommitted hbounded _ hrest =>
    have hassigned : report = p.assignments s.queue c.clock.instant := by
      rw [hreport, show commits = _ from hcommitted]
      exact List.append_nil _
    obtain ⟨hlisted, hothers, hnodup⟩ := p.assignments_committed s.queue c.clock.instant
    rw [← hassigned] at hlisted hothers hnodup hrest
    have hsent : (deliveriesOf done).Sublist (report.map ScheduleAssignment.toAssignment) :=
      (List.sublist_append_left _ _).trans hrest
    rw [show commits = _ from hcommitted]
    refine ⟨Nat.le_refl 1, fun t => ?_, hnodup, fun x hx => ?_, ?_, fun a ha => hsent.subset ha, ?_⟩
    · constructor
      · intro ht
        obtain ⟨x, hx, rfl⟩ := List.mem_map.mp ht
        obtain ⟨e, he, hqueued, -, hafter⟩ := hlisted x hx
        exact ⟨_, List.mem_singleton_self _, ⟨e, he, hqueued⟩, _, hafter, rfl⟩
      rintro ⟨r, hr, ⟨e, he, hqueued⟩, e', he', hscheduled⟩
      cases List.mem_singleton.mp hr
      by_contra hnot
      have hsame : (Executed.after ⟨s, c, .commit p⟩).queue.tasks.get t = s.queue.tasks.get t := hothers t hnot
      cases (he'.symm.trans hsame).trans he
      cases hqueued.symm.trans hscheduled
    · obtain ⟨e, -, -, htask, hafter⟩ := hlisted x hx
      exact ⟨_, List.mem_singleton_self _, _, hafter, rfl, rfl, htask⟩
    · rw [hassigned]
      exact (p.assignments_length s.queue c.clock.instant).trans hbounded
    · have hids := hsent.map fun a => a.taskId
      rw [List.map_map] at hids
      exact hids.nodup hnodup

end

section Concrete

attribute [local instance] Host.blank

-- the queued task is reported and its message is delivered
example :
    let m := (Master.init .default (.small 4)).run connectedRun
    let done := (m.step (.start (.scheduleBatch 4))).watch m.threads.length (Label.advances 2 9 (.at 2))
    (reportOf done).map ScheduleAssignment.toAssignment = [⟨⟨1⟩, 7, 1⟩] ∧ deliveriesOf done = [⟨⟨1⟩, 7, 1⟩] := by
  decide +kernel

end Concrete

end OxideSwarm
