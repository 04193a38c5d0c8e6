import OxideSwarm.Master.Flow

/-!
# The history of results

`recorded` keeps for each task the result with which it finished.  `Recorded` ties it to the entries: the
history of a finished entry is its result, an unfinished one has none.  Every section keeps that
(`Recorded.exec`), and what is recorded stays until the id is submitted again (`recorded_stays`).
-/

namespace OxideSwarm

open TaskQueueInner MasterState

variable [Host]

omit [Host] in
/-- The history `r` of a task agrees with its entry. -/
def TaskEntry.Agrees (e : TaskEntry) (r : Option TaskResult) : Prop :=
  (e.state.isTerminal = true → r.isSome ∧ e.result = r) ∧ (e.state.isTerminal = false → r = none)

/-- The history agrees with the entries that are there. -/
def Recorded (q : TaskQueueInner) (h : FMap TaskId TaskResult) : Prop :=
  ∀ t e, q.tasks.get t = some e → e.Agrees (h.get t)

omit [Host] in
theorem agrees_open {e : TaskEntry} (h : e.state.isTerminal = false) : e.Agrees none :=
  ⟨fun hterm => absurd (h.symm.trans hterm) Bool.false_ne_true, fun _ => rfl⟩

variable {r : TaskResult}

omit [Host] in
theorem agrees_finished {e : TaskEntry} (h : e.state.isTerminal = true)
    (hr : e.result = some r) : e.Agrees (some r) :=
  ⟨fun _ => ⟨rfl, hr⟩, fun hopen => absurd (hopen.symm.trans h) Bool.false_ne_true⟩

variable {q : TaskQueueInner}

omit [Host] in
/-- An operation that neither accepts nor assigns, with the tasks it finishes written down. -/
theorem Recorded.settles {q' : TaskQueueInner} {h h' : FMap TaskId TaskResult} {T : Set TaskId}
    (hq : Recorded q h) (hs : Settles q q' T) (hother : ∀ u, u ∉ T → h'.get u = h.get u)
    (hT : ∀ u ∈ T, ∀ e', q'.tasks.get u = some e' → e'.Agrees (h'.get u)) : Recorded q' h' := by
  intro u e' he'
  by_cases hu : u ∈ T
  · exact hT u hu e' he'
  cases he : q.tasks.get u with
  | none => cases (hs.absent u he).symm.trans he'
  | some e =>
    rw [hother u hu]
    cases hterm : e.state.isTerminal with
    | true =>
      rw [(hs.kept u e e' he he').settled hterm]
      exact hq u e he
    | false =>
      obtain ⟨e1, he1, hopen⟩ := hs.unfinished u e hu he hterm
      cases he1.symm.trans he'
      rw [(hq u e he).2 hterm]
      exact agrees_open hopen

section

variable (c : Choice) (k : Owner) (s : MasterState)

/-! ## The four ways to finish -/

variable {e' : TaskEntry} {u : TaskId} {w : Uuid}

theorem record_agrees {n : Nat} {pin : Option (List BlobId)} (hu : u ∈ finishes c s (.record w n r pin))
    (he' : (s.record c w n r pin).shared.queue.tasks.get u = some e') :
    e'.Agrees ((s.record c w n r pin).shared.recorded.get u) := by
  obtain ⟨rfl, hfin⟩ := hu
  obtain ⟨hterm, hres, -⟩ := recordResultFrom_recorded (q := s.queue) rfl hfin he'
  have hset : (s.record c w n r pin).shared.recorded = s.recorded.set r.taskId r := if_pos hfin
  rw [hset, FMap.get_set, if_pos rfl]
  exact agrees_finished hterm hres

theorem oversized_agrees {a : Assignment} {size : Nat} (hu : u ∈ finishes c s (.oversized a size))
    (he' : (s.oversized a size).shared.queue.tasks.get u = some e') :
    e'.Agrees ((s.oversized a size).shared.recorded.get u) := by
  obtain ⟨rfl, hfin⟩ := hu
  obtain ⟨hterm, hres⟩ := failUnsendableAssignment_recorded (q := s.queue) (Prod.ext hfin rfl) he'
  have hset : (s.oversized a size).shared.recorded = s.recorded.set a.taskId (oversizedResult a size) :=
    if_pos (by rw [hfin]; rfl)
  rw [hset, FMap.get_set, if_pos rfl]
  exact agrees_finished hterm hres

variable {reason : String}

omit [Host] in
theorem cancel_finished {t : TaskId} {o : CancelOutcome}
    (ho : (s.queue.cancelTaskDetailed t (some reason)).1 = .ok o) (hnew : o.newlyCancelled = true) :
    ∃ r, o.result = some r ∧ (s.cancel t reason).shared.recorded = s.recorded.set t r ∧
      (∃ e, s.queue.tasks.get t = some e ∧ e.state.isTerminal = false) ∧
      ∀ e', (s.cancel t reason).shared.queue.tasks.get t = some e' → e'.state.isTerminal ∧ e'.result = some r := by
  rcases cancelTaskDetailed_entries (Prod.mk.eta (p := s.queue.cancelTaskDetailed t (some reason))).symm with
    ⟨-, hold⟩ | ⟨-, hopen, o', ho', -, hsome, hentry⟩
  · rw [hold o ho] at hnew
    cases hnew
  cases ho.symm.trans ho'
  obtain ⟨r, hr⟩ := Option.isSome_iff_exists.mp hsome
  have hstate : (s.cancel t reason).shared =
      ((s.withQueue (s.queue.cancelTaskDetailed t (some reason)).2).withRecorded (s.recorded.set t r)).note
        (.cancelled t) := by
    unfold cancel
    simp only [ho, hnew, if_true, hr, Option.getD_some]
    rfl
  refine ⟨r, hr, by rw [hstate]; rfl, hopen, fun e' he' => ?_⟩
  rw [hstate] at he'
  rw [← hr]
  exact hentry e' he'

variable {clock : Clock} {immediate : Bool}

theorem mem_sweptResults {n : Option Nat} {order : SetOrder TaskId} :
    (u, r) ∈ sweptResults q w n reason immediate order clock ↔
      (u, SweepFate.failed) ∈ (sweepTasks w n reason immediate clock (order.list (q.sweptCandidates w)) q).1 ∧
      (sweepTasks w n reason immediate clock (order.list (q.sweptCandidates w)) q).2.getResult u = some r := by
  unfold sweptResults
  rw [List.mem_filterMap]
  constructor
  · rintro ⟨f, hf, hfr⟩
    split at hfr
    · next hfail =>
      obtain ⟨x, hx, heq⟩ := Option.map_eq_some_iff.mp hfr
      cases heq
      rw [← hfail]
      exact ⟨hf, hx⟩
    · cases hfr
  · rintro ⟨hf, hr⟩
    exact ⟨_, hf, by rw [if_pos rfl, hr]; rfl⟩

theorem swept_open {n : Option Nat} {order : SetOrder TaskId}
    (hu : u ∈ (q.handleSessionDisconnected w n reason immediate order clock).1) :
    ∃ e, q.tasks.get u = some e ∧ e.state.isTerminal = false := by
  obtain ⟨⟨v, fate⟩, hf, rfl⟩ := List.mem_map.mp hu
  obtain ⟨hs, -⟩ := sweepTasks_swept w n reason immediate clock (order.list (q.sweptCandidates w)) q
    (order.nodup _)
  obtain ⟨e, -, he, hopen, -⟩ := hs.entry hf
  exact ⟨e, he, hopen⟩

theorem sweep_agrees (hs : Recorded s.queue s.recorded) {n : Nat} (hu : u ∈ finishes c s (.sweep w n reason immediate))
    (he' : (s.sweep c w n reason immediate).shared.queue.tasks.get u = some e') :
    e'.Agrees ((s.sweep c w n reason immediate).shared.recorded.get u) := by
  obtain ⟨⟨v, fate⟩, hf, rfl⟩ := List.mem_map.mp hu
  obtain ⟨hswept, -⟩ := sweepTasks_swept w (some n) reason immediate c.clock
    (c.taskOrder.list (s.queue.sweptCandidates w)) s.queue (c.taskOrder.nodup _)
  obtain ⟨e, e1, he, hopen, he1, hfail, hsome⟩ := hswept.entry hf
  -- after the first loop entries are only evicted
  have hlater := settleFates_settles (T := ∅) (sweepTasks w (some n) reason immediate c.clock
    (c.taskOrder.list (s.queue.sweptCandidates w)) s.queue).1 w (sweepTasks w (some n) reason immediate c.clock
    (c.taskOrder.list (s.queue.sweptCandidates w)) s.queue).2
  have hkept := hlater.kept v e1 e' he1 he'
  have hget := FMap.get_foldl_set (sweptResults s.queue w (some n) reason immediate c.taskOrder c.clock) v
    s.recorded
  show e'.Agrees ((List.foldl _ s.recorded _).get v)
  cases hterm : e1.state.isTerminal with
  | true =>
    rw [hkept.settled hterm]
    obtain ⟨r, hr⟩ := Option.isSome_iff_exists.mp (hsome (hfail.mpr hterm))
    have hmem : (v, r) ∈ sweptResults s.queue w (some n) reason immediate c.taskOrder c.clock := by
      refine mem_sweptResults.mpr ⟨by rw [← hfail.mpr hterm]; exact hf, ?_⟩
      unfold getResult
      rw [he1]
      exact hr
    rcases hget with ⟨r', hr', heq⟩ | ⟨hnot, -⟩
    · have hres := (mem_sweptResults.mp hr').2
      rw [(mem_sweptResults.mp hmem).2] at hres
      cases hres
      rw [heq]
      exact agrees_finished hterm hr
    · exact absurd (List.mem_map_of_mem hmem) hnot
  | false =>
    obtain ⟨e2, he2, hopen2⟩ := hlater.unfinished v e1 (Set.notMem_empty v) he1 hterm
    cases he2.symm.trans he'
    rcases hget with ⟨r', hr', -⟩ | ⟨-, heq⟩
    · have hfate := hswept.fate_unique hf (mem_sweptResults.mp hr').1
      rw [hfail.mp hfate] at hterm
      cases hterm
    · rw [heq, (hs v e he).2 hopen]
      exact agrees_open hopen2

/-! ## All sections -/

variable {a : Section}

theorem finishes_open (hu : u ∈ finishes c s a) : ∃ e, s.queue.tasks.get u = some e ∧ e.state.isTerminal = false := by
  cases a with
  | record w n r pin =>
    obtain ⟨rfl, hfin⟩ := hu
    exact recordResultFrom_open hfin
  | oversized a size =>
    obtain ⟨rfl, hfin⟩ := hu
    exact failUnsendableAssignment_open hfin
  | cancel t reason =>
    obtain ⟨rfl, o, ho, hnew⟩ := hu
    obtain ⟨r, -, -, hopen, -⟩ := cancel_finished s ho hnew
    exact hopen
  | sweep w n reason immediate => exact swept_open hu
  | _ => cases hu

theorem finishes_agrees (hs : Recorded s.queue s.recorded)
    (hu : u ∈ finishes c s a) (he' : (exec c k a s).shared.queue.tasks.get u = some e') :
    e'.Agrees ((exec c k a s).shared.recorded.get u) := by
  cases a with
  | record w n r pin => exact record_agrees c s hu he'
  | oversized a size => exact oversized_agrees c s hu he'
  | cancel t reason =>
    obtain ⟨rfl, o, ho, hnew⟩ := hu
    obtain ⟨r, -, hset, -, hentry⟩ := cancel_finished s ho hnew
    obtain ⟨hterm, hres⟩ := hentry e' he'
    show e'.Agrees ((s.cancel u reason).shared.recorded.get u)
    rw [hset, FMap.get_set, if_pos rfl]
    exact agrees_finished hterm hres
  | sweep w n reason immediate => exact sweep_agrees c s hs hu he'
  | _ => cases hu

theorem exec_recorded (hu : u ∉ finishes c s a) (hsub : ∀ sub waiter, a = .submit sub waiter →
      (s.queue.submitWithPriority sub.task 0 c.clock).1 = .ok sub.task.id → u ≠ sub.task.id) :
    (exec c k a s).shared.recorded.get u = s.recorded.get u := by
  by_cases hchanges : a.changes = some .queue
  · cases a with
    | record w n r pin =>
      show (s.recordIf _ r.taskId r).get u = _
      unfold recordIf
      split
      · next hfin =>
        rw [FMap.get_set, if_neg]
        rintro rfl
        exact hu ⟨rfl, hfin⟩
      · rfl
    | oversized a size =>
      show (s.recordIf _ a.taskId _).get u = _
      unfold recordIf
      split
      · next hfin =>
        rw [FMap.get_set, if_neg]
        rintro rfl
        exact hu ⟨rfl, of_decide_eq_true hfin⟩
      · rfl
    | cancel t reason =>
      show (s.cancel t reason).shared.recorded.get u = _
      unfold cancel
      dsimp only
      split
      · next o ho =>
        split
        · next hnew =>
          show (s.recorded.set t _).get u = _
          rw [FMap.get_set, if_neg]
          rintro rfl
          exact hu ⟨rfl, o, ho, hnew⟩
        · rfl
      · rfl
    | sweep w n reason immediate =>
      show (List.foldl _ s.recorded (sweptResults ..)).get u = _
      rcases FMap.get_foldl_set (sweptResults s.queue w (some n) reason immediate c.taskOrder c.clock) u
        s.recorded with ⟨r, hr, -⟩ | ⟨-, heq⟩
      · refine (hu ?_).elim
        exact List.mem_map.mpr ⟨_, (mem_sweptResults.mp hr).1, rfl⟩
      · exact heq
    | submit sub waiter =>
      show (s.submit c sub waiter).shared.recorded.get u = _
      rcases submit_cases c s sub waiter with ⟨-, -, heq⟩ | ⟨hok, -, -, heq⟩
      · rw [heq]
        rfl
      · rw [heq]
        show (s.recorded.del sub.task.id).get u = _
        rw [FMap.get_del, if_neg (hsub sub waiter rfl hok)]
    | progress | checkpoint | retries | commit | requeue | evictTasks => rfl
    | _ => cases hchanges
  · rw [((exec_same c k a s).queue hchanges).2.1]

omit [Host] in
/-- A task is accepted: it is unfinished, and a history of its id is forgotten. -/
theorem Recorded.accept {q' : TaskQueueInner} {h : FMap TaskId TaskResult} {task : Task} {priority sequence : Nat} (hq : Recorded q h)
    (hentered : q'.tasks = q.tasks.set task.id (TaskEntry.fresh task priority sequence clock)) :
    Recorded q' (h.del task.id) := by
  intro t e he
  rw [hentered, FMap.get_set] at he
  rw [FMap.get_del]
  split at he
  · next hid =>
    cases he
    rw [if_pos hid]
    exact agrees_open rfl
  · next hid =>
    rw [if_neg hid]
    exact hq t e he

theorem submit_recorded {sub : Submission} {waiter : Option WaiterId} (hs : Recorded s.queue s.recorded) :
    Recorded (s.submit c sub waiter).shared.queue (s.submit c sub waiter).shared.recorded := by
  rcases submit_cases c s sub waiter with ⟨-, htasks, heq⟩ | ⟨-, -, ⟨sequence, htasks⟩, heq⟩
  · rw [heq]
    intro t e he
    exact hs t e (by rw [← htasks]; exact he)
  · rw [heq]
    exact hs.accept htasks

/-- **One section.**  The history keeps agreeing with the entries. -/
theorem Recorded.exec (hs : Recorded s.queue s.recorded) (a : Section) :
    Recorded (exec c k a s).shared.queue (exec c k a s).shared.recorded := by
  cases exec_queueStep c k s a with
  | accept ok free entered => exact submit_recorded c s hs
  | assign batch =>
    intro t e' he'
    rcases scheduleBatchInner_entries c.clock.instant _ s.queue t with
      hsame | ⟨e, w, session, -, he, hqueued, hnew⟩
    · exact hs t e' (hsame.symm.trans he')
    cases hnew.symm.trans he'
    have hnone := (hs t e he).2 (by rw [hqueued]; rfl)
    show TaskEntry.Agrees _ (s.recorded.get t)
    rw [hnone]
    exact agrees_open rfl
  | @start w session t e get scheduled owned started =>
    intro u e' he'
    rw [started, FMap.get_set] at he'
    split at he'
    · next hid =>
      cases he'
      have hnone := (hs t e get).2 (by rw [scheduled]; rfl)
      show TaskEntry.Agrees _ (s.recorded.get u)
      rw [hid, hnone]
      exact agrees_open rfl
    · exact hs u e' he'
  | settle settles =>
    by_cases hsub : ∃ sub waiter, a = .submit sub waiter
    · obtain ⟨sub, waiter, rfl⟩ := hsub
      exact submit_recorded c s hs
    · exact hs.settles settles
        (fun u hu => exec_recorded c k s hu fun sub waiter ha => absurd ⟨sub, waiter, ha⟩ hsub)
        fun u hu e' he' => finishes_agrees c k s hs hu he'

end

/-! ## Steps -/

section

variable {m : Master}

theorem Recorded.step (h : Recorded m.shared.queue m.shared.recorded) (l : Label) :
    Recorded (m.step l).shared.queue (m.step l).shared.recorded := by
  rcases m.step_shared l with ⟨c, k, a, -, hfires⟩ | ⟨_, _, _, _, -, hs⟩ | ⟨_, _, hs⟩
  · rw [hfires.shared]
    exact h.exec c k m.shared a
  · rw [hs]
    exact h
  · rw [hs]
    exact h

/-- A recorded result stays until its id is accepted again. -/
theorem recorded_stays (h : Recorded m.shared.queue m.shared.recorded) {l : Label} {t : TaskId} (hr : m.shared.recorded.get t = some r) (hfree : ∀ task ∈ m.accepts l, task.id ≠ t) :
    (m.step l).shared.recorded.get t = some r := by
  rcases m.step_shared l with ⟨c, k, a, hruns, hfires⟩ | ⟨_, _, _, _, -, hs⟩ | ⟨_, _, hs⟩
  · rw [hfires.shared, exec_recorded c k m.shared, hr]
    · intro hfin
      obtain ⟨e, he, hopen⟩ := finishes_open c m.shared hfin
      cases hr.symm.trans ((h t e he).2 hopen)
    · rintro sub waiter rfl hok rfl
      exact hfree sub.task (hruns.accepts hok) rfl
  · rw [hs]
    exact hr
  · rw [hs]
    exact hr

end

end OxideSwarm
