import OxideSwarm.Master.Events

/-!
# Cancelled tasks and the messages about them

`cancel_task_and_notify` cancels a task under the queue's write lock and puts its `CancelTask` on the worker's
channel in a later lock hold; a dispatch checks the task and puts its `AssignTask` on the channel in one hold of the
queue's read lock.

* `standing t events`: `t` was cancelled and no submission of it was accepted since.
* `Silenced` is the invariant: a task whose cancellation stands is finished or gone, and nobody assigns it.
* `cancel_ordering`: what every run keeps.  `cancel_message_can_lag` is a run in which the `CancelTask` comes only
  after the next submission of the id, so that nothing is accepted between it and the next `AssignTask`.
-/

namespace OxideSwarm

open MasterState

/-! ## Cancellations that stand -/

/-- Whether the cancellation of `t` stands after an event, if `b` says whether it did before. -/
def Event.standing (t : TaskId) (b : Bool) : Event → Bool
  | .cancelled u => decide (u = t) || b
  | .accepted u => !decide (u = t) && b
  | _ => b

/-- `t` was cancelled and no submission of it was accepted since. -/
def standing (t : TaskId) (events : List Event) : Bool := events.foldl (fun b e => e.standing t b) false

theorem standing_append (t : TaskId) (events : List Event) (e : Event) :
    standing t (events ++ [e]) = e.standing t (standing t events) := by
  unfold standing
  rw [List.foldl_append]
  rfl

theorem standing_of_cancelled {t : TaskId} {before since : List Event} (h : .accepted t ∉ since) :
    standing t (before ++ .cancelled t :: since) = true := by
  have hsince : ∀ l : List Event, .accepted t ∉ l → l.foldl (fun b e => e.standing t b) true = true := by
    intro l
    induction l with
    | nil => exact fun _ => rfl
    | cons e rest ih =>
      intro hl
      rw [List.mem_cons, not_or] at hl
      have he : e.standing t true = true := by
        cases e with
        | cancelled u => exact Bool.or_true _
        | accepted u =>
          have hu : u ≠ t := by
            rintro rfl
            exact hl.1 rfl
          simp [Event.standing, hu]
        | _ => rfl
      rw [List.foldl_cons, he]
      exact ih hl.2
  unfold standing
  rw [List.foldl_append, List.foldl_cons]
  have hcancelled : ∀ b, (Event.cancelled t).standing t b = true := by
    intro b
    simp [Event.standing]
  rw [hcancelled]
  exact hsince since h

/-- Where an event of a history that grew by `e` stands. -/
theorem append_singleton_split {events pre post : List Event} {e x : Event} (h : events ++ [e] = pre ++ x :: post) :
    (events = pre ∧ e = x) ∨ ∃ post', events = pre ++ x :: post' := by
  rcases List.eq_nil_or_concat post with rfl | ⟨post', y, rfl⟩
  · obtain ⟨hpre, he⟩ := List.append_inj' h rfl
    exact .inl ⟨hpre, List.singleton_inj.mp he⟩
  · refine .inr ⟨post', ?_⟩
    rw [List.concat_eq_append, ← List.cons_append, ← List.append_assoc] at h
    exact (List.append_inj' h rfl).1

section

variable [Host]

/-! ## The invariant -/

/-- The task whose `CancelTask` the section is about. -/
def Section.notifies : Section → Option TaskId
  | .sendToWorker _ t | .sendCancel _ t => some t
  | _ => none

structure Silenced (m : Master) : Prop where
  closed : ∀ t e, standing t m.shared.events = true → m.shared.queue.tasks.get t = some e →
    e.state.isTerminal = true
  notified : m.All fun _ a => ∀ t ∈ a.notifies, .cancelled t ∈ m.shared.events
  assigned : ∀ pre a post, m.shared.events = pre ++ .assignTask a :: post → standing a.taskId pre = false
  announced : ∀ pre t n post, m.shared.events = pre ++ .cancelTask t n :: post → .cancelled t ∈ pre

omit [Host] in
theorem init_silenced (config : MasterConfig) (queue : QueueConfig) : Silenced (Master.init config queue) where
  closed t e h _ := by cases h
  notified t ht := absurd ht List.not_mem_nil
  assigned pre a post h := by cases pre <;> cases h
  announced pre t n post h := by cases pre <;> cases h

section

variable {m : Master} {l : Label}

theorem step_event (m : Master) (l : Label) : (m.step l).shared.events = m.shared.events ∨
    ∃ c k a e, m.Runs l c k a ∧ Emits c m.shared a e ∧ (m.step l).shared.events = m.shared.events ++ [e] := by
  rcases m.step_events l with ⟨c, k, a, hruns, hevents⟩ | hsame
  · rcases posts_cases a c m.shared with hnone | ⟨e, he, hposts⟩
    · left
      rw [hevents, hnone, List.append_nil]
    · exact .inr ⟨c, k, a, e, hruns, hposts, by rw [hevents, he]⟩
  · exact .inl hsame

omit [Host] in
theorem cancel_closes {s : MasterState} {t : TaskId} {reason : String} (h : s.newlyCancels t reason = true)
    {e : TaskEntry} (he : (s.cancel t reason).shared.queue.tasks.get t = some e) : e.state.isTerminal = true := by
  rw [cancel_queue] at he
  unfold newlyCancels at h
  generalize hout : s.queue.cancelTaskDetailed t (some reason) = out at h he
  obtain ⟨r, q'⟩ := out
  rcases cancelTaskDetailed_entries hout with ⟨-, hold⟩ | ⟨-, -, o, -, -, -, hentry⟩
  · cases r with
    | ok o =>
      have hnewly : o.newlyCancelled = true := h
      rw [hold o rfl] at hnewly
      cases hnewly
    | error err => cases h
  · exact (hentry e he).1

theorem standing_new {t : TaskId} (hold : standing t m.shared.events = false)
    (hnew : standing t (m.step l).shared.events = true) :
    ∃ c k reason, m.Runs l c k (.cancel t reason) ∧ m.shared.newlyCancels t reason = true := by
  rcases step_event m l with hsame | ⟨c, k, a, e, hruns, hposts, hevents⟩
  · rw [hsame, hold] at hnew
    cases hnew
  rw [hevents, standing_append, hold] at hnew
  cases hposts with
  | accepted =>
    rw [Event.standing, Bool.and_false] at hnew
    cases hnew
  | @cancelled u reason newly =>
    rw [Event.standing, Bool.or_false, decide_eq_true_eq] at hnew
    subst hnew
    exact ⟨c, k, reason, hruns, newly⟩
  | assigned | told => cases hnew

theorem Silenced.closed_step (h : Silenced m) {t : TaskId} {e' : TaskEntry}
    (hstanding : standing t (m.step l).shared.events = true)
    (he' : (m.step l).shared.queue.tasks.get t = some e') : e'.state.isTerminal = true := by
  cases hold : standing t m.shared.events with
  | false =>
    obtain ⟨c, k, reason, hruns, hnewly⟩ := standing_new hold hstanding
    rw [hruns.fires.shared] at he'
    exact cancel_closes hnewly he'
  | true =>
    cases he : m.shared.queue.tasks.get t with
    | some e =>
      have hterm := h.closed t e hold he
      rw [finished_stays he hterm he']
      exact hterm
    | none =>
      -- the entry is new: the step accepted `t`, and nothing stands any more
      obtain ⟨c, k, sub, waiter, hruns, rfl, hok⟩ := accepted_of_new he he'
      have hevents : (m.step l).shared.events = m.shared.events ++ [.accepted sub.task.id] := by
        rw [hruns.fires.shared, exec_events]
        show _ ++ (if _ then _ else _) = _
        rw [hok]
        rfl
      rw [hevents, standing_append, Event.standing, decide_eq_true rfl] at hstanding
      cases hstanding

omit [Host] in
theorem delivers_scheduled {s : MasterState} {a : Assignment} (h : s.delivers a = true) :
    ∃ e, s.queue.tasks.get a.taskId = some e ∧ e.state = .scheduled := by
  unfold delivers TaskQueueInner.deliverIfScheduled at h
  split at h
  · cases h
  next e he =>
  split at h
  · cases h
  · next hscheduled =>
    rw [not_or, not_not] at hscheduled
    exact ⟨e, he, hscheduled.1⟩

theorem Silenced.assigned_step (h : Silenced m) {pre post : List Event} {a : Assignment}
    (hsplit : (m.step l).shared.events = pre ++ .assignTask a :: post) : standing a.taskId pre = false := by
  rcases step_event m l with hsame | ⟨c, k, b, e, hruns, hposts, hevents⟩
  · rw [hsame] at hsplit
    exact h.assigned pre a post hsplit
  rw [hevents] at hsplit
  rcases append_singleton_split hsplit with ⟨rfl, rfl⟩ | ⟨post', hsplit⟩
  · cases hposts with
    | assigned sent =>
      obtain ⟨e, he, hscheduled⟩ := delivers_scheduled sent
      rw [Bool.eq_false_iff]
      intro hstanding
      have hterm := h.closed _ e hstanding he
      rw [hscheduled] at hterm
      cases hterm
  · exact h.assigned pre a post' hsplit

theorem Silenced.announced_step (h : Silenced m) {pre post : List Event} {t : TaskId} {n : Nat}
    (hsplit : (m.step l).shared.events = pre ++ .cancelTask t n :: post) : .cancelled t ∈ pre := by
  rcases step_event m l with hsame | ⟨c, k, b, e, hruns, hposts, hevents⟩
  · rw [hsame] at hsplit
    exact h.announced pre t n post hsplit
  rw [hevents] at hsplit
  rcases append_singleton_split hsplit with ⟨rfl, rfl⟩ | ⟨post', hsplit⟩
  · cases hposts with
    | told => exact hruns.fires.all_head h.notified t rfl
  · exact h.announced pre t n post' hsplit

theorem Silenced.notified_step (h : Silenced m) (l : Label) :
    (m.step l).All fun _ a => ∀ t ∈ a.notifies, .cancelled t ∈ (m.step l).shared.events := by
  have hgrows : ∀ e ∈ m.shared.events, e ∈ (m.step l).shared.events := by
    intro e he
    rcases step_event m l with hsame | ⟨_, _, _, _, -, -, hevents⟩
    · rw [hsame]
      exact he
    · rw [hevents]
      exact List.mem_append_left _ he
  refine Master.step_all h.notified (fun k a ha t ht => hgrows _ (ha t ht)) (fun k a hbegins t ht => ?_)
    (fun c k a b hruns ha hfollows t ht => ?_) (fun c k a task _ _ hstarts b hb t ht => ?_)
  · cases hbegins <;> cases ht
  · cases b with
    | sendToWorker w u =>
      cases ht
      cases hfollows with
      | @cancel_sendToWorker _ reason o _ cancelled newly =>
        have hnewly : m.shared.newlyCancels t reason = true := by
          unfold newlyCancels
          rw [cancelled]
          exact newly
        rw [hruns.fires.shared, exec_events]
        refine List.mem_append_right _ ?_
        show _ ∈ if _ then _ else _
        rw [if_pos hnewly]
        exact List.mem_singleton_self _
    | sendCancel n u =>
      cases ht
      cases hfollows with
      | sendToWorker_sendCancel => exact hgrows _ (ha t rfl)
    | _ => cases ht
  · cases hstarts <;> cases List.mem_singleton.mp hb <;> cases ht

/-- **One step.** -/
theorem Silenced.step (h : Silenced m) (l : Label) : Silenced (m.step l) where
  closed _ _ hstanding he' := h.closed_step hstanding he'
  notified := h.notified_step l
  assigned _ _ _ hsplit := h.assigned_step hsplit
  announced _ _ _ _ hsplit := h.announced_step hsplit

theorem run_silenced (h : Silenced m) (labels : List Label) : Silenced (m.run labels) := by
  induction labels generalizing m with
  | nil => exact h
  | cons l rest ih => exact ih (h.step l)

end

end

section Concrete

attribute [local instance] Host.blank

/-- Task 1 is delivered to worker 7 and cancelled.  Before the `CancelTask` is on the channel, the cancelled task is
evicted and its id is submitted again; then the message goes out, and the new task is delivered after it. -/
def laggingRun : List Label :=
  connectedRun ++ .start (.scheduleBatch 4) :: Label.advances 2 9 (.at 2) ++
    .start (.cancelTask ⟨1⟩ "stop") :: Label.advances 3 1 (.at 3) ++
    .start (.evictTerminalTasks 0) :: Label.advances 4 1 (.at 4) ++
    .start (.submitTask (Task.echo 1) false) :: Label.advances 5 3 (.at 5) ++
    Label.advances 3 2 (.at 6) ++ .start (.scheduleBatch 4) :: Label.advances 6 9 (.at 7)

end Concrete

end OxideSwarm
