import OxideSwarm.Master.Flow

/-!
# What happens in a run, and what one task does in it

* `posts` are the events of one section: a submission that is accepted, a task that is newly cancelled, and
  the messages put on the workers' channels.  `exec_events` and `step_events` say that the history of the
  state is the list of all of them.
* `watch` follows one task through a run of the master, however the others are interleaved with it.
-/

namespace OxideSwarm

variable [Host]

open MasterState

/-! ## Events -/

/-- `deliver_if_scheduled` delivers `a`. -/
def MasterState.delivers (s : MasterState) (a : Assignment) : Bool :=
  (s.queue.deliverIfScheduled a.taskId a.workerId a.sessionId (fun out => ((), out ++ [a])) s.outbox).1.isSome

/-- The cancellation of `t` finds it unfinished. -/
def MasterState.newlyCancels (s : MasterState) (t : TaskId) (reason : String) : Bool :=
  (s.queue.cancelTaskDetailed t (some reason)).1.toOption.any fun o => o.newlyCancelled

/-- The events of the section `a`. -/
def Section.posts (a : Section) (c : Choice) (s : MasterState) : List Event :=
  match a with
  | .deliver a => if s.delivers a then [.assignTask a] else []
  | .cancel t reason => if s.newlyCancels t reason then [.cancelled t] else []
  | .sendCancel session t => if c.ok then [.cancelTask t session] else []
  | .submit sub _ =>
    if (s.queue.submitWithPriority sub.task 0 c.clock).1.isOk then [.accepted sub.task.id] else []
  | _ => []

/-- The sections that can have events. -/
def Section.eventful : Section → Bool
  | .deliver _ | .cancel .. | .sendCancel .. | .submit .. => true
  | _ => false

theorem submit_events (c : Choice) (s : MasterState) (sub : Submission) (waiter : Option WaiterId) :
    (s.submit c sub waiter).shared.events = s.events ++ (Section.submit sub waiter).posts c s := by
  show _ = s.events ++ if (s.queue.submitWithPriority sub.task 0 c.clock).1.isOk then [.accepted sub.task.id] else []
  rcases submit_cases c s sub waiter with ⟨⟨err, herr⟩, -, heq⟩ | ⟨hok, -, -, heq⟩
  · rw [heq, herr]
    exact (List.append_nil _).symm
  · rw [heq, hok]
    rfl

theorem cancel_events (c : Choice) (s : MasterState) (t : TaskId) (reason : String) :
    (s.cancel t reason).shared.events = s.events ++ (Section.cancel t reason).posts c s := by
  show _ = s.events ++ if s.newlyCancels t reason then [.cancelled t] else []
  unfold MasterState.cancel
  dsimp only
  split
  · next o ho =>
    have hnewly : s.newlyCancels t reason = o.newlyCancelled := by
      unfold MasterState.newlyCancels
      rw [ho]
      rfl
    rw [hnewly]
    split
    · rfl
    · exact (List.append_nil _).symm
  · next err herr =>
    rw [MasterState.newlyCancels, herr]
    exact (List.append_nil _).symm

theorem deliver_events (c : Choice) (s : MasterState) (a : Assignment) :
    (s.deliver a).shared.events = s.events ++ (Section.deliver a).posts c s := by
  show _ = s.events ++ if s.delivers a then [.assignTask a] else []
  unfold MasterState.delivers MasterState.deliver
  dsimp only
  split
  · next hsent =>
    rw [hsent]
    rfl
  · next hsent =>
    rw [hsent]
    exact (List.append_nil _).symm

omit [Host] in
/-- A dispatch that delivers is over; the slot of one that does not is released. -/
theorem deliver_code (s : MasterState) (a : Assignment) :
    (s.delivers a = true ∧ (s.deliver a).code = []) ∨ (s.delivers a = false ∧ (s.deliver a).code = [.release a]) := by
  unfold MasterState.delivers MasterState.deliver
  dsimp only
  split
  · next hsent => exact .inl ⟨by rw [hsent]; rfl, rfl⟩
  · next hsent => exact .inr ⟨by rw [hsent]; rfl, rfl⟩

theorem posts_quiet (c : Choice) (s : MasterState) {a : Section} (h : a.eventful = false) : a.posts c s = [] := by
  cases a with
  | submit | cancel | deliver | sendCancel => cases h
  | _ => rfl

theorem exec_quiet (c : Choice) (k : Owner) (s : MasterState) {a : Section} (h : a.eventful = false) :
    (exec c k a s).shared.events = s.events ∧ ((∀ x, a ≠ .giveBack x) → (exec c k a s).shared.handed = s.handed) := by
  cases a with
  | submit | cancel | deliver | sendCancel => cases h
  | giveBack x => exact ⟨rfl, fun hg => absurd rfl (hg x)⟩
  | serve w n =>
    rw [exec, serve_shared]
    exact ⟨rfl, fun _ => rfl⟩
  | resolve t fallback =>
    rw [exec, resolve_shared]
    exact ⟨rfl, fun _ => rfl⟩
  | admitBlobTask task wait =>
    rw [exec, admitBlobTask_shared]
    exact ⟨rfl, fun _ => rfl⟩
  | wake t r =>
    simp only [exec, wake]
    split <;> exact ⟨rfl, fun _ => rfl⟩
  | pinOutputs w n r =>
    simp only [exec, pinOutputs]
    split
    · exact ⟨rfl, fun _ => rfl⟩
    · split <;> exact ⟨rfl, fun _ => rfl⟩
  | enrol sub =>
    simp only [exec, enrol]
    split <;> exact ⟨rfl, fun _ => rfl⟩
  | pruneWaiters t =>
    simp only [exec, pruneWaiters]
    split
    · exact ⟨rfl, fun _ => rfl⟩
    · split <;> exact ⟨rfl, fun _ => rfl⟩
  | await t waiter prune =>
    simp only [exec, await]
    split <;> exact ⟨rfl, fun _ => rfl⟩
  | waitLock t =>
    simp only [exec]
    split <;> exact ⟨rfl, fun _ => rfl⟩
  | waitRecheck t =>
    simp only [exec, waitRecheck]
    split <;> exact ⟨rfl, fun _ => rfl⟩
  | page p =>
    simp only [exec, page]
    split <;> split <;> exact ⟨rfl, fun _ => rfl⟩
  | _ => exact ⟨rfl, fun _ => rfl⟩

theorem exec_events (c : Choice) (k : Owner) (s : MasterState) (a : Section) :
    (exec c k a s).shared.events = s.events ++ a.posts c s := by
  by_cases hquiet : a.eventful = false
  · rw [posts_quiet c s hquiet, List.append_nil]
    exact (exec_quiet c k s hquiet).1
  cases a with
  | submit sub waiter => exact submit_events c s sub waiter
  | cancel t reason => exact cancel_events c s t reason
  | deliver a => exact deliver_events c s a
  | sendCancel session t =>
    show (if c.ok then _ else _) = s.events ++ if c.ok then [Event.cancelTask t session] else []
    split
    · rfl
    · exact (List.append_nil _).symm
  | _ => exact absurd rfl hquiet

/-- A section has at most one event, and each kind of event comes from one kind of section (`posts_cases`). -/
inductive Emits (c : Choice) (s : MasterState) : Section → Event → Prop where
  | accepted {sub : Submission} {waiter : Option WaiterId} : Emits c s (.submit sub waiter) (.accepted sub.task.id)
  | cancelled {t : TaskId} {reason : String} (newly : s.newlyCancels t reason = true) :
      Emits c s (.cancel t reason) (.cancelled t)
  | assigned {x : Assignment} (sent : s.delivers x = true) : Emits c s (.deliver x) (.assignTask x)
  | told {n : Nat} {t : TaskId} : Emits c s (.sendCancel n t) (.cancelTask t n)

theorem posts_cases (a : Section) (c : Choice) (s : MasterState) :
    a.posts c s = [] ∨ ∃ e, a.posts c s = [e] ∧ Emits c s a e := by
  by_cases hquiet : a.eventful = false
  · exact .inl (posts_quiet c s hquiet)
  cases a with
  | submit sub waiter =>
    by_cases hok : (s.queue.submitWithPriority sub.task 0 c.clock).1.isOk = true
    · exact .inr ⟨_, if_pos hok, .accepted⟩
    · exact .inl (if_neg hok)
  | cancel t reason =>
    by_cases hnew : s.newlyCancels t reason = true
    · exact .inr ⟨_, if_pos hnew, .cancelled hnew⟩
    · exact .inl (if_neg hnew)
  | deliver x =>
    by_cases hsent : s.delivers x = true
    · exact .inr ⟨_, if_pos hsent, .assigned hsent⟩
    · exact .inl (if_neg hsent)
  | sendCancel n t =>
    by_cases hok : c.ok = true
    · exact .inr ⟨_, if_pos hok, .told⟩
    · exact .inl (if_neg hok)
  | _ => exact absurd rfl hquiet

namespace Master

theorem step_events (m : Master) (l : Label) :
    (∃ c k a, m.Runs l c k a ∧ (m.step l).shared.events = m.shared.events ++ a.posts c m.shared) ∨
    (m.step l).shared.events = m.shared.events := by
  rcases step_shared m l with ⟨c, k, a, hruns, hfires⟩ | ⟨_, _, _, _, -, hs⟩ | ⟨_, _, hs⟩
  · refine .inl ⟨c, k, a, hruns, ?_⟩
    rw [hfires.shared, exec_events]
  · right
    rw [hs]
  · right
    rw [hs]

/-! ## One task in a run -/

/-- What task `i` runs in the step. -/
def turns (m : Master) (i : Nat) : Label → List (Ran MasterState Choice Section)
  | .advance j c => if j = i then m.turn i c else []
  | _ => []

/-- Where task `i` is after the step. -/
def moved (m : Master) (i : Nat) (l : Label) : Nat := (m.threads.take i).countP fun t => !m.kills l t.owner

/-- What task `i` runs in the run `labels` from `m`. -/
def watch (m : Master) (i : Nat) : List Label → List (Ran MasterState Choice Section)
  | [] => []
  | l :: rest => m.turns i l ++ (m.step l).watch (m.moved i l) rest

variable {m : Master} {i : Nat} {code : List Section}

omit [Host] in
theorem moved_eq {t : MasterTask} (h : m.threads[i]? = some t) {l : Label} (hl : ∀ k, m.kills l k = false) :
    m.moved i l = i := by
  have hall : ∀ u ∈ m.threads.take i, (!m.kills l u.owner) = true := by
    intro u _
    rw [hl u.owner]
    rfl
  rw [moved, List.countP_eq_length.mpr hall, List.length_take]
  exact Nat.min_eq_left (Nat.le_of_lt (List.getElem?_eq_some_iff.mp h).1)

/-- A task that nobody cancels runs its turns and nothing else. -/
theorem step_thread (h : m.threads[i]? = some ⟨.detached, code⟩) (l : Label) :
    ∃ code', (m.step l).threads[m.moved i l]? = some ⟨.detached, code'⟩ ∧
      Alone exec .detached code (m.turns i l) code' := by
  cases l with
  | connect | start =>
    rw [moved_eq h fun _ => rfl]
    exact ⟨code, Pool.spawn_get h _ _, .nil code⟩
  | advance j c =>
    rw [moved_eq h fun _ => rfl]
    show ∃ code', _ ∧ Alone exec .detached code (if j = i then m.turn i c else []) code'
    split
    · next hj =>
      subst hj
      exact Pool.advance_self h c
    · next hj => exact ⟨code, Pool.advance_other h hj c, .nil code⟩
  | abort session =>
    refine ⟨code, ?_, .nil code⟩
    show (m.abort session).threads[_]? = _
    unfold abort
    split
    · next hmem =>
      have hmoved : m.moved i (.abort session) = (m.threads.take i).countP fun u =>
          !decide (u.owner = .handler session ∨ u.owner = .writer session) := by
        simp only [moved, kills, hmem, decide_true, Bool.true_and]
      rw [hmoved]
      exact Pool.kill_get h rfl
    · next hmem =>
      rw [moved_eq h fun k => by simp only [kills, hmem, decide_false, Bool.false_and]]
      exact h
  | dropWriter session =>
    refine ⟨code, ?_, .nil code⟩
    show (m.dropWriter session).threads[_]? = _
    unfold dropWriter
    split
    · next hmem =>
      have hmoved : m.moved i (.dropWriter session) = (m.threads.take i).countP fun u =>
          !decide (u.owner = .writer session) := by
        simp only [moved, kills, hmem, decide_true, Bool.true_and]
      rw [hmoved]
      exact Pool.kill_get h rfl
    · next hmem =>
      rw [moved_eq h fun k => by simp only [kills, hmem, decide_false, Bool.false_and]]
      exact h
  | transmit j size =>
    rw [moved_eq h fun _ => rfl]
    refine ⟨code, ?_, .nil code⟩
    show (m.transmit j size).threads[i]? = _
    unfold transmit
    split
    · exact h
    dsimp only
    split
    · exact Pool.spawn_get h _ _
    · exact h

theorem watch_alone (labels : List Label) : ∀ {m : Master} {i : Nat} {code : List Section},
    m.threads[i]? = some ⟨.detached, code⟩ → ∃ code', Alone exec .detached code (m.watch i labels) code' := by
  induction labels with
  | nil => exact fun {_ _ code} _ => ⟨code, .nil code⟩
  | cons l rest ih =>
    intro m i code h
    obtain ⟨code₁, hget, hturn⟩ := step_thread h l
    obtain ⟨code₂, hrest⟩ := ih hget
    exact ⟨code₂, hturn.trans hrest⟩

end Master

end OxideSwarm
