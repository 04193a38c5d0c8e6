import OxideSwarm.Master.History

/-!
# Waiting clients

A client that waits for a task has a sender in the waiter map.  Whoever finishes the task takes the senders
out and sends them its result, in lock holds of its own: the queue's first, then the waiter map's.

* `AllAwaited`: when nothing is under way, every live waiter waits for an unfinished task.  `SentRecorded`:
  what was sent is what was recorded.
* `Attentive` is the condition on a step: it evicts no task that somebody is about to look up, and neither
  reuses the id nor cancels the task that wakes the waiters.
* `Watched` is the invariant: a live waiter's task is unfinished, or somebody is about to wake its waiters,
  or the waiter's own submission is still to run (`Covered`).
* `waiters_woken`: what runs of attentive steps keep.  `waiters_can_be_lost` has a run for each part of the
  condition.
-/

namespace OxideSwarm

open TaskQueueInner MasterState

/-! ## The property -/

/-- Sender `k` of task `t` is in the map and its receiver is still there. -/
def MasterState.Waits (s : MasterState) (t : TaskId) (k : WaiterId) : Prop :=
  k ∈ (s.waiters.get t).getD [] ∧ k ∉ s.closed

/-- Task `t` is in the queue and not finished. -/
def MasterState.Unfinished (s : MasterState) (t : TaskId) : Prop :=
  ∃ e, s.queue.tasks.get t = some e ∧ e.state.isTerminal = false

/-- The sections of the operations that enrol waiters, finish tasks, wake waiters or evict tasks.  A wait
blocked on its receiver is not among them. -/
def Section.settling : Section → Bool
  | .sweep .. | .resolve .. | .resolveResult .. | .wake .. | .pinOutputs .. | .record .. | .giveBack _
  | .oversized .. | .store _ | .cancel .. | .known .. | .admitBlobTask .. | .pin .. | .enrol _ | .submit ..
  | .pruneWaiters _ | .waitKnown _ | .waitCheck _ | .waitLock _ | .waitRecheck _ | .waitPush _
  | .evictTasks _ => true
  | _ => false

/-- When nothing is under way, every live waiter waits for an unfinished task. -/
def AllAwaited (m : Master) : Prop :=
  (m.All fun _ a => a.settling = false) → ∀ t k, m.shared.Waits t k → m.shared.Unfinished t

/-- Every value sent to a waiter is the result recorded for the task. -/
def SentRecorded (m : Master) : Prop := ∀ d ∈ m.shared.sent, d.recorded = some d.value

/-! ## The condition on a step -/

/-- The task whose entry a section is about to look up. -/
def Section.looksAt : Section → Option TaskId
  | .resolve t _ | .resolveResult t _ _ | .waitCheck t | .waitLock t | .waitRecheck t | .waitPush t => some t
  | _ => none

/-- The task whose waiters a section is about to wake. -/
def Section.wakes : Section → Option TaskId
  | .resolve t _ | .resolveResult t _ _ | .wake t _ => some t
  | _ => none

variable [Host]

/-- The step evicts no task that is about to be looked up, cancels nobody who wakes waiters and accepts no
task whose waiters are being woken. -/
def Attentive (m : Master) (l : Label) : Prop :=
  ((m.step l).All fun _ a => ∀ t ∈ a.looksAt, (m.shared.queue.tasks.get t).isSome →
    ((m.step l).shared.queue.tasks.get t).isSome) ∧
  (m.All fun k a => a.wakes.isSome → m.kills l k = false) ∧
  (m.All fun _ a => ∀ t ∈ a.wakes, ∀ task ∈ m.accepts l, task.id ≠ t)

/-! ## The invariant -/

omit [Host] in
/-- Task `t` is unfinished, or its waiters are about to be woken. -/
def Covered (m : Master) (t : TaskId) : Prop :=
  m.shared.Unfinished t ∨ m.Has fun _ a => a.wakes = some t

/-- The submission of `t` that enrolled `k`. -/
def Section.Enrolled (t : TaskId) (k : WaiterId) (a : Section) : Prop :=
  ∃ sub : Submission, sub.task.id = t ∧ a = .submit sub (some k)

/-- The finished task whose result a section is about to fetch. -/
def Section.fetches : Section → Option TaskId
  | .resolveResult t _ _ => some t
  | _ => none

/-- The result a section is about to send. -/
def Section.sends : Section → Option (TaskId × TaskResult)
  | .wake t r => some (t, r)
  | _ => none

/-- The task to which a section is about to add a sender. -/
def Section.pushes : Section → Option TaskId
  | .waitPush t => some t
  | _ => none

/-- The sections that run under the waiter lock. -/
def Section.underWaiters : Section → Bool
  | .waitRecheck _ | .waitPush _ => true
  | _ => false

structure Watched (m : Master) : Prop where
  recorded : Recorded m.shared.queue m.shared.recorded
  detached : m.All Detached
  held : m.pending.countP Section.underWaiters = if m.shared.waitersHeld then 1 else 0
  present : m.All fun _ a => ∀ t ∈ a.looksAt, (m.shared.queue.tasks.get t).isSome
  finished : m.All fun _ a => ∀ t ∈ a.fetches,
    ∃ e, m.shared.queue.tasks.get t = some e ∧ e.state.isTerminal = true
  sends : m.All fun _ a => ∀ x ∈ a.sends, m.shared.recorded.get x.1 = some x.2
  pushes : m.All fun _ a => ∀ t ∈ a.pushes, Covered m t
  live : ∀ t k, m.shared.Waits t k → Covered m t ∨ m.Has fun _ a => a.Enrolled t k
  sent : SentRecorded m

/-! ## Entries over a step -/

section

variable {m : Master} {l : Label} {c : Choice} {k : Owner} {a : Section}

theorem finishes_wakes {s : MasterState} {t : TaskId} (h : t ∈ finishes c s a) :
    ∃ b ∈ (exec c k a s).code, b.wakes = some t := by
  cases a with
  | record w n r pin =>
    obtain ⟨rfl, hfin⟩ := h
    refine ⟨.wake r.taskId r, ?_, rfl⟩
    show _ ∈ recordedCode _ r pin (s.queue.recordResultFrom w (some n) r c.clock).1
    revert hfin
    generalize (s.queue.recordResultFrom w (some n) r c.clock).1 = out
    intro hfin
    cases out with
    | error err => cases hfin
    | ok o =>
      have hterm : o.disposition = .terminal := by simpa [ResultOutcome.finished] using hfin
      simp [recordedCode, afterRecord, hterm]
  | oversized x size =>
    obtain ⟨rfl, hfin⟩ := h
    refine ⟨.wake x.taskId (oversizedResult x size), ?_, rfl⟩
    show _ ∈ oversizedCode x _ (s.queue.failUnsendableAssignment x.workerId (some x.sessionId) _).1
    rw [hfin]
    simp [oversizedCode]
  | cancel u reason =>
    obtain ⟨rfl, o, ho, hnew⟩ := h
    show ∃ b ∈ (s.cancel t reason).code, _
    unfold cancel
    simp only [ho, hnew, if_true]
    exact ⟨_, List.mem_append_right _ (List.mem_singleton_self _), rfl⟩
  | sweep w n reason immediate => exact ⟨.resolve t (some w), List.mem_map_of_mem h, rfl⟩
  | _ => cases h

/-- An unfinished task stays so, or its waiters are about to be woken. -/
theorem covered_of_unfinished {t : TaskId} (h : m.shared.Unfinished t) : Covered (m.step l) t := by
  obtain ⟨e, he, hopen⟩ := h
  rcases m.step_queue l with ⟨c, k, a, hruns, hstep⟩ | hsame
  · by_cases hfin : t ∈ finishes c m.shared a
    · obtain ⟨b, hb, hwakes⟩ := finishes_wakes (k := k) hfin
      exact .inr (hruns.fires.has_code hb hwakes)
    have hentry := hstep.entry t
    rw [he] at hentry
    generalize he' : (m.step l).shared.queue.tasks.get t = o at hentry
    cases hentry with
    | same => exact .inl ⟨e, he', hopen⟩
    | assign | start => exact .inl ⟨_, he', rfl⟩
    | settle kept unfinished => exact .inl ⟨_, he', unfinished hfin hopen⟩
    | evict finished => exact absurd (finished hfin) (Bool.eq_false_iff.mp hopen)
  · exact .inl ⟨e, by rw [hsame]; exact he, hopen⟩

/-- The step takes the senders of `t` out of the map. -/
def Wakes (m : Master) (l : Label) (t : TaskId) : Prop :=
  m.shared.waitersHeld = false ∧ ∃ c k r, m.Runs l c k (.wake t r)

/-- **Coverage.**  A covered task stays covered until its waiters are woken. -/
theorem Covered.step (hm : Watched m) (hl : Attentive m l) {t : TaskId} (h : Covered m t) :
    Covered (m.step l) t ∨ Wakes m l t := by
  rcases h with hopen | hhas
  · exact .inl (covered_of_unfinished hopen)
  have halive : m.All fun k a => a.wakes = some t → m.kills l k = false := by
    intro u hu a ha hwakes
    exact hl.2.1 u hu a ha (by rw [hwakes]; rfl)
  rcases Master.step_has hhas halive with ⟨c, k, a, hruns, hwakes⟩ | hafter
  · have hfires := hruns.fires
    cases a with
    | wake u r =>
      cases hwakes
      by_cases hheld : m.shared.waitersHeld = true
      · refine .inl (Or.inr (hfires.has_code (b := .wake t r) ?_ rfl))
        show _ ∈ (m.shared.wake t r).code
        rw [MasterState.wake, if_pos hheld]
        exact List.mem_cons_self
      · exact .inr ⟨by simpa using hheld, c, k, r, hruns⟩
    | resolve u fallback =>
      cases hwakes
      -- the task is still in the queue: it is unfinished, or its result is fetched next
      obtain ⟨e, he⟩ := Option.isSome_iff_exists.mp (hfires.all_head hm.present t rfl)
      cases hterm : e.state.isTerminal with
      | true =>
        refine .inl (Or.inr (hfires.has_code (b := .resolveResult t e fallback) ?_ rfl))
        show _ ∈ (m.shared.resolve t fallback).code
        simp only [MasterState.resolve, he, hterm, if_true]
        exact List.mem_cons_self
      | false => exact .inl (covered_of_unfinished ⟨e, he, hterm⟩)
    | resolveResult u info fallback =>
      cases hwakes
      exact .inl (Or.inr (hfires.has_code List.mem_cons_self rfl))
    | _ => cases hwakes
  · exact .inl (Or.inr hafter)

end

/-! ## The waiter map over a step -/

section

variable {m : Master} {l : Label} {c : Choice} {k : Owner} {a : Section} {s : MasterState}

omit [Host] in
theorem push_waits {t u : TaskId} {j : WaiterId} (h : (s.push u).Waits t j) :
    s.Waits t j ∨ (u = t ∧ j = s.nextWaiter) := by
  obtain ⟨hmem, hopen⟩ := h
  rw [push, FMap.get_set] at hmem
  split at hmem
  · next htu =>
    subst htu
    rw [Option.getD_some, List.mem_append, List.mem_singleton] at hmem
    exact hmem.imp (fun hold => ⟨hold, hopen⟩) fun hj => ⟨rfl, hj⟩
  · exact .inl ⟨hmem, hopen⟩

/-- A section adds a live sender only by enrolling a submission or ending the check of a wait. -/
theorem exec_waits {t : TaskId} {j : WaiterId} (h : (exec c k a s).shared.Waits t j) :
    s.Waits t j ∨ (∃ sub : Submission, sub.task.id = t ∧ a = .enrol sub ∧ s.waitersHeld = false ∧
      j = s.nextWaiter) ∨ (a = .waitPush t ∧ j = s.nextWaiter) := by
  obtain ⟨hmem, hclosed⟩ := h
  have hopen : j ∉ s.closed := fun hj => hclosed ((exec_same c k a s).closed hj)
  by_cases hchanges : a.changes = some .waiters
  · cases a with
    | wake u r =>
      replace hmem : j ∈ ((s.wake u r).shared.waiters.get t).getD [] := hmem
      unfold wake at hmem
      split at hmem
      · exact .inl ⟨hmem, hopen⟩
      replace hmem : j ∈ ((s.waiters.del u).get t).getD [] := hmem
      rw [FMap.get_del] at hmem
      split at hmem
      · cases hmem
      · exact .inl ⟨hmem, hopen⟩
    | enrol sub =>
      replace hmem : j ∈ ((s.enrol sub).shared.waiters.get t).getD [] := hmem
      unfold enrol at hmem
      split at hmem
      · exact .inl ⟨hmem, hopen⟩
      next hheld =>
      rcases push_waits (s := s) ⟨hmem, hopen⟩ with hold | ⟨hid, hj⟩
      · exact .inl hold
      · exact .inr (Or.inl ⟨sub, hid, rfl, by simpa using hheld, hj⟩)
    | pruneWaiters u =>
      replace hmem : j ∈ ((s.pruneWaiters u).shared.waiters.get t).getD [] := hmem
      unfold pruneWaiters at hmem
      split at hmem
      · exact .inl ⟨hmem, hopen⟩
      split at hmem
      · exact .inl ⟨hmem, hopen⟩
      next senders hsenders =>
      dsimp only [next] at hmem
      split at hmem
      · rw [FMap.get_del] at hmem
        split at hmem
        · cases hmem
        · exact .inl ⟨hmem, hopen⟩
      rw [FMap.get_set] at hmem
      split at hmem
      · next htu =>
        subst htu
        refine .inl ⟨?_, hopen⟩
        rw [hsenders]
        exact List.mem_of_mem_filter hmem
      · exact .inl ⟨hmem, hopen⟩
    | waitLock u =>
      simp only [exec] at hmem
      split at hmem <;> exact .inl ⟨hmem, hopen⟩
    | waitRecheck u =>
      replace hmem : j ∈ ((s.waitRecheck u).shared.waiters.get t).getD [] := hmem
      unfold waitRecheck at hmem
      split at hmem <;> exact .inl ⟨hmem, hopen⟩
    | waitPush u =>
      rcases push_waits (s := s) ⟨hmem, hopen⟩ with hold | ⟨rfl, hj⟩
      · exact .inl hold
      · exact .inr (Or.inr ⟨rfl, hj⟩)
    | _ => cases hchanges
  · rw [((exec_same c k a s).waiters hchanges).1] at hmem
    exact .inl ⟨hmem, hopen⟩

/-- Only the three sections of a wait's check take or release the waiter lock. -/
theorem exec_held (ha : ∀ t, a ≠ .waitLock t) (ha' : a.underWaiters = false) :
    (exec c k a s).shared.waitersHeld = s.waitersHeld := by
  by_cases hchanges : a.changes = some .waiters
  · cases a with
    | wake u r =>
      show (s.wake u r).shared.waitersHeld = _
      unfold wake
      split <;> rfl
    | enrol sub =>
      show (s.enrol sub).shared.waitersHeld = _
      unfold enrol
      split <;> rfl
    | pruneWaiters u =>
      show (s.pruneWaiters u).shared.waitersHeld = _
      unfold pruneWaiters
      split
      · rfl
      · split <;> rfl
    | waitLock u => exact absurd rfl (ha u)
    | waitRecheck | waitPush => cases ha'
    | _ => cases hchanges
  · exact ((exec_same c k a s).waiters hchanges).2.1

omit [Host] in
theorem under_held (hm : Watched m) : m.All fun _ a => a.underWaiters = true → m.shared.waitersHeld = true := by
  intro t ht a ha hunder
  by_contra hfree
  have hnone := hm.held
  rw [if_neg hfree, List.countP_eq_zero] at hnone
  exact hnone a (List.mem_flatMap.mpr ⟨t, ht, ha⟩) hunder

theorem held_step (hm : Watched m) :
    (m.step l).pending.countP Section.underWaiters = if (m.step l).shared.waitersHeld then 1 else 0 := by
  have hbegins : ∀ k a, m.Begins l k a → a.underWaiters = false := by
    intro k a hbegins
    cases hbegins <;> rfl
  have hstarts : ∀ a t, Starts a t → ∀ b ∈ t.code, b.underWaiters = false := by
    intro a t hstarts b hb
    cases hstarts <;> rw [List.mem_singleton.mp hb] <;> rfl
  have halive := Master.uncancelled_alive hm.detached l (P := fun a => a.underWaiters = true) fun a ha => by
    cases a <;> first | rfl | cases ha
  have hheld := hm.held
  rcases Master.step_count hbegins hstarts halive with ⟨c, k, a, hruns, hcount⟩ | ⟨hran, hcount⟩
  · rw [hruns.fires.shared]
    by_cases hlock : ∃ t, a = .waitLock t
    · obtain ⟨t, rfl⟩ := hlock
      by_cases hfree : m.shared.waitersHeld = true
      · have hexec : exec c k (.waitLock t) m.shared = m.shared.next [.waitLock t] := if_pos hfree
        rw [hexec] at hcount ⊢
        exact hcount.trans hheld
      have hexec : exec c k (.waitLock t) m.shared =
          next { m.shared with waitersHeld := true } [.waitRecheck t] := if_neg hfree
      rw [hexec, hheld, if_neg hfree] at hcount
      rw [hexec]
      exact hcount
    cases hunder : a.underWaiters with
    | false =>
      have hcode : (exec c k a m.shared).code.countP Section.underWaiters = 0 := by
        rw [List.countP_eq_zero]
        intro b hb hb'
        have hfollows := exec_follows c k m.shared a b hb
        cases b with
        | waitRecheck t =>
          cases hfollows
          exact hlock ⟨t, rfl⟩
        | waitPush t =>
          cases hfollows
          cases hunder
        | _ => cases hb'
      rw [exec_held (fun t ht => hlock ⟨t, ht⟩) hunder, ← hheld]
      rw [hcode, List.countP_cons, List.countP_nil, hunder] at hcount
      simpa using hcount
    | true =>
      rw [List.countP_cons, List.countP_nil, hunder] at hcount
      -- the section that runs is the one that holds the lock
      have htrue : m.shared.waitersHeld = true := hruns.fires.all_head (under_held hm) hunder
      rw [hheld, if_pos htrue] at hcount
      cases a with
      | waitRecheck t =>
        by_cases hfin : m.shared.isFinished t = true
        · have hexec : exec c k (.waitRecheck t) m.shared =
              next { m.shared with waitersHeld := false } [] := if_pos hfin
          rw [hexec] at hcount ⊢
          exact Nat.succ.inj hcount
        have hexec : exec c k (.waitRecheck t) m.shared = m.shared.next [.waitPush t] := if_neg hfin
        rw [hexec] at hcount ⊢
        show _ = if m.shared.waitersHeld then 1 else 0
        rw [if_pos htrue]
        exact Nat.succ.inj hcount
      | waitPush t => exact Nat.succ.inj hcount
      | _ => cases hunder
  rw [hcount, hheld]
  rcases m.step_shared l with ⟨c, k, a, hruns, -⟩ | ⟨_, _, _, _, -, hs⟩ | ⟨_, _, hs⟩
  · cases hran.symm.trans hruns.ran
  · rw [hs]
  · rw [hs]

theorem live_step (hm : Watched m) (hl : Attentive m l) (t : TaskId) (j : WaiterId)
    (hw : (m.step l).shared.Waits t j) : Covered (m.step l) t ∨ (m.step l).Has fun _ a => a.Enrolled t j := by
  have hold : m.shared.Waits t j → Covered (m.step l) t ∨ (m.step l).Has fun _ a => a.Enrolled t j := by
    intro h
    rcases hm.live t j h with hcov | henrolled
    · rcases hcov.step hm hl with hcov' | ⟨hheld, c, k, r, hruns⟩
      · exact .inl hcov'
      -- the senders of `t` are gone
      have hmem := hw.1
      rw [hruns.fires.shared] at hmem
      replace hmem : j ∈ ((m.shared.wake t r).shared.waiters.get t).getD [] := hmem
      rw [MasterState.wake, if_neg (by rw [hheld]; exact Bool.false_ne_true)] at hmem
      simp only [next, FMap.get_del, if_true, Option.getD_none, List.not_mem_nil] at hmem
    have halive := Master.uncancelled_alive hm.detached l (P := Section.Enrolled t j) (by
      rintro a ⟨sub, -, rfl⟩
      rfl)
    rcases Master.step_has henrolled halive with ⟨c, k, a, hruns, sub, hid, rfl⟩ | hafter
    · have hshared : (m.step l).shared = (m.shared.submit c sub (some j)).shared := hruns.fires.shared
      rcases submit_cases c m.shared sub (some j) with ⟨-, -, heq⟩ | ⟨-, -, ⟨sequence, htasks⟩, heq⟩
      · -- the receiver of a refused submission is dropped
        refine absurd ?_ hw.2
        rw [hshared, heq]
        exact Finset.mem_union_right _ (Option.mem_toFinset.mpr rfl)
      refine .inl (Or.inl ⟨TaskEntry.fresh sub.task 0 sequence c.clock, ?_, rfl⟩)
      rw [hshared, heq]
      show (m.shared.queue.submitWithPriority sub.task 0 c.clock).2.tasks.get t = _
      rw [htasks, FMap.get_set, if_pos hid.symm]
    · exact .inr hafter
  rcases m.step_shared l with ⟨c, k, a, hruns, hfires⟩ | ⟨_, _, _, _, -, hs⟩ | ⟨_, _, hs⟩
  · have hw' := hw
    rw [hfires.shared] at hw'
    rcases exec_waits hw' with h | ⟨sub, hid, rfl, hheld, rfl⟩ | ⟨rfl, -⟩
    · exact hold h
    · refine .inr (hfires.has_code (b := .submit sub (some m.shared.nextWaiter)) ?_ ⟨sub, hid, rfl⟩)
      show _ ∈ (m.shared.enrol sub).code
      rw [enrol, if_neg (by rw [hheld]; exact Bool.false_ne_true)]
      exact List.mem_cons_self
    · rcases (hfires.all_head hm.pushes t rfl).step hm hl with hcov | ⟨-, c', k', r, hruns'⟩
      · exact .inl hcov
      · cases hruns.unique hruns'
  · rw [hs] at hw
    exact hold hw
  · rw [hs] at hw
    exact hold hw

theorem present_step (hm : Watched m) (hl : Attentive m l) :
    (m.step l).All fun _ a => ∀ t ∈ a.looksAt, ((m.step l).shared.queue.tasks.get t).isSome := by
  have hbefore : (m.step l).All fun _ a => ∀ t ∈ a.looksAt, (m.shared.queue.tasks.get t).isSome := by
    refine Master.step_all hm.present (fun _ _ ha => ha) (fun k a hbegins => ?_)
      (fun c k a b _ ha hfollows t ht => ?_) (fun c k a t _ _ hstarts b hb => ?_)
    · cases hbegins <;> exact nofun
    · cases b with
      | resolve u fallback =>
        cases ht
        cases hfollows with
        | sweep_resolve swept =>
          obtain ⟨e, he, -⟩ := swept_open swept
          exact Option.isSome_iff_exists.mpr ⟨e, he⟩
      | resolveResult | waitRecheck | waitPush =>
        cases hfollows
        exact ha t ht
      | waitCheck u =>
        cases ht
        cases hfollows with
        | waitKnown_waitCheck found => exact found
      | waitLock u => cases hfollows <;> exact ha t ht
      | _ => cases ht
    · cases hstarts <;> rw [List.mem_singleton.mp hb] <;> exact nofun
  intro u hu a ha t ht
  exact hl.1 u hu a ha t ht (hbefore u hu a ha t ht)

theorem finished_step (hm : Watched m) (hl : Attentive m l) : (m.step l).All fun _ a => ∀ t ∈ a.fetches,
      ∃ e, (m.step l).shared.queue.tasks.get t = some e ∧ e.state.isTerminal = true := by
  have hbefore : (m.step l).All fun _ a => ∀ t ∈ a.fetches,
      ∃ e, m.shared.queue.tasks.get t = some e ∧ e.state.isTerminal = true := by
    refine Master.step_all hm.finished (fun _ _ ha => ha) (fun k a hbegins => ?_)
      (fun c k a b _ ha hfollows t ht => ?_) (fun c k a t _ _ hstarts b hb => ?_)
    · cases hbegins <;> exact nofun
    · cases b with
      | resolveResult u info fallback =>
        cases ht
        cases hfollows with
        | resolve_resolveResult get terminal => exact ⟨info, get, terminal⟩
      | _ => cases ht
    · cases hstarts <;> rw [List.mem_singleton.mp hb] <;> exact nofun
  intro u hu a ha t ht
  obtain ⟨e, he, hterm⟩ := hbefore u hu a ha t ht
  have hlooks : t ∈ a.looksAt := by
    cases a <;> first | exact ht | cases ht
  obtain ⟨e', he'⟩ := Option.isSome_iff_exists.mp (present_step hm hl u hu a ha t hlooks)
  exact ⟨e', he', by rw [finished_stays he hterm he']; exact hterm⟩

/-- A section that goes on to wake the waiters of `t` with `r` has just recorded `r`, or found it. -/
theorem wake_carries {t : TaskId} {r : TaskResult} (hm : Watched m) (h : m.shared.Follows c k a (.wake t r))
    (hfetches : ∀ u ∈ a.fetches, ∃ e, m.shared.queue.tasks.get u = some e ∧ e.state.isTerminal = true)
    (hsends : (t, r) ∈ a.sends → m.shared.recorded.get t = some r) :
    (exec c k a m.shared).shared.recorded.get t = some r := by
  cases h with
  | resolveResult_wake =>
    obtain ⟨e, he, hterm⟩ := hfetches t rfl
    obtain ⟨hsome, hres⟩ := (hm.recorded t e he).1 hterm
    obtain ⟨r, hr⟩ := Option.isSome_iff_exists.mp hsome
    show m.shared.recorded.get t = _
    rw [getResult, he, Option.bind_some, hres, hr]
    rfl
  | wake_wake held =>
    rw [((exec_same c k (.wake t r) m.shared).queue nofun).2.1]
    exact hsends rfl
  | record_wake finished =>
    show (m.shared.recordIf _ r.taskId r).get r.taskId = _
    rw [recordIf, if_pos finished, FMap.get_set, if_pos rfl]
  | @oversized_wake x size finished =>
    show (m.shared.recordIf _ x.taskId _).get x.taskId = _
    rw [recordIf, if_pos (by rw [finished]; rfl), FMap.get_set, if_pos rfl]
  | @cancel_wake _ reason o _ cancelled newly result =>
    obtain ⟨r', hr', hset, -, -⟩ := cancel_finished m.shared cancelled newly
    show (m.shared.cancel t reason).shared.recorded.get t = _
    rw [hset, FMap.get_set, if_pos rfl, result r' hr']

theorem sends_step (hm : Watched m) (hl : Attentive m l) :
    (m.step l).All fun _ a => ∀ x ∈ a.sends, (m.step l).shared.recorded.get x.1 = some x.2 := by
  have hall : m.All fun _ a => (∀ x ∈ a.sends, m.shared.recorded.get x.1 = some x.2 ∧
      ∀ task ∈ m.accepts l, task.id ≠ x.1) ∧ ∀ t ∈ a.fetches,
        ∃ e, m.shared.queue.tasks.get t = some e ∧ e.state.isTerminal = true := by
    intro u hu a ha
    refine ⟨fun x hx => ⟨hm.sends u hu a ha x hx, hl.2.2 u hu a ha x.1 ?_⟩, hm.finished u hu a ha⟩
    cases a <;> cases hx
    rfl
  refine Master.step_all hall (fun k a ha x hx => ?_) (fun k a hbegins => ?_)
    (fun c k a b hruns ha hfollows x hx => ?_) (fun c k a t _ _ hstarts b hb => ?_)
  · exact recorded_stays hm.recorded (ha.1 x hx).1 (ha.1 x hx).2
  · cases hbegins <;> exact nofun
  · rw [hruns.fires.shared]
    cases b with
    | wake t r =>
      cases hx
      exact wake_carries hm hfollows ha.2 fun hself => (ha.1 _ hself).1
    | _ => cases hx
  · cases hstarts <;> rw [List.mem_singleton.mp hb] <;> exact nofun

theorem pushes_step (hm : Watched m) (hl : Attentive m l) :
    (m.step l).All fun _ a => ∀ t ∈ a.pushes, Covered (m.step l) t := by
  have hall : m.All fun _ a => (∀ t ∈ a.pushes, Covered m t ∧ m.shared.waitersHeld = true) ∧
      ∀ t ∈ a.looksAt, (m.shared.queue.tasks.get t).isSome := by
    intro u hu a ha
    refine ⟨fun t ht => ⟨hm.pushes u hu a ha t ht, under_held hm u hu a ha ?_⟩, hm.present u hu a ha⟩
    cases a <;> cases ht
    rfl
  refine Master.step_all hall (fun k a ha t ht => ?_) (fun k a hbegins => ?_)
    (fun c k a b hruns ha hfollows t ht => ?_) (fun c k a t _ _ hstarts b hb => ?_)
  · obtain ⟨hcov, hheld⟩ := ha.1 t ht
    rcases hcov.step hm hl with hcov' | ⟨hfree, -⟩
    · exact hcov'
    · cases hheld.symm.trans hfree
  · cases hbegins <;> exact nofun
  · cases b with
    | waitPush u =>
      cases ht
      cases hfollows with
      | waitRecheck_waitPush unfinished =>
        obtain ⟨e, he⟩ := Option.isSome_iff_exists.mp (ha.2 t rfl)
        refine covered_of_unfinished ⟨e, he, ?_⟩
        rw [isFinished, he] at unfinished
        exact unfinished
    | _ => cases ht
  · cases hstarts <;> rw [List.mem_singleton.mp hb] <;> exact nofun

/-- A section sends only by waking waiters, each with what is recorded at that moment. -/
theorem exec_sent {d : Delivery} (h : d ∈ (exec c k a s).shared.sent) :
    d ∈ s.sent ∨ (a = .wake d.task d.value ∧ d.recorded = s.recorded.get d.task ∧ s.Waits d.task d.waiter) := by
  by_cases hchanges : a.changes = some .waiters
  · cases a with
    | wake t r =>
      replace h : d ∈ (s.wake t r).shared.sent := h
      unfold wake at h
      split at h
      · exact .inl h
      rcases List.mem_append.mp h with hold | hnew
      · exact .inl hold
      · obtain ⟨j, hj, rfl⟩ := List.mem_map.mp hnew
        obtain ⟨hmem, hopen⟩ := List.mem_filter.mp hj
        exact .inr ⟨rfl, rfl, hmem, of_decide_eq_true hopen⟩
    | enrol sub =>
      replace h : d ∈ (s.enrol sub).shared.sent := h
      unfold enrol at h
      split at h <;> exact .inl h
    | pruneWaiters t =>
      replace h : d ∈ (s.pruneWaiters t).shared.sent := h
      unfold pruneWaiters at h
      split at h
      · exact .inl h
      · split at h <;> exact .inl h
    | waitLock t =>
      simp only [exec] at h
      split at h <;> exact .inl h
    | waitRecheck t =>
      replace h : d ∈ (s.waitRecheck t).shared.sent := h
      unfold waitRecheck at h
      split at h <;> exact .inl h
    | waitPush t => exact .inl h
    | _ => cases hchanges
  · rw [((exec_same c k a s).waiters hchanges).2.2.2] at h
    exact .inl h

theorem sent_step (hm : Watched m) : SentRecorded (m.step l) := by
  intro d hd
  rcases m.step_shared l with ⟨c, k, a, -, hfires⟩ | ⟨_, _, _, _, -, hs⟩ | ⟨_, _, hs⟩
  · rw [hfires.shared] at hd
    rcases exec_sent hd with hold | ⟨rfl, hrecorded, -⟩
    · exact hm.sent d hold
    · rw [hrecorded]
      exact hfires.all_head hm.sends (d.task, d.value) rfl
  · rw [hs] at hd
    exact hm.sent d hd
  · rw [hs] at hd
    exact hm.sent d hd

/-- **One step.** -/
theorem Watched.step (hm : Watched m) (hl : Attentive m l) : Watched (m.step l) where
  recorded := hm.recorded.step l
  detached := Master.detached_step l hm.detached
  held := held_step hm
  present := present_step hm hl
  finished := finished_step hm hl
  sends := sends_step hm hl
  pushes := pushes_step hm hl
  live := live_step hm hl
  sent := sent_step hm

end

omit [Host] in
theorem watched_init (config : MasterConfig) (queue : QueueConfig) : Watched (Master.init config queue) where
  recorded _ e he := absurd he (Option.some_ne_none e).symm
  detached _ ht := absurd ht List.not_mem_nil
  held := rfl
  present _ ht := absurd ht List.not_mem_nil
  finished _ ht := absurd ht List.not_mem_nil
  sends _ ht := absurd ht List.not_mem_nil
  pushes _ ht := absurd ht List.not_mem_nil
  live _ _ h := absurd h.1 List.not_mem_nil
  sent _ hd := absurd hd List.not_mem_nil

/-- **Wake-ups.**  In a run of attentive steps no live waiter is left with a finished or evicted task once
nothing is under way, every value sent is the one recorded, and what is recorded for a finished task is the
result in its entry. -/
theorem waiters_woken (config : MasterConfig) (queue : QueueConfig) (labels : List Label)
    (h : Within Master.step Attentive (Master.init config queue) labels) :
    AllAwaited ((Master.init config queue).run labels) ∧ SentRecorded ((Master.init config queue).run labels) ∧
      Recorded ((Master.init config queue).run labels).shared.queue
        ((Master.init config queue).run labels).shared.recorded := by
  have hm : Watched ((Master.init config queue).run labels) :=
    h.invariant (fun _ _ hm hl => Watched.step hm hl) (watched_init config queue)
  refine ⟨fun hquiet t k hw => ?_, hm.sent, hm.recorded⟩
  have hnone : ∀ P : Owner → Section → Prop, (∀ o a, P o a → a.settling = true) →
      ¬ ((Master.init config queue).run labels).Has P := by
    rintro P hP ⟨u, hu, a, ha, hPa⟩
    cases (hquiet u hu a ha).symm.trans (hP _ _ hPa)
  rcases hm.live t k hw with (hopen | hwakes) | henrolled
  · exact hopen
  · refine absurd hwakes (hnone _ fun o a ha => ?_)
    cases a <;> first | rfl | cases ha
  · refine absurd henrolled (hnone _ ?_)
    rintro o a ⟨sub, -, rfl⟩
    rfl

end OxideSwarm

namespace OxideSwarm

/-! ## Five runs -/

section Concrete

attribute [local instance] Host.blank

instance (m : Master) (l : Label) : Decidable (Attentive m l) :=
  inferInstanceAs (Decidable (((m.step l).All fun _ a => ∀ t ∈ a.looksAt,
      (m.shared.queue.tasks.get t).isSome → ((m.step l).shared.queue.tasks.get t).isSome) ∧
    (m.All fun k a => a.wakes.isSome → m.kills l k = false) ∧
    (m.All fun _ a => ∀ t ∈ a.wakes, ∀ task ∈ m.accepts l, task.id ≠ t)))

/-- Worker 7 is connected, a client waits for task 1, and the task is delivered. -/
def awaitedRun (task : Task) : List Label :=
  .connect 7 (.plain 4) .empty 0 :: Label.advances 0 2 (.at 0) ++
    .start (.submitTask task true) :: Label.advances 1 4 (.at 1) ++
    .start (.scheduleBatch 10) :: Label.advances 2 9 (.at 2)

/-- Task 2 is submitted by thread `i` and cancelled by the next. -/
def cancelRun (i : Nat) : List Label :=
  .start (.submitTask (Task.echo 2) false) :: Label.advances i 3 (.at 4) ++
    .start (.cancelTask ⟨2⟩ "stop") :: Label.advances (i + 1) 2 (.at 4)

/-- A task that fails with its first worker. -/
def fragileTask : Task := { Task.echo 1 with requirements := ⟨1, 512, false, 60, some 0⟩ }

/-- Worker 7 hangs up and task 1 fails; before its waiters are woken, task 2 finishes and takes its place
among the retained tasks. -/
def evictedRun : List Label :=
  awaitedRun fragileTask ++ Label.advances 0 3 (.receiving 3 .eof) ++ cancelRun 3 ++
    Label.advances 0 3 (.at 5)

/-- Worker 7 leaves and task 1 goes to worker 8.  Its result is recorded, the first worker's connection finds
the task finished, task 1 is evicted, and the waiter gets a made-up failure. -/
def inventedRun : List Label :=
  awaitedRun (Task.echo 1) ++ Label.advances 0 3 (.receiving 3 (.disconnecting "bye")) ++
    .connect 8 (.plain 4) .empty 3 :: Label.advances 3 2 (.at 3) ++
    .start (.scheduleBatch 10) :: Label.advances 4 9 (.at 3) ++
    Label.advances 3 1 (.receiving 3 (.result (.done 8 ⟨1⟩))) ++ Label.advances 5 2 (.at 3) ++
    Label.advances 0 1 (.at 4) ++ cancelRun 6 ++ Label.advances 0 2 (.at 5)

/-- The frame of task 1 is too large; the connection ends before the writer wakes the waiter. -/
def droppedRun : List Label :=
  awaitedRun (Task.echo 1) ++ .transmit 0 (maxFrameSize + 1) :: Label.advances 3 1 (.at 3) ++
    Label.advances 0 6 (.receiving 3 .eof) ++ [.dropWriter 1]

/-- Task 1 is cancelled and evicted, and its id is submitted again before the waiters are woken. -/
def reusedRun : List Label :=
  .start (.submitTask (Task.echo 1) false) :: Label.advances 0 3 (.at 1) ++
    .start (.cancelTask ⟨1⟩ "stop") :: Label.advances 1 1 (.at 2) ++ cancelRun 2 ++
    .start (.submitTask (Task.echo 1) true) :: Label.advances 4 4 (.at 5) ++ Label.advances 1 1 (.at 6)

/-- Two clients wait for task 1, one from its submission on, and get its result. -/
def wokenRun : List Label :=
  awaitedRun (Task.echo 1) ++ .start (.waitTask ⟨1⟩) :: Label.advances 3 5 (.at 3) ++
    Label.advances 0 1 (.receiving 3 (.result (.done 7 ⟨1⟩))) ++ Label.advances 4 6 (.at 4)

instance (s : MasterState) (t : TaskId) (k : WaiterId) : Decidable (s.Waits t k) :=
  inferInstanceAs (Decidable (_ ∧ _))

instance (m : Master) : Decidable (SentRecorded m) :=
  inferInstanceAs (Decidable (∀ d ∈ m.shared.sent, d.recorded = some d.value))

theorem lost_of_waits {m : Master} {t : TaskId} {k : WaiterId} (hquiet : m.All fun _ a => a.settling = false)
    (hw : m.shared.Waits t k) (hfin : (m.shared.queue.tasks.get t).all (fun e => e.state.isTerminal) = true) :
    ¬ AllAwaited m := by
  intro h
  obtain ⟨e, he, hopen⟩ := h hquiet t k hw
  rw [he, Option.all_some, hopen] at hfin
  cases hfin

/-- **Waiters can be lost or misled**: their task is evicted before they are looked up, who would wake them
is cancelled, a result is made up for an evicted task, or an old one is sent to the waiters of a new task. -/
theorem waiters_can_be_lost : ¬ AllAwaited ((Master.init .default (.small 1)).run evictedRun) ∧
    ¬ AllAwaited ((Master.init .default (.small 1)).run droppedRun) ∧
    ¬ SentRecorded ((Master.init .default (.small 1)).run inventedRun) ∧
    ¬ SentRecorded ((Master.init .default (.small 1)).run reusedRun) := by
  refine ⟨lost_of_waits (t := ⟨1⟩) (k := 0) ?_ ?_ ?_, lost_of_waits (t := ⟨1⟩) (k := 0) ?_ ?_ ?_, ?_, ?_⟩
  all_goals decide +kernel

/-- Both clients of task 1 get its result. -/
theorem waiters_woken_result : Within Master.step Attentive (Master.init .default (.small 1)) wokenRun ∧
    ((Master.init .default (.small 1)).run wokenRun).shared.sent.map
      (fun d => (d.waiter, d.value.exitCode)) = [(0, 0), (1, 0)] ∧
    AllAwaited ((Master.init .default (.small 1)).run wokenRun) ∧
    SentRecorded ((Master.init .default (.small 1)).run wokenRun) := by
  have hwithin : Within Master.step Attentive (Master.init .default (.small 1)) wokenRun := by decide
  obtain ⟨hawaited, hsent, -⟩ := waiters_woken _ _ _ hwithin
  exact ⟨hwithin, by decide, hawaited, hsent⟩

end Concrete

end OxideSwarm
