import OxideSwarm.Blob.Pins
import OxideSwarm.Master.History

/-!
# Input blobs of accepted tasks

A submission looks its id up in the queue, resolves and pins the blobs of its inputs, enters the queue, and
takes the pins back if the queue refuses it.  These are separate lock holds, and pins are taken back by the
task's id alone.  `pins_can_be_lost` is a run in which two submissions of one id miss it in the queue; the
one that is refused then takes the pins of the one that was accepted.

* `InputsPinned`: every unfinished task has the blobs its inputs need pinned, and they are counted.
* `PinsApart` is the condition on a step: a submission misses its id only when no other section is about to
  pin or unpin for that id; a submission that found its id still finds it when it enters the queue; and the
  sweeper does not find the pin of a submission on its way to be older than its interval.
* `inputs_stay_pinned`: what runs of such steps keep.

The invariant (`Secured`) says who may touch the pins of a task: nobody while it is unfinished, and one
section only while a submission of its id is on its way.
-/

namespace OxideSwarm

open TaskQueueInner MasterState

/-! ## Sections that pin and unpin -/

/-- The section belongs to a submission of `t` that missed its id in the queue. -/
def Section.submits (t : TaskId) : Section → Bool
  | .admitBlobTask task _ | .pin task _ _ => task.id == t
  | .enrol sub | .submit sub _ => !sub.known && sub.task.id == t
  | _ => false

/-- The section is about to pin or unpin for `t`, or leads to one that is. -/
def Section.claims (t : TaskId) : Section → Bool
  | .store (.unpin u) => u == t
  | a => a.submits t

/-- The condition on a section that runs. -/
def Section.pinsApart (m : Master) (c : Choice) : Section → Prop
  | .known task _ => (m.shared.queue.tasks.get task.id).isNone = true →
      ∀ b ∈ m.pending, b.claims task.id = false
  | .submit sub _ => sub.known = true → (m.shared.queue.tasks.get sub.task.id).isSome = true
  | .sweepPin t pinnedAt => (m.shared.queue.tasks.get t).isNone = true →
      (∃ b ∈ m.pending, b.submits t = true) → c.clock.instant - pinnedAt ≤ blobSweepInterval
  | _ => True

/-- The condition on a step. -/
def PinsApart (m : Master) : Label → Prop
  | .advance i c => ∀ x ∈ m.next? i, x.2.pinsApart m c
  | _ => True

theorem Section.claims_of_submits {t : TaskId} {a : Section} (h : a.submits t = true) : a.claims t = true := by
  cases a with
  | store op => cases h
  | _ => exact h

variable [Host]

/-- The inputs of the task need the blobs `ids`. -/
def Task.Needs (task : Task) (ids : List BlobId) : Prop :=
  ∃ readings, resolveInputs readings task.inputs = .ok ids

/-- Every unfinished task was accepted with the blobs its inputs need; they are pinned for it, and each is
counted. -/
def InputsPinned (s : MasterState) : Prop :=
  ∀ t e, s.queue.tasks.get t = some e → e.state.isTerminal = false →
    ∃ ids, s.accepted.get t = some ids ∧ e.task.Needs ids ∧
      ∀ id ∈ ids, (∃ pin, s.store.pins.get t = some pin ∧ id ∈ pin.2) ∧ 1 ≤ (s.store.pinCounts.get id).getD 0

/-! ## The invariant -/

omit [Host] in
/-- Exactly `ids` are pinned for `t`. -/
def Pinned (s : MasterState) (t : TaskId) (ids : List BlobId) : Prop :=
  ids = [] ∨ ∃ since, s.store.pins.get t = some (since, ids)

/-- What a section still to run knows about the blobs of its submission. -/
def Section.Ready (s : MasterState) : Section → Prop
  | .pin task _ ids => task.Needs ids
  | .enrol sub | .submit sub _ => sub.known = false → sub.task.Needs sub.ids ∧ Pinned s sub.task.id sub.ids
  | _ => True

omit [Host] in
/-- The blobs whose pin guard the section carries. -/
def Section.guard : Section → Multiset BlobId
  | .record _ _ _ (some ids) => ids
  | .store (.commitOutputs _ ids) => ids
  | .store (.dropOutputs ids) => ids
  | _ => 0

structure Secured (m : Master) : Prop where
  single : ∀ t, ∀ b ∈ m.pending, b.submits t = true →
    m.shared.queue.tasks.get t = none ∧ m.pending.countP (Section.claims t) = 1
  untouched : ∀ t e, m.shared.queue.tasks.get t = some e → e.state.isTerminal = false →
    m.pending.countP (Section.claims t) = 0
  ready : ∀ b ∈ m.pending, b.Ready m.shared
  held : ∀ t e, m.shared.queue.tasks.get t = some e → e.state.isTerminal = false →
    ∃ ids, m.shared.accepted.get t = some ids ∧ e.task.Needs ids ∧ Pinned m.shared t ids
  counted : ∃ guards, m.shared.store.Counted guards ∧ (m.pending.map Section.guard).sum ≤ guards

/-- The counts see every pinned blob. -/
theorem Secured.inputsPinned {m : Master} (h : Secured m) : InputsPinned m.shared := by
  intro t e he hopen
  obtain ⟨ids, haccepted, hneeds, hpinned⟩ := h.held t e he hopen
  refine ⟨ids, haccepted, hneeds, fun id hid => ?_⟩
  rcases hpinned with rfl | ⟨since, hget⟩
  · exact absurd hid List.not_mem_nil
  obtain ⟨guards, hcounted, -⟩ := h.counted
  refine ⟨⟨(since, ids), hget, hid⟩, ?_⟩
  have hmem : id ∈ m.shared.store.heldInputs := by
    rw [BlobInner.heldInputs_get hget]
    exact Multiset.mem_add.mpr (Or.inl (Multiset.mem_coe.mpr hid))
  rw [hcounted.pinCounts.getD, Multiset.one_le_count_iff_mem]
  exact Multiset.mem_add.mpr (Or.inl (Multiset.mem_add.mpr (Or.inl hmem)))

/-! ## Pins of one task -/

namespace BlobInner

variable {s : BlobInner} {t u : TaskId}

omit [Host]

theorem pins_pinTask_self (now : Instant) (ids : List BlobId) :
    (s.pinTask now t ids).2.pins.get t = some (now, ids) := by
  unfold pinTask
  split <;> exact (FMap.get_set ..).trans (if_pos rfl)

theorem pins_pinTask_ne (now : Instant) (ids : List BlobId) (h : u ≠ t) :
    (s.pinTask now t ids).2.pins.get u = s.pins.get u := by
  unfold pinTask
  split <;> exact (FMap.get_set ..).trans (if_neg h)

theorem pins_unpinTask_ne (h : u ≠ t) : (s.unpinTask t).pins.get u = s.pins.get u := by
  unfold unpinTask
  split
  · exact (FMap.get_del ..).trans (if_neg h)
  · rfl

theorem pins_dropOutputPin (s : BlobInner) (t : TaskId) : (s.dropOutputPin t).pins = s.pins := by
  unfold dropOutputPin
  split <;> rfl

theorem pins_dropOutputPins (expired : List TaskId) :
    ∀ s : BlobInner, (expired.foldl dropOutputPin s).pins = s.pins := by
  induction expired with
  | nil => exact fun _ => rfl
  | cons t rest ih => exact fun s => (ih _).trans (pins_dropOutputPin s t)

theorem pins_shedOutputPins (order : SetOrder TaskId) (maxBytes : Nat) (t : TaskId) (fuel : Nat) :
    ∀ s : BlobInner, (shedOutputPins order maxBytes t fuel s).pins = s.pins := by
  induction fuel with
  | zero => exact fun _ => rfl
  | succ fuel ih =>
    intro s
    unfold shedOutputPins
    split
    · split
      · exact (ih _).trans (pins_dropOutputPin s _)
      · rfl
    · rfl

theorem pins_commitTerminal (order : SetOrder TaskId) (maxBytes : Nat) (now : Instant) (t : TaskId)
    (ids : List BlobId) : (s.commitTerminal order maxBytes now t ids).pins = s.pins := by
  rw [commitTerminal_eq]
  split
  · rfl
  refine (pins_shedOutputPins order maxBytes t _ _).trans ?_
  unfold bindOutputs
  split <;> rfl

theorem pins_checkAndPinOutputs (ids : List BlobId) : (s.checkAndPinOutputs ids).2.pins = s.pins := by
  have htouch := (samePins_touchAll ids.reverse.dedup.reverse s).pins
  unfold checkAndPinOutputs
  dsimp only
  split <;> exact htouch

theorem samePins_removeAll (ids : List BlobId) : ∀ s : BlobInner, SamePins s (s.removeAll ids) := by
  induction ids with
  | nil => exact fun _ => ⟨rfl, rfl, rfl, rfl⟩
  | cons id rest ih => exact fun s => (samePins_remove s id).trans (ih _)

end BlobInner

section

variable {c : Choice} {k : Owner} {a : Section} {s : MasterState} {t : TaskId}

theorem exec_pins (h : a.claims t = false) : (exec c k a s).shared.store.pins.get t = s.store.pins.get t := by
  by_cases hchanges : a.changes = some .store
  · cases a with
    | pinOutputs w n r =>
      show (s.pinOutputs w n r).shared.store.pins.get t = _
      unfold pinOutputs
      split
      · rfl
      · dsimp only
        split <;> exact congrArg (FMap.get · t) (BlobInner.pins_checkAndPinOutputs _)
    | pin task wait ids =>
      have hne : t ≠ task.id := fun heq => by simp [Section.claims, Section.submits, heq] at h
      exact BlobInner.pins_pinTask_ne _ _ hne
    | store op =>
      cases op with
      | unpin u =>
        have hne : t ≠ u := fun heq => by simp [Section.claims, heq] at h
        exact BlobInner.pins_unpinTask_ne hne
      | commitOutputs u ids => exact congrArg (FMap.get · t) (BlobInner.pins_commitTerminal ..)
      | dropOutputs ids => rfl
      | sweepOutputs => exact congrArg (FMap.get · t) (BlobInner.pins_dropOutputPins _ _)
      | index id size => exact congrArg (FMap.get · t) (BlobInner.Change.insert id size).samePins.pins
      | evict keep => exact congrArg (FMap.get · t) (BlobInner.samePins_removeAll _ _).pins
    | _ => cases hchanges
  · rw [(exec_same c k a s).store hchanges]

/-! ## What a section does to one task of the queue -/

theorem unfinished_before {q' : TaskQueueInner} (h : s.QueueStep c q' a) {e' : TaskEntry}
    (he' : q'.tasks.get t = some e') (hopen : e'.state.isTerminal = false) :
    (∃ sub waiter, a = .submit sub waiter ∧ sub.task.id = t ∧ s.queue.tasks.get t = none ∧
      (s.queue.submitWithPriority sub.task 0 c.clock).1 = .ok sub.task.id ∧ e'.task = sub.task) ∨
    ∃ e, s.queue.tasks.get t = some e ∧ e.state.isTerminal = false ∧ e'.task.inputs = e.task.inputs := by
  have hentry := h.entry t
  rw [he'] at hentry
  generalize s.queue.tasks.get t = o at hentry ⊢
  cases hentry with
  | same => exact .inr ⟨e', rfl, hopen, rfl⟩
  | accept runs id ok => exact .inl ⟨_, _, runs, id.symm, rfl, ok, rfl⟩
  | assign queued => exact .inr ⟨_, rfl, by rw [queued]; rfl, rfl⟩
  | start scheduled => exact .inr ⟨_, rfl, by rw [scheduled]; rfl, rfl⟩
  | @settle e _ kept =>
    refine .inr ⟨e, rfl, ?_, by rw [kept.task]⟩
    by_contra hterm
    rw [kept.settled (Bool.not_eq_false _ ▸ hterm)] at hopen
    exact hterm hopen

theorem absent_after {q' : TaskQueueInner} (h : s.QueueStep c q' a) (ht : s.queue.tasks.get t = none) :
    q'.tasks.get t = none ∨ ∃ sub waiter, a = .submit sub waiter ∧ sub.task.id = t ∧
      (s.queue.submitWithPriority sub.task 0 c.clock).1 = .ok sub.task.id := by
  have hentry := h.entry t
  rw [ht] at hentry
  generalize q'.tasks.get t = o at hentry ⊢
  cases hentry with
  | same => exact .inl rfl
  | accept runs id ok => exact .inr ⟨_, _, runs, id.symm, ok⟩

theorem exec_accepted (h : ∀ sub waiter, a = .submit sub waiter →
    (s.queue.submitWithPriority sub.task 0 c.clock).1 = .ok sub.task.id → sub.task.id ≠ t) :
    (exec c k a s).shared.accepted.get t = s.accepted.get t := by
  by_cases hchanges : a.changes = some .queue
  · cases a with
    | submit sub waiter =>
      show (s.submit c sub waiter).shared.accepted.get t = _
      rcases submit_cases c s sub waiter with ⟨-, -, heq⟩ | ⟨hok, -, -, heq⟩
      · rw [heq]
        rfl
      · rw [heq]
        exact (FMap.get_set ..).trans (if_neg fun heq => h sub waiter rfl hok heq.symm)
    | cancel u reason =>
      show (s.cancel u reason).shared.accepted.get t = _
      unfold cancel
      dsimp only
      split
      · split <;> rfl
      · rfl
    | progress | checkpoint | sweep | record | oversized | retries | commit | requeue | evictTasks => rfl
    | _ => cases hchanges
  · rw [((exec_same c k a s).queue hchanges).2.2]

/-! ## Where claims come from -/

theorem submits_before {b : Section} (h : Follows c k s a b) (hb : b.submits t = true) :
    a.submits t = true ∨ ∃ task wait, a = .known task wait ∧ task.id = t ∧ s.queue.tasks.get t = none := by
  cases b with
  | admitBlobTask task wait =>
    obtain rfl : task.id = t := by simpa [Section.submits] using hb
    cases h with
    | known_admitBlobTask absent => exact .inr ⟨task, wait, rfl, rfl, absent⟩
  | pin task wait ids =>
    cases h
    exact .inl hb
  | enrol sub =>
    cases h with
    | known_enrol => simp [Section.submits] at hb
    | admitBlobTask_enrol | pin_enrol => exact .inl (by simpa [Section.submits] using hb)
    | enrol_enrol => exact .inl hb
  | submit sub waiter =>
    cases h with
    | known_submit => simp [Section.submits] at hb
    | admitBlobTask_submit | pin_submit => exact .inl (by simpa [Section.submits] using hb)
    | enrol_submit => exact .inl hb
  | _ => cases hb

/-- Why a section is followed by one that claims `t`. -/
inductive Claiming (c : Choice) (k : Owner) (s : MasterState) (t : TaskId) (a : Section) : Prop where
  | submits (h : a.submits t = true)
  | known {task : Task} {wait : Bool} (ha : a = .known task wait) (id : task.id = t)
      (absent : s.queue.tasks.get t = none)
  | finished (present : ∃ e, s.queue.tasks.get t = some e)
      (terminal : ∀ e', (exec c k a s).shared.queue.tasks.get t = some e' → e'.state.isTerminal = true)
  | sweep {since : Instant} (ha : a = .sweepPin t since) (abandoned : s.isAbandoned c.clock.instant t since = true)

theorem claiming_of_follows {b : Section} (h : Follows c k s a b) (hb : b.claims t = true) : Claiming c k s t a := by
  by_cases hunpin : b = .store (.unpin t)
  · subst hunpin
    cases h with
    | record_outputs hop => rcases hop with hop | hop <;> cases hop
    | record_unpin finished =>
      obtain ⟨e, he, -⟩ := recordResultFrom_open finished
      exact .finished ⟨e, he⟩ fun e' he' => (recordResultFrom_recorded rfl finished he').1
    | oversized_unpin finished =>
      obtain ⟨e, he, -⟩ := failUnsendableAssignment_open finished
      exact .finished ⟨e, he⟩ fun e' he' =>
        (failUnsendableAssignment_recorded (Prod.ext finished rfl) he').1
    | pin_unpin => exact .submits (by simp [Section.submits])
    | submit_unpin unknown => exact .submits (by simp [Section.submits, unknown])
    | sweepPin_unpin abandoned => exact .sweep rfl abandoned
  have hsub : b.submits t = true := by
    cases b with
    | store op =>
      cases op with
      | unpin u =>
        refine absurd ?_ hunpin
        rw [show u = t by simpa [Section.claims] using hb]
      | _ => cases hb
    | _ => exact hb
  rcases submits_before h hsub with hself | ⟨task, wait, ha, hid, habsent⟩
  · exact .submits hself
  · exact .known ha hid habsent

/-- A submission goes on with one section that claims its id, at most. -/
theorem claims_code_le (h : a.submits t = true ∨ ∃ task wait, a = .known task wait) :
    (exec c k a s).code.countP (Section.claims t) ≤ 1 := by
  have hshort : (exec c k a s).code.length ≤ 1 → (exec c k a s).code.countP (Section.claims t) ≤ 1 :=
    fun hlen => Nat.le_trans List.countP_le_length hlen
  rcases h with h | ⟨task, wait, rfl⟩
  · cases a with
    | admitBlobTask task wait =>
      refine hshort ?_
      simp only [exec, admitBlobTask, admitted]
      split
      · exact Nat.le_refl 1
      split
      · exact Nat.zero_le 1
      split
      · exact Nat.zero_le 1
      · exact Nat.le_refl 1
      · exact Nat.le_refl 1
    | pin task wait ids =>
      refine hshort ?_
      simp only [exec, MasterState.pin, next, admitted]
      split <;> exact Nat.le_refl 1
    | enrol sub =>
      refine hshort ?_
      simp only [exec, enrol]
      split <;> exact Nat.le_refl 1
    | submit sub waiter =>
      show (s.submit c sub waiter).code.countP (Section.claims t) ≤ 1
      rcases submit_cases c s sub waiter with ⟨-, -, heq⟩ | ⟨-, -, -, heq⟩
      · rw [heq]
        show (_ :: _ : List Section).countP _ ≤ 1
        rw [List.countP_cons_of_neg (by simp [Section.claims, Section.submits])]
        split
        · exact Nat.zero_le 1
        · exact List.countP_le_length
      · rw [heq]
        refine Nat.le_trans List.countP_le_length ?_
        cases waiter <;> simp [next]
    | _ => cases h
  · refine hshort ?_
    simp only [exec, next, admitted]
    split <;> exact Nat.le_refl 1

theorem accepted_code {sub : Submission} {waiter : Option WaiterId}
    (hok : (s.queue.submitWithPriority sub.task 0 c.clock).1 = .ok sub.task.id) :
    ∀ b ∈ (exec c k (.submit sub waiter) s).code, b.claims t = false := by
  show ∀ b ∈ (s.submit c sub waiter).code, b.claims t = false
  rcases submit_cases c s sub waiter with ⟨⟨err, herr⟩, -, -⟩ | ⟨-, -, -, heq⟩
  · cases hok.symm.trans herr
  rw [heq]
  intro b hb
  cases waiter with
  | none => cases hb
  | some w =>
    rw [show b = _ from List.mem_singleton.mp hb]
    rfl

end

/-! ## One section -/

section Step

variable {m : Master} {l : Label} {c : Choice} {k : Owner} {a : Section}

omit [Host] in
theorem PinsApart.section (h : PinsApart m l) (hruns : m.Runs l c k a) : a.pinsApart m c := by
  obtain ⟨i, rfl, hnext⟩ := hruns
  exact h (k, a) hnext

/-- The sections still to run before and after `a` ran. -/
structure Around (m : Master) (l : Label) (c : Choice) (k : Owner) (a : Section) (others : List Section) :
    Prop where
  before : m.pending.Perm (a :: others)
  after : ∀ b ∈ (m.step l).pending, b ∈ (exec c k a m.shared).code ∨ b ∈ others ∨ ∀ t, b.claims t = false ∧
    b.Ready (m.step l).shared
  count : ∀ t, (m.step l).pending.countP (Section.claims t) =
    (exec c k a m.shared).code.countP (Section.claims t) + others.countP (Section.claims t)
  guards : ((m.step l).pending.map Section.guard).sum =
    ((exec c k a m.shared).code.map Section.guard).sum + (others.map Section.guard).sum

omit [Host] in
theorem starts_plain {task : MasterTask} (h : Starts a task) :
    ∀ b ∈ task.code, (∀ t, b.claims t = false) ∧ b.guard = 0 := by
  intro b hb
  cases h <;> rw [List.mem_singleton.mp hb] <;> exact ⟨fun _ => rfl, rfl⟩

theorem starts_ready {task : MasterTask} (h : Starts a task) (s : MasterState) : ∀ b ∈ task.code, b.Ready s := by
  intro b hb
  cases h <;> rw [List.mem_singleton.mp hb] <;> trivial

theorem around_of_runs (hruns : m.Runs l c k a) : ∃ others, Around m l c k a others := by
  have hfires := hruns.fires
  obtain ⟨others, hbefore, hafter⟩ := hfires.perm
  have hspawned : ∀ b ∈ (exec c k a m.shared).spawned.flatMap Thread.code,
      (∀ t, b.claims t = false) ∧ b.guard = 0 ∧ b.Ready (m.step l).shared := by
    intro b hb
    obtain ⟨task, htask, hb⟩ := List.mem_flatMap.mp hb
    have hstarts := exec_starts c k m.shared a task htask
    obtain ⟨hclaims, hguard⟩ := starts_plain hstarts b hb
    exact ⟨hclaims, hguard, starts_ready hstarts _ b hb⟩
  refine ⟨others, hbefore, fun b hb => ?_, fun t => ?_, ?_⟩
  · rcases List.mem_append.mp (hafter.mem_iff.mp hb) with hcode | hrest
    · exact .inl hcode
    rcases List.mem_append.mp hrest with hother | hnew
    · exact .inr (Or.inl hother)
    · obtain ⟨hclaims, -, hready⟩ := hspawned b hnew
      exact .inr (Or.inr fun t => ⟨hclaims t, hready⟩)
  · have hzero : ((exec c k a m.shared).spawned.flatMap Thread.code).countP (Section.claims t) = 0 := by
      rw [List.countP_eq_zero]
      intro b hb
      rw [(hspawned b hb).1 t]
      exact Bool.false_ne_true
    rw [hafter.countP_eq, List.countP_append, List.countP_append, hzero, Nat.add_zero]
  have hzero : (((exec c k a m.shared).spawned.flatMap Thread.code).map Section.guard).sum = 0 := by
    refine List.sum_eq_zero fun x hx => ?_
    obtain ⟨b, hb, rfl⟩ := List.mem_map.mp hx
    exact (hspawned b hb).2.1
  rw [(hafter.map Section.guard).sum_eq, List.map_append, List.map_append, List.sum_append, List.sum_append,
    hzero, add_zero]

namespace Around

variable {others : List Section} {t : TaskId}

theorem mem_self (h : Around m l c k a others) : a ∈ m.pending := h.before.mem_iff.mpr List.mem_cons_self

theorem mem_other (h : Around m l c k a others) {b : Section} (hb : b ∈ others) : b ∈ m.pending :=
  h.before.mem_iff.mpr (List.mem_cons_of_mem _ hb)

theorem count_before (h : Around m l c k a others) (t : TaskId) : m.pending.countP (Section.claims t) =
      others.countP (Section.claims t) + if a.claims t = true then 1 else 0 := by
  rw [h.before.countP_eq, List.countP_cons]

/-- Nobody claims `t`, so `a` does not and the others do not. -/
theorem unclaimed (h : Around m l c k a others) (hzero : m.pending.countP (Section.claims t) = 0) :
    a.claims t = false ∧ others.countP (Section.claims t) = 0 := by
  have hcount := h.count_before t
  cases hclaims : a.claims t with
  | false => exact ⟨rfl, by rw [hclaims] at hcount; simp at hcount; omega⟩
  | true =>
    rw [hclaims, if_pos rfl] at hcount
    omega

/-- The one claim of `t` is `a`'s. -/
theorem mine (h : Around m l c k a others) (hone : m.pending.countP (Section.claims t) = 1)
    (ha : a.claims t = true) : others.countP (Section.claims t) = 0 := by
  have hcount := h.count_before t
  rw [ha, if_pos rfl] at hcount
  omega

/-- The one claim of `t` is another section's. -/
theorem theirs (h : Around m l c k a others) (hone : m.pending.countP (Section.claims t) = 1) {b : Section}
    (hb : b ∈ others) (hclaims : b.claims t = true) : a.claims t = false ∧ others.countP (Section.claims t) = 1 := by
  have hpos : 0 < others.countP (Section.claims t) := List.countP_pos_iff.mpr ⟨b, hb, hclaims⟩
  have hcount := h.count_before t
  cases hself : a.claims t with
  | false =>
    rw [hself] at hcount
    simp at hcount
    exact ⟨rfl, by omega⟩
  | true =>
    rw [hself, if_pos rfl] at hcount
    omega

end Around

theorem code_unclaimed {t : TaskId} (h : ¬ Claiming c k m.shared t a) :
    (exec c k a m.shared).code.countP (Section.claims t) = 0 := by
  rw [List.countP_eq_zero]
  exact fun b hb hclaims => h (claiming_of_follows (exec_follows c k m.shared a b hb) hclaims)

variable {others : List Section}

/-- While another section carries a submission of `t`, nothing new claims `t`. -/
theorem Secured.not_claiming (hm : Secured m) (hl : PinsApart m l) (hruns : m.Runs l c k a)
    (haround : Around m l c k a others) {t : TaskId} {b : Section} (hb : b ∈ others) (hsub : b.submits t = true) :
    ¬ Claiming c k m.shared t a := by
  obtain ⟨habsent, hone⟩ := hm.single t b (haround.mem_other hb) hsub
  obtain ⟨hself, -⟩ := haround.theirs hone hb (Section.claims_of_submits hsub)
  have hapart := hl.section hruns
  intro hclaiming
  cases hclaiming with
  | submits h =>
    rw [Section.claims_of_submits h] at hself
    cases hself
  | @known task wait ha id absent =>
    subst ha id
    have hfalse := hapart (by rw [absent]; rfl) b (haround.mem_other hb)
    rw [Section.claims_of_submits hsub] at hfalse
    cases hfalse
  | finished present terminal =>
    obtain ⟨e, he⟩ := present
    cases habsent.symm.trans he
  | @sweep since ha abandoned =>
    subst ha
    have hage := hapart (by rw [habsent]; rfl) ⟨b, haround.mem_other hb, hsub⟩
    unfold MasterState.isAbandoned at abandoned
    rw [habsent] at abandoned
    exact absurd (of_decide_eq_true abandoned) (Nat.not_lt.mpr hage)

omit [Host] in
/-- A submission that is accepted is one that missed its id. -/
theorem PinsApart.submits_of_accepted (hl : PinsApart m l) {sub : Submission}
    {waiter : Option WaiterId} (hruns : m.Runs l c k (.submit sub waiter))
    (hfree : m.shared.queue.tasks.get sub.task.id = none) :
    (Section.submit sub waiter).submits sub.task.id = true := by
  have hapart := hl.section hruns
  cases hknown : sub.known with
  | false => simp [Section.submits, hknown]
  | true =>
    have hsome := hapart hknown
    rw [hfree] at hsome
    cases hsome

theorem Secured.single_ran (hm : Secured m) (hl : PinsApart m l) (hruns : m.Runs l c k a)
    (haround : Around m l c k a others) (t : TaskId) (b : Section) (hb : b ∈ (m.step l).pending)
    (hsub : b.submits t = true) : (m.step l).shared.queue.tasks.get t = none ∧
      (m.step l).pending.countP (Section.claims t) = 1 := by
  have hclaims := Section.claims_of_submits hsub
  have hpos : 0 < (m.step l).pending.countP (Section.claims t) := List.countP_pos_iff.mpr ⟨b, hb, hclaims⟩
  have hcount := haround.count t
  have hqueue : m.shared.QueueStep c (m.step l).shared.queue a := by
    rw [hruns.fires.shared]
    exact exec_queueStep c k m.shared a
  rcases haround.after b hb with hcode | hother | hnew
  · have hfollows := exec_follows c k m.shared a b hcode
    have hfrom : (m.shared.queue.tasks.get t = none ∧ others.countP (Section.claims t) = 0) ∧
        (a.submits t = true ∨ ∃ task wait, a = .known task wait) := by
      rcases submits_before hfollows hsub with hself | ⟨task, wait, rfl, rfl, habsent⟩
      · obtain ⟨habsent, hone⟩ := hm.single t a haround.mem_self hself
        exact ⟨⟨habsent, haround.mine hone (Section.claims_of_submits hself)⟩, Or.inl hself⟩
      refine ⟨⟨habsent, ?_⟩, Or.inr ⟨task, wait, rfl⟩⟩
      rw [List.countP_eq_zero]
      intro b' hb' hclaims'
      rw [hl.section hruns (by rw [habsent]; rfl) b' (haround.mem_other hb')] at hclaims'
      cases hclaims'
    obtain ⟨⟨habsent, hzero⟩, hsource⟩ := hfrom
    have hle := claims_code_le (c := c) (k := k) (s := m.shared) hsource
    refine ⟨?_, by omega⟩
    rcases absent_after hqueue habsent with hnone | ⟨sub, waiter, rfl, rfl, hok⟩
    · exact hnone
    · rw [accepted_code hok b hcode] at hclaims
      cases hclaims
  · obtain ⟨habsent, hone⟩ := hm.single t b (haround.mem_other hother) hsub
    obtain ⟨hself, hothers⟩ := haround.theirs hone hother hclaims
    have hcode := code_unclaimed (hm.not_claiming hl hruns haround hother hsub)
    refine ⟨?_, by omega⟩
    rcases absent_after hqueue habsent with hnone | ⟨sub, waiter, rfl, rfl, -⟩
    · exact hnone
    · rw [Section.claims_of_submits (hl.submits_of_accepted hruns habsent)] at hself
      cases hself
  · rw [(hnew t).1] at hclaims
    cases hclaims

theorem Secured.untouched_ran (hm : Secured m) (hl : PinsApart m l) (hruns : m.Runs l c k a)
    (haround : Around m l c k a others) (t : TaskId) (e' : TaskEntry)
    (he' : (m.step l).shared.queue.tasks.get t = some e') (hopen : e'.state.isTerminal = false) :
    (m.step l).pending.countP (Section.claims t) = 0 := by
  rw [haround.count t]
  rw [hruns.fires.shared] at he'
  rcases unfinished_before (exec_queueStep c k m.shared a) he' hopen with
    ⟨sub, waiter, rfl, rfl, hfree, hok, -⟩ | ⟨e, he, hopen', -⟩
  · have hsub := hl.submits_of_accepted hruns hfree
    obtain ⟨-, hone⟩ := hm.single _ _ haround.mem_self hsub
    have hcode : (exec c k (.submit sub waiter) m.shared).code.countP (Section.claims sub.task.id) = 0 := by
      rw [List.countP_eq_zero]
      intro b hb
      rw [accepted_code hok b hb]
      exact Bool.false_ne_true
    rw [hcode, haround.mine hone (Section.claims_of_submits hsub)]
  obtain ⟨hself, hothers⟩ := haround.unclaimed (hm.untouched t e he hopen')
  rw [code_unclaimed, hothers]
  intro hclaiming
  cases hclaiming with
  | submits h =>
    rw [Section.claims_of_submits h] at hself
    cases hself
  | known ha id absent => cases absent.symm.trans he
  | finished present terminal =>
    rw [terminal e' he'] at hopen
    cases hopen
  | sweep ha abandoned =>
    unfold MasterState.isAbandoned at abandoned
    rw [he] at abandoned
    cases hopen'.symm.trans abandoned

omit [Host] in
theorem Pinned.of_pins {s s' : MasterState} {t : TaskId} {ids : List BlobId} (h : Pinned s t ids)
    (hpins : s'.store.pins.get t = s.store.pins.get t) : Pinned s' t ids := by
  unfold Pinned
  rw [hpins]
  exact h

/-- What the sections of a submission hand on. -/
theorem ready_of_follows {s : MasterState} {b : Section} (h : Follows c k s a b) (ha : a.Ready s) :
    b.Ready (exec c k a s).shared := by
  cases b with
  | pin task wait ids =>
    cases h with
    | admitBlobTask_pin needs => exact ⟨c.readings, needs⟩
  | enrol sub =>
    cases h with
    | known_enrol => exact fun hknown => by cases hknown
    | admitBlobTask_enrol nothing => exact fun _ => ⟨⟨c.readings, nothing⟩, Or.inl rfl⟩
    | pin_enrol => exact fun _ => ⟨ha, Or.inr ⟨_, BlobInner.pins_pinTask_self _ _⟩⟩
    | enrol_enrol =>
      intro hknown
      obtain ⟨hneeds, hpinned⟩ := ha hknown
      exact ⟨hneeds, hpinned.of_pins (by rw [(exec_same c k (.enrol sub) s).store (by simp [Section.changes])])⟩
  | submit sub waiter =>
    cases h with
    | known_submit => exact fun hknown => by cases hknown
    | admitBlobTask_submit nothing => exact fun _ => ⟨⟨c.readings, nothing⟩, Or.inl rfl⟩
    | pin_submit => exact fun _ => ⟨ha, Or.inr ⟨_, BlobInner.pins_pinTask_self _ _⟩⟩
    | enrol_submit free =>
      intro hknown
      obtain ⟨hneeds, hpinned⟩ := ha hknown
      exact ⟨hneeds, hpinned.of_pins (by rw [(exec_same c k (.enrol sub) s).store (by simp [Section.changes])])⟩
  | _ => trivial

/-- What a section knows about its blobs stays true while the pins of its task do. -/
theorem Section.Ready.of_pins {s s' : MasterState} {b : Section} (h : b.Ready s)
    (hpins : ∀ t, b.submits t = true → s'.store.pins.get t = s.store.pins.get t) : b.Ready s' := by
  cases b with
  | pin task wait ids => exact h
  | enrol | submit =>
    intro hknown
    obtain ⟨hneeds, hpinned⟩ := h hknown
    exact ⟨hneeds, hpinned.of_pins (hpins _ (by simp [Section.submits, hknown]))⟩
  | _ => trivial

theorem Secured.ready_ran (hm : Secured m) (hruns : m.Runs l c k a) (haround : Around m l c k a others)
    (b : Section) (hb : b ∈ (m.step l).pending) : b.Ready (m.step l).shared := by
  rcases haround.after b hb with hcode | hother | hnew
  · rw [hruns.fires.shared]
    exact ready_of_follows (exec_follows c k m.shared a b hcode) (hm.ready a haround.mem_self)
  · refine (hm.ready b (haround.mem_other hother)).of_pins fun t hsub => ?_
    obtain ⟨-, hone⟩ := hm.single t b (haround.mem_other hother) hsub
    rw [hruns.fires.shared]
    exact exec_pins (haround.theirs hone hother (Section.claims_of_submits hsub)).1
  · exact (hnew ⟨0⟩).2

theorem Secured.held_ran (hm : Secured m) (hl : PinsApart m l) (hruns : m.Runs l c k a)
    (haround : Around m l c k a others) (t : TaskId) (e' : TaskEntry)
    (he' : (m.step l).shared.queue.tasks.get t = some e') (hopen : e'.state.isTerminal = false) :
    ∃ ids, (m.step l).shared.accepted.get t = some ids ∧ e'.task.Needs ids ∧ Pinned (m.step l).shared t ids := by
  rw [hruns.fires.shared] at he' ⊢
  rcases unfinished_before (exec_queueStep c k m.shared a) he' hopen with
    ⟨sub, waiter, rfl, rfl, hfree, hok, htask⟩ | ⟨e, he, hopen', hinputs⟩
  · have hsub := hl.submits_of_accepted hruns hfree
    have hknown : sub.known = false := by simpa [Section.submits] using hsub
    obtain ⟨hneeds, hpinned⟩ := hm.ready _ haround.mem_self hknown
    refine ⟨sub.ids, ?_, by rw [htask]; exact hneeds, hpinned.of_pins ?_⟩
    · show (m.shared.submit c sub waiter).shared.accepted.get sub.task.id = _
      rcases submit_cases c m.shared sub waiter with ⟨⟨err, herr⟩, -, -⟩ | ⟨-, -, -, heq⟩
      · cases hok.symm.trans herr
      · rw [heq]
        exact (FMap.get_set ..).trans (if_pos rfl)
    · rw [(exec_same c k (.submit sub waiter) m.shared).store (by simp [Section.changes])]
  obtain ⟨ids, haccepted, ⟨readings, hresolved⟩, hpinned⟩ := hm.held t e he hopen'
  obtain ⟨hself, -⟩ := haround.unclaimed (hm.untouched t e he hopen')
  refine ⟨ids, ?_, ⟨readings, by rw [hinputs]; exact hresolved⟩, hpinned.of_pins (exec_pins hself)⟩
  rw [exec_accepted, haccepted]
  rintro sub waiter rfl hok rfl
  -- an id that is in the queue is not accepted again
  rcases submit_cases c m.shared sub waiter with ⟨⟨err, herr⟩, -, -⟩ | ⟨-, hfree, -, -⟩
  · cases hok.symm.trans herr
  · cases hfree.symm.trans he

/-! ## Counts -/

/-- The section can go on with one that carries a guard. -/
def Section.guards : Section → Bool
  | .pinOutputs .. | .record .. => true
  | _ => false

theorem guard_of_follows {s : MasterState} {b : Section} (h : Follows c k s a b) (ha : a.guards = false) :
    b.guard = 0 := by
  cases b with
  | record w n r pin =>
    cases h
    cases ha
  | store op =>
    cases op with
    | commitOutputs | dropOutputs =>
      cases h
      cases ha
    | _ => rfl
  | _ => rfl

omit [Host] in
theorem guards_dropGuard (pin : Option (List BlobId)) (w : Uuid) (n : Nat) (r : TaskResult) :
    ((dropGuard pin).map Section.guard).sum = (Section.record w n r pin).guard := by
  cases pin with
  | none => rfl
  | some ids => simp [dropGuard, Section.guard]

theorem guards_record (s : MasterState) (w : Uuid) (n : Nat) (r : TaskResult) (pin : Option (List BlobId)) :
    ((exec c k (.record w n r pin) s).code.map Section.guard).sum = (Section.record w n r pin).guard := by
  show ((recordedCode ⟨r.taskId, w, n⟩ r pin
    (s.queue.recordResultFrom w (some n) r c.clock).1).map Section.guard).sum = _
  unfold recordedCode
  split
  · next o ho =>
    split
    · exact guards_dropGuard pin w n r
    have hregistry : ∀ x : List Section, (∀ b ∈ x, b.guard = 0) → (x.map Section.guard).sum = 0 := by
      intro x hx
      refine List.sum_eq_zero fun y hy => ?_
      obtain ⟨b, hb, rfl⟩ := List.mem_map.mp hy
      exact hx b hb
    unfold afterRecord
    rw [List.cons_append, List.map_cons, List.sum_cons, List.map_append, List.sum_append, hregistry]
    · show 0 + (0 + _) = _
      rw [zero_add, zero_add]
      split
      · cases pin with
        | none | some => simp [Section.guard]
      · exact guards_dropGuard pin w n r
    intro b hb
    split at hb
    · rw [List.mem_singleton.mp hb]
      rfl
    split at hb
    · rw [List.mem_singleton.mp hb]
      rfl
    · cases hb
  · exact guards_dropGuard pin w n r

/-- The guards `rest` of the others stay covered when `a` runs. -/
theorem counted_exec {s : MasterState} {guards rest : Multiset BlobId} (h : s.store.Counted guards)
    (hrest : a.guard + rest ≤ guards) : ∃ guards', (exec c k a s).shared.store.Counted guards' ∧
      ((exec c k a s).code.map Section.guard).sum + rest ≤ guards' := by
  have hothers : rest ≤ guards := (Multiset.le_add_left _ _).trans hrest
  -- a section that brings no guard
  have hplain : (exec c k a s).shared.store.Counted guards → a.guards = false →
      ∃ guards', (exec c k a s).shared.store.Counted guards' ∧
        ((exec c k a s).code.map Section.guard).sum + rest ≤ guards' := by
    intro hcounted hguards
    have hzero : ((exec c k a s).code.map Section.guard).sum = 0 := by
      refine List.sum_eq_zero fun x hx => ?_
      obtain ⟨b, hb, rfl⟩ := List.mem_map.mp hx
      exact guard_of_follows (exec_follows c k s a b hb) hguards
    exact ⟨guards, hcounted, by rw [hzero, zero_add]; exact hothers⟩
  -- a guard that `a` gives up
  have hgives : ∀ ids : List BlobId, (ids : Multiset BlobId) + rest ≤ guards →
      ∃ kept, s.store.Counted (kept + ids) ∧ rest ≤ kept := by
    intro ids hle
    obtain ⟨extra, rfl⟩ := Multiset.le_iff_exists_add.mp hle
    refine ⟨rest + extra, ?_, Multiset.le_add_right _ _⟩
    rw [add_comm (rest + extra), ← add_assoc]
    exact h
  cases a with
  | pinOutputs w n r =>
    have hcounted := h.checkAndPinOutputs (r.outputs.map BlobFile.id)
    show ∃ guards', (s.pinOutputs w n r).shared.store.Counted guards' ∧
      ((s.pinOutputs w n r).code.map Section.guard).sum + rest ≤ guards'
    unfold pinOutputs
    split
    · exact ⟨guards, h, by simpa [next, Section.guard] using hothers⟩
    cases hcheck : s.store.checkAndPinOutputs (r.outputs.map BlobFile.id) with
    | mk result store =>
      rw [hcheck] at hcounted
      cases result with
      | ok ids =>
        refine ⟨guards + ids, hcounted, ?_⟩
        simp only [next, List.map_cons, List.map_nil, List.sum_cons, List.sum_nil, Section.guard, add_zero]
        rw [add_comm]
        exact Multiset.add_le_add_right hothers
      | error missing => exact ⟨guards, hcounted, by simpa [next, Section.guard] using hothers⟩
  | record w n r pin =>
    refine ⟨guards, h, ?_⟩
    rw [guards_record]
    exact hrest
  | pin task wait ids => exact hplain (h.pinTask _ _ _).1 rfl
  | store op =>
    cases op with
    | unpin t => exact hplain (h.unpinTask t).1 rfl
    | commitOutputs t ids =>
      obtain ⟨kept, hkept, hle⟩ := hgives ids hrest
      exact ⟨kept, (hkept.commitTerminal _ _ _ t).1, by simpa [exec, next] using hle⟩
    | dropOutputs ids =>
      obtain ⟨kept, hkept, hle⟩ := hgives ids hrest
      exact ⟨kept, hkept.dropGuard.1, by simpa [exec, next] using hle⟩
    | sweepOutputs => exact hplain (h.dropOutputPins _).1 rfl
    | index id size =>
      exact hplain ((BlobInner.Change.insert id size).samePins.counted h) rfl
    | evict keep => exact hplain ((BlobInner.samePins_removeAll _ _).counted h) rfl
  | _ =>
    refine hplain ?_ rfl
    rw [(exec_same c k _ s).store (by simp [Section.changes])]
    exact h

theorem Secured.counted_ran (hm : Secured m) (hruns : m.Runs l c k a) (haround : Around m l c k a others) :
    ∃ guards, (m.step l).shared.store.Counted guards ∧ ((m.step l).pending.map Section.guard).sum ≤ guards := by
  obtain ⟨guards, hcounted, hle⟩ := hm.counted
  rw [(haround.before.map Section.guard).sum_eq, List.map_cons, List.sum_cons] at hle
  rw [haround.guards, hruns.fires.shared]
  exact counted_exec hcounted hle

/-! ## Steps and runs -/

omit [Host] in
theorem begins_plain {a : Section} (h : m.Begins l k a) : (∀ t, a.claims t = false) ∧ a.guard = 0 := by
  cases h <;> exact ⟨fun _ => rfl, rfl⟩

theorem Secured.idle (hm : Secured m) (hran : m.ran l = none) : Secured (m.step l) := by
  obtain ⟨begun, hbegun, hsub⟩ := Master.step_idle hran
  have hstate : (m.step l).shared.queue = m.shared.queue ∧ (m.step l).shared.store = m.shared.store ∧
      (m.step l).shared.accepted = m.shared.accepted := by
    rcases m.step_shared l with ⟨c, k, a, hruns, -⟩ | ⟨_, _, _, _, -, hs⟩ | ⟨_, _, hs⟩
    · cases hran.symm.trans hruns.ran
    · rw [hs]
      exact ⟨rfl, rfl, rfl⟩
    · rw [hs]
      exact ⟨rfl, rfl, rfl⟩
  obtain ⟨hqueue, hstore, haccepted⟩ := hstate
  have hcount : ∀ t, (m.step l).pending.countP (Section.claims t) ≤ m.pending.countP (Section.claims t) := by
    intro t
    have hzero : begun.countP (Section.claims t) = 0 := by
      rw [List.countP_eq_zero]
      intro b hb
      obtain ⟨k, hbegins⟩ := hbegun b hb
      rw [(begins_plain hbegins).1 t]
      exact Bool.false_ne_true
    have hle := hsub.countP_le (p := Section.claims t)
    rw [List.countP_append, hzero] at hle
    exact hle
  have hmem : ∀ b ∈ (m.step l).pending, b ∈ m.pending ∨ ∃ k, m.Begins l k b := fun b hb =>
    (List.mem_append.mp (hsub.subset hb)).imp_right (hbegun b)
  refine ⟨fun t b hb hsubmits => ?_, fun t e he hopen => ?_, fun b hb => ?_, fun t e he hopen => ?_, ?_⟩
  · rcases hmem b hb with hold | ⟨k, hbegins⟩
    · obtain ⟨habsent, hone⟩ := hm.single t b hold hsubmits
      have hpos : 0 < (m.step l).pending.countP (Section.claims t) :=
        List.countP_pos_iff.mpr ⟨b, hb, Section.claims_of_submits hsubmits⟩
      have hle := hcount t
      exact ⟨by rw [hqueue]; exact habsent, by omega⟩
    · have hclaims := Section.claims_of_submits hsubmits
      rw [(begins_plain hbegins).1 t] at hclaims
      cases hclaims
  · rw [hqueue] at he
    have hle := hcount t
    have hzero := hm.untouched t e he hopen
    omega
  · rcases hmem b hb with hold | ⟨k, hbegins⟩
    · exact (hm.ready b hold).of_pins fun t _ => by rw [hstore]
    · cases hbegins <;> trivial
  · rw [hqueue] at he
    obtain ⟨ids, hids, hneeds, hpinned⟩ := hm.held t e he hopen
    exact ⟨ids, by rw [haccepted]; exact hids, hneeds, hpinned.of_pins (by rw [hstore])⟩
  obtain ⟨guards, hcounted, hle⟩ := hm.counted
  refine ⟨guards, by rw [hstore]; exact hcounted, ?_⟩
  have hzero : (begun.map Section.guard).sum = 0 := by
    refine List.sum_eq_zero fun x hx => ?_
    obtain ⟨b, hb, rfl⟩ := List.mem_map.mp hx
    obtain ⟨k, hbegins⟩ := hbegun b hb
    exact (begins_plain hbegins).2
  have hsum := (hsub.map Section.guard).sum_le_sum fun x _ => Multiset.zero_le x
  rw [List.map_append, List.sum_append, hzero, add_zero] at hsum
  exact hsum.trans hle

/-- **One step.** -/
theorem Secured.step (hm : Secured m) (hl : PinsApart m l) : Secured (m.step l) := by
  cases hran : m.ran l with
  | none => exact hm.idle hran
  | some b =>
    cases l with
    | advance i c =>
      obtain ⟨⟨k, a⟩, hnext, -⟩ := Option.map_eq_some_iff.mp hran
      have hruns : m.Runs (.advance i c) c k a := ⟨i, rfl, hnext⟩
      obtain ⟨others, haround⟩ := around_of_runs hruns
      exact ⟨hm.single_ran hl hruns haround, hm.untouched_ran hl hruns haround, hm.ready_ran hruns haround,
        hm.held_ran hl hruns haround, hm.counted_ran hruns haround⟩
    | _ => cases hran

end Step

theorem secured_init (config : MasterConfig) (queue : QueueConfig) : Secured (Master.init config queue) where
  single _ _ hb := absurd hb List.not_mem_nil
  untouched _ _ _ _ := rfl
  ready _ hb := absurd hb List.not_mem_nil
  held _ e he := absurd he (Option.some_ne_none e).symm
  counted := ⟨0, ⟨RefCount.represents_empty, RefCount.represents_empty⟩, Multiset.zero_le 0⟩

/-- **Input blobs stay pinned.**  In a run whose steps keep the pins of submissions apart, every unfinished
task has the blobs that were resolved for its inputs pinned, with a positive count. -/
theorem inputs_stay_pinned (config : MasterConfig) (queue : QueueConfig) (labels : List Label)
    (h : Within Master.step PinsApart (Master.init config queue) labels) :
    InputsPinned ((Master.init config queue).run labels).shared := by
  have hstep : ∀ m l, Secured m → PinsApart m l → Secured (m.step l) := fun _ _ hm hl => hm.step hl
  have hm : Secured ((Master.init config queue).run labels) := h.invariant hstep (secured_init config queue)
  exact hm.inputsPinned

end OxideSwarm

namespace OxideSwarm

/-! ## Two runs -/

section Concrete

attribute [local instance] Host.blank

instance (m : Master) (c : Choice) : ∀ a : Section, Decidable (a.pinsApart m c)
  | .known task _ => inferInstanceAs (Decidable ((m.shared.queue.tasks.get task.id).isNone = true →
      ∀ b ∈ m.pending, b.claims task.id = false))
  | .submit sub _ => inferInstanceAs (Decidable (sub.known = true →
      (m.shared.queue.tasks.get sub.task.id).isSome = true))
  | .sweepPin t pinnedAt => inferInstanceAs (Decidable ((m.shared.queue.tasks.get t).isNone = true →
      (∃ b ∈ m.pending, b.submits t = true) → c.clock.instant - pinnedAt ≤ blobSweepInterval))
  | .registry _ | .spawnSweep .. | .ack .. | .serve .. | .progress .. | .checkpoint .. | .unregister ..
  | .sweep .. | .hangUp _ | .reapScan | .reapWrite _ | .resolve .. | .resolveResult .. | .wake ..
  | .pinOutputs .. | .record .. | .giveBack _ | .oversized .. | .store _ | .cancel .. | .sendToWorker ..
  | .sendCancel .. | .admitBlobTask .. | .pin .. | .enrol _ | .pruneWaiters _ | .await .. | .waitKnown _ | .waitCheck _ | .waitLock _
  | .waitRecheck _ | .waitPush _ | .retries _ | .workers _ | .loads .. | .demand .. | .page _ | .commit _
  | .reserve _ | .channel _ | .deliver _ | .release _ | .rollback _ | .requeue _ | .pinned
  | .evictTasks _ => inferInstanceAs (Decidable True)

instance (m : Master) : ∀ l : Label, Decidable (PinsApart m l)
  | .advance i c => inferInstanceAs (Decidable (∀ x ∈ m.next? i, x.2.pinsApart m c))
  | .connect .. | .start _ | .abort _ | .dropWriter _ | .transmit .. => inferInstanceAs (Decidable True)

/-- Task 1 with one input file, blob 9 of 5 bytes. -/
def Task.reading : Task := { Task.echo 1 with inputs := [⟨"in", .file ⟨9⟩ 5 false⟩] }

/-- Every blob is there and has 5 bytes. -/
def Choice.seeing (now : Instant) : Choice :=
  { Choice.at now with readings := ⟨fun _ _ => some 5, fun _ => .error ""⟩ }

/-- Blob 9 is stored, and task 1 is submitted. -/
def pinnedRun : List Label :=
  .start (.storeBlob ⟨9⟩ 5) :: Label.advances 0 2 (.at 0) ++
    .start (.submitTask Task.reading false) :: Label.advances 1 4 (.seeing 1)

/-- Two clients submit task 1, and neither finds it in the queue.  The first is accepted, the second is
refused and takes the pins back. -/
def unpinnedRun : List Label :=
  .start (.storeBlob ⟨9⟩ 5) :: Label.advances 0 2 (.at 0) ++
    [.start (.submitTask Task.reading false), .start (.submitTask Task.reading false)] ++
    Label.advances 1 1 (.seeing 1) ++ Label.advances 2 1 (.seeing 1) ++
    Label.advances 1 3 (.seeing 2) ++ Label.advances 2 5 (.seeing 3)

/-- Whether task 1 is finished, the blobs it was accepted with, its pins, and the count of blob 9. -/
def Master.pinsOfTask (m : Master) :
    Option Bool × Option (List BlobId) × Option (Instant × List BlobId) × Option Nat :=
  ((m.shared.queue.tasks.get ⟨1⟩).map fun e => e.state.isTerminal, m.shared.accepted.get ⟨1⟩,
    m.shared.store.pins.get ⟨1⟩, m.shared.store.pinCounts.get ⟨9⟩)

theorem unpinned_of_pins {m : Master} (id : BlobId) (count : Option Nat)
    (h : m.pinsOfTask = (some false, some [id], none, count)) : ¬ InputsPinned m.shared := by
  intro hpinned
  simp only [Master.pinsOfTask, Prod.mk.injEq, Option.map_eq_some_iff] at h
  obtain ⟨⟨e, he, hopen⟩, haccepted, hpins, -⟩ := h
  obtain ⟨ids, hids, -, hall⟩ := hpinned ⟨1⟩ e he hopen
  cases haccepted.symm.trans hids
  obtain ⟨⟨pin, hpin, -⟩, -⟩ := hall id (List.mem_singleton_self id)
  cases hpins.symm.trans hpin

/-- **Pins can be lost**: task 1 waits in the queue, and nothing is pinned for it. -/
theorem pins_can_be_lost : ¬ InputsPinned ((Master.init .default (.small 10)).run unpinnedRun).shared :=
  unpinned_of_pins ⟨9⟩ none (by decide)

/-- With one submission, task 1 waits in the queue and blob 9 is pinned for it. -/
theorem inputs_stay_pinned_once : Within Master.step PinsApart (Master.init .default (.small 10)) pinnedRun ∧
    ((Master.init .default (.small 10)).run pinnedRun).pinsOfTask =
      (some false, some [⟨9⟩], some (1, [⟨9⟩]), some 1) ∧
    InputsPinned ((Master.init .default (.small 10)).run pinnedRun).shared := by
  have hwithin : Within Master.step PinsApart (Master.init .default (.small 10)) pinnedRun := by decide
  exact ⟨hwithin, by decide, inputs_stay_pinned _ _ _ hwithin⟩

end Concrete

end OxideSwarm
