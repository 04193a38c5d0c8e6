import OxideSwarm.Queue.Steps

/-!
# The failover sweep

`handle_session_disconnected` rewrites the entries of a lost connection first and brings the indexes
up to date afterwards, task by task: delayed retries, ready keys, then the tasks that failed.  In
between every swept task has left the assignment set and stands in no other index
(`Swept`); `sweepTasks_swept` establishes that for the first loop, whatever the order of the hash
set, and the three loops after it finish the work (`handleSessionDisconnected_evolves`).
-/

namespace OxideSwarm

open Std TaskQueueInner

variable [Host] {q : TaskQueueInner} {t : TaskId} {e : TaskEntry}

/-- The entry of a swept task `t` is where its fate says. -/
def TaskQueueInner.SweepFate.Fits (t : TaskId) (e : TaskEntry) : SweepFate → Prop
  | .ready k => e.state = .queued ∧ k = e.readyKey t
  | .delayed k => e.state = .retrying ∧ k.taskId = t
  | .failed => e.state.isTerminal

theorem sweepEntry_spec {p : RetryPolicy} {w : Uuid} {reason : String} {immediate : Bool}
    {clock : Clock} {e' : TaskEntry} {fate : SweepFate} (hok : EntryOk t e) (hact : e.state.isActive)
    (h : sweepEntry p e t w reason immediate clock = (e', fate)) : Move t e e' ∧ fate.Fits t e' := by
  have hterm := not_terminal_of_active hact
  unfold sweepEntry at h
  dsimp only at h
  split at h
  · split at h
    · cases h
      exact ⟨Or.inr ⟨hterm, hok.waiting hterm rfl (.inl rfl) rfl rfl rfl, hok.to_queued hterm⟩, rfl, rfl⟩
    · cases h
      exact ⟨Or.inr ⟨hterm, hok.waiting hterm rfl (.inr rfl) rfl rfl rfl,
        Or.inr (active_to_retrying hact)⟩, rfl, rfl⟩
  · cases h
    exact ⟨Or.inr ⟨hterm, hok.finished rfl rfl rfl, Or.inr (hok.to_terminal hterm (Or.inl rfl))⟩, rfl⟩

omit [Host] in
theorem sweeps_iff {w : Uuid} {session : Option Nat} :
    sweeps w session e ↔ e.state.isActive ∧ e.assignedWorkerId = some w ∧
      ∀ swept assigned, session = some swept → e.assignedSession = some assigned → assigned ≤ swept := by
  unfold sweeps
  cases session <;> cases e.assignedSession <;> simp [and_assoc]

/-- The queue `q'` between the first loop of a sweep and the index updates: the tasks of `fates`
were rewritten and unassigned, the others are as in `q`. -/
structure Swept (q q' : TaskQueueInner) (w : Uuid) (session : Option Nat) (reason : String)
    (immediate : Bool) (clock : Clock) (fates : List (TaskId × SweepFate)) : Prop where
  nodup : (fates.map Prod.fst).Nodup
  policy : q'.retryPolicy = q.retryPolicy
  other : ∀ u, u ∉ fates.map Prod.fst → facet q' u = facet q u
  swept : ∀ u fate, (u, fate) ∈ fates → ∃ e e', q.tasks.get u = some e ∧ sweeps w session e ∧
    sweepEntry q.retryPolicy e u w reason immediate clock = (e', fate) ∧
    facet q' u = { facet q u with entry := some e', holders := (facet q u).holders \ {w} }

theorem sweepTasks_swept (w : Uuid) (session : Option Nat) (reason : String) (immediate : Bool)
    (clock : Clock) (l : List TaskId) : ∀ q : TaskQueueInner, l.Nodup →
      Swept q (sweepTasks w session reason immediate clock l q).2 w session reason immediate clock
        (sweepTasks w session reason immediate clock l q).1 ∧
      ∀ f ∈ (sweepTasks w session reason immediate clock l q).1, f.1 ∈ l := by
  induction l with
  | nil =>
    intro q _
    exact ⟨⟨List.nodup_nil, rfl, fun _ _ => rfl, fun _ _ h => absurd h List.not_mem_nil⟩,
      List.forall_mem_nil _⟩
  | cons t rest ih =>
    intro q hnodup
    obtain ⟨hnot, hrest⟩ := List.nodup_cons.mp hnodup
    unfold sweepTasks
    cases h : q.tasks.get t with
    | none =>
      obtain ⟨hs, hmem⟩ := ih q hrest
      exact ⟨hs, fun f hf => List.mem_cons_of_mem _ (hmem f hf)⟩
    | some e =>
      dsimp only
      split
      · next hsweeps =>
        -- `t` is rewritten; the rest of the loop does not come back to it
        generalize hse : sweepEntry q.retryPolicy e t w reason immediate clock = s
        obtain ⟨e', fate⟩ := s
        obtain ⟨hs, hmem⟩ := ih ((q.unassign w t).setEntry t e') hrest
        generalize hrun : sweepTasks w session reason immediate clock rest
          ((q.unassign w t).setEntry t e') = out at hs hmem
        obtain ⟨fates, q'⟩ := out
        dsimp only at hs hmem ⊢
        have hfresh : t ∉ fates.map Prod.fst := by
          intro ht
          obtain ⟨f, hf, rfl⟩ := List.mem_map.mp ht
          exact hnot (hmem f hf)
        have hpolicy : ((q.unassign w t).setEntry t e').retryPolicy = q.retryPolicy := by
          unfold setEntry unassign
          split <;> rfl
        have hne : ∀ u, u ≠ t → facet ((q.unassign w t).setEntry t e') u = facet q u := by
          intro u hu
          rw [facet_setEntry, if_neg hu, facet_unassign, if_neg hu]
        refine ⟨⟨?_, hs.policy.trans hpolicy, ?_, ?_⟩, ?_⟩
        · rw [List.map_cons]
          exact List.nodup_cons.mpr ⟨hfresh, hs.nodup⟩
        · intro u hu
          rw [List.map_cons, List.mem_cons, not_or] at hu
          rw [hs.other u hu.2, hne u hu.1]
        · intro u fate' hu
          rcases List.mem_cons.mp hu with hhead | htail
          · cases hhead
            refine ⟨e, e', h, hsweeps, hse, ?_⟩
            rw [hs.other t hfresh, facet_setEntry, if_pos rfl, facet_unassign, if_pos rfl]
          have hut : u ≠ t := by
            rintro rfl
            exact hfresh (List.mem_map.mpr ⟨_, htail, rfl⟩)
          obtain ⟨e1, e1', hget, hsw, hse', hf⟩ := hs.swept u fate' htail
          rw [hpolicy] at hse'
          rw [hne u hut] at hf
          exact ⟨e1, e1', (get_congr (hne u hut)).symm.trans hget, hsw, hse', hf⟩
        intro f hf
        rcases List.mem_cons.mp hf with rfl | hf
        · exact List.mem_cons_self
        · exact List.mem_cons_of_mem _ (hmem f hf)
      · obtain ⟨hs, hmem⟩ := ih q hrest
        exact ⟨hs, fun f hf => List.mem_cons_of_mem _ (hmem f hf)⟩

/-! ## The index updates -/

/-- The tasks of `fates` that failed. -/
def failures (fates : List (TaskId × SweepFate)) : Set TaskId := {u | (u, SweepFate.failed) ∈ fates}

/-- The tasks of a sweep that failed, in the order of the sweep. -/
def failedTasks (fates : List (TaskId × SweepFate)) : List TaskId :=
  (fates.filter fun f => f.2 == .failed).map Prod.fst

/-- The ready keys of task `u` in `fates`. -/
def readies (fates : List (TaskId × SweepFate)) (u : TaskId) : Set QueueOrderKey :=
  {k | (u, SweepFate.ready k) ∈ fates}

section

omit [Host]

theorem facet_insertDelays (fates : List (TaskId × SweepFate)) :
    ∀ (q : TaskQueueInner) (u : TaskId), facet (insertDelays fates q) u = facet q u := by
  induction fates with
  | nil => intro q u; rfl
  | cons f rest ih =>
    intro q u
    obtain ⟨v, fate⟩ := f
    refine (ih _ u).trans ?_
    cases fate <;> simp

/-- The second loop adds to each task the ready keys made for it. -/
theorem facet_insertReadies (fates : List (TaskId × SweepFate)) :
    ∀ q : TaskQueueInner, (∀ u k, (u, SweepFate.ready k) ∈ fates → k.taskId = u) → ∀ u,
      facet (insertReadies fates q) u =
        { facet q u with ready := (facet q u).ready ∪ readies fates u } := by
  induction fates with
  | nil => intro q _ u; simp [insertReadies, readies]
  | cons f rest ih =>
    intro q hkey u
    obtain ⟨v, fate⟩ := f
    have hkey' : ∀ u k, (u, SweepFate.ready k) ∈ rest → k.taskId = u :=
      fun u k hk => hkey u k (List.mem_cons_of_mem _ hk)
    refine (ih _ hkey' u).trans ?_
    cases fate with
    | ready k =>
      have hv : k.taskId = v := hkey v k List.mem_cons_self
      simp only [facet_updateActiveTask, facet_insertReady, hv]
      by_cases hu : u = v
      · subst hu
        have hset : readies ((u, .ready k) :: rest) u = insert k (readies rest u) := by
          ext k'; simp [readies]
        rw [if_pos rfl, hset]
        simp only [Set.insert_union, Set.union_insert]
      · have hset : readies ((v, .ready k) :: rest) u = readies rest u := by
          ext k'; simp [readies, hu]
        rw [if_neg hu, hset]
    | delayed | failed => simp [readies]

theorem failures_cons_failed {t : TaskId} {rest : List (TaskId × SweepFate)} (hfresh : t ∉ rest.map Prod.fst) :
    failures ((t, .failed) :: rest) \ {t} = failures rest := by
  have hnot : t ∉ failures rest := fun ht => hfresh (List.mem_map.mpr ⟨_, ht, rfl⟩)
  have hins : failures ((t, .failed) :: rest) = insert t (failures rest) := by
    ext u
    simp [failures]
  rw [hins, Set.insert_sdiff_self_of_notMem hnot]

theorem mem_failedTasks {fates : List (TaskId × SweepFate)} : t ∈ failedTasks fates ↔ t ∈ failures fates := by
  simp [failedTasks, failures]

/-- The third loop tracks the failed tasks one after the other, each while it is pending. -/
theorem trackFailures_loop {q : TaskQueueInner} {P : TaskQueueInner → List TaskId → Prop}
    (hstep : ∀ {q1 : TaskQueueInner} {F : Set TaskId} {t : TaskId} {rest : List TaskId}, Evolving q q1 F → t ∈ F →
      P q1 (t :: rest) → P (q1.trackTerminalTask t) rest) (fates : List (TaskId × SweepFate)) :
    ∀ {q1 : TaskQueueInner}, (fates.map Prod.fst).Nodup → Evolving q q1 (failures fates) → P q1 (failedTasks fates) →
      Evolving q (trackFailures fates q1) ∅ ∧ P (trackFailures fates q1) [] := by
  induction fates with
  | nil =>
    intro q1 _ h hP
    have hempty : failures [] = ∅ := by simp [failures]
    exact ⟨hempty ▸ h, hP⟩
  | cons f rest ih =>
    intro q1 hnodup h hP
    rw [List.map_cons, List.nodup_cons] at hnodup
    obtain ⟨hfresh, hrest⟩ := hnodup
    obtain ⟨t, fate⟩ := f
    cases fate with
    | failed =>
      have htracked := h.track (t := t) List.mem_cons_self
      rw [failures_cons_failed hfresh] at htracked
      exact ih hrest htracked (hstep h List.mem_cons_self hP)
    | ready k =>
      have hset : failures ((t, .ready k) :: rest) = failures rest := by simp [failures]
      exact ih hrest (hset ▸ h) hP
    | delayed k =>
      have hset : failures ((t, .delayed k) :: rest) = failures rest := by simp [failures]
      exact ih hrest (hset ▸ h) hP

/-- A failed task that is pending has no size yet. -/
theorem Evolving.pending_unsized {q q1 : TaskQueueInner} {F : Set TaskId} {t : TaskId} (h : Evolving q q1 F) (ht : t ∈ F) :
    ∃ e, q1.tasks.get t = some e ∧ e.state.isTerminal ∧ q1.terminalSizes.get t = none := by
  obtain ⟨e, hterm, hfacet⟩ := h.pending t ht
  have hsized := congrArg Facet.sized hfacet
  exact ⟨e, congrArg Facet.entry hfacet, hterm, by simpa [facet, Facet.untracked] using hsized⟩

end

section

variable {q' : TaskQueueInner} {w : Uuid} {session : Option Nat} {reason : String}
  {immediate : Bool} {clock : Clock} {fates : List (TaskId × SweepFate)}

/-- A swept task moved legally and stands in no index. -/
theorem Swept.spec (hq : Coherent q) (h : Swept q q' w session reason immediate clock fates)
    {u : TaskId} {fate : SweepFate} (hu : (u, fate) ∈ fates) :
    ∃ e e', q.tasks.get u = some e ∧ Move u e e' ∧ facet q' u = Facet.untracked e' ∧ fate.Fits u e' := by
  obtain ⟨e, e', hget, hsw, hse, hf⟩ := h.swept u fate hu
  obtain ⟨hact, hw, -⟩ := sweeps_iff.mp hsw
  obtain ⟨hmove, hfate⟩ := sweepEntry_spec (hq.entries u e hget) hact hse
  refine ⟨e, e', hget, hmove, ?_, hfate⟩
  rw [hf, hq.facet_of_get hget, Facet.of_active hact hw]
  simp [Facet.untracked]

theorem Swept.fate_unique (h : Swept q q' w session reason immediate clock fates) {u : TaskId}
    {f f' : SweepFate} (hf : (u, f) ∈ fates) (hf' : (u, f') ∈ fates) : f = f' := by
  have hinj := (List.nodup_map_iff_inj_on (List.Nodup.of_map _ h.nodup)).mp h.nodup
  exact congrArg Prod.snd (hinj _ hf _ hf' rfl)

/-- A swept task was unfinished; it is finished now if it failed, and then has a result. -/
theorem Swept.entry (h : Swept q q' w session reason immediate clock fates) {u : TaskId} {fate : SweepFate}
    (hu : (u, fate) ∈ fates) :
    ∃ e e', q.tasks.get u = some e ∧ e.state.isTerminal = false ∧ q'.tasks.get u = some e' ∧
      (fate = .failed ↔ e'.state.isTerminal) ∧ (fate = .failed → e'.result.isSome) := by
  obtain ⟨e, e', hget, hsw, hse, hf⟩ := h.swept u fate hu
  refine ⟨e, e', hget, not_terminal_of_active (sweeps_iff.mp hsw).1, congrArg Facet.entry hf, ?_⟩
  unfold sweepEntry at hse
  dsimp only at hse
  split at hse
  · split at hse <;> cases hse <;> exact ⟨⟨nofun, nofun⟩, nofun⟩
  · cases hse
    exact ⟨⟨fun _ => rfl, fun _ => rfl⟩, fun _ => rfl⟩

/-- After the ready keys are in, only the failed tasks are untracked. -/
theorem Swept.evolving (hq : Coherent q) (h : Swept q q' w session reason immediate clock fates) :
    Evolving q (insertReadies fates (insertDelays fates (q'.dropEmptyAssignments w))) (failures fates) := by
  have hkey : ∀ u k, (u, SweepFate.ready k) ∈ fates → k.taskId = u := by
    intro u k hu
    obtain ⟨e, e', -, -, -, -, hk⟩ := h.spec hq hu
    rw [hk]; rfl
  have hbase : ∀ u, facet (insertReadies fates (insertDelays fates (q'.dropEmptyAssignments w))) u =
      { facet q' u with ready := (facet q' u).ready ∪ readies fates u } := by
    intro u
    rw [facet_insertReadies fates _ hkey, facet_insertDelays, facet_dropEmptyAssignments]
  generalize insertReadies fates (insertDelays fates (q'.dropEmptyAssignments w)) = q2 at hbase ⊢
  have hother : ∀ u, u ∉ fates.map Prod.fst → facet q2 u = facet q u := by
    intro u hu
    have hset : readies fates u = ∅ := by
      rw [Set.eq_empty_iff_forall_notMem]
      exact fun k hk => hu (List.mem_map.mpr ⟨_, hk, rfl⟩)
    rw [hbase u, hset, Set.union_empty, h.other u hu]
  have hready : ∀ u f, (u, f) ∈ fates → (∀ k, f ≠ .ready k) → readies fates u = ∅ := by
    intro u f hu hne
    rw [Set.eq_empty_iff_forall_notMem]
    exact fun k hk => hne k (h.fate_unique hu hk)
  -- the facet of a swept task, by its fate
  have hswept : ∀ u f, (u, f) ∈ fates → f ≠ .failed →
      ∃ e e', q.tasks.get u = some e ∧ Move u e e' ∧ facet q2 u = Facet.of u (some e') := by
    intro u f hu hne
    obtain ⟨e, e', hget, hmove, hun, hfate⟩ := h.spec hq hu
    refine ⟨e, e', hget, hmove, ?_⟩
    rw [hbase u, hun]
    cases f with
    | failed => exact absurd rfl hne
    | ready k =>
      have hset : readies fates u = {k} := by
        ext k'
        constructor
        · intro hk'
          cases h.fate_unique hu hk'
          rfl
        · rintro rfl
          exact hu
      rw [hset, Facet.of_queued hfate.1, ← hfate.2]
      simp [Facet.untracked]
    | delayed k =>
      rw [hready u _ hu (by rintro _ ⟨⟩), Facet.of_retrying hfate.1]
      simp [Facet.untracked]
  have hfailed : ∀ u ∈ failures fates,
      ∃ e e', q.tasks.get u = some e ∧ Move u e e' ∧ e'.state.isTerminal ∧ facet q2 u = Facet.untracked e' := by
    intro u hu
    obtain ⟨e, e', hget, hmove, hun, hfate⟩ := h.spec hq hu
    refine ⟨e, e', hget, hmove, hfate, ?_⟩
    rw [hbase u, hun, hready u _ hu (by rintro _ ⟨⟩)]
    simp [Facet.untracked]
  refine ⟨fun u => ?_, fun u hu => ?_, fun u hu => ?_⟩
  · by_cases hm : u ∈ fates.map Prod.fst
    · obtain ⟨⟨v, f⟩, hf, rfl⟩ := List.mem_map.mp hm
      by_cases hfail : f = .failed
      · subst hfail
        obtain ⟨e, e', hget, hmove, -, hfin⟩ := hfailed v hf
        have hget' : q2.tasks.get v = some e' := congrArg Facet.entry hfin
        rw [hget, hget']; exact .move hmove
      · obtain ⟨e, e', hget, hmove, hfin⟩ := hswept v f hf hfail
        rw [hget, get_of_facet hfin]; exact .move hmove
    · rw [get_congr (hother u hm)]
      exact .refl u _
  · by_cases hm : u ∈ fates.map Prod.fst
    · obtain ⟨⟨v, f⟩, hf, rfl⟩ := List.mem_map.mp hm
      have hne : f ≠ .failed := by rintro rfl; exact hu hf
      obtain ⟨e, e', -, -, hfin⟩ := hswept v f hf hne
      rw [get_of_facet hfin]; exact hfin
    · rw [get_congr (hother u hm), hother u hm]
      exact hq.facets u
  · obtain ⟨e, e', -, -, hterm, hfin⟩ := hfailed u hu
    exact ⟨e', hterm, hfin⟩

end

theorem handleSessionDisconnected_evolves (hq : Coherent q) (w : Uuid) (session : Option Nat)
    (reason : String) (immediate : Bool) (order : SetOrder TaskId) (clock : Clock) :
    Evolving q (q.handleSessionDisconnected w session reason immediate order clock).2 ∅ := by
  obtain ⟨hs, -⟩ := sweepTasks_swept w session reason immediate clock
    (order.list (q.sweptCandidates w)) q (order.nodup _)
  exact (trackFailures_loop (P := fun _ _ => True) (fun _ _ h => h) _ hs.nodup (hs.evolving hq) trivial).1

end OxideSwarm
