import OxideSwarm.Master.Flow

/-!
# No stranded task

A task that is scheduled or running on session `n` of worker `w` is accounted for (`Accounted`) if that
session is live, or if somebody still has to deal with the task: the dispatch that has not reserved its
slot, a failover sweep that covers `n`, or a connection handler that owes such a sweep.

* `Unstranded` is the invariant: every active task is accounted for.
* `Orderly` is the condition on a step: a worker does not report progress over a dead session on a task
  whose dispatch has not reserved its slot, and no connection task is cancelled between its unregistering
  and its sweep.
* `no_stranded_task`: in a run of orderly steps, when no dispatch and no sweep is left, every active task
  is on a live session.
* `tasks_can_strand` shows a run for each half of the condition.
-/

namespace OxideSwarm

open TaskQueueInner WorkerRegistryInner MasterState

/-! ## A commit dispatches what it schedules -/

section Commit

variable (now : Instant)

theorem scheduleBatchInner_ids (l : List (TaskId × Uuid × Option Nat)) :
    ∀ (q : TaskQueueInner), ∀ t ∈ (scheduleBatchInner now l q).1.map Prod.fst,
      ∃ e, q.tasks.get t = some e ∧ e.state = .queued := by
  induction l with
  | nil => exact fun q t ht => absurd ht List.not_mem_nil
  | cons x rest ih =>
    obtain ⟨u, w, n⟩ := x
    intro q t ht
    change t ∈ ((q.scheduleOne u w n now).1.toList ++
      (scheduleBatchInner now rest (q.scheduleOne u w n now).2).1).map Prod.fst at ht
    rw [List.map_append, List.mem_append] at ht
    rcases scheduleOne_entries q u w n now with ⟨hone, htasks, -⟩ | ⟨e, he, hqueued, hone, htasks⟩
    · rw [hone] at ht
      obtain ⟨e, he, hq⟩ := ih _ t (ht.resolve_left List.not_mem_nil)
      exact ⟨e, by rw [← htasks]; exact he, hq⟩
    rw [hone] at ht
    rcases ht with hhead | hrest
    · rw [show t = u by simpa using hhead]
      exact ⟨e, he, hqueued⟩
    obtain ⟨e1, he1, hq1⟩ := ih _ t hrest
    rw [htasks, FMap.get_set] at he1
    split at he1
    · cases he1
      cases hq1
    · exact ⟨e1, he1, hq1⟩

theorem assignments_of_batch (triples : List (TaskId × Uuid × Nat)) :
    ∀ (q : TaskQueueInner) (u : TaskId) (e' : TaskEntry),
      (q.scheduleTasksBatchInSessions triples now).2.tasks.get u = some e' → q.tasks.get u = some e' ∨
      ∃ e a, a ∈ assignmentsOf ((q.scheduleTasksBatchInSessions triples now).1.map Prod.fst) triples ∧
        a.taskId = u ∧ e' = scheduledEntry e a.workerId (some a.sessionId) now := by
  induction triples with
  | nil => exact fun q u e' h => Or.inl h
  | cons x rest ih =>
    obtain ⟨t, w, n⟩ := x
    intro q u e' h
    change (TaskQueueInner.scheduleTasksBatchInSessions (q.scheduleOne t w (some n) now).2 rest
      now).2.tasks.get u = some e' at h
    have hids : (q.scheduleTasksBatchInSessions ((t, w, n) :: rest) now).1 =
        (q.scheduleOne t w (some n) now).1.toList ++
          ((q.scheduleOne t w (some n) now).2.scheduleTasksBatchInSessions rest now).1 := rfl
    rw [hids]
    have hrest := ih _ u e' h
    have hqueued := scheduleBatchInner_ids now (rest.map fun a => (a.1, a.2.1, some a.2.2))
      (q.scheduleOne t w (some n) now).2 t
    rcases scheduleOne_entries q t w (some n) now with ⟨hone, htasks, hnot⟩ | ⟨e, he, hq, hone, htasks⟩
    · -- nothing was scheduled, and `t` is not scheduled later in the batch either
      rw [hone, assignmentsOf, if_neg]
      · rw [htasks] at hrest
        exact hrest
      intro hmem
      obtain ⟨e, he, hq⟩ := hqueued hmem
      rw [htasks] at he
      exact hnot e he hq
    have hfresh : t ∉ ((q.scheduleOne t w (some n) now).2.scheduleTasksBatchInSessions rest
        now).1.map Prod.fst := by
      intro hmem
      obtain ⟨e1, he1, hq1⟩ := hqueued hmem
      rw [htasks, FMap.get_set, if_pos rfl] at he1
      cases he1
      cases hq1
    have hfilter : ∀ ids : List TaskId, t ∉ ids → (t :: ids).filter (fun u => u ≠ t) = ids := by
      intro ids hids
      rw [List.filter_cons_of_neg (by simp), List.filter_eq_self]
      intro v hv
      simpa using fun hvt : v = t => hids (hvt ▸ hv)
    rw [hone, Option.toList_some, List.singleton_append, List.map_cons, assignmentsOf,
      if_pos List.mem_cons_self, hfilter _ hfresh]
    rcases hrest with hsame | ⟨e1, a, ha, hid, heq⟩
    · rw [htasks, FMap.get_set] at hsame
      split at hsame
      · next hu =>
        cases hsame
        exact .inr ⟨e, ⟨t, w, n⟩, List.mem_cons_self, hu.symm, rfl⟩
      · exact .inl hsame
    · exact .inr ⟨e1, a, List.mem_cons_of_mem _ ha, hid, heq⟩

end Commit

variable [Host]

/-! ## Where sections run -/

/-- The sections a connection's writer can come to. -/
def Section.written : Section → Bool
  | .oversized .. | .giveBack _ | .store _ | .wake .. => true
  | _ => false

def Owner.isWriter : Owner → Bool
  | .writer _ => true
  | _ => false

variable {a : Section} {c : Choice} {k : Owner}

theorem follows_written {s : MasterState} {b : Section} (h : s.Follows c k a b)
    (ha : a.written = true) : b.written = true := by
  cases a with
  | oversized a size => cases h <;> rfl
  | giveBack | store => cases h
  | wake t r =>
    cases h
    rfl
  | _ => cases ha

/-- Handler `h` registered worker `w` and superseded session `b`. -/
structure Supersedes (r : WorkerRegistryInner) (w : Uuid) (b h : Nat) : Prop where
  older : b < h
  issued : h < r.nextSessionId
  worker : ∀ u e, r.workers.get u = some e → e.sessionId = h → u = w

/-- Which task a section may be in. -/
structure Placed (r : WorkerRegistryInner) (k : Owner) (a : Section) : Prop where
  written : k.isWriter = true → a.written = true
  superseding : ∀ w b, a = .spawnSweep w b → ∃ h, k = .handler h ∧ Supersedes r w b h

omit [Host] in
theorem placed_plain {r : WorkerRegistryInner} (hk : k.isWriter = false)
    (hs : ∀ w b, a ≠ .spawnSweep w b) : Placed r k a :=
  ⟨fun h => (Bool.false_ne_true (hk.symm.trans h)).elim, fun w b h => (hs w b h).elim⟩

/-! ## What registrations and disconnects keep -/

theorem aborting_step {m : Master} (l : Label) (hr : m.shared.registry.Registered)
    (h : ∀ n ∈ m.shared.aborting, n < m.shared.registry.nextSessionId) :
    ∀ n ∈ (m.step l).shared.aborting, n < (m.step l).shared.registry.nextSessionId := by
  intro n hn
  refine Nat.lt_of_lt_of_le ?_ (m.next_le_step l)
  have hhandle : ∀ w e, m.shared.registry.workers.get w = some e → e.abortHandle = some n →
      n < m.shared.registry.nextSessionId := by
    intro w e he hc
    obtain ⟨hlt, hown⟩ := hr w e he
    rw [(hown n hc).1]
    exact hlt
  rcases m.step_shared l with ⟨c, k, a, -, hfires⟩ | ⟨w, caps, features, now, -, hs⟩ | ⟨_, _, hs⟩
  · rw [hfires.shared] at hn
    rcases exec_aborting c k m.shared a hn with hold | ⟨w, e, he, hc, -⟩
    · exact h n hold
    · exact hhandle w e he hc
  · rw [hs] at hn
    rcases Finset.mem_union.mp hn with hold | hnew
    · exact h n hold
    · obtain ⟨e, he, hc⟩ := registerSession_aborted _ _ _ _ _ _ _ (Option.mem_toFinset.mp hnew)
      exact hhandle w e he hc
  · rw [hs] at hn
    exact h n hn

theorem Supersedes.step {m : Master} {w : Uuid} {b h : Nat} (hs : Supersedes m.shared.registry w b h)
    (l : Label) : Supersedes (m.step l).shared.registry w b h := by
  refine ⟨hs.older, Nat.lt_of_lt_of_le hs.issued (m.next_le_step l), fun u e' he' hsession => ?_⟩
  rcases m.step_registry l with ⟨c, k, a, -, htended⟩ | ⟨v, caps, features, now, -, hreg, -⟩ | ⟨hreg, -⟩
  · obtain ⟨e, he, hkept | ⟨-, hkept, -⟩⟩ := htended.known u e' he'
    · exact hs.worker u e he (hkept.session.symm.trans hsession)
    · exact hs.worker u e he (hkept.symm.trans hsession)
  · obtain ⟨e1, hnext, -, -, -, heq⟩ := registerSession_get m.shared.registry v caps features
      (some m.shared.registry.nextSessionId) (some m.shared.registry.nextSessionId) now
    rw [hreg, Master.registration, heq, FMap.get_set] at he'
    split at he'
    · cases he'
      -- the new session is not the one of the superseding handler
      have := hs.issued
      omega
    · exact hs.worker u e' he' hsession
  · rw [hreg] at he'
    exact hs.worker u e' he' hsession

theorem supersedes_connect {m : Master} (hr : m.shared.registry.Registered) {w : Uuid}
    {caps : WorkerCapabilities} {features : ProtocolCapabilities} {now : Instant} {old : Nat}
    (h : (m.registration w caps features now).1.1.supersededSession = some old) :
    Supersedes (m.step (.connect w caps features now)).shared.registry w old m.shared.registry.nextSessionId := by
  obtain ⟨e', hnext, -, -, -, heq⟩ := registerSession_get m.shared.registry w caps features
    (some m.shared.registry.nextSessionId) (some m.shared.registry.nextSessionId) now
  have hreg : (m.step (.connect w caps features now)).shared.registry =
      { workers := m.shared.registry.workers.set w e', nextSessionId := _ + 1 } := heq
  obtain ⟨e, he, hold, -⟩ := (registerSession_superseded ..).mp h
  rw [hreg]
  refine ⟨by rw [← hold]; exact (hr w e he).1, Nat.lt_succ_self _, fun u e1 he1 hsession => ?_⟩
  rw [FMap.get_set] at he1
  split at he1
  · next hu => exact hu
  · have := (hr u e1 he1).1
    omega

theorem placed_step {m : Master} (l : Label) (hr : m.shared.registry.Registered)
    (h : m.All (Placed m.shared.registry)) : (m.step l).All (Placed (m.step l).shared.registry) := by
  refine Master.step_all h (fun k a ha => ?_) (fun k a hbegins => ?_)
    (fun c k a b hruns ha hfollows => ?_) (fun c k a t hruns ha hstarts b hb => ?_)
  · refine ⟨ha.written, fun w b hab => ?_⟩
    obtain ⟨n, hk, hs⟩ := ha.superseding w b hab
    exact ⟨n, hk, hs.step l⟩
  · cases hbegins with
    | spawnSweep superseded =>
      refine ⟨nofun, fun w b hab => ?_⟩
      cases hab
      exact ⟨_, rfl, supersedes_connect hr superseded⟩
    | oversized mem => exact ⟨fun _ => rfl, nofun⟩
    | _ => exact placed_plain rfl nofun
  · refine ⟨fun hk => follows_written hfollows (ha.written hk), fun w n hb => ?_⟩
    subst hb
    cases hfollows
  cases hstarts with
  | supersede | result =>
    rw [List.mem_singleton.mp hb]
    exact placed_plain rfl nofun

/-! ## The invariant -/

/-- The assignment whose dispatch will end in a reserved slot or put the task back. -/
def Section.dispatches : Section → Option Assignment
  | .reserve a => some a
  | .requeue a => some a
  | _ => none

def Section.isSweep : Section → Bool
  | .sweep .. => true
  | _ => false

/-- A sweep that covers session `n` of `w`. -/
def Sweeping (w : Uuid) (n : Nat) (k : Owner) (a : Section) : Prop :=
  k.isWriter = false ∧ ∃ b reason immediate, a = .sweep w b reason immediate ∧ n ≤ b

/-- A handler that is not being cancelled and owes such a sweep. -/
def Owing (aborting : Finset Nat) (w : Uuid) (n : Nat) (k : Owner) (a : Section) : Prop :=
  ∃ h b, k = .handler h ∧ h ∉ aborting ∧ a = .spawnSweep w b ∧ n ≤ b

/-- Who deals with task `t`, which is active on session `n` of `w`. -/
inductive Accounted (m : Master) (t : TaskId) (state : TaskState) (w : Uuid) (n : Nat) : Prop where
  | live (h : m.shared.registry.Live w n)
  | dispatching (scheduled : state = .scheduled)
      (h : m.Has fun k a => k = .detached ∧ a.dispatches = some ⟨t, w, n⟩)
  | swept (h : m.Has (Sweeping w n))
  | owed (h : m.Has (Owing m.shared.aborting w n))

/-- The entry is active on session `n` of `w`. -/
structure ActiveOn (e : TaskEntry) (w : Uuid) (n : Nat) : Prop where
  active : e.state.isActive = true
  worker : e.assignedWorkerId = some w
  session : e.assignedSession = some n

/-- Every active task is accounted for. -/
structure Unstranded (m : Master) : Prop where
  registered : m.shared.registry.Registered
  aborting : ∀ n ∈ m.shared.aborting, n < m.shared.registry.nextSessionId
  placed : m.All (Placed m.shared.registry)
  detached : m.All Detached
  accounted : ∀ t e w n, m.shared.queue.tasks.get t = some e → ActiveOn e w n →
    Accounted m t e.state w n

/-- The progress report the step applies. -/
def Master.progresses (m : Master) : Label → Option Assignment
  | .advance i _ =>
    match m.next? i with
    | some (_, .progress w n t) => some ⟨t, w, n⟩
    | _ => none
  | _ => none

/-- The condition on a step: progress is not reported over a dead session on a task that is still being
dispatched to it, and the step does not cancel a task that has a sweep to run. -/
def Orderly (m : Master) (l : Label) : Prop :=
  (∀ a ∈ m.progresses l, m.shared.registry.Live a.workerId a.sessionId ∨
    ∀ b ∈ m.pending, b.dispatches ≠ some a) ∧
  m.All fun k a => a.isSweep = true → m.kills l k = false

/-! ## One step -/

section Step

variable {m : Master} {l : Label} {t : TaskId} {state : TaskState} {w : Uuid} {n : Nat}

theorem sweeping_of_disconnects (hplaced : m.All (Placed m.shared.registry)) (hruns : m.Runs l c k a) {h : Nat} (hd : (w, h) ∈ disconnects c k m.shared a)
    (hn : n ≤ h) : (m.step l).Has (Sweeping w n) := by
  have hk : k.isWriter = false := by
    by_contra hk
    have hwritten := (hruns.fires.all_head hplaced).written (by simpa using hk)
    cases a with
    | unregister | reapWrite => cases hwritten
    | _ => cases hd
  obtain ⟨reason, immediate, hmem⟩ := disconnects_sweep c k m.shared hd
  exact hruns.fires.has_code hmem ⟨hk, h, reason, immediate, rfl, hn⟩

theorem owing_of_superseded (hr : m.shared.registry.Registered)
    (hab : ∀ n ∈ m.shared.aborting, n < m.shared.registry.nextSessionId) {caps : WorkerCapabilities}
    {features : ProtocolCapabilities} {now : Instant} {h : Nat} (hlive : m.shared.registry.Live w h)
    (hn : n ≤ h) : (m.step (.connect w caps features now)).Has
      (Owing (m.step (.connect w caps features now)).shared.aborting w n) := by
  have hsup : (m.registration w caps features now).1.1.supersededSession = some h :=
    (registerSession_superseded ..).mpr hlive
  have hfresh : m.shared.registry.nextSessionId ∉
      (m.step (.connect w caps features now)).shared.aborting := by
    intro hmem
    rcases Finset.mem_union.mp hmem with hold | hnew
    · exact Nat.lt_irrefl _ (hab _ hold)
    obtain ⟨e, he, hc⟩ := registerSession_aborted _ _ _ _ _ _ _ (Option.mem_toFinset.mp hnew)
    have hlt := (hr w e he).1
    rw [← ((hr w e he).2 _ hc).1] at hlt
    exact Nat.lt_irrefl _ hlt
  refine Pool.has_spawn (a := .spawnSweep w h) ?_ ⟨_, h, rfl, hfresh, rfl, hn⟩
  refine List.mem_cons_of_mem _ (List.mem_append_left _ ?_)
  rw [Option.mem_toList, Option.map_eq_some_iff]
  exact ⟨h, hsup, rfl⟩

theorem accounted_of_live (hm : Unstranded m) (h : m.shared.registry.Live w n) :
    Accounted (m.step l) t state w n := by
  rcases m.step_registry l with ⟨c, k, a, hruns, htended⟩ | ⟨v, caps, features, now, rfl, hreg, -⟩ | ⟨hreg, -⟩
  · by_cases hd : (w, n) ∈ disconnects c k m.shared a
    · exact .swept (sweeping_of_disconnects hm.placed hruns hd (Nat.le_refl n))
    · exact .live (htended.live w n h hd)
  · by_cases hv : w = v
    · subst hv
      exact .owed (owing_of_superseded hm.registered hm.aborting h (Nat.le_refl n))
    obtain ⟨e', -, -, -, -, heq⟩ := registerSession_get m.shared.registry v caps features
      (some m.shared.registry.nextSessionId) (some m.shared.registry.nextSessionId) now
    obtain ⟨e, he, hrest⟩ := h
    refine .live ⟨e, ?_, hrest⟩
    rw [hreg, Master.registration, heq, FMap.get_set, if_neg hv]
    exact he
  · refine .live ?_
    rw [hreg]
    exact h

variable {e' : TaskEntry}

theorem accounted_of_swept (hl : Orderly m l) (h : m.Has (Sweeping w n))
    (he' : (m.step l).shared.queue.tasks.get t = some e') (hactive : ActiveOn e' w n) :
    Accounted (m.step l) t state w n := by
  have hkills : m.All fun k a => Sweeping w n k a → m.kills l k = false := by
    intro u hu a ha hs
    obtain ⟨-, b, reason, immediate, rfl, -⟩ := hs
    exact hl.2 u hu _ ha rfl
  rcases Master.step_has h hkills with ⟨c, k, a, hruns, -, b, reason, immediate, rfl, hn⟩ | hstill
  · -- the sweep itself leaves no such task
    rw [hruns.fires.shared] at he'
    have hclear := handleSessionDisconnected_clears _ _ _ _ _ _ _ he'
    simp [sweeps, hactive.active, hactive.worker, hactive.session, hn] at hclear
  · exact .swept hstill

theorem accounted_of_owed (hm : Unstranded m) (h : m.Has (Owing m.shared.aborting w n)) :
    Accounted (m.step l) t state w n := by
  have hplaced : m.Has fun k a => Owing m.shared.aborting w n k a ∧ Placed m.shared.registry k a :=
    h.mono hm.placed fun k a hp ho => ⟨ho, hp⟩
  have hkills : m.All fun k a => Owing m.shared.aborting w n k a ∧ Placed m.shared.registry k a →
      m.kills l k = false := by
    rintro u - a - ⟨⟨x, b, hk, hx, -, -⟩, -⟩
    rw [hk]
    cases l with
    | abort session =>
      by_cases hs : session = x
      · subst hs
        simp [Master.kills, hx]
      · simp [Master.kills, Ne.symm hs]
    | dropWriter session => simp [Master.kills]
    | _ => rfl
  rcases Master.step_has hplaced hkills with ⟨c, k, a, hruns, ⟨x, b, -, -, rfl, hn⟩, -⟩ | hstill
  · -- the handler hands the sweep to a task of its own
    refine .swept (hruns.fires.has_spawned (t := ⟨.detached, [_]⟩) (List.mem_singleton_self _)
      (List.mem_singleton_self _) ⟨rfl, b, _, _, rfl, hn⟩)
  obtain ⟨u, hu, a, ha, ⟨x, b, hk, hx, hab, hn⟩, hp⟩ := hstill
  obtain ⟨x', hk', hsup⟩ := hp.superseding w b hab
  cases hk.symm.trans hk'
  have hle : n ≤ x := Nat.le_of_lt (Nat.lt_of_le_of_lt hn hsup.older)
  by_cases hx' : x ∈ (m.step l).shared.aborting
  · -- the handler was cancelled by this step, which disconnected or superseded its own session
    have hown : ∀ v e, m.shared.registry.workers.get v = some e → e.abortHandle = some x →
        v = w ∧ e.sessionId = x ∧ e.status ≠ .disconnected := by
      intro v e he hc
      obtain ⟨hsession, hstatus⟩ := (hm.registered v e he).2 x hc
      exact ⟨hsup.worker v e he hsession.symm, hsession.symm, hstatus⟩
    rcases m.step_shared l with ⟨c, k, a', hruns, hfires⟩ | ⟨v, caps, features, now, rfl, hs⟩ | ⟨_, _, hs⟩
    · rw [hfires.shared] at hx'
      rcases exec_aborting c k m.shared a' hx' with hold | ⟨v, e, he, hc, hd⟩
      · exact absurd hold hx
      · obtain ⟨rfl, hsession, -⟩ := hown v e he hc
        rw [hsession] at hd
        exact .swept (sweeping_of_disconnects hm.placed hruns hd hle)
    · rw [hs] at hx'
      rcases Finset.mem_union.mp hx' with hold | hnew
      · exact absurd hold hx
      · obtain ⟨e, he, hc⟩ := registerSession_aborted _ _ _ _ _ _ _ (Option.mem_toFinset.mp hnew)
        obtain ⟨rfl, hsession, hstatus⟩ := hown v e he hc
        exact .owed (owing_of_superseded hm.registered hm.aborting ⟨e, he, hsession, hstatus⟩ hle)
    · rw [hs] at hx'
      exact absurd hx' hx
  · exact .owed ⟨u, hu, a, ha, x, b, hk, hx', hab, hn⟩

variable {e : TaskEntry}

theorem accounted_of_dispatching (h : m.Has fun k a => k = .detached ∧ a.dispatches = some ⟨t, w, n⟩) (he : m.shared.queue.tasks.get t = some e) (hs : e.state = .scheduled)
    (hon : ActiveOn e w n) (he' : (m.step l).shared.queue.tasks.get t = some e')
    (hactive : e'.state.isActive = true) : Accounted (m.step l) t .scheduled w n := by
  have hkills : m.All fun k a => k = .detached ∧ a.dispatches = some ⟨t, w, n⟩ → m.kills l k = false := by
    rintro u - a - ⟨hk, -⟩
    rw [hk]
    cases l with
    | abort | dropWriter => simp [Master.kills]
    | _ => rfl
  rcases Master.step_has h hkills with ⟨c, k, a, hruns, hk, hd⟩ | hstill
  · cases a with
    | reserve b =>
      cases hd
      cases hres : (m.shared.registry.reserveDispatch w n).1 with
      | ok u =>
        refine .live ?_
        rw [hruns.fires.shared]
        exact (exec_tended c k m.shared (.reserve ⟨t, w, n⟩)).live w n (reserveDispatch_live hres)
          (Set.notMem_empty _)
      | error err =>
        refine .dispatching rfl (hruns.fires.has_code (b := .requeue ⟨t, w, n⟩) ?_ ⟨hk, rfl⟩)
        rw [reserve_code_error hres]
        exact List.mem_singleton_self _
    | requeue b =>
      cases hd
      rw [hruns.fires.shared] at he'
      have howned : ownedBy e w (some n) = true := by
        simp [ownedBy, hon.worker, hon.session]
      rw [requeueDispatchFailure_clears he hs howned he'] at hactive
      cases hactive
    | _ => cases hd
  · exact .dispatching rfl hstill

/-- An active task that stays where it is stays accounted for. -/
theorem Accounted.step (hm : Unstranded m) (hl : Orderly m l)
    (he : m.shared.queue.tasks.get t = some e) (hon : ActiveOn e w n)
    (he' : (m.step l).shared.queue.tasks.get t = some e') (hon' : ActiveOn e' w n)
    (hstate : e.state = .scheduled → e'.state = .scheduled) : Accounted (m.step l) t e'.state w n := by
  cases hm.accounted t e w n he hon with
  | live h => exact accounted_of_live hm h
  | dispatching scheduled h =>
    rw [hstate scheduled]
    exact accounted_of_dispatching h he scheduled hon he' hon'.active
  | swept h => exact accounted_of_swept hl h he' hon'
  | owed h => exact accounted_of_owed hm h

theorem accounted_of_started (hm : Unstranded m) (hl : Orderly m l) (hruns : m.Runs l c k (.progress w n t))
    (he : m.shared.queue.tasks.get t = some e) (hon : ActiveOn e w n)
    (he' : (m.step l).shared.queue.tasks.get t = some e') (hon' : ActiveOn e' w n) :
    Accounted (m.step l) t e'.state w n := by
  cases hm.accounted t e w n he hon with
  | live h => exact accounted_of_live hm h
  | dispatching scheduled h =>
    have hprogress : (⟨t, w, n⟩ : Assignment) ∈ m.progresses l := by
      obtain ⟨i, rfl, hnext⟩ := hruns
      simp only [Master.progresses, hnext]
      rfl
    rcases hl.1 _ hprogress with hlive | hnone
    · exact accounted_of_live hm hlive
    · obtain ⟨u, hu, a, ha, -, hd⟩ := h
      exact absurd hd (hnone a (List.mem_flatMap.mpr ⟨u, hu, ha⟩))
  | swept h => exact accounted_of_swept hl h he' hon'
  | owed h => exact accounted_of_owed hm h

theorem accounted_step (hm : Unstranded m) (hl : Orderly m l)
    (he' : (m.step l).shared.queue.tasks.get t = some e') (hon' : ActiveOn e' w n) :
    Accounted (m.step l) t e'.state w n := by
  have hold : m.shared.queue.tasks.get t = some e' → Accounted (m.step l) t e'.state w n :=
    fun he => Accounted.step hm hl he hon' he' hon' fun h => h
  rcases m.step_queue l with ⟨c, k, a, hruns, hstep⟩ | hsame
  · cases hstep with
    | accept ok free entered =>
      have hget := he'
      rw [entered, FMap.get_set] at hget
      split at hget
      · cases hget
        cases hon'.active
      · exact hold hget
    | @assign len p batch =>
      have hget := he'
      rw [batch] at hget
      rcases assignments_of_batch c.clock.instant p.triples m.shared.queue t e' hget with
        hsame | ⟨e, a, ha, hid, rfl⟩
      · exact hold hsame
      cases hon'.worker
      cases hon'.session
      subst hid
      have hk : k = .detached := hruns.fires.all_head hm.detached rfl
      exact .dispatching rfl (hruns.fires.has_code (b := .reserve a) (List.mem_map_of_mem ha) ⟨hk, rfl⟩)
    | @start v b u e get scheduled owned started =>
      have hget := he'
      rw [started, FMap.get_set] at hget
      split at hget
      · next hu =>
        subst hu
        cases hget
        have hw : e.assignedWorkerId = some w := hon'.worker
        have hs : e.assignedSession = some n := hon'.session
        have hown : w = v ∧ b = n := by simpa [ownedBy, hw, hs] using owned
        obtain ⟨rfl, rfl⟩ := hown
        exact accounted_of_started hm hl hruns get ⟨by rw [scheduled]; rfl, hw, hs⟩ he' hon'
      · exact hold hget
    | settle settles =>
      cases he : m.shared.queue.tasks.get t with
      | none => cases (settles.absent t he).symm.trans he'
      | some e =>
        have hkept := settles.kept t e e' he he'
        obtain ⟨hactive, hw, hs⟩ := hkept.assigned hon'.active
        refine Accounted.step hm hl he ⟨hactive, hw.symm.trans hon'.worker, hs.symm.trans hon'.session⟩
          he' hon' fun hscheduled => ?_
        have hstate := hon'.active
        cases hs' : e'.state with
        | scheduled => rfl
        | running =>
          have hrunning := hkept.running hs'
          rw [hscheduled] at hrunning
          cases hrunning
        | _ => rw [hs'] at hstate; cases hstate
  · rw [hsame] at he'
    exact hold he'

end Step

/-- **One step.** -/
theorem Unstranded.step {m : Master} {l : Label} (hm : Unstranded m) (hl : Orderly m l) :
    Unstranded (m.step l) where
  registered := Master.registered_step l hm.registered
  aborting := aborting_step l hm.registered hm.aborting
  placed := placed_step l hm.registered hm.placed
  detached := Master.detached_step l hm.detached
  accounted _ _ _ _ he hon := accounted_step hm hl he hon

omit [Host] in
theorem unstranded_init (config : MasterConfig) (queue : QueueConfig) :
    Unstranded (Master.init config queue) where
  registered _ e he := absurd he (Option.some_ne_none e).symm
  aborting n hn := absurd hn (Finset.notMem_empty n)
  placed _ ht := absurd ht List.not_mem_nil
  detached _ ht := absurd ht List.not_mem_nil
  accounted _ e _ _ he := absurd he (Option.some_ne_none e).symm

/-! ## Quiet states -/

/-- The sections of `dispatch`. -/
def Section.inDispatch : Section → Bool
  | .reserve _ | .channel _ | .deliver _ | .release _ | .rollback _ | .requeue _ => true
  | _ => false

def Section.isSpawnSweep : Section → Bool
  | .spawnSweep .. => true
  | _ => false

/-- The cancellation of the task was requested. -/
def Owner.cancelled (aborting : Finset Nat) : Owner → Bool
  | .handler h => decide (h ∈ aborting)
  | _ => false

/-- No dispatch is in progress, no sweep was started and is not done, and none is owed by a handler that
was not cancelled. -/
def Quiet (m : Master) : Prop :=
  m.All fun k a => a.inDispatch = false ∧ a.isSweep = false ∧
    (a.isSpawnSweep = true → k.cancelled m.shared.aborting = true)

/-- Task `t` is active on a session that is not live. -/
def Stranded (m : Master) (t : TaskId) : Prop :=
  ∃ e w n, m.shared.queue.tasks.get t = some e ∧ ActiveOn e w n ∧ ¬ m.shared.registry.Live w n

/-- **No stranded task.** -/
theorem no_stranded_task (config : MasterConfig) (queue : QueueConfig) (labels : List Label)
    (h : Within Master.step Orderly (Master.init config queue) labels)
    (hquiet : Quiet ((Master.init config queue).run labels)) (t : TaskId) :
    ¬ Stranded ((Master.init config queue).run labels) t := by
  have hm : Unstranded ((Master.init config queue).run labels) :=
    h.invariant (fun _ _ hm hl => Unstranded.step hm hl) (unstranded_init config queue)
  rintro ⟨e, w, n, he, hon, hdead⟩
  cases hm.accounted t e w n he hon with
  | live hlive => exact hdead hlive
  | dispatching scheduled hd =>
    obtain ⟨u, hu, a, ha, -, hd⟩ := hd
    have hnone := (hquiet u hu a ha).1
    cases a with
    | reserve | requeue => cases hnone
    | _ => cases hd
  | swept hs =>
    obtain ⟨u, hu, a, ha, -, b, reason, immediate, rfl, -⟩ := hs
    cases (hquiet u hu _ ha).2.1
  | owed ho =>
    obtain ⟨u, hu, a, ha, x, b, hk, hx, rfl, -⟩ := ho
    have hcancelled := (hquiet u hu _ ha).2.2 rfl
    rw [hk] at hcancelled
    exact hx (by simpa [Owner.cancelled] using hcancelled)

end OxideSwarm

namespace OxideSwarm

/-! ## Three runs -/

section Concrete

attribute [local instance] Host.blank

instance (m : Master) : Decidable (Quiet m) :=
  inferInstanceAs (Decidable (m.All fun k a => a.inDispatch = false ∧ a.isSweep = false ∧
    (a.isSpawnSweep = true → k.cancelled m.shared.aborting = true)))

instance (m : Master) (l : Label) : Decidable (Orderly m l) :=
  inferInstanceAs (Decidable ((∀ a ∈ m.progresses l,
    m.shared.registry.Live a.workerId a.sessionId ∨ ∀ b ∈ m.pending, b.dispatches ≠ some a) ∧
    m.All fun k a => a.isSweep = true → m.kills l k = false))

/-- The reaper disconnects worker 7, and its handler, cancelled but still in its poll, revives it.  Task 1
is dispatched, the handler reads an EOF and unregisters, and the cancellation hits it before its sweep. -/
def abortedRun : List Label :=
  connectedRun ++
    .start .reaperTick :: Label.advances 2 4 (.at (seconds 20)) ++
    Label.advances 0 2 (.receiving (seconds 20) (.heartbeat 0 ⟨0⟩ 1024)) ++
    .start (.scheduleBatch 10) :: Label.advances 3 9 (.at (seconds 21)) ++
    Label.advances 0 2 (.receiving (seconds 22) .eof) ++ [.abort 1]

/-- The reaper disconnects worker 7 between the snapshot and the commit of a pass.  The handler, cancelled
but still in its poll, applies a progress report on task 1, and the dispatch does not put it back. -/
def startedRun : List Label :=
  connectedRun ++
    .start (.scheduleBatch 10) :: Label.advances 2 5 (.at 2) ++
    .start .reaperTick :: Label.advances 3 4 (.at (seconds 20)) ++ Label.advances 2 1 (.at (seconds 20)) ++
    Label.advances 0 2 (.receiving (seconds 20) (.progress ⟨1⟩)) ++ Label.advances 2 2 (.at (seconds 21)) ++
    [.abort 1]

/-- Task 1 is dispatched and started; nothing else happens to worker 7. -/
def deliveredRun : List Label :=
  connectedRun ++
    .start (.scheduleBatch 10) :: Label.advances 2 9 (.at 2) ++
    Label.advances 0 2 (.receiving 3 (.progress ⟨1⟩))

/-- Where task 1 is. -/
def Master.whereabouts (m : Master) : Option (TaskState × Option Uuid × Option Nat) :=
  (m.shared.queue.tasks.get ⟨1⟩).map fun e => (e.state, e.assignedWorkerId, e.assignedSession)

theorem stranded_of_whereabouts {m : Master} {s : TaskState} {w : Uuid} {n : Nat}
    (h : m.whereabouts = some (s, some w, some n)) (hactive : s.isActive = true)
    (hdead : ¬ m.shared.registry.Live w n) : Stranded m ⟨1⟩ := by
  obtain ⟨e, he, heq⟩ := Option.map_eq_some_iff.mp h
  simp only [Prod.mk.injEq] at heq
  obtain ⟨rfl, hw, hn⟩ := heq
  exact ⟨e, w, n, he, ⟨hactive, hw, hn⟩, hdead⟩

/-- **A task can be stranded**, by either run. -/
theorem tasks_can_strand : (Quiet ((Master.init .default (.small 10)).run abortedRun) ∧
      Stranded ((Master.init .default (.small 10)).run abortedRun) ⟨1⟩) ∧
    Quiet ((Master.init .default (.small 10)).run startedRun) ∧
      Stranded ((Master.init .default (.small 10)).run startedRun) ⟨1⟩ := by
  refine ⟨⟨by decide, stranded_of_whereabouts (s := .scheduled) (w := 7) (n := 1) ?_ rfl ?_⟩,
    by decide, stranded_of_whereabouts (s := .running) (w := 7) (n := 1) ?_ rfl ?_⟩
  · decide
  · decide
  · decide
  · decide

/-- In a quiet state of an orderly run, task 1 runs on the live session 1. -/
theorem no_stranded_task_delivered : Within Master.step Orderly (Master.init .default (.small 10)) deliveredRun ∧
    ((Master.init .default (.small 10)).run deliveredRun).whereabouts = some (.running, some 7, some 1) ∧
    ¬ Stranded ((Master.init .default (.small 10)).run deliveredRun) ⟨1⟩ := by
  have hwithin : Within Master.step Orderly (Master.init .default (.small 10)) deliveredRun := by decide
  exact ⟨hwithin, by decide, no_stranded_task _ _ _ hwithin (by decide) ⟨1⟩⟩

end Concrete

end OxideSwarm
