import OxideSwarm.Lib.Cursor
import OxideSwarm.Queue.Sequence

/-!
# Walking the ready queue page by page (`master/src/queue.rs:1050-1084`)

The scheduler reads the ready queue through `ready_views`, a page at a time, and the queue may change
between two pages.  A page is a page of the keys of the ready queue (`readyViews_page`), so the walk of the
scheduler is a walk of a cursor, and a task that stays queued stays at its position
(`position_of_stays`).
-/

namespace OxideSwarm

open Std TaskQueueInner

/-! ## Positions -/

/-- The order of the ready queue. -/
def QueueOrderKey.Before (a b : QueueOrderKey) : Prop := QueueOrderKey.cmp a b = .lt

instance : DecidableRel QueueOrderKey.Before := fun a b => inferInstanceAs (Decidable (QueueOrderKey.cmp a b = .lt))

instance : IsStrictOrder QueueOrderKey QueueOrderKey.Before where
  irrefl a h := by
    have hself : QueueOrderKey.cmp a a = .eq := ReflCmp.compare_self
    exact absurd (h.symm.trans hself) (by decide)
  trans _ _ _ hab hbc := TransCmp.lt_trans hab hbc

/-- Higher priorities come first, then earlier submissions. -/
theorem QueueOrderKey.Before.order {a b : QueueOrderKey} (h : a.Before b) :
    b.priority < a.priority ∨ a.priority = b.priority ∧ a.sequence ≤ b.sequence := by
  unfold QueueOrderKey.Before QueueOrderKey.cmp at h
  rw [Ordering.then_eq_lt, Ordering.then_eq_lt, Nat.compare_eq_lt, Nat.compare_eq_eq, Nat.compare_eq_lt,
    Nat.compare_eq_eq] at h
  omega

namespace TaskQueueInner

/-- Where the ready queue lists a task. -/
def position (q : TaskQueueInner) (t : TaskId) : Option QueueOrderKey :=
  (q.queuedEntry t).map fun e => e.readyKey t

/-- The view `ready_views` gives of the task listed at a key. -/
def view (q : TaskQueueInner) (k : QueueOrderKey) : Option TaskView :=
  (q.queuedEntry k.taskId).map fun e => { TaskView.of e.task with avoid := e.avoidWorkers }

end TaskQueueInner

section

variable {q : TaskQueueInner} {t : TaskId} {k : QueueOrderKey}

theorem queuedEntry_eq_some_iff {e : TaskEntry} :
    q.queuedEntry t = some e ↔ q.tasks.get t = some e ∧ e.state = .queued := by
  unfold queuedEntry
  rw [Option.filter_eq_some_iff, decide_eq_true_eq]

theorem position_eq_some_iff :
    q.position t = some k ↔ ∃ e, q.tasks.get t = some e ∧ e.state = .queued ∧ k = e.readyKey t := by
  unfold position
  rw [Option.map_eq_some_iff]
  constructor
  · rintro ⟨e, he, rfl⟩
    obtain ⟨hget, hqueued⟩ := queuedEntry_eq_some_iff.1 he
    exact ⟨e, hget, hqueued, rfl⟩
  · rintro ⟨e, hget, hqueued, rfl⟩
    exact ⟨e, queuedEntry_eq_some_iff.2 ⟨hget, hqueued⟩, rfl⟩

theorem position_taskId (h : q.position t = some k) : k.taskId = t := by
  obtain ⟨e, -, -, rfl⟩ := position_eq_some_iff.1 h
  rfl

theorem Coherent.mem_ready_position (hq : Coherent q) : k ∈ q.readyQueue ↔ q.position k.taskId = some k := by
  rw [hq.mem_ready_iff, position_eq_some_iff]

/-- The view at a position shows the task listed there. -/
theorem Coherent.view_position (hq : Coherent q) (h : q.position k.taskId = some k) :
    ∃ v, q.view k = some v ∧ q.position v.taskId = some k := by
  obtain ⟨e, hget, hqueued, hk⟩ := position_eq_some_iff.1 h
  refine ⟨{ TaskView.of e.task with avoid := e.avoidWorkers }, ?_, ?_⟩
  · rw [view, queuedEntry_eq_some_iff.2 ⟨hget, hqueued⟩]
    rfl
  · have hid : (TaskView.of e.task).taskId = k.taskId := (hq.entries _ e hget).id
    exact (congrArg q.position hid).trans h

/-! ## One page -/

/-- The loop of `ready_views` over live keys takes the first ones that fit. -/
theorem collectViews_live {limit : Nat} (keys : List QueueOrderKey) : ∀ views : List TaskView,
    (∀ k ∈ keys, q.position k.taskId = some k) → views.length < limit → (q.collectViews limit views keys).1.map some =
        views.map some ++ (keys.take (limit - views.length)).map q.view ∧ (q.collectViews limit views keys).2 =
        if limit - views.length ≤ keys.length then (keys.take (limit - views.length)).getLast? else none := by
  induction keys with
  | nil =>
    intro views _ hroom
    have hfull : ¬limit - views.length ≤ ([] : List QueueOrderKey).length := by
      rw [List.length_nil]
      omega
    rw [if_neg hfull, List.take_nil]
    exact ⟨(List.append_nil _).symm, rfl⟩
  | cons key rest ih =>
    intro views hlive hroom
    obtain ⟨e, hget, hqueued, -⟩ := position_eq_some_iff.1 (hlive key List.mem_cons_self)
    have he := queuedEntry_eq_some_iff.2 ⟨hget, hqueued⟩
    have hview : q.view key = some { TaskView.of e.task with avoid := e.avoidWorkers } := by
      rw [view, he]
      rfl
    obtain ⟨m, hm⟩ : ∃ m, limit - views.length = m + 1 := ⟨limit - views.length - 1, by omega⟩
    unfold collectViews
    rw [he, hm]
    dsimp only
    rw [List.length_append, List.length_singleton, List.take_succ_cons, List.map_cons, List.length_cons, hview]
    split
    · next hlast =>
      have hzero : m = 0 := by omega
      subst hzero
      rw [if_pos (by omega), List.take_zero, List.map_append]
      exact ⟨rfl, rfl⟩
    next hmore =>
    have hlength : (views ++ [{ TaskView.of e.task with avoid := e.avoidWorkers }]).length < limit := by
      rw [List.length_append, List.length_singleton]
      omega
    obtain ⟨hviews, hnext⟩ := ih _ (fun k hk => hlive k (List.mem_cons_of_mem key hk)) hlength
    have hsub : limit - (views ++ [{ TaskView.of e.task with avoid := e.avoidWorkers }]).length = m := by
      rw [List.length_append, List.length_singleton]
      omega
    rw [hsub] at hviews hnext
    constructor
    · rw [hviews, List.map_append, List.append_assoc]
      rfl
    rw [hnext]
    by_cases hle : m ≤ rest.length
    · rw [if_pos hle, if_pos (by omega), List.getLast?_cons]
      have hsome : (rest.take m).getLast?.isSome := by
        rw [List.getLast?_isSome, ne_eq, List.take_eq_nil_iff]
        rintro (h | h)
        · omega
        · rw [h, List.length_nil] at hle
          omega
      obtain ⟨last, hlast⟩ := Option.isSome_iff_exists.1 hsome
      rw [hlast]
      rfl
    · rw [if_neg hle, if_neg (by omega)]

/-- A page of `ready_views` is a page of the keys of the ready queue. -/
theorem readyViews_page (hq : Coherent q) {limit : Nat} (hlimit : 0 < limit) (after : Option QueueOrderKey) :
    (q.readyViews after limit).1.map some =
        (Cursor.page QueueOrderKey.Before limit after q.readyQueue.toList).1.map q.view ∧
      (q.readyViews after limit).2 = (Cursor.page QueueOrderKey.Before limit after q.readyQueue.toList).2 := by
  have hlive : ∀ k ∈ Cursor.rest QueueOrderKey.Before after q.readyQueue.toList,
      q.position k.taskId = some k := by
    intro k hk
    exact hq.mem_ready_position.1 (ExtTreeSet.mem_toList.1 (Cursor.mem_rest.1 hk).1)
  exact collectViews_live _ [] hlive hlimit

end

/-! ## Walks -/

/-- One call of `ready_views`, with the queue it found. -/
structure ReadyPage where
  queue : TaskQueueInner
  views : List TaskView
  next : Option QueueOrderKey

/-- The positions a page visits. -/
def ReadyPage.positions (p : ReadyPage) : List (Option QueueOrderKey) :=
  p.views.map fun v => p.queue.position v.taskId

/-- `ready_views` followed from a cursor, over the queues the successive calls find, until a call gives no
continuation. -/
def readyWalk (limit : Nat) : Option QueueOrderKey → List TaskQueueInner → List ReadyPage
  | _, [] => []
  | after, q :: qs =>
    ⟨q, (q.readyViews after limit).1, (q.readyViews after limit).2⟩ ::
      (q.readyViews after limit).2.elim [] fun k => readyWalk limit (some k) qs

/-- The last page gave no continuation. -/
def WalkEnded (pages : List ReadyPage) : Prop := ∃ p ∈ pages, p.next = none

/-- The page shows the tasks listed at the keys of a cursor's call. -/
structure ReadyPage.Shows (p : ReadyPage) (call : List QueueOrderKey × Option QueueOrderKey) : Prop where
  next : p.next = call.2
  views : p.views.map some = call.1.map p.queue.view
  positions : p.positions = call.1.map some

section

variable {limit : Nat} (hlimit : 0 < limit)
include hlimit

theorem readyPage_shows {q : TaskQueueInner} (hq : Coherent q) (after : Option QueueOrderKey) :
    ReadyPage.Shows ⟨q, (q.readyViews after limit).1, (q.readyViews after limit).2⟩
      (Cursor.page QueueOrderKey.Before limit after q.readyQueue.toList) := by
  obtain ⟨hviews, hnext⟩ := readyViews_page hq hlimit after
  refine ⟨hnext, hviews, ?_⟩
  have hbind : ReadyPage.positions ⟨q, (q.readyViews after limit).1, (q.readyViews after limit).2⟩ =
      ((q.readyViews after limit).1.map some).map fun o => o.bind fun v => q.position v.taskId := by
    rw [List.map_map]
    rfl
  rw [hbind, hviews, List.map_map]
  refine List.map_congr_left fun k hk => ?_
  have hmem := (Cursor.mem_rest.1 (List.mem_of_mem_take hk)).1
  obtain ⟨v, hv, hposition⟩ := hq.view_position (hq.mem_ready_position.1 (ExtTreeSet.mem_toList.1 hmem))
  show (q.view k).bind _ = _
  rw [hv]
  exact hposition

/-- The scheduler's walk is the walk of a cursor over the keys of the ready queue. -/
theorem readyWalk_shows (qs : List TaskQueueInner) : ∀ after : Option QueueOrderKey,
    (∀ q ∈ qs, Coherent q) → List.Forall₂ (fun p call => p.queue ∈ qs ∧ ReadyPage.Shows p call)
      (readyWalk limit after qs)
      (Cursor.walk QueueOrderKey.Before limit after (qs.map fun q => q.readyQueue.toList)) := by
  induction qs with
  | nil => exact fun _ _ => List.Forall₂.nil
  | cons q qs ih =>
    intro after hqs
    have hpage := readyPage_shows hlimit (hqs q List.mem_cons_self) after
    have hnext := hpage.next
    rw [List.map_cons, readyWalk, Cursor.walk]
    refine List.Forall₂.cons ⟨List.mem_cons_self, hpage⟩ ?_
    rw [← hnext]
    cases (q.readyViews after limit).2 with
    | none => exact List.Forall₂.nil
    | some k =>
      refine (ih (some k) fun q' h => hqs q' (List.mem_cons_of_mem q h)).imp ?_
      exact fun p call h => ⟨List.mem_cons_of_mem q h.1, h.2⟩

end

theorem flatMap_eq_of_forall₂ {α β γ : Type} {R : α → β → Prop} {f : α → List γ} {g : β → List γ}
    {as : List α} {bs : List β} (h : List.Forall₂ R as bs) (hfg : ∀ a b, R a b → f a = g b) :
    as.flatMap f = bs.flatMap g := by
  induction h with
  | nil => rfl
  | cons hab _ ih => rw [List.flatMap_cons, List.flatMap_cons, hfg _ _ hab, ih]

theorem walkEnded_iff {qs : List TaskQueueInner} {pages : List ReadyPage}
    {calls : List (List QueueOrderKey × Option QueueOrderKey)}
    (h : List.Forall₂ (fun p call => p.queue ∈ qs ∧ ReadyPage.Shows p call) pages calls) :
    WalkEnded pages ↔ Cursor.Ended calls := by
  induction h with
  | nil => exact ⟨fun ⟨_, h, _⟩ => absurd h List.not_mem_nil, fun ⟨_, h, _⟩ => absurd h List.not_mem_nil⟩
  | cons hab _ ih =>
    unfold WalkEnded Cursor.Ended at ih ⊢
    rw [List.exists_mem_cons_iff, List.exists_mem_cons_iff, ih, hab.2.next]

theorem ready_ordered (q : TaskQueueInner) : q.readyQueue.toList.Pairwise QueueOrderKey.Before :=
  ExtTreeSet.ordered_toList

theorem ready_ordered_all (qs : List TaskQueueInner) :
    ∀ l ∈ qs.map fun q => q.readyQueue.toList, l.Pairwise QueueOrderKey.Before := by
  intro l hl
  obtain ⟨q, -, rfl⟩ := List.mem_map.1 hl
  exact ready_ordered q

section

variable {limit : Nat} (hlimit : 0 < limit)
include hlimit

theorem readyWalk_ends {q : TaskQueueInner} (hq : Coherent q) :
    ∃ n, WalkEnded (readyWalk limit none (List.replicate n q)) := by
  refine ⟨q.readyQueue.toList.length + 1, ?_⟩
  have hshows := readyWalk_shows hlimit (List.replicate (q.readyQueue.toList.length + 1) q) none
    fun q' h => (List.eq_of_mem_replicate h).symm ▸ hq
  rw [walkEnded_iff hshows, List.map_replicate]
  have hlength : (Cursor.rest QueueOrderKey.Before none q.readyQueue.toList).length ≤
      q.readyQueue.toList.length := List.length_filter_le _ _
  exact Cursor.walk_ends limit (ready_ordered q) _ none (by omega)

/-- On a queue that does not change the pages together show the whole ready queue in its order. -/
theorem readyWalk_unchanged {q : TaskQueueInner} (hq : Coherent q) {n : Nat}
    (hended : WalkEnded (readyWalk limit none (List.replicate n q))) :
    ((readyWalk limit none (List.replicate n q)).flatMap ReadyPage.views).map some =
      q.readyQueue.toList.map q.view := by
  have hshows := readyWalk_shows hlimit (List.replicate n q) none
    fun q' h => (List.eq_of_mem_replicate h).symm ▸ hq
  rw [List.map_replicate] at hshows
  rw [walkEnded_iff hshows] at hended
  have hall := Cursor.walk_replicate hlimit (ready_ordered q) n none hended
  have hrest : Cursor.rest QueueOrderKey.Before none q.readyQueue.toList = q.readyQueue.toList :=
    List.filter_eq_self.2 fun _ _ => rfl
  rw [hrest] at hall
  rw [List.map_flatMap, ← hall, List.map_flatMap]
  refine flatMap_eq_of_forall₂ hshows fun p call h => ?_
  rw [← List.eq_of_mem_replicate h.1]
  exact h.2.views

variable {qs : List TaskQueueInner} (hqs : ∀ q ∈ qs, Coherent q)
include hqs

theorem readyWalk_positions : (readyWalk limit none qs).flatMap ReadyPage.positions =
    ((Cursor.walk QueueOrderKey.Before limit none (qs.map fun q => q.readyQueue.toList)).flatMap
      Prod.fst).map some := by
  rw [List.map_flatMap]
  exact flatMap_eq_of_forall₂ (readyWalk_shows hlimit qs none hqs) fun p call h => h.2.positions

/-- A walk that ended has visited the tasks that each of its calls found at one position. -/
theorem readyWalk_visits (hended : WalkEnded (readyWalk limit none qs)) {t : TaskId} {k : QueueOrderKey}
    (hposition : ∀ q ∈ qs.take (readyWalk limit none qs).length, q.position t = some k) :
    ∃ p ∈ readyWalk limit none qs, ∃ v ∈ p.views, v.taskId = t := by
  have hshows := readyWalk_shows hlimit qs none hqs
  have hk : k ∈ (Cursor.walk QueueOrderKey.Before limit none
      (qs.map fun q => q.readyQueue.toList)).flatMap Prod.fst := by
    refine Cursor.walk_covers hlimit _ none (ready_ordered_all qs) ((walkEnded_iff hshows).1 hended) ?_
      fun a ha => absurd ha (Option.not_mem_none a)
    intro l hl
    rw [← hshows.length_eq, ← List.map_take] at hl
    obtain ⟨q, hq, rfl⟩ := List.mem_map.1 hl
    have hat := hposition q hq
    rw [← position_taskId hat] at hat
    exact ExtTreeSet.mem_toList.2 ((hqs q (List.mem_of_mem_take hq)).mem_ready_position.2 hat)
  have hvisited : some k ∈ (readyWalk limit none qs).flatMap ReadyPage.positions := by
    rw [readyWalk_positions hlimit hqs]
    exact List.mem_map_of_mem hk
  obtain ⟨p, hp, hkp⟩ := List.mem_flatMap.1 hvisited
  obtain ⟨v, hv, hvk⟩ := List.mem_map.1 hkp
  refine ⟨p, hp, v, hv, ?_⟩
  have hpages : 0 < (readyWalk limit none qs).length := List.length_pos_of_mem hp
  cases qs with
  | nil => exact absurd hp List.not_mem_nil
  | cons q rest =>
    have hat := hposition q (by
      rw [show (readyWalk limit none (q :: rest)).length =
        ((readyWalk limit none (q :: rest)).length - 1) + 1 by omega, List.take_succ_cons]
      exact List.mem_cons_self)
    exact (position_taskId hvk).symm.trans (position_taskId hat)

end

/-! ## Tasks that stay queued -/

section

variable [Host]

theorem apply_position {q : TaskQueueInner} (hq : Coherent q) {op : Op} {t : TaskId} {k : QueueOrderKey}
    (h : q.position t = some k) (hstill : (q.apply op).getState t = some .queued) :
    (q.apply op).position t = some k := by
  obtain ⟨e, hget, -, rfl⟩ := position_eq_some_iff.1 h
  obtain ⟨e', hget', hqueued⟩ := Option.map_eq_some_iff.1 hstill
  refine position_eq_some_iff.2 ⟨e', hget', hqueued, TaskEntry.readyKey_eq_iff.2 ⟨?_, rfl⟩⟩
  have houtcome := apply_outcome hq op t
  rw [hget, hget'] at houtcome
  cases houtcome with
  | same => rfl
  | turned turn => exact turn.rank.symm

theorem position_of_stays {t : TaskId} {k : QueueOrderKey} (ops : List Op) : ∀ q : TaskQueueInner, Coherent q →
    q.position t = some k → (∀ before, before <+: ops → (q.run before).getState t = some .queued) →
    (q.run ops).position t = some k := by
  induction ops with
  | nil => exact fun _ _ h _ => h
  | cons op rest ih =>
    intro q hq h hstays
    have hstep : (q.apply op).getState t = some .queued := hstays [op] ⟨rest, rfl⟩
    refine ih (q.apply op) ((apply_evolves hq op).coherent hq) (apply_position hq h hstep) ?_
    intro before hbefore
    exact hstays (op :: before) (List.cons_prefix_cons.2 ⟨rfl, hbefore⟩)

/-- The queues that calls with the operations `gaps` between them find. -/
theorem found_eq_run {q q' : TaskQueueInner} {gaps : List (List Op)} {n : Nat}
    (h : q' ∈ (gaps.scanl run q).take (n + 1)) : ∃ before, before <+: (gaps.take n).flatten ∧ q' = q.run before := by
  obtain ⟨i, hi, rfl⟩ := List.mem_take_iff_getElem.1 h
  refine ⟨(gaps.take i).flatten, ?_, ?_⟩
  · have hle : i ≤ n := by omega
    obtain ⟨later, hlater⟩ := List.take_prefix_take_left (l := gaps) hle
    rw [← hlater, List.flatten_append]
    exact List.prefix_append _ _
  · rw [List.getElem_scanl, run, List.foldl_flatten]
    rfl

/-! ## The walk of a reachable queue -/

omit [Host] in
/-- The keys of a coherent queue whose numbers are unique are strictly ordered by priority and number. -/
theorem ready_sorted {q : TaskQueueInner} (hq : Coherent q) (hs : Sequenced q) :
    q.readyQueue.toList.Pairwise fun a b =>
      b.priority < a.priority ∨ a.priority = b.priority ∧ a.sequence < b.sequence := by
  have hordered : q.readyQueue.toList.Pairwise QueueOrderKey.Before := ExtTreeSet.ordered_toList
  refine hordered.imp_of_mem fun ha hb hab => ?_
  rename_i a b
  obtain ⟨e, hget, -, hkey⟩ := (hq.mem_ready_iff a).1 (ExtTreeSet.mem_toList.1 ha)
  obtain ⟨e', hget', -, hkey'⟩ := (hq.mem_ready_iff b).1 (ExtTreeSet.mem_toList.1 hb)
  have hseq : a.sequence ≠ b.sequence ∨ a.taskId = b.taskId := by
    rw [or_iff_not_imp_left, not_not]
    intro heq
    refine hs.unique a.taskId b.taskId e e' hget hget' ?_
    have he : a.sequence = e.sequence := congrArg QueueOrderKey.sequence hkey
    have he' : b.sequence = e'.sequence := congrArg QueueOrderKey.sequence hkey'
    exact he.symm.trans (heq.trans he')
  rcases hab.order with hpriority | ⟨hpriority, hle⟩
  · exact .inl hpriority
  rcases hseq with hne | hid
  · exact .inr ⟨hpriority, by omega⟩
  rw [hid] at hget
  cases hget.symm.trans hget'
  have heq : a = b := by rw [hkey, hkey', hid]
  rw [heq] at hab
  exact absurd hab (irrefl b)

/-- **Walking the ready queue.**  On a queue that does not change the walk ends, and its pages together are
the queued tasks, by priority and then by submission.  Whatever operations run between the pages, the
positions visited are strictly increasing, and a walk that ended has visited every task that was queued
from before its first page until after its last. -/
theorem ready_walk (c : QueueConfig) (ops : List Op) (limit : Nat) (hlimit : 0 < limit) :
    (∃ keys : List QueueOrderKey,
      keys.Pairwise (fun a b => b.priority < a.priority ∨ a.priority = b.priority ∧ a.sequence < b.sequence) ∧
      (∀ k, k ∈ keys ↔ ∃ e, (c.start.run ops).tasks.get k.taskId = some e ∧ e.state = .queued ∧
        k = e.readyKey k.taskId) ∧ (∃ n, WalkEnded (readyWalk limit none (List.replicate n (c.start.run ops)))) ∧
      ∀ n, WalkEnded (readyWalk limit none (List.replicate n (c.start.run ops))) →
        ((readyWalk limit none (List.replicate n (c.start.run ops))).flatMap ReadyPage.views).map some =
          keys.map (c.start.run ops).view) ∧ ∀ gaps : List (List Op), (∃ visited : List QueueOrderKey,
        (readyWalk limit none (gaps.scanl run (c.start.run ops))).flatMap ReadyPage.positions = visited.map some ∧
        visited.Pairwise (fun a b => QueueOrderKey.cmp a b = .lt) ∧ visited.Nodup) ∧
      (WalkEnded (readyWalk limit none (gaps.scanl run (c.start.run ops))) → ∀ t, (∀ before, before <+:
            (gaps.take ((readyWalk limit none (gaps.scanl run (c.start.run ops))).length - 1)).flatten →
          ((c.start.run ops).run before).getState t = some .queued) →
        ∃ p ∈ readyWalk limit none (gaps.scanl run (c.start.run ops)), ∃ v ∈ p.views, v.taskId = t) := by
  have hq := run_coherent ops _ (start_coherent c)
  have hs := run_sequenced ops _ (start_coherent c) (start_sequenced c)
  generalize c.start.run ops = q at hq hs ⊢
  refine ⟨⟨q.readyQueue.toList, ready_sorted hq hs, fun k => ?_, readyWalk_ends hlimit hq,
    fun n hended => readyWalk_unchanged hlimit hq hended⟩, fun gaps => ?_⟩
  · rw [ExtTreeSet.mem_toList, hq.mem_ready_iff]
  have hfound : ∀ q' ∈ gaps.scanl run q, Coherent q' := by
    intro q' hq'
    rw [← List.take_length (l := gaps.scanl run q), List.length_scanl] at hq'
    obtain ⟨before, -, rfl⟩ := found_eq_run hq'
    exact run_coherent before q hq
  constructor
  · have hincreasing := (Cursor.walk_pairwise limit _ none (ready_ordered_all (gaps.scanl run q))).1
    refine ⟨_, readyWalk_positions hlimit hfound, hincreasing, hincreasing.imp fun hab heq => ?_⟩
    rw [heq] at hab
    exact absurd hab (irrefl _)
  intro hended t hstays
  have hnow : q.getState t = some .queued := hstays [] List.nil_prefix
  obtain ⟨e, hget, hqueued⟩ := Option.map_eq_some_iff.1 hnow
  have hposition : q.position t = some (e.readyKey t) := position_eq_some_iff.2 ⟨e, hget, hqueued, rfl⟩
  refine readyWalk_visits hlimit hfound hended (k := e.readyKey t) fun q' hq' => ?_
  obtain ⟨p, hp, -⟩ := hended
  have hpages := List.length_pos_of_mem hp
  rw [← Nat.sub_add_cancel hpages] at hq'
  obtain ⟨before, hbefore, rfl⟩ := found_eq_run hq'
  exact position_of_stays before q hq hposition fun b hb => hstays b (hb.trans hbefore)

end

section Concrete

attribute [local instance] Host.blank

/-- Two queued tasks, the second one first in the ready queue. -/
def twoReady : TaskQueueInner :=
  (QueueConfig.small 10).start.run
    [.submitWithPriority (Task.echo 0) 1 ⟨0, 0⟩, .submitWithPriority (Task.echo 1) 2 ⟨0, 0⟩]

/-- The cursor's own task is cancelled after the first page. -/
def cancelBetween : List (List Op) := [[.cancelTaskDetailed ⟨1⟩ none], []]

theorem ready_walk_past_cancel : 0 < 1 ∧ WalkEnded (readyWalk 1 none (cancelBetween.scanl run twoReady)) ∧
      ∃ p ∈ readyWalk 1 none (cancelBetween.scanl run twoReady), ∃ v ∈ p.views, v.taskId = ⟨0⟩ := by
  have hended : WalkEnded (readyWalk 1 none (cancelBetween.scanl run twoReady)) := by
    unfold WalkEnded
    decide +kernel
  refine ⟨by decide, hended, ?_⟩
  refine ((ready_walk _ _ 1 (by decide)).2 cancelBetween).2 hended ⟨0⟩ fun before hbefore => ?_
  have hlength : (readyWalk 1 none (cancelBetween.scanl run twoReady)).length = 3 := by decide +kernel
  unfold twoReady at hlength
  rw [hlength] at hbefore
  have hinits : before ∈ [[], [Op.cancelTaskDetailed ⟨1⟩ none]] := (List.mem_inits _ _).2 hbefore
  rcases List.mem_cons.1 hinits with rfl | hinits
  · decide +kernel
  · cases List.mem_singleton.1 hinits
    decide +kernel

end Concrete

section Pop

variable [Host]

/-! ## The best task first (`pop_and_schedule`) -/

/-- Task `t` waits with the entry `e`, and `predicate` accepts what it needs. -/
def TaskQueueInner.Offers (q : TaskQueueInner) (predicate : TaskRequirements → Bool) (t : TaskId) (e : TaskEntry) :
    Prop :=
  q.tasks.get t = some e ∧ e.state = .queued ∧ predicate e.task.requirements = true

/-- **`pop_and_schedule` serves the best task.**  In every reachable queue it returns nothing, and changes nothing,
if no queued task fits; otherwise it schedules one that fits, the first submitted of those with the highest
priority, and leaves every other entry as it is. -/
theorem pop_serves_best (c : QueueConfig) (ops : List Op) (w : Uuid) (predicate : TaskRequirements → Bool)
    (now : Instant) :
    let q := c.start.run ops
    let out := q.popAndSchedule w predicate now
    (out = (none, q) ∧ ∀ t e, ¬ q.Offers predicate t e) ∨
    ∃ t e, q.Offers predicate t e ∧ out.1 = some e.task ∧
      (∀ u, out.2.tasks.get u = if u = t then some (scheduledEntry e w none now) else q.tasks.get u) ∧
      ∀ u e', q.Offers predicate u e' → u ≠ t →
        e'.priority < e.priority ∨ e.priority = e'.priority ∧ e.sequence < e'.sequence := by
  intro q out
  have hq : Coherent q := run_coherent ops _ (start_coherent c)
  have hsorted := ready_sorted hq (run_sequenced ops _ (start_coherent c) (start_sequenced c))
  -- the scan meets the key of every task that fits, and accepts it
  have hkey : ∀ {u e}, q.Offers predicate u e → e.readyKey u ∈ q.readyQueue.toList ∧
      ((q.queuedEntry (e.readyKey u).taskId).any fun e => predicate e.task.requirements) = true := by
    rintro u e ⟨hget, hqueued, hfits⟩
    have hentry : q.queuedEntry (e.readyKey u).taskId = some e := queuedEntry_eq_some_iff.2 ⟨hget, hqueued⟩
    rw [hentry]
    exact ⟨ExtTreeSet.mem_toList.2 ((hq.mem_ready_iff _).2 ⟨e, hget, hqueued, rfl⟩), hfits⟩
  have hout : out = q.popAndSchedule w predicate now := rfl
  unfold popAndSchedule at hout
  split at hout
  · next hnone =>
    refine .inl ⟨hout, fun u e hoffers => ?_⟩
    exact List.find?_eq_none.1 hnone _ (hkey hoffers).1 (hkey hoffers).2
  next key hfind =>
  obtain ⟨hfits, before, after, hlist, hbefore⟩ := List.find?_eq_some_iff_append.1 hfind
  obtain ⟨e, hget, hqueued, hk⟩ := (hq.mem_ready_iff key).1 (ExtTreeSet.mem_toList.1 (List.mem_of_find?_eq_some hfind))
  rw [queuedEntry_eq_some_iff.2 ⟨hget, hqueued⟩] at hfits
  have hget' : (q.removeReady key).tasks.get key.taskId = some e := hget
  dsimp only at hout
  rw [hget'] at hout
  refine .inr ⟨key.taskId, e, ⟨hget, hqueued, hfits⟩, congrArg Prod.fst hout, fun u => ?_, fun u e' hoffers hu => ?_⟩
  · rw [hout]
    exact FMap.get_set ..
  obtain ⟨hmem, haccepts⟩ := hkey hoffers
  rw [hlist] at hmem hsorted
  rcases List.mem_append.1 hmem with hmem | hmem
  · have hrefuses := hbefore _ hmem
    rw [haccepts] at hrefuses
    cases hrefuses
  rcases List.mem_cons.1 hmem with heq | hmem
  · exact absurd (congrArg QueueOrderKey.taskId heq) hu
  have hlt := List.rel_of_pairwise_cons (List.pairwise_append.1 hsorted).2.1 hmem
  rw [hk] at hlt
  exact hlt

end Pop

end OxideSwarm
