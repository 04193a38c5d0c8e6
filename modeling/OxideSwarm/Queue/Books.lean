import OxideSwarm.Queue.Parts
import OxideSwarm.Queue.Turns
import Mathlib.Logic.Relation

/-!
# The queue's books

An operation writes entries and posts to two ledgers: `active_sizes` charges each task that is not finished
with the bytes its entry retains, `terminal_sizes` each retained finished task, and `active_bytes` and
`terminal_bytes` are their totals.  `Post` lists the elementary postings, as the code makes them one after
the other; they keep the totals right and the terminal ledger exact (`Post.balanced`).  Between a new entry
and its posting the active ledger is behind: `Posting q q' D` says that `q'` comes out of `q` by postings
and that the active ledger is exact except for the tasks `D`.  An operation is over when `D` is empty.
-/

namespace OxideSwarm

open Std TaskQueueInner

/-- What the active ledger holds for an entry. -/
def charge (o : Option TaskEntry) : Option Nat :=
  o.bind fun e => if e.state.isTerminal then none else some (retainedBytes e)

/-- What the terminal ledger holds for an entry. -/
def retention (o : Option TaskEntry) : Option Nat :=
  o.bind fun e => if e.state.isTerminal then some (retainedBytes e) else none

theorem charge_of_open {e : TaskEntry} (h : e.state.isTerminal = false) :
    charge (some e) = some (retainedBytes e) := by
  simp [charge, h]

theorem charge_of_terminal {e : TaskEntry} (h : e.state.isTerminal) : charge (some e) = none := by
  simp [charge, h]

/-! ## Elementary postings -/

/-- `q'` has the entries, the books and the limits of `q`. -/
structure SameBooks (q q' : TaskQueueInner) : Prop where
  tasks : q'.tasks = q.tasks
  activeSizes : q'.activeSizes = q.activeSizes
  activeBytes : q'.activeBytes = q.activeBytes
  terminalSizes : q'.terminalSizes = q.terminalSizes
  terminalBytes : q'.terminalBytes = q.terminalBytes
  terminalOrder : q'.terminalOrder = q.terminalOrder
  retryPolicy : q'.retryPolicy = q.retryPolicy
  capacity : q'.capacity = q.capacity
  maxActiveBytes : q'.maxActiveBytes = q.maxActiveBytes

/-- One write of an operation. -/
inductive Post (q : TaskQueueInner) : TaskQueueInner → Prop where
  | index {q' : TaskQueueInner} (same : SameBooks q q') : Post q q'
  | write {t : TaskId} {e' : TaskEntry}
      (unfinished : ∀ e, q.tasks.get t = some e → e.state.isTerminal = false) : Post q (q.setEntry t e')
  | untrack {t : TaskId} : Post q (q.untrackActiveTask t)
  | charge {t : TaskId} (size : Nat) (free : q.activeSizes.get t = none) :
      Post q { q with activeSizes := q.activeSizes.set t size, activeBytes := q.activeBytes + size }
  | retain {t : TaskId} {e : TaskEntry} (free : q.terminalSizes.get t = none) (get : q.tasks.get t = some e)
      (terminal : e.state.isTerminal) : Post q { q with
        terminalSizes := q.terminalSizes.set t (retainedBytes e)
        terminalBytes := q.terminalBytes + retainedBytes e
        terminalOrder := q.terminalOrder ++ [t] }
  | evict {t : TaskId} {rest : List TaskId} (order : q.terminalOrder = t :: rest)
      (terminal : (q.tasks.get t).any fun e => e.state.isTerminal) :
      Post q ({ q with terminalOrder := rest }.removeRetained t)

/-- Postings one after the other. -/
abbrev Posts : TaskQueueInner → TaskQueueInner → Prop := Relation.ReflTransGen Post

/-- The totals are right, the terminal ledger is exact for what it lists, and lists what is retained. -/
structure Balanced (q : TaskQueueInner) : Prop where
  activeBytes : q.activeBytes = q.activeSizes.sum id
  terminalBytes : q.terminalBytes = q.terminalSizes.sum id
  retained : ∀ t n, q.terminalSizes.get t = some n →
    ∃ e, q.tasks.get t = some e ∧ e.state.isTerminal ∧ n = retainedBytes e
  listed : ∀ t ∈ q.terminalOrder, (q.terminalSizes.get t).isSome
  nodup : q.terminalOrder.Nodup

section

variable {q q' q'' : TaskQueueInner} {t : TaskId}

theorem SameBooks.refl (q : TaskQueueInner) : SameBooks q q := ⟨rfl, rfl, rfl, rfl, rfl, rfl, rfl, rfl, rfl⟩

theorem SameBooks.trans (h : SameBooks q q') (h' : SameBooks q' q'') : SameBooks q q'' :=
  ⟨h'.tasks.trans h.tasks, h'.activeSizes.trans h.activeSizes, h'.activeBytes.trans h.activeBytes,
    h'.terminalSizes.trans h.terminalSizes, h'.terminalBytes.trans h.terminalBytes,
    h'.terminalOrder.trans h.terminalOrder, h'.retryPolicy.trans h.retryPolicy, h'.capacity.trans h.capacity,
    h'.maxActiveBytes.trans h.maxActiveBytes⟩

theorem Balanced.charge_le (h : Balanced q) {n : Nat} (hget : q.activeSizes.get t = some n) : n ≤ q.activeBytes := by
  rw [h.activeBytes]
  exact FMap.le_sum id hget

theorem Balanced.retention_le (h : Balanced q) {n : Nat} (hget : q.terminalSizes.get t = some n) :
    n ≤ q.terminalBytes := by
  rw [h.terminalBytes]
  exact FMap.le_sum id hget

theorem Balanced.oldest (h : Balanced q) {rest : List TaskId} (horder : q.terminalOrder = t :: rest) :
    (q.tasks.get t).any (fun e => e.state.isTerminal) = true := by
  obtain ⟨n, hn⟩ := Option.isSome_iff_exists.mp (h.listed t (by rw [horder]; exact List.mem_cons_self))
  obtain ⟨e, he, hterm, -⟩ := h.retained t n hn
  rw [he]
  exact hterm

theorem Balanced.unsized (h : Balanced q) (hopen : ∀ e, q.tasks.get t = some e → e.state.isTerminal = false) :
    q.terminalSizes.get t = none := by
  cases hget : q.terminalSizes.get t with
  | none => rfl
  | some n =>
    obtain ⟨e, he, hterm, -⟩ := h.retained t n hget
    rw [hopen e he] at hterm
    cases hterm

theorem untrackActiveTask_spec (h : q.activeBytes = q.activeSizes.sum id) (t : TaskId) :
    q.untrackActiveTask t = { q with
      activeSizes := q.activeSizes.del t
      activeBytes := (q.activeSizes.del t).sum id } := by
  unfold untrackActiveTask
  cases hget : q.activeSizes.get t with
  | none => simp only [FMap.del_eq_self hget, ← h]
  | some size =>
    have hsum := FMap.sum_of_get id hget
    have hbytes : q.activeBytes - size = (q.activeSizes.del t).sum id := by
      rw [h, hsum]
      exact Nat.add_sub_cancel_left _ _
    simp only [hbytes]

theorem removeRetained_spec (h : Balanced q) (t : TaskId) (order : List TaskId) :
    ({ q with terminalOrder := order } : TaskQueueInner).removeRetained t = { q with
      tasks := q.tasks.del t
      activeSizes := q.activeSizes.del t
      activeBytes := (q.activeSizes.del t).sum id
      terminalOrder := order
      terminalSizes := q.terminalSizes.del t
      terminalBytes := (q.terminalSizes.del t).sum id } := by
  unfold removeRetained
  rw [untrackActiveTask_spec (q := { q with terminalOrder := order, tasks := q.tasks.del t }) h.activeBytes]
  dsimp only
  cases hget : q.terminalSizes.get t with
  | none => simp only [FMap.del_eq_self hget, ← h.terminalBytes]
  | some size =>
    have hsum := FMap.sum_of_get id hget
    have hbytes : q.terminalBytes - size = (q.terminalSizes.del t).sum id := by
      rw [h.terminalBytes, hsum]
      exact Nat.add_sub_cancel_left _ _
    simp only [hbytes]

theorem Post.balanced (hp : Post q q') (h : Balanced q) : Balanced q' := by
  cases hp with
  | index same =>
    refine ⟨?_, ?_, ?_, ?_, ?_⟩
    · rw [same.activeBytes, same.activeSizes]
      exact h.activeBytes
    · rw [same.terminalBytes, same.terminalSizes]
      exact h.terminalBytes
    · rw [same.terminalSizes, same.tasks]
      exact h.retained
    · rw [same.terminalOrder, same.terminalSizes]
      exact h.listed
    · rw [same.terminalOrder]
      exact h.nodup
  | @write t e' unfinished =>
    refine ⟨h.activeBytes, h.terminalBytes, fun u n hn => ?_, h.listed, h.nodup⟩
    obtain ⟨e, he, hterm, hbytes⟩ := h.retained u n hn
    have hu : u ≠ t := by
      rintro rfl
      rw [unfinished e he] at hterm
      cases hterm
    exact ⟨e, by rw [setEntry_tasks, FMap.get_set, if_neg hu]; exact he, hterm, hbytes⟩
  | @untrack t =>
    rw [untrackActiveTask_spec h.activeBytes t]
    exact ⟨rfl, h.terminalBytes, h.retained, h.listed, h.nodup⟩
  | @charge t size free =>
    refine ⟨?_, h.terminalBytes, h.retained, h.listed, h.nodup⟩
    rw [FMap.sum_set_fresh id free, h.activeBytes, Nat.add_comm]
    rfl
  | @retain t e free get terminal =>
    have hfresh : t ∉ q.terminalOrder := by
      intro ht
      have hsized := h.listed t ht
      rw [free] at hsized
      cases hsized
    refine ⟨h.activeBytes, ?_, fun u n hn => ?_, fun u hu => ?_, ?_⟩
    · rw [FMap.sum_set_fresh id free, h.terminalBytes, Nat.add_comm]
      rfl
    · replace hn : (q.terminalSizes.set t (retainedBytes e)).get u = some n := hn
      rw [FMap.get_set] at hn
      split at hn
      · next hu =>
        cases hn
        exact ⟨e, by rw [hu]; exact get, terminal, rfl⟩
      · exact h.retained u n hn
    · rw [FMap.get_set]
      split
      · rfl
      next hne =>
      rcases List.mem_append.mp hu with hu | hu
      · exact h.listed u hu
      · exact (hne (List.mem_singleton.mp hu)).elim
    exact List.nodup_append.mpr ⟨h.nodup, List.nodup_singleton t, by
      intro u hu v hv heq
      rw [heq, List.mem_singleton.mp hv] at hu
      exact hfresh hu⟩
  | @evict t rest order terminal =>
    have hnodup := h.nodup
    rw [order, List.nodup_cons] at hnodup
    have hlisted : ∀ u ∈ rest, u ≠ t ∧ (q.terminalSizes.get u).isSome := by
      intro u hu
      refine ⟨?_, h.listed u (by rw [order]; exact List.mem_cons_of_mem _ hu)⟩
      rintro rfl
      exact hnodup.1 hu
    rw [removeRetained_spec h t rest]
    refine ⟨rfl, rfl, fun u n hn => ?_, fun u hu => ?_, hnodup.2⟩
    · replace hn : (q.terminalSizes.del t).get u = some n := hn
      rw [FMap.get_del] at hn
      split at hn
      · cases hn
      next hu =>
      obtain ⟨e, he, hterm, hbytes⟩ := h.retained u n hn
      refine ⟨e, ?_, hterm, hbytes⟩
      rw [FMap.get_del, if_neg hu]
      exact he
    obtain ⟨hne, hsized⟩ := hlisted u hu
    rw [FMap.get_del, if_neg hne]
    exact hsized

theorem Posts.balanced (hp : Posts q q') (h : Balanced q) : Balanced q' := by
  induction hp with
  | refl => exact h
  | tail _ hlast ih => exact hlast.balanced ih

/-- The limits of a queue never change. -/
structure SameLimits (q q' : TaskQueueInner) : Prop where
  retryPolicy : q'.retryPolicy = q.retryPolicy
  capacity : q'.capacity = q.capacity
  maxActiveBytes : q'.maxActiveBytes = q.maxActiveBytes

theorem Post.limits (h : Post q q') : SameLimits q q' := by
  cases h with
  | index same => exact ⟨same.retryPolicy, same.capacity, same.maxActiveBytes⟩
  | write | charge | retain => exact ⟨rfl, rfl, rfl⟩
  | @untrack t =>
    obtain ⟨sizes, bytes, heq⟩ := q.untrackActiveTask_eq t
    rw [heq]
    exact ⟨rfl, rfl, rfl⟩
  | @evict t rest =>
    obtain ⟨sizes, bytes, tbytes, heq⟩ := ({ q with terminalOrder := rest } : TaskQueueInner).removeRetained_eq t
    rw [heq]
    exact ⟨rfl, rfl, rfl⟩

theorem Posts.limits (h : Posts q q') : SameLimits q q' := by
  induction h with
  | refl => exact ⟨rfl, rfl, rfl⟩
  | tail _ hlast ih =>
    exact ⟨hlast.limits.retryPolicy.trans ih.retryPolicy, hlast.limits.capacity.trans ih.capacity,
      hlast.limits.maxActiveBytes.trans ih.maxActiveBytes⟩

end

/-! ## Operations in progress -/

/-- `q'` comes out of `q` by postings; the active ledger is behind for the tasks `D` only. -/
structure Posting (q q' : TaskQueueInner) (D : Set TaskId) : Prop where
  posts : Posts q q'
  balanced : Balanced q'
  charged : ∀ u, u ∉ D → q'.activeSizes.get u = charge (q'.tasks.get u)

/-- The books are in order. -/
structure Booked (q : TaskQueueInner) : Prop where
  balanced : Balanced q
  charged : ∀ t, q.activeSizes.get t = charge (q.tasks.get t)

section

variable {q q1 q2 : TaskQueueInner} {D : Set TaskId} {t : TaskId} {e e' : TaskEntry}

theorem Booked.posting (h : Booked q) : Posting q q ∅ := ⟨.refl, h.balanced, fun u _ => h.charged u⟩

theorem Posting.booked (h : Posting q q1 ∅) : Booked q1 :=
  ⟨h.balanced, fun u => h.charged u (Set.notMem_empty u)⟩

theorem Posting.mono {D' : Set TaskId} (h : Posting q q1 D) (hD : D ⊆ D') : Posting q q1 D' :=
  ⟨h.posts, h.balanced, fun u hu => h.charged u fun hu' => hu (hD hu')⟩

theorem Posting.index (h : Posting q q1 D) (hs : SameBooks q1 q2) : Posting q q2 D := by
  refine ⟨h.posts.tail (.index hs), (Post.index hs).balanced h.balanced, fun u hu => ?_⟩
  rw [hs.activeSizes, hs.tasks]
  exact h.charged u hu

/-- An entry changes, and the ledger has yet to follow. -/
theorem Posting.write (h : Posting q q1 D) (hopen : ∀ e, q1.tasks.get t = some e → e.state.isTerminal = false)
    (e' : TaskEntry) : Posting q (q1.setEntry t e') (insert t D) := by
  have hpost : Post q1 (q1.setEntry t e') := .write hopen
  refine ⟨h.posts.tail hpost, hpost.balanced h.balanced, fun u hu => ?_⟩
  rw [Set.mem_insert_iff, not_or] at hu
  rw [setEntry_tasks, FMap.get_set, if_neg hu.1]
  exact h.charged u hu.2

theorem Posting.rewrite (h : Posting q q1 D) (e' : TaskEntry) (hget : q1.tasks.get t = some e)
    (hopen : e.state.isTerminal = false) (hcharge : charge (some e') = charge (some e))
    (hs : SameBooks (q1.setEntry t e') q2) : Posting q q2 D := by
  have hunfinished : ∀ e1, q1.tasks.get t = some e1 → e1.state.isTerminal = false := by
    intro e1 he1
    cases hget.symm.trans he1
    exact hopen
  have hwrite := h.write hunfinished e'
  refine Posting.index ⟨hwrite.posts, hwrite.balanced, fun u hu => ?_⟩ hs
  by_cases hut : u = t
  · subst hut
    rw [setEntry_tasks, FMap.get_set, if_pos rfl, hcharge, ← hget]
    exact h.charged u hu
  · refine hwrite.charged u ?_
    rw [Set.mem_insert_iff, not_or]
    exact ⟨hut, hu⟩

theorem Posting.untrack (h : Posting q q1 D) (hget : charge (q1.tasks.get t) = none) :
    Posting q (q1.untrackActiveTask t) (D \ {t}) := by
  have hpost : Post q1 (q1.untrackActiveTask t) := .untrack
  refine ⟨h.posts.tail hpost, hpost.balanced h.balanced, fun u hu => ?_⟩
  rw [untrackActiveTask_spec h.balanced.activeBytes t]
  rw [FMap.get_del]
  by_cases hut : u = t
  · subst hut
    rw [if_pos rfl, hget]
  · rw [if_neg hut]
    exact h.charged u fun hD => hu ⟨hD, hut⟩

theorem Posting.update (h : Posting q q1 D) (t : TaskId) : Posting q (q1.updateActiveTask t) (D \ {t}) := by
  have huntrack : Post q1 (q1.untrackActiveTask t) := .untrack
  have hspec := untrackActiveTask_spec h.balanced.activeBytes t
  have hkeep : charge (q1.tasks.get t) = none → Posting q (q1.untrackActiveTask t) (D \ {t}) := h.untrack
  unfold updateActiveTask
  dsimp only
  split
  · next e he =>
    rw [untrackActiveTask_tasks] at he
    split
    · next hterm => exact hkeep (by rw [he]; exact charge_of_terminal hterm)
    next hopen =>
    have hfree : (q1.untrackActiveTask t).activeSizes.get t = none := by
      rw [hspec]
      exact (FMap.get_del _ _ _).trans (if_pos rfl)
    have hpost := Post.charge (retainedBytes e) hfree
    refine ⟨(h.posts.tail huntrack).tail hpost, hpost.balanced (huntrack.balanced h.balanced), fun u hu => ?_⟩
    rw [FMap.get_set, untrackActiveTask_tasks]
    by_cases hut : u = t
    · subst hut
      rw [if_pos rfl, he, charge_of_open (by simpa using hopen)]
    rw [if_neg hut, hspec]
    rw [FMap.get_del, if_neg hut]
    exact h.charged u fun hD => hu ⟨hD, hut⟩
  · next hnone =>
    rw [untrackActiveTask_tasks] at hnone
    exact hkeep (by rw [hnone]; rfl)

/-! ## Eviction and tracking -/

theorem Posting.evict (h : Posting q q1 D) (hevict : q1.evictOldestTerminal = some q2) : Posting q q2 D := by
  unfold evictOldestTerminal at hevict
  split at hevict
  · cases hevict
  next t rest horder =>
  have hterm := h.balanced.oldest horder
  rw [if_pos hterm] at hevict
  cases hevict
  have hpost := Post.evict horder hterm
  refine ⟨h.posts.tail hpost, hpost.balanced h.balanced, fun u hu => ?_⟩
  rw [removeRetained_spec h.balanced t rest]
  rw [FMap.get_del, FMap.get_del]
  split
  · rfl
  · exact h.charged u hu

theorem Posting.evictions (h : Posting q q1 D) (hevictions : Evictions q1 q2) : Posting q q2 D := by
  induction hevictions with
  | refl => exact h
  | tail _ hstep ih => exact ih.evict hstep

theorem Posting.track (h : Posting q q1 D) (hget : q1.tasks.get t = some e) (hterm : e.state.isTerminal)
    (hfree : q1.terminalSizes.get t = none) : Posting q (q1.trackTerminalTask t) (D \ {t}) := by
  have huntrack := h.untrack (by rw [hget]; exact charge_of_terminal hterm)
  have hsizes : (q1.untrackActiveTask t).terminalSizes = q1.terminalSizes := by
    obtain ⟨sizes, bytes, heq⟩ := q1.untrackActiveTask_eq t
    rw [heq]
  have hget' : (q1.untrackActiveTask t).tasks.get t = some e := by
    rw [untrackActiveTask_tasks]
    exact hget
  rw [← hsizes] at hfree
  unfold trackTerminalTask
  dsimp only
  rw [hfree, hget']
  have hpost := Post.retain hfree hget' hterm
  exact Posting.evictions ⟨huntrack.posts.tail hpost, hpost.balanced huntrack.balanced, huntrack.charged⟩
    (enforceTerminalLimits_evictions _)

theorem Posting.finish (h : Posting q q1 D) (hopen : ∀ e, q1.tasks.get t = some e → e.state.isTerminal = false)
    (hterm : e'.state.isTerminal) (ht : t ∉ D) : Posting q ((q1.setEntry t e').trackTerminalTask t) D := by
  have hwrite := (h.write hopen e').track (by simp) hterm (h.balanced.unsized hopen)
  rw [Set.insert_sdiff_self_of_notMem ht] at hwrite
  exact hwrite

end

end OxideSwarm
