import OxideSwarm.Queue.Facet

/-!
# Index coherence and legal changes

`Coherent q` says that the queue's indexes are the function `Facet.of` of its entries and that every
entry is well formed.  `Change t o o'` lists what may happen to the entry of one task: it is
created, it moves along the state machine while it is not terminal, or it leaves the queue once it
is terminal.  `Evolving q q' F` says that `q'` comes out of `q` by such changes and that its indexes
are up to date except for the tasks `F`, which have finished but are not yet tracked as terminal;
an operation is over when `F` is empty (`Evolving.coherent`).

Eviction and tracking are described once here: `Evictions.trims` (a loop of evictions drops some
retained tasks and touches nothing else) and `Evolving.track`.
-/

namespace OxideSwarm

open Std TaskQueueInner

/-- A well-formed entry of task `t`. -/
structure EntryOk (t : TaskId) (e : TaskEntry) : Prop where
  id : e.task.id = t
  accepted : e.state ≠ .submitted
  free : e.state.isTerminal = false → e.state.isActive = false →
    e.assignedWorkerId = none ∧ e.assignedSession = none
  held : e.state.isActive → ∃ w, e.assignedWorkerId = some w
  result : e.result.isSome ↔ e.state.isTerminal

/-- The indexes agree with the entries and the entries are well formed. -/
structure Coherent (q : TaskQueueInner) : Prop where
  facets : ∀ t, facet q t = Facet.of t (q.tasks.get t)
  entries : ∀ t e, q.tasks.get t = some e → EntryOk t e

/-! ## Changes of one entry -/

/-- An entry of `t` is kept, or moves along the state machine while it is not terminal. -/
def Move (t : TaskId) (e e' : TaskEntry) : Prop :=
  e' = e ∨ (e.state.isTerminal = false ∧ EntryOk t e' ∧
    (e'.state = e.state ∨ e.state.canTransitionTo e'.state))

/-- What may happen to the entry of `t`. -/
inductive Change (t : TaskId) : Option TaskEntry → Option TaskEntry → Prop
  | absent : Change t none none
  | create {e : TaskEntry} : EntryOk t e → e.state = .queued → Change t none (some e)
  | move {e e' : TaskEntry} : Move t e e' → Change t (some e) (some e')
  | drop {e e' : TaskEntry} : Move t e e' → e'.state.isTerminal → Change t (some e) none

theorem Change.refl (t : TaskId) (o : Option TaskEntry) : Change t o o := by
  cases o with
  | none => exact .absent
  | some e => exact .move (Or.inl rfl)

variable {e : TaskEntry} {t : TaskId}

/-- A changed entry that is terminal may be dropped at once. -/
theorem Change.evict {o : Option TaskEntry}
    (h : Change t o (some e)) (he : e.state.isTerminal) : Change t o none := by
  cases h with
  | create _ hq => simp [hq, TaskState.isTerminal] at he
  | move hm => exact .drop hm he

theorem Change.entryOk {o : Option TaskEntry}
    (h : Change t o (some e)) (ho : ∀ e, o = some e → EntryOk t e) : EntryOk t e := by
  cases h with
  | create hok _ => exact hok
  | move hm =>
    rcases hm with rfl | ⟨-, hok, -⟩
    · exact ho _ rfl
    · exact hok

/-! ## Eviction -/

/-- `q'` is `q` without some retained terminal tasks. -/
def Trimmed (q q' : TaskQueueInner) : Prop :=
  ∀ u, facet q' u = facet q u ∨
    ((∃ e, e.state.isTerminal ∧ facet q u = Facet.of u (some e)) ∧ facet q' u = Facet.of u none)

theorem Trimmed.refl (q : TaskQueueInner) : Trimmed q q := fun _ => Or.inl rfl

variable {q q' : TaskQueueInner}

theorem Trimmed.trans {q'' : TaskQueueInner} (h : Trimmed q q') (h' : Trimmed q' q'') : Trimmed q q'' := by
  intro u
  rcases h' u with h2 | ⟨⟨e, he, h1⟩, h2⟩
  · rw [h2]; exact h u
  rcases h u with h3 | ⟨-, h3⟩
  · exact .inr ⟨⟨e, he, h3 ▸ h1⟩, h2⟩
  · rw [h3] at h1
    have := congrArg Facet.entry h1
    simp at this

/-- The tasks in `terminal_order` are terminal and fully tracked. -/
def Retained (q : TaskQueueInner) : Prop :=
  ∀ u ∈ q.terminalOrder, ∃ e, e.state.isTerminal ∧ facet q u = Facet.of u (some e)

theorem Retained.trimmed (hq : Retained q) (h : Trimmed q q') : Retained q' := by
  intro u hu
  have hcount : 0 < (facet q' u).retained := List.count_pos_iff.mpr hu
  rcases h u with h1 | ⟨-, h1⟩
  · rw [h1] at hcount ⊢
    exact hq u (List.count_pos_iff.mp hcount)
  · rw [h1] at hcount
    simp [Facet.of] at hcount

theorem evictOldestTerminal_trims (hq : Retained q) (h : q.evictOldestTerminal = some q') : Trimmed q q' := by
  unfold evictOldestTerminal at h
  split at h
  · cases h
  next t rest horder =>
  obtain ⟨e, he, hf⟩ := hq t (by rw [horder]; exact List.mem_cons_self)
  have hget : q.tasks.get t = some e := get_of_facet hf
  have hcount : (t :: rest).count t = 1 := by
    have := congrArg Facet.retained hf
    simpa [facet, horder, Facet.of_terminal he] using this
  have hrest : rest.count t = 0 := by simpa using hcount
  simp only [hget, Option.any_some, he, if_true, Option.some.injEq] at h
  subst h
  intro u
  by_cases hu : u = t
  · subst hu
    refine .inr ⟨⟨e, he, hf⟩, ?_⟩
    rw [facet_removeRetained, if_pos rfl, facet_terminalOrder, hf, Facet.of_terminal he, hrest]
    rfl
  have hne : (t :: rest).count u = rest.count u := List.count_cons_of_ne (Ne.symm hu)
  refine .inl ?_
  rw [facet_removeRetained, if_neg hu, facet_terminalOrder, ← hne, ← horder]
  rfl

theorem Evictions.trims (h : Evictions q q') (hq : Retained q) : Trimmed q q' := by
  induction h with
  | refl => exact .refl q
  | tail _ hstep ih => exact ih.trans (evictOldestTerminal_trims (hq.trimmed ih) hstep)

/-! ## Operations in progress -/

/-- `q'` comes out of `q` by legal changes; the tasks `F` have finished but are not tracked yet. -/
structure Evolving (q q' : TaskQueueInner) (F : Set TaskId) : Prop where
  change : ∀ u, Change u (q.tasks.get u) (q'.tasks.get u)
  tracked : ∀ u, u ∉ F → facet q' u = Facet.of u (q'.tasks.get u)
  pending : ∀ u ∈ F, ∃ e, e.state.isTerminal ∧ facet q' u = Facet.untracked e

theorem Evolving.refl (hq : Coherent q) : Evolving q q ∅ where
  change u := Change.refl u _
  tracked u _ := hq.facets u
  pending u hu := absurd hu (Set.notMem_empty u)

theorem Evolving.coherent (hq : Coherent q) (h : Evolving q q' ∅) :
    Coherent q' where
  facets t := h.tracked t (Set.notMem_empty t)
  entries t e he := by
    have hc := h.change t
    rw [he] at hc
    exact hc.entryOk (hq.entries t)

theorem Evolving.one {F : Set TaskId} (hq : Coherent q) (hother : ∀ u, u ≠ t → facet q' u = facet q u)
    (hget : q'.tasks.get t = some e) (hchange : Change t (q.tasks.get t) (some e))
    (htracked : t ∉ F → facet q' t = Facet.of t (some e))
    (hpending : ∀ u ∈ F, ∃ e, e.state.isTerminal ∧ facet q' u = Facet.untracked e) : Evolving q q' F where
  change u := by
    by_cases hu : u = t
    · rw [hu, hget]; exact hchange
    · rw [get_congr (hother u hu)]; exact .refl u _
  tracked u hF := by
    by_cases hu : u = t
    · subst hu
      rw [htracked hF, hget]
    · rw [hother u hu, get_congr (hother u hu)]; exact hq.facets u
  pending := hpending

/-- One task changes, to an entry whose indexes are up to date. -/
theorem Evolving.single (hq : Coherent q)
    (hother : ∀ u, u ≠ t → facet q' u = facet q u) (hself : facet q' t = Facet.of t (some e))
    (hchange : Change t (q.tasks.get t) (some e)) : Evolving q q' ∅ :=
  .one hq hother (get_of_facet hself) hchange (fun _ => hself) fun u hu => absurd hu (Set.notMem_empty u)

theorem Evolving.finish (hq : Coherent q)
    (hother : ∀ u, u ≠ t → facet q' u = facet q u) (hself : facet q' t = Facet.untracked e)
    (hterm : e.state.isTerminal) (hchange : Change t (q.tasks.get t) (some e)) :
    Evolving q q' {t} := by
  refine .one hq hother (congrArg Facet.entry hself) hchange (fun hnot => absurd rfl hnot) fun u hu => ?_
  rw [Set.mem_singleton_iff] at hu
  subst hu
  exact ⟨e, hterm, hself⟩

variable {F : Set TaskId} {q1 q2 : TaskQueueInner}

/-- A queue whose facets are the same is as far along. -/
theorem Evolving.congr (h : Evolving q q1 F)
    (hsame : ∀ u, facet q2 u = facet q1 u) : Evolving q q2 F where
  change u := by
    have hget : q2.tasks.get u = q1.tasks.get u := get_congr (hsame u)
    rw [hget]; exact h.change u
  tracked u hu := by
    have hget : q2.tasks.get u = q1.tasks.get u := get_congr (hsame u)
    rw [hsame u, hget]; exact h.tracked u hu
  pending u hu := by rw [hsame u]; exact h.pending u hu

/-- Two evolutions in a row, if no task changes in both. -/
theorem Evolving.append (h : Evolving q q1 ∅) (h' : Evolving q1 q2 ∅)
    (honce : ∀ u, q1.tasks.get u = q.tasks.get u ∨ q2.tasks.get u = q1.tasks.get u) :
    Evolving q q2 ∅ where
  change u := by
    rcases honce u with hu | hu
    · rw [← hu]; exact h'.change u
    · rw [hu]; exact h.change u
  tracked := h'.tracked
  pending u hu := absurd hu (Set.notMem_empty u)

theorem Evolving.retained (h : Evolving q q' F) : Retained q' := by
  intro u hu
  have hcount : 0 < (facet q' u).retained := List.count_pos_iff.mpr hu
  by_cases hF : u ∈ F
  · obtain ⟨e, -, hf⟩ := h.pending u hF
    rw [hf] at hcount
    simp [Facet.untracked] at hcount
  have hf := h.tracked u hF
  rw [hf] at hcount ⊢
  cases ho : q'.tasks.get u with
  | none => rw [ho] at hcount; simp [Facet.of] at hcount
  | some e =>
    rw [ho] at hcount
    refine ⟨e, ?_, rfl⟩
    by_contra hterm
    simp [Facet.of, hterm] at hcount

theorem Evolving.trim (h : Evolving q q1 F)
    (ht : Trimmed q1 q2) : Evolving q q2 F where
  change u := by
    rcases ht u with hf | ⟨⟨e, he, h1⟩, hf⟩
    · have hget : q2.tasks.get u = q1.tasks.get u := get_congr hf
      rw [hget]; exact h.change u
    have hget : q2.tasks.get u = none := get_of_facet hf
    have hget1 : q1.tasks.get u = some e := get_of_facet h1
    have hc := h.change u
    rw [hget1] at hc
    rw [hget]; exact hc.evict he
  tracked u hu := by
    rcases ht u with hf | ⟨-, hf⟩
    · have hget : q2.tasks.get u = q1.tasks.get u := get_congr hf
      rw [hf, hget]; exact h.tracked u hu
    · have hget : q2.tasks.get u = none := get_of_facet hf
      rw [hf, hget]
  pending u hu := by
    obtain ⟨e, he, hp⟩ := h.pending u hu
    rcases ht u with hf | ⟨⟨e', he', h1⟩, -⟩
    · exact ⟨e, he, by rw [hf, hp]⟩
    -- a tracked task is not pending
    rw [h1, Facet.of_terminal he'] at hp
    have := congrArg Facet.retained hp
    simp [Facet.untracked] at this

theorem Evolving.track (h : Evolving q q' F) (ht : t ∈ F) : Evolving q (q'.trackTerminalTask t) (F \ {t}) := by
  obtain ⟨e, he, hp⟩ := h.pending t ht
  have hunsized : ((q'.untrackActiveTask t).terminalSizes.get t).isSome = false := by
    have hs := congrArg Facet.sized ((q'.facet_untrackActiveTask t t).trans hp)
    simpa [facet, Facet.untracked] using hs
  unfold trackTerminalTask
  dsimp only
  rw [hunsized]
  simp only [Bool.false_eq_true, if_false]
  -- the queue in which `t` has just been appended
  generalize hq1 : ({ q'.untrackActiveTask t with
      terminalSizes := (q'.untrackActiveTask t).terminalSizes.set t
        (((q'.untrackActiveTask t).tasks.get t).elim 0 retainedBytes)
      terminalBytes := (q'.untrackActiveTask t).terminalBytes +
        ((q'.untrackActiveTask t).tasks.get t).elim 0 retainedBytes
      terminalOrder := (q'.untrackActiveTask t).terminalOrder ++ [t] } : TaskQueueInner) = q1
  have hself : facet q1 t = Facet.of t (some e) := by
    have hf := (q'.facet_untrackActiveTask t t).trans hp
    rw [Facet.of_terminal he, ← hq1]
    rw [Facet.ext_iff] at hf ⊢
    obtain ⟨h1, h2, h3, h4, -⟩ := hf
    refine ⟨h1, h2, h3, ?_, ?_⟩
    · have h4' : (q'.untrackActiveTask t).terminalOrder.count t = 0 := h4
      simp [facet, List.count_append, h4']
    · simp [facet]
  have hother : ∀ u, u ≠ t → facet q1 u = facet q' u := by
    intro u hu
    rw [← q'.facet_untrackActiveTask t u, ← hq1]
    have hne : [t].count u = 0 := by simp [Ne.symm hu]
    simp [facet, List.count_append, hne, hu]
  have h1 : Evolving q q1 (F \ {t}) :=
    { change := by
        intro u
        by_cases hu : u = t
        · subst hu
          have hget : q1.tasks.get u = some e := get_of_facet hself
          have hget' : q'.tasks.get u = some e := congrArg Facet.entry hp
          rw [hget, ← hget']; exact h.change u
        · have hget : q1.tasks.get u = q'.tasks.get u := get_congr (hother u hu)
          rw [hget]; exact h.change u
      tracked := by
        intro u hu
        by_cases hut : u = t
        · subst hut
          have hget : q1.tasks.get u = some e := get_of_facet hself
          rw [hself, hget]
        · have hget : q1.tasks.get u = q'.tasks.get u := get_congr (hother u hut)
          rw [hother u hut, hget]
          exact h.tracked u fun hF => hu ⟨hF, hut⟩
      pending := by
        rintro u ⟨hF, hut⟩
        rw [hother u hut]
        exact h.pending u hF }
  exact h1.trim ((enforceTerminalLimits_evictions q1).trims h1.retained)

end OxideSwarm
