import OxideSwarm.Scheduler.Engine

/-!
# What a placement guarantees

`place_cases` says all a call of `Engine.place` can do to the seats: nothing, or one more task on a
seat that passed stages 1 to 5 (`Admitted`).  From it come

* `Admitted.gpu`, `Admitted.fits`: a placed task's GPU need, hardware requirements and placement
  constraints are met by the worker it was placed on;
* `placements_within_capacity`: whatever sequence of views the engine is fed, no seat carries more
  tasks or core slots than its limits, except one oversized task on a worker that was idle.
-/

namespace OxideSwarm.Engine

variable {n : Nat}

/-! ## Where a placed task lands -/

theorem getD_mod_mem {α : Type} (pool : List α) (k : Nat) (d : α) (h : pool ≠ []) :
    pool.getD (k % pool.length) d ∈ pool := by
  have hlt : k % pool.length < pool.length := Nat.mod_lt _ (List.length_pos_of_ne_nil h)
  rw [List.getD_eq_getElem?_getD, List.getElem?_eq_getElem hlt]
  exact List.getElem_mem hlt

theorem headD_mem {α : Type} (l : List α) (d : α) (h : l ≠ []) : l.headD d ∈ l := by
  cases l with
  | nil => exact absurd rfl h
  | cons a rest => exact List.mem_cons_self

variable {i : Fin n} {view : TaskView}

theorem mem_of_mem_preserveGpu {e : Engine n} {found : List (Fin n)}
    (h : i ∈ e.preserveGpu view found) : i ∈ found := by
  unfold preserveGpu at h
  dsimp only at h
  split at h
  · split at h
    · exact List.mem_of_mem_filter h
    · exact List.mem_of_mem_filter h
  · exact h

theorem mem_of_mem_preferRealGpu {e : Engine n} {found : List (Fin n)}
    (h : i ∈ e.preferRealGpu view found) : i ∈ found := by
  unfold preferRealGpu at h
  split at h
  · exact List.mem_of_mem_filter h
  · exact h

@[simp] theorem holdBack_seats (e : Engine n) (full : List (Fin n)) (weight : Nat) :
    (e.holdBack full weight).seats = e.seats := by
  unfold holdBack
  split <;> rfl

variable [Host]

/-- The seat `idx` passed stages 1 to 5 for `view`, avoiding some workers. -/
structure Admitted (e : Engine n) (view : TaskView) (idx : Fin n) : Prop where
  stages : ∃ avoided, e.admits view avoided idx = true
  room : (e.seats idx).saturated (weightOf view) = false

variable {idx : Fin n}

theorem Admitted.seatAdmits {e : Engine n} (h : e.Admitted view idx) :
    ∃ avoided, Engine.seatAdmits e.config (e.seats idx) view avoided = true := by
  obtain ⟨avoided, hav⟩ := h.stages
  unfold admits at hav
  rw [Bool.and_eq_true] at hav
  exact ⟨avoided, hav.2⟩

/-- Strict GPU gating: a GPU task is only admitted to a worker that can execute GPU work. -/
theorem Admitted.gpu {e : Engine n} (h : e.Admitted view idx)
    (hg : view.requiresGpu = true) : (e.seats idx).worker.capabilities.canExecuteGpu = true := by
  obtain ⟨avoided, hav⟩ := h.seatAdmits
  unfold Engine.seatAdmits at hav
  simp only [Bool.and_eq_true, hg, Bool.true_and, Bool.not_not] at hav
  exact hav.1.1.2

theorem Admitted.fits {e : Engine n} (h : e.Admitted view idx) : viewFits view (e.seats idx).worker = true := by
  obtain ⟨avoided, hav⟩ := h.seatAdmits
  unfold Engine.seatAdmits at hav
  simp only [Bool.and_eq_true] at hav
  exact hav.1.1.1.1.1.2

theorem admitted_of_mem_candidates {e : Engine n} {avoided : List Uuid}
    (h : i ∈ (e.candidates view avoided).1) : e.Admitted view i := by
  have hfound := mem_of_mem_preserveGpu (mem_of_mem_preferRealGpu h)
  rw [List.mem_filter, List.mem_filter] at hfound
  obtain ⟨⟨-, hadm⟩, hroom⟩ := hfound
  exact ⟨⟨avoided, hadm⟩, by simpa using hroom⟩

theorem admitted_of_mem_seek {e : Engine n} (h : i ∈ (e.seek view).1) : e.Admitted view i := by
  unfold seek at h
  dsimp only at h
  split at h
  · exact admitted_of_mem_candidates h
  · exact admitted_of_mem_candidates h

theorem rank_mem (e : Engine n) (view : TaskView) (first : Fin n) (rest : List (Fin n)) :
    (e.rank view first rest).1 ∈ first :: rest := by
  have hsorted : ∀ r : Fin n → Fin n → Prop, ∀ [DecidableRel r],
      ((first :: rest).insertionSort r).headD first ∈ first :: rest := by
    intro r _
    have hperm := List.perm_insertionSort r (first :: rest)
    refine hperm.mem_iff.1 (headD_mem _ _ ?_)
    intro hnil
    rw [hnil] at hperm
    exact List.cons_ne_nil _ _ hperm.symm.eq_nil
  unfold rank
  dsimp only
  split
  · split
    · next hreal =>
      simp only [Bool.and_eq_true, Bool.not_eq_true', List.isEmpty_eq_false_iff] at hreal
      exact List.mem_of_mem_filter (getD_mod_mem _ _ _ hreal.2)
    · exact getD_mod_mem _ _ _ (List.cons_ne_nil _ _)
  · exact hsorted _

/-- **All a call of `place` can do to the seats.** -/
theorem place_cases (e : Engine n) (view : TaskView) :
    (∃ idx cursor, e.Admitted view idx ∧ e.place view = (.placed idx, e.occupy view idx cursor)) ∨
    ((∀ idx, (e.place view).1 ≠ .placed idx) ∧ (e.place view).2.seats = e.seats) := by
  unfold place
  split
  · exact .inr ⟨nofun, rfl⟩
  split
  · exact .inr ⟨nofun, rfl⟩
  dsimp only
  split
  · exact .inr ⟨nofun, rfl⟩
  split
  · exact .inr ⟨nofun, holdBack_seats _ _ _⟩
  next first rest _ hseek =>
  refine .inl ⟨(e.rank view first rest).1, (e.rank view first rest).2, ?_, rfl⟩
  apply admitted_of_mem_seek
  rw [hseek]
  exact rank_mem e view first rest

/-! ## Capacity -/

end OxideSwarm.Engine

namespace OxideSwarm

/-- No seat carries more than its limits, one oversized task on an idle worker apart. -/
structure Seat.WithinCapacity (s : Seat) : Prop where
  tasks : s.placed.tasks = 0 ∨ s.base.tasks + s.placed.tasks ≤ s.maxTasks
  slots : s.placed.slots = 0 ∨ s.base.slots + s.placed.slots ≤ s.maxSlots ∨
    (s.base.slots = 0 ∧ s.placed.tasks = 1)

/-- The invariant of a pass: every placed task brought at least one slot along. -/
structure Seat.Filled (s : Seat) : Prop extends s.WithinCapacity where
  weighed : s.placed.tasks ≤ s.placed.slots

theorem Seat.Filled.take {s : Seat} (h : s.Filled) {weight : Nat} (ramMb : Nat) (hw : 0 < weight)
    (hroom : s.saturated weight = false) : (s.take weight ramMb).Filled := by
  obtain ⟨⟨-, -⟩, hweighed⟩ := h
  unfold saturated load usedSlots at hroom
  simp only [Bool.or_eq_false_iff, decide_eq_false_iff_not, Bool.and_eq_false_iff] at hroom
  obtain ⟨htasks, hslots⟩ := hroom
  refine ⟨⟨Or.inr ?_, Or.inr ?_⟩, ?_⟩
  · show s.base.tasks + (s.placed.tasks + 1) ≤ s.maxTasks
    omega
  · show s.base.slots + (s.placed.slots + weight) ≤ s.maxSlots ∨ (s.base.slots = 0 ∧ s.placed.tasks + 1 = 1)
    rcases hslots with hidle | hfit
    · -- an idle seat: nothing was placed on it before, so this is its only task
      right
      omega
    · left
      omega
  · show s.placed.tasks + 1 ≤ s.placed.slots + weight
    omega

theorem Seat.of_filled [Host] (config : SchedulerConfig) (loads : Option (Uuid → Option AssignedLoad))
    (worker : WorkerInfo) : (Seat.of config loads worker).Filled :=
  ⟨⟨Or.inl rfl, Or.inl rfl⟩, Nat.le_refl 0⟩

namespace Engine

variable [Host] {n : Nat}

omit [Host] in
theorem weightOf_pos (view : TaskView) : 0 < weightOf view := by
  unfold weightOf
  omega

theorem place_filled {e : Engine n} (h : ∀ i, (e.seats i).Filled) (view : TaskView) (i : Fin n) :
    ((e.place view).2.seats i).Filled := by
  rcases place_cases e view with ⟨idx, cursor, hadm, hp⟩ | ⟨-, hseats⟩
  · rw [hp]
    show ((Function.update e.seats idx ((e.seats idx).take (weightOf view) view.requirements.ramMb)) i).Filled
    by_cases hi : i = idx
    · subst hi
      rw [Function.update_self]
      exact (h i).take _ (weightOf_pos view) hadm.room
    · rw [Function.update_of_ne hi]
      exact h i
  · rw [hseats]
    exact h i

theorem placeAll_filled {e : Engine n} (h : ∀ i, (e.seats i).Filled) (views : List TaskView) :
    ∀ i, ((e.placeAll views).seats i).Filled := by
  induction views generalizing e with
  | nil => exact h
  | cons view rest ih => exact ih (place_filled h view)

/-- **Capacity safety of a placement pass.** -/
theorem placements_within_capacity (config : SchedulerConfig) (workers : List WorkerInfo)
    (loads : Option (Uuid → Option AssignedLoad)) (gpuWaiting gpuRecent : Bool) (cursor : Nat)
    (views : List TaskView) (i : Fin workers.length) :
    ((({ new config workers loads gpuWaiting gpuRecent with rrCursor := cursor }
      : Engine workers.length).placeAll views).seats i).WithinCapacity := by
  have hstart : ∀ j, (({ new config workers loads gpuWaiting gpuRecent with rrCursor := cursor }
      : Engine workers.length).seats j).Filled := fun j => Seat.of_filled config loads (workers.get j)
  exact (placeAll_filled hstart views i).toWithinCapacity

end Engine

end OxideSwarm
