import OxideSwarm.Scheduler.Gates
import Mathlib.Algebra.BigOperators.Fin

/-!
# The free slots of a pass (`master/src/scheduler.rs:164-188, 328-584, 711-725, 1076-1133`)

A pass stops looking for placements once `free_slots` is zero.  `free_slots` is kept up to date with
saturating subtractions; `FreeExact` says that it is the number of slots left on the seats the pass can still
use.  A seat without slots left takes no task: a busy one has none to give, and an idle one has none only if
its task limit is zero as well (`Seat.Budgeted`).
-/

namespace OxideSwarm

variable [Host]

/-- A seat without core slots takes no tasks either. -/
def Seat.Budgeted (s : Seat) : Prop := s.maxSlots = 0 → s.maxTasks = 0

/-- Only a cap of zero, or a device that sheds all load, leaves a worker without core slots. -/
theorem Seat.of_budgeted (config : SchedulerConfig) (loads : Option (Uuid → Option AssignedLoad))
    (worker : WorkerInfo) : (Seat.of config loads worker).Budgeted := by
  have hconfig : config.effectiveMaxConcurrency worker = 0 → config.effectiveMaxTasks worker = 0 := by
    unfold SchedulerConfig.effectiveMaxConcurrency SchedulerConfig.effectiveMaxTasks SchedulerConfig.capped
    cases config.maxTasksPerWorker with
    | none | some =>
      dsimp only
      omega
  intro hslots
  unfold Seat.of at hslots ⊢
  dsimp only at hslots ⊢
  cases hmobile : mobileConcurrency worker with
  | none =>
    rw [hmobile] at hslots
    exact hconfig hslots
  | some eff =>
    rw [hmobile] at hslots
    simp only [Option.elim_some] at hslots ⊢
    rcases Nat.min_eq_zero_iff.mp hslots with hzero | hzero
    · rw [hconfig hzero, Nat.zero_min]
    · rw [hzero, Nat.min_zero]

omit [Host] in
theorem Seat.Budgeted.remaining_pos {s : Seat} (h : s.Budgeted) {weight : Nat} (hw : 0 < weight)
    (hroom : s.saturated weight = false) : 0 < s.remainingSlots := by
  obtain ⟨hpermits, hslots⟩ := Engine.not_saturated_iff.mp hroom
  unfold remainingSlots
  rw [if_neg (by omega)]
  rcases hslots with hidle | hfit
  · have hmax : s.maxSlots ≠ 0 := by
      intro hzero
      have htasks := h hzero
      omega
    omega
  · omega

omit [Host] in
theorem Seat.remaining_take_le (s : Seat) (weight ramMb : Nat) :
    (s.take weight ramMb).remainingSlots ≤ s.remainingSlots := by
  unfold remainingSlots load usedSlots Seat.take
  dsimp only
  split
  · exact Nat.zero_le _
  · rw [if_neg (by omega)]
    omega

namespace Engine

variable {n : Nat}

/-- The seats that a pass can still use. -/
def usable (e : Engine n) (i : Fin n) : Bool := decide ((e.workerAt i).status ≠ .disconnected) && !e.reserved i

/-- The slots left on the usable seats. -/
def slotsLeft (e : Engine n) : Nat := ∑ i, if e.usable i then (e.seats i).remainingSlots else 0

/-- `free_slots` counts the slots left on the usable seats. -/
structure FreeExact (e : Engine n) : Prop where
  exact : e.freeSlots = e.slotsLeft
  budgeted : ∀ i, (e.seats i).Budgeted

section

variable {e : Engine n} {view : TaskView} {i : Fin n}

omit [Host]

/-- Two sums that differ in one term. -/
theorem sum_change {f g : Fin n → Nat} (h : ∀ j, j ≠ i → g j = f j) : ∑ j, g j + f i = ∑ j, f j + g i := by
  have hf := Finset.add_sum_erase Finset.univ f (Finset.mem_univ i)
  have hg := Finset.add_sum_erase Finset.univ g (Finset.mem_univ i)
  have hrest : ∑ j ∈ Finset.univ.erase i, g j = ∑ j ∈ Finset.univ.erase i, f j :=
    Finset.sum_congr rfl fun j hj => h j (Finset.ne_of_mem_erase hj)
  omega

theorem remaining_le_slotsLeft (h : e.usable i = true) : (e.seats i).remainingSlots ≤ e.slotsLeft := by
  have hle := Finset.single_le_sum (f := fun j => if e.usable j then (e.seats j).remainingSlots else 0)
    (fun _ _ => Nat.zero_le _) (Finset.mem_univ i)
  rw [if_pos h] at hle
  exact hle

/-- A task placed on a usable seat takes exactly the slots that seat loses. -/
theorem FreeExact.occupy (h : e.FreeExact) (hi : e.usable i = true) (view : TaskView) (cursor : Nat) :
    (e.occupy view i cursor).FreeExact := by
  have htake := (e.seats i).remaining_take_le (weightOf view) view.requirements.ramMb
  have hle := remaining_le_slotsLeft hi
  have hseat : (e.occupy view i cursor).seats i = (e.seats i).take (weightOf view) view.requirements.ramMb :=
    Function.update_self i _ e.seats
  have hother : ∀ j, j ≠ i → (e.occupy view i cursor).seats j = e.seats j :=
    fun j hj => Function.update_of_ne hj _ e.seats
  have husable : ∀ j, (e.occupy view i cursor).usable j = e.usable j := by
    intro j
    unfold usable workerAt
    by_cases hj : j = i
    · subst hj
      rw [hseat]
      rfl
    · rw [hother j hj]
      rfl
  refine ⟨?_, fun j => ?_⟩
  · have hsum := sum_change (i := i) (f := fun j => if e.usable j then (e.seats j).remainingSlots else 0)
      (g := fun j => if (e.occupy view i cursor).usable j then
        ((e.occupy view i cursor).seats j).remainingSlots else 0) fun j hj => by
      simp only [husable j, hother j hj]
    simp only [husable i, hi, if_true, hseat] at hsum
    have hfree : (e.occupy view i cursor).freeSlots = e.freeSlots - ((e.seats i).remainingSlots -
      ((e.seats i).take (weightOf view) view.requirements.ramMb).remainingSlots) := rfl
    have hexact := h.exact
    unfold slotsLeft at hexact hle ⊢
    omega
  by_cases hj : j = i
  · subst hj
    rw [hseat]
    exact h.budgeted j
  · rw [hother j hj]
    exact h.budgeted j

theorem closest_mem {weight : Nat} {full : List (Fin n)} (h : e.closest weight full = some i) : i ∈ full := by
  have hfold : ∀ (l : List (Fin n)) (best : Option (Fin n)), (∀ b, best = some b → b ∈ full) → l ⊆ full →
      ∀ b, l.foldl (fun best i => best.elim (some i) fun b =>
        if slotsToFree (e.seats i) weight < slotsToFree (e.seats b) weight ∨
          (slotsToFree (e.seats i) weight = slotsToFree (e.seats b) weight ∧ i < b) then some i else some b) best =
        some b → b ∈ full := by
    intro l
    induction l with
    | nil => exact fun best hbest _ b hb => hbest b hb
    | cons a rest ih =>
      intro best hbest hsub
      have ha : a ∈ full := hsub List.mem_cons_self
      refine ih _ (fun b hb => ?_) fun j hj => hsub (List.mem_cons_of_mem _ hj)
      cases best with
      | none =>
        cases hb
        exact ha
      | some c =>
        simp only [Option.elim_some] at hb
        split at hb
        · cases hb
          exact ha
        · cases hb
          exact hbest _ rfl
  refine hfold full none (fun _ hb => nomatch hb) (List.Subset.refl _) i ?_
  rw [← h]
  congr 1
  funext best j
  cases best <;> rfl

/-- A seat that is held back takes its slots out of reach. -/
theorem FreeExact.reserve {held : Engine n} (h : e.FreeExact) (hi : e.usable i = true) (hseats : held.seats = e.seats)
    (hreserved : held.reserved = Function.update e.reserved i true)
    (hfree : held.freeSlots = e.freeSlots - (e.seats i).remainingSlots) : held.FreeExact := by
  have hle := remaining_le_slotsLeft hi
  have hself : held.usable i = false := by
    rw [usable, hreserved, Function.update_self, Bool.not_true, Bool.and_false]
  have hother : ∀ j, j ≠ i → held.usable j = e.usable j := by
    intro j hj
    rw [usable, usable, workerAt, workerAt, hseats, hreserved, Function.update_of_ne hj]
  refine ⟨?_, by rw [hseats]; exact h.budgeted⟩
  have hsum := sum_change (i := i) (f := fun j => if e.usable j then (e.seats j).remainingSlots else 0)
    (g := fun j => if held.usable j then (held.seats j).remainingSlots else 0) fun j hj => by
    simp only [hother j hj, hseats]
  simp only [hself, hi, if_true, Bool.false_eq_true, if_false] at hsum
  have hexact := h.exact
  unfold slotsLeft at hexact hle ⊢
  omega

theorem FreeExact.holdBack (h : e.FreeExact) {full : List (Fin n)} (hfull : ∀ j ∈ full, e.usable j = true)
    (weight : Nat) : (e.holdBack full weight).FreeExact := by
  unfold Engine.holdBack
  split
  · exact h
  · next i hi => exact h.reserve (hfull i (closest_mem hi)) rfl rfl rfl

end

/-! ## Every call and every pass -/

section

variable {e : Engine n} {view : TaskView} {i : Fin n}

theorem Passes.usable (h : e.Passes view i) : e.usable i = true := by
  rw [Engine.usable, h.free, decide_eq_true h.connected]
  rfl

theorem seek_full_usable (h : i ∈ (e.seek view).2) : e.usable i = true := by
  have hcandidates : ∀ avoided, i ∈ (e.candidates view avoided).2 → e.usable i = true := by
    intro avoided hmem
    have hadmits : e.admits view avoided i = true := (List.mem_filter.mp (List.mem_of_mem_filter hmem)).2
    unfold admits seatAdmits at hadmits
    simp only [Bool.and_eq_true, Bool.not_eq_true', Bool.or_eq_false_iff, beq_eq_false_iff_ne] at hadmits
    obtain ⟨hfree, ⟨⟨⟨⟨⟨hconn, -⟩, -⟩, -⟩, -⟩, -⟩, -⟩ := hadmits
    rw [Engine.usable, hfree, workerAt, decide_eq_true hconn.1]
    rfl
  unfold seek at h
  dsimp only at h
  split at h
  · exact hcandidates _ h
  · exact hcandidates _ h

theorem FreeExact.place (h : e.FreeExact) (view : TaskView) : (e.place view).2.FreeExact := by
  unfold Engine.place
  split
  · exact h
  split
  · exact h
  dsimp only
  split
  · exact h
  split
  · next full hseek =>
    have hfull : ∀ j ∈ full, e.usable j = true := by
      intro j hj
      have hmem : j ∈ (e.seek view).2 := by
        rw [hseek]
        exact hj
      exact seek_full_usable hmem
    have hheld := h.holdBack hfull (weightOf view)
    exact ⟨hheld.exact, hheld.budgeted⟩
  next first rest full hseek =>
  have hmem : (e.rank view first rest).1 ∈ (e.seek view).1 := by
    rw [hseek]
    exact rank_mem e view first rest
  exact h.occupy (passes_of_seek hmem).usable view _

/-- A task is placed only while there are free slots. -/
theorem FreeExact.pos_of_placed (h : e.FreeExact) (hp : (e.place view).1 = .placed i) : 0 < e.freeSlots := by
  have hpasses := passes_of_placed hp
  have hroom := not_saturated_iff.mpr ⟨hpasses.permits, hpasses.slots⟩
  have hpos := (h.budgeted i).remaining_pos (weightOf_pos view) hroom
  rw [h.exact]
  exact hpos.trans_le (remaining_le_slotsLeft hpasses.usable)

theorem place_freeSlots_le (e : Engine n) (view : TaskView) : (e.place view).2.freeSlots ≤ e.freeSlots := by
  unfold Engine.place
  split
  · exact Nat.le_refl _
  split
  · exact Nat.le_refl _
  dsimp only
  split
  · exact Nat.le_refl _
  split
  · unfold Engine.holdBack
    split
    · exact Nat.le_refl _
    · exact Nat.sub_le _ _
  · exact Nat.sub_le _ _

theorem FreeExact.call (h : e.FreeExact) (c : EngineCall) :
    (e.call c).FreeExact ∧ (e.call c).freeSlots ≤ e.freeSlots := by
  cases c with
  | place view => exact ⟨h.place view, place_freeSlots_le e view⟩
  | demand waiting recent => exact ⟨⟨h.exact, h.budgeted⟩, Nat.le_refl _⟩

theorem FreeExact.calls (cs : List EngineCall) : ∀ {e : Engine n}, e.FreeExact →
    (e.calls cs).FreeExact ∧ (e.calls cs).freeSlots ≤ e.freeSlots := by
  induction cs with
  | nil => exact fun h => ⟨h, Nat.le_refl _⟩
  | cons c rest ih =>
    intro e h
    obtain ⟨hstep, hle⟩ := h.call c
    obtain ⟨hrest, hle'⟩ := ih hstep
    exact ⟨hrest, hle'.trans hle⟩

theorem started_freeExact (config : SchedulerConfig) (workers : List WorkerInfo)
    (loads : Option (Uuid → Option AssignedLoad)) (gpuWaiting gpuRecent : Bool) (cursor : Nat) :
    (started config workers loads gpuWaiting gpuRecent cursor).FreeExact := by
  refine ⟨?_, fun i => Seat.of_budgeted config loads (workers.get i)⟩
  show (((List.finRange workers.length).filter fun i => decide ((workers.get i).status ≠ .disconnected)).map
    fun i => (Seat.of config loads (workers.get i)).remainingSlots).sum = _
  unfold slotsLeft
  rw [← List.sum_ofFn, List.ofFn_eq_map]
  generalize List.finRange workers.length = l
  induction l with
  | nil => rfl
  | cons i rest ih =>
    have husable : (started config workers loads gpuWaiting gpuRecent cursor).usable i =
        decide ((workers.get i).status ≠ .disconnected) := Bool.and_true _
    rw [List.map_cons, List.sum_cons, husable, ← ih, List.filter_cons]
    split
    · rfl
    · exact (Nat.zero_add _).symm

end

/-- **The early exit of a pass loses nothing.**  Throughout a pass `free_slots` is the number of slots left on
the connected seats that are not held back, and what it is lowered by never exceeds it; once it is zero, no task
can be placed any more in this pass, whatever it asks for. -/
theorem early_exit_loses_nothing (config : SchedulerConfig) (workers : List WorkerInfo)
    (loads : Option (Uuid → Option AssignedLoad)) (gpuWaiting gpuRecent : Bool) (cursor : Nat)
    (cs : List EngineCall) :
    let e := (started config workers loads gpuWaiting gpuRecent cursor).calls cs
    e.freeSlots = (∑ i, if (e.workerAt i).status ≠ .disconnected ∧ e.reserved i = false then
      (e.seats i).remainingSlots else 0) ∧
    (∀ i, (e.workerAt i).status ≠ .disconnected → e.reserved i = false →
      (e.seats i).remainingSlots ≤ e.freeSlots) ∧
    (∀ i weight ramMb, ((e.seats i).take weight ramMb).remainingSlots ≤ (e.seats i).remainingSlots) ∧
    (∀ view i, (e.place view).1 = .placed i → (e.workerAt i).status ≠ .disconnected ∧ e.reserved i = false) ∧
    (∀ view i, e.closest (weightOf view) (e.seek view).2 = some i →
      (e.workerAt i).status ≠ .disconnected ∧ e.reserved i = false) ∧
    (e.freeSlots = 0 → ∀ later view i, ((e.calls later).place view).1 ≠ .placed i) := by
  intro e
  have h : e.FreeExact := (started_freeExact config workers loads gpuWaiting gpuRecent cursor).calls cs |>.1
  have husable : ∀ i, e.usable i = true ↔ (e.workerAt i).status ≠ .disconnected ∧ e.reserved i = false := by
    intro i
    rw [usable, Bool.and_eq_true, decide_eq_true_eq, Bool.not_eq_true']
  refine ⟨?_, fun i hconn hfree => ?_, fun i => (e.seats i).remaining_take_le, fun view i hp => ?_,
    fun view i hclosest => ?_, fun hzero later view i hp => ?_⟩
  · rw [h.exact]
    unfold slotsLeft
    simp only [husable]
  · rw [h.exact]
    exact remaining_le_slotsLeft ((husable i).mpr ⟨hconn, hfree⟩)
  · exact ⟨(passes_of_placed hp).connected, (passes_of_placed hp).free⟩
  · exact (husable i).mp (seek_full_usable (closest_mem hclosest))
  · obtain ⟨hlater, hle⟩ := h.calls later
    have hpos := hlater.pos_of_placed hp
    omega

end Engine

end OxideSwarm
