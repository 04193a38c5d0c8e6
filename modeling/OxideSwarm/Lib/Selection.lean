import Mathlib.Data.List.Sort

/-!
# Partial selection before sorting

An unstable sort and an unstable selection of the `n`-th element leave equal elements, and everything on
either side of the pivot, in an order of their own.  They are modelled by what they promise, so a result
about them holds for every implementation.  Where the keys are distinct, sorting the selected front gives
the front of the whole list sorted (`sort_take_select`).
-/

variable {α κ : Type} [LinearOrder κ] {key : α → κ}

/-- A sort by key that may reorder equal elements. -/
structure UnstableSort (key : α → κ) where
  sort : List α → List α
  perm : ∀ l, (sort l).Perm l
  sorted : ∀ l, (sort l).Pairwise fun a b => key a ≤ key b

/-- A selection that puts the `n`-th element in its place, smaller ones before it and larger ones after. -/
structure NthSelection (key : α → κ) where
  select : List α → Nat → List α
  perm : ∀ l n, (select l n).Perm l
  before : ∀ l n pivot, (select l n)[n]? = some pivot → ∀ a ∈ (select l n).take n, key a ≤ key pivot
  after : ∀ l n pivot, (select l n)[n]? = some pivot → ∀ a ∈ (select l n).drop (n + 1), key pivot ≤ key a

/-- Merge sort is such a sort. -/
def UnstableSort.merge (key : α → κ) : UnstableSort key where
  sort l := l.mergeSort fun a b => key a ≤ key b
  perm l := List.mergeSort_perm l _
  sorted l := by
    have h := @List.pairwise_mergeSort α (fun a b => decide (key a ≤ key b))
      (fun a b c hab hbc => decide_eq_true ((of_decide_eq_true hab).trans (of_decide_eq_true hbc)))
      (fun a b => by simpa using le_total (key a) (key b)) l
    exact h.imp fun hab => of_decide_eq_true hab

/-- Sorting everything selects every element at once. -/
def NthSelection.bySorting (s : UnstableSort key) : NthSelection key where
  select l _ := s.sort l
  perm l _ := s.perm l
  before l n pivot h a ha := by
    have hpivot : pivot ∈ (s.sort l).drop n := by
      rw [List.mem_iff_getElem?]
      exact ⟨0, by rw [List.getElem?_drop]; exact h⟩
    exact (s.sorted l).rel_of_mem_take_of_mem_drop ha hpivot
  after l n pivot h a ha := by
    have hpivot : pivot ∈ (s.sort l).take (n + 1) := by
      rw [List.mem_iff_getElem?]
      exact ⟨n, by rw [List.getElem?_take_of_lt (Nat.lt_succ_self n)]; exact h⟩
    exact (s.sorted l).rel_of_mem_take_of_mem_drop hpivot ha

theorem sorted_unique {l l' : List α} (hinj : ∀ a ∈ l, ∀ b ∈ l, key a = key b → a = b) (hperm : l.Perm l')
    (hl : l.Pairwise fun a b => key a ≤ key b) (hl' : l'.Pairwise fun a b => key a ≤ key b) : l = l' := by
  refine hperm.eq_of_pairwise (fun a b ha hb hab hba => ?_) hl hl'
  exact hinj a ha b (hperm.mem_iff.2 hb) (le_antisymm hab hba)

theorem NthSelection.front_le (s : NthSelection key) {l : List α} {n : Nat} (hn : n < l.length) {a b : α}
    (ha : a ∈ (s.select l n).take (n + 1)) (hb : b ∈ (s.select l n).drop (n + 1)) : key a ≤ key b := by
  have hlength : n < (s.select l n).length := by
    rw [(s.perm l n).length_eq]
    exact hn
  have hpivot := List.getElem?_eq_getElem hlength
  have hle := s.after l n _ hpivot b hb
  rw [List.take_add_one, hpivot, Option.toList_some] at ha
  rcases List.mem_append.1 ha with ha | ha
  · exact (s.before l n _ hpivot a ha).trans hle
  · rw [List.mem_singleton.1 ha]
    exact hle

/-- **Selecting, cutting and sorting is sorting and cutting.** -/
theorem sort_take_select (sorting : UnstableSort key) (selection : NthSelection key) {l : List α}
    (hinj : ∀ a ∈ l, ∀ b ∈ l, key a = key b → a = b) {n : Nat} (hn : n < l.length) :
    sorting.sort ((selection.select l n).take (n + 1)) = (sorting.sort l).take (n + 1) := by
  have hfront := sorting.perm ((selection.select l n).take (n + 1))
  have hback := sorting.perm ((selection.select l n).drop (n + 1))
  -- the sorted front and the sorted rest are together a sorted arrangement of the whole list
  have hperm : (sorting.sort ((selection.select l n).take (n + 1)) ++
      sorting.sort ((selection.select l n).drop (n + 1))).Perm l := by
    refine (hfront.append hback).trans ?_
    rw [List.take_append_drop]
    exact selection.perm l n
  have hsorted : (sorting.sort ((selection.select l n).take (n + 1)) ++
      sorting.sort ((selection.select l n).drop (n + 1))).Pairwise fun a b => key a ≤ key b := by
    refine List.pairwise_append.2 ⟨sorting.sorted _, sorting.sorted _, fun a ha b hb => ?_⟩
    exact selection.front_le hn (hfront.mem_iff.1 ha) (hback.mem_iff.1 hb)
  have hwhole := sorted_unique (fun a ha b hb => hinj a (hperm.mem_iff.1 ha) b (hperm.mem_iff.1 hb))
    (hperm.trans (sorting.perm l).symm) hsorted (sorting.sorted l)
  have hlength : (sorting.sort ((selection.select l n).take (n + 1))).length = n + 1 := by
    rw [hfront.length_eq, List.length_take, (selection.perm l n).length_eq]
    omega
  rw [← hwhole, List.take_append_of_le_length hlength.ge, List.take_of_length_le hlength.le]
