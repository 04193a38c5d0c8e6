import OxideSwarm.Lib.FMap
import Mathlib.Data.Multiset.AddSub
import Mathlib.Algebra.Order.Group.Multiset

/-!
# Reference counts

A map of counts without zeros stands for the multiset of what is held: `Represents counts held` says that
the count of `k` is how often `k` is held, and that `k` is not in the map if it is not held.  Raising the
counts of a list adds it to the multiset (`Represents.bumpAll`); lowering them takes it away, and finds
every key with a positive count (`Finds`) exactly if the list was held (`Represents.lowerAll`,
`Represents.finds`).
-/

namespace RefCount

variable {κ : Type} [DecidableEq κ]

/-- One more holder of `k`. -/
def bump (counts : FMap κ Nat) (k : κ) : FMap κ Nat := counts.set k ((counts.get k).getD 0 + 1)

/-- One holder of `k` less; a count that becomes zero goes. -/
def lower (counts : FMap κ Nat) (k : κ) : FMap κ Nat :=
  match counts.get k with
  | some count => if count - 1 = 0 then counts.del k else counts.set k (count - 1)
  | none => counts

/-- What a map of counts holds for a count. -/
def countEntry (n : Nat) : Option Nat := if n = 0 then none else some n

/-- `counts` counts the members of `held`. -/
def Represents (counts : FMap κ Nat) (held : Multiset κ) : Prop :=
  ∀ k, counts.get k = if held.count k = 0 then none else some (held.count k)

/-- Lowering the counts of `ks` one after the other finds each key with a positive count. -/
def Finds (counts : FMap κ Nat) (ks : List κ) : Prop :=
  ∀ pre k post, ks = pre ++ k :: post → ∃ n, (pre.foldl lower counts).get k = some (n + 1)

variable {counts : FMap κ Nat} {held : Multiset κ}

theorem represents_empty : Represents (∅ : FMap κ Nat) 0 := fun _ => rfl

theorem Represents.get (h : Represents counts held) (k : κ) : counts.get k = countEntry (held.count k) := h k

theorem Represents.getD (h : Represents counts held) (k : κ) : (counts.get k).getD 0 = held.count k := by
  rw [h k]
  split
  · next hzero => exact hzero.symm
  · rfl

theorem Represents.mem_iff (h : Represents counts held) (k : κ) : (counts.get k).isSome ↔ k ∈ held := by
  rw [h k, ← Multiset.one_le_count_iff_mem]
  split
  · next hzero => simp [hzero]
  · next hpos => simp; omega

theorem Represents.bump (h : Represents counts held) (k : κ) : Represents (bump counts k) (k ::ₘ held) := by
  intro k'
  rw [RefCount.bump, FMap.get_set, h.getD]
  by_cases hk : k' = k
  · subst hk
    rw [if_pos rfl, Multiset.count_cons_self, if_neg (Nat.succ_ne_zero _)]
  · rw [if_neg hk, Multiset.count_cons_of_ne hk]
    exact h k'

theorem Represents.lower (h : Represents counts held) {k : κ} (hk : k ∈ held) :
    Represents (lower counts k) (held.erase k) := by
  have hpos : held.count k ≠ 0 := Multiset.count_ne_zero.mpr hk
  have hget : counts.get k = some (held.count k) := by rw [h k, if_neg hpos]
  intro k'
  rw [RefCount.lower, hget]
  dsimp only
  by_cases hk' : k' = k
  · subst hk'
    rw [Multiset.count_erase_self]
    split
    · simp
    · simp
  · rw [Multiset.count_erase_of_ne hk', ← h k']
    split <;> simp [hk']

theorem Represents.bumpAll (ks : List κ) : ∀ {counts : FMap κ Nat} {held : Multiset κ},
    Represents counts held → Represents (ks.foldl RefCount.bump counts) (held + ks) := by
  induction ks with
  | nil =>
    intro counts held h
    simpa using h
  | cons k rest ih =>
    intro counts held h
    have hstep := ih (h.bump k)
    rw [Multiset.cons_add, ← Multiset.add_cons, Multiset.cons_coe] at hstep
    exact hstep

theorem Represents.lowerAll (ks : List κ) : ∀ {counts : FMap κ Nat} {held : Multiset κ},
    Represents counts (held + ks) → Represents (ks.foldl RefCount.lower counts) held := by
  induction ks with
  | nil =>
    intro counts held h
    simpa using h
  | cons k rest ih =>
    intro counts held h
    rw [← Multiset.cons_coe, Multiset.add_cons] at h
    have hstep := h.lower (Multiset.mem_cons_self k _)
    rw [Multiset.erase_cons_head] at hstep
    exact ih hstep

/-- What is held can be released: no decrement misses. -/
theorem Represents.finds {ks : List κ} (h : Represents counts (held + ks)) : Finds counts ks := by
  rintro pre k post rfl
  -- after `pre` was released, `k` and `post` are still held
  have hsplit : held + ((pre ++ k :: post : List κ) : Multiset κ) = held + (k ::ₘ (post : Multiset κ)) + pre := by
    rw [← Multiset.coe_add, ← Multiset.cons_coe, add_assoc, add_comm ((k ::ₘ (post : Multiset κ))) _]
  rw [hsplit] at h
  have hrest := h.lowerAll pre
  have hpos : (held + (k ::ₘ (post : Multiset κ))).count k ≠ 0 := by
    rw [Multiset.count_add, Multiset.count_cons_self]
    omega
  refine ⟨(held + (k ::ₘ (post : Multiset κ))).count k - 1, ?_⟩
  rw [hrest k, if_neg hpos]
  congr 1
  omega

end RefCount
