import Mathlib.Algebra.BigOperators.Group.List.Basic
import Mathlib.Algebra.Order.Ring.Nat
import Mathlib.Data.List.Basic
import Std.Data.DTreeMap.Internal.WF.Lemmas
import Std.Data.ExtTreeMap.Lemmas

/-!
# Evicting in order until enough is freed

`batch` walks a list, oldest first, skips what is guarded and takes items until `excess` is covered or
`room` of them are chosen.  An item counts for at least 1, whatever its size, so that a walk over items of
size 0 ends.  What it takes is a front of the unguarded items (`batch_inOrder`), none of them was taken for
nothing (`batch_needed`), and a batch that was not cut short by `room` frees the excess or takes everything
it may, provided that no unguarded item has size 0 (`batch_short`).

The recency order of such a list is kept as a map from ticks to items; `values_erase` says what taking one
item out does to it.
-/

namespace Eviction

variable {α : Type} (guarded : α → Bool) (size : α → Nat)

/-- What may be evicted. -/
def free (l : List α) : List α := l.filter fun a => !guarded a

/-- The bytes of some items. -/
def bytes (l : List α) : Nat := (l.map size).sum

def batch : Nat → Nat → List α → List α
  | _, _, [] => []
  | excess, room, a :: rest =>
    if excess = 0 ∨ room = 0 then []
    else if guarded a then batch excess room rest
    else a :: batch (excess - max (size a) 1) (room - 1) rest

variable {guarded size}

theorem free_cons_guarded {a : α} (h : guarded a = true) (l : List α) : free guarded (a :: l) = free guarded l :=
  List.filter_cons_of_neg (by rw [h]; decide)

theorem free_cons {a : α} (h : ¬guarded a = true) (l : List α) : free guarded (a :: l) = a :: free guarded l :=
  List.filter_cons_of_pos (by rw [Bool.eq_false_iff.2 h]; rfl)

theorem bytes_append (l l' : List α) : bytes size (l ++ l') = bytes size l + bytes size l' := by
  unfold bytes
  rw [List.map_append, List.sum_append]

theorem bytes_cons (a : α) (l : List α) : bytes size (a :: l) = size a + bytes size l := by
  unfold bytes
  rw [List.map_cons, List.sum_cons]

theorem bytes_congr {size' : α → Nat} {l : List α} (h : ∀ a ∈ l, size' a = size a) : bytes size' l = bytes size l := by
  unfold bytes
  rw [List.map_congr_left h]

theorem batch_inOrder (l : List α) : ∀ excess room, batch guarded size excess room l <+: free guarded l := by
  induction l with
  | nil => exact fun _ _ => List.prefix_refl _
  | cons a rest ih =>
    intro excess room
    unfold batch
    split
    · exact List.nil_prefix
    split
    · next hguarded =>
      rw [free_cons_guarded hguarded]
      exact ih excess room
    · next hfree =>
      rw [free_cons hfree, List.cons_prefix_cons]
      exact ⟨rfl, ih _ _⟩

/-- What was taken before an item of the batch did not cover the excess. -/
theorem batch_needed (l : List α) : ∀ excess room before a after,
    batch guarded size excess room l = before ++ a :: after → bytes size before < excess := by
  induction l with
  | nil =>
    intro excess room before a after h
    exact absurd h.symm (List.append_ne_nil_of_right_ne_nil _ (List.cons_ne_nil a after))
  | cons b rest ih =>
    intro excess room before a after h
    unfold batch at h
    split at h
    · exact absurd h.symm (List.append_ne_nil_of_right_ne_nil _ (List.cons_ne_nil a after))
    next hgoing =>
    split at h
    · exact ih excess room before a after h
    cases before with
    | nil =>
      show 0 < excess
      omega
    | cons c before =>
      obtain ⟨rfl, hrest⟩ := List.cons.inj h
      have hless := ih _ _ before a after hrest
      rw [bytes_cons]
      omega

theorem batch_short (l : List α) : ∀ excess room, (∀ a ∈ free guarded l, 0 < size a) →
    (batch guarded size excess room l).length < room →
    excess ≤ bytes size (batch guarded size excess room l) ∨ batch guarded size excess room l = free guarded l := by
  induction l with
  | nil => exact fun _ _ _ _ => Or.inr rfl
  | cons a rest ih =>
    intro excess room hsize hshort
    unfold batch at hshort ⊢
    split at hshort
    · next hstop =>
      rw [if_pos hstop]
      rw [List.length_nil] at hshort
      left
      omega
    next hgoing =>
    rw [if_neg hgoing]
    split at hshort
    · next hguarded =>
      rw [free_cons_guarded hguarded] at hsize ⊢
      rw [if_pos hguarded]
      exact ih excess room hsize hshort
    next hfree =>
    rw [free_cons hfree] at hsize ⊢
    rw [if_neg hfree, bytes_cons]
    rw [List.length_cons] at hshort
    have ha := hsize a List.mem_cons_self
    rcases ih (excess - max (size a) 1) (room - 1) (fun b hb => hsize b (List.mem_cons_of_mem a hb))
      (by omega) with hcovered | hall
    · left
      omega
    · right
      rw [hall]

/-- What one call is for: of the items `order` lists, oldest first, `evicted` is a front of those that may go,
none of them goes when those before it already met the bound, and afterwards the bytes in use are within the
bound or everything left is guarded. -/
structure Restores (bound : Nat) (order : List α) (guarded : α → Bool) (size : α → Nat) (used used' : Nat)
    (stays : α → Prop) (evicted : List α) : Prop where
  inOrder : evicted <+: free guarded order
  left : ∀ a, stays a ↔ a ∈ order ∧ a ∉ evicted
  needed : ∀ before a after, evicted = before ++ a :: after → bound < used - bytes size before
  fits : used' ≤ bound ∨ ∀ a, stays a → guarded a = true

/-! ## The recency order -/

section

open Std

variable {order : ExtTreeMap Nat α compare}

theorem values_eq_map_toList (order : ExtTreeMap Nat α compare) : order.values = order.toList.map Prod.snd := by
  obtain ⟨⟨tree⟩⟩ := order
  induction tree using Quotient.inductionOn with
  | h tree =>
    show tree.inner.values = (DTreeMap.Internal.Impl.Const.toList tree.inner).map Prod.snd
    rw [DTreeMap.Internal.Impl.values_eq_map_snd, DTreeMap.Internal.Impl.Const.toList_eq_toListModel_map,
      List.map_map]
    rfl

theorem mem_values {a : α} : a ∈ order.values ↔ ∃ k : Nat, order[k]? = some a := by
  rw [values_eq_map_toList, List.mem_map]
  constructor
  · rintro ⟨⟨k, a⟩, hmem, rfl⟩
    exact ⟨k, ExtTreeMap.mem_toList_iff_getElem?_eq_some.1 hmem⟩
  · rintro ⟨k, hget⟩
    exact ⟨(k, a), ExtTreeMap.mem_toList_iff_getElem?_eq_some.2 hget, rfl⟩

theorem toList_ordered (order : ExtTreeMap Nat α compare) : order.toList.Pairwise fun x y => x.1 < y.1 :=
  ExtTreeMap.ordered_keys_toList.imp fun h => Nat.compare_eq_lt.1 h

theorem toList_erase (order : ExtTreeMap Nat α compare) (k : Nat) :
    (order.erase k).toList = order.toList.filter fun x => x.1 ≠ k := by
  have hnodup : ∀ {l : List (Nat × α)}, l.Pairwise (fun x y => x.1 < y.1) → l.Nodup := by
    intro l hl
    refine hl.imp fun hxy heq => ?_
    rw [heq] at hxy
    exact absurd hxy (Nat.lt_irrefl _)
  have hfiltered := (toList_ordered order).filter fun x => decide (x.1 ≠ k)
  have hperm : (order.erase k).toList.Perm (order.toList.filter fun x => decide (x.1 ≠ k)) := by
    rw [List.perm_ext_iff_of_nodup (hnodup (toList_ordered _)) (hnodup hfiltered)]
    rintro ⟨j, a⟩
    rw [List.mem_filter, ExtTreeMap.mem_toList_iff_getElem?_eq_some, ExtTreeMap.mem_toList_iff_getElem?_eq_some,
      ExtTreeMap.getElem?_erase, decide_eq_true_eq]
    by_cases hk : k = j
    · rw [if_pos (Nat.compare_eq_eq.2 hk)]
      simp [hk]
    · rw [if_neg (fun h => hk (Nat.compare_eq_eq.1 h))]
      exact ⟨fun h => ⟨h, Ne.symm hk⟩, And.left⟩
  exact hperm.eq_of_pairwise (fun x y _ _ hxy hyx => absurd hxy (Nat.lt_asymm hyx)) (toList_ordered _) hfiltered

/-- Where the item of a tick has no other tick, erasing the tick takes the item out of the order. -/
theorem values_erase [DecidableEq α] {k : Nat} {a : α} (hget : order[k]? = some a)
    (hone : ∀ j, order[j]? = some a → j = k) : (order.erase k).values = order.values.filter fun b => b ≠ a := by
  rw [values_eq_map_toList, values_eq_map_toList, toList_erase, List.filter_map]
  congr 1
  refine List.filter_congr fun x hx => ?_
  have hx' := ExtTreeMap.mem_toList_iff_getElem?_eq_some.1 hx
  refine decide_eq_decide.2 (not_congr ⟨fun hk => ?_, fun ha => ?_⟩)
  · rw [hk, hget] at hx'
    exact (Option.some.inj hx').symm
  · exact hone x.1 (ha ▸ hx')

end

end Eviction
