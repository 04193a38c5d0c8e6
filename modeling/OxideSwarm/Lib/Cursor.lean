import Mathlib.Data.List.Basic
import Mathlib.Order.Defs.Unbundled

/-!
# Reading an ordered collection page by page

A reader takes at most `limit` keys at a time and remembers the last key it was given; the next call
returns the keys after that one.  The collection may change between two calls, so a walk is over the
lists `ls` the successive calls find, and it ends with the first call that gives no continuation.

What a walk returns is increasing (`walk_pairwise`), it passes no key that is there at every call
(`walk_covers`), and over a collection that does not change it returns everything (`walk_replicate`,
`walk_ends`).
-/

namespace Cursor

variable {K : Type} (lt : K → K → Prop) [DecidableRel lt]

/-- The keys after a cursor. -/
def rest (after : Option K) (l : List K) : List K := l.filter fun k => after.all fun a => lt a k

/-- One call: the keys, and where to continue. -/
def page (limit : Nat) (after : Option K) (l : List K) : List K × Option K :=
  ((rest lt after l).take limit,
    if limit ≤ (rest lt after l).length then ((rest lt after l).take limit).getLast? else none)

/-- The calls of a walk that finds the lists `ls`. -/
def walk (limit : Nat) : Option K → List (List K) → List (List K × Option K)
  | _, [] => []
  | after, l :: ls =>
    page lt limit after l :: (page lt limit after l).2.elim [] fun k => walk limit (some k) ls

/-- The last call gave no continuation. -/
def Ended (calls : List (List K × Option K)) : Prop := ∃ call ∈ calls, call.2 = none

variable {lt} {limit : Nat} {after : Option K} {l : List K} {k : K}

theorem mem_rest : k ∈ rest lt after l ↔ k ∈ l ∧ ∀ a ∈ after, lt a k := by
  unfold rest
  rw [List.mem_filter]
  cases after <;> simp

theorem rest_pairwise (hl : l.Pairwise lt) : (rest lt after l).Pairwise lt := hl.filter _

theorem page_pairwise (hl : l.Pairwise lt) : (page lt limit after l).1.Pairwise lt :=
  (rest_pairwise hl).take

theorem after_of_mem_page (h : k ∈ (page lt limit after l).1) : ∀ a ∈ after, lt a k :=
  (mem_rest.1 (List.mem_of_mem_take h)).2

theorem page_next (h : (page lt limit after l).2 = some k) : (page lt limit after l).1.getLast? = some k := by
  unfold page at h
  dsimp only at h
  split at h
  · exact h
  · exact absurd h (Option.some_ne_none k).symm

theorem le_of_next (hl : l.Pairwise lt) (h : (page lt limit after l).2 = some k) :
    ∀ j ∈ (page lt limit after l).1, j = k ∨ lt j k := by
  intro j hj
  have hpairwise : (page lt limit after l).1.Pairwise lt := page_pairwise hl
  obtain ⟨front, hfront⟩ := List.getLast?_eq_some_iff.1 (page_next h)
  rw [hfront] at hj hpairwise
  rcases List.mem_append.1 hj with hj | hj
  · exact .inr ((List.pairwise_append.1 hpairwise).2.2 j hj k (List.mem_singleton_self k))
  · exact .inl (List.mem_singleton.1 hj)

theorem page_of_next_none (hlimit : 0 < limit) (h : (page lt limit after l).2 = none) :
    (page lt limit after l).1 = rest lt after l := by
  unfold page at h ⊢
  dsimp only at h ⊢
  split at h
  · next hle =>
    rw [List.getLast?_eq_none_iff, List.take_eq_nil_iff] at h
    rcases h with h | h
    · omega
    · rw [h]
      exact List.take_nil
  · next hlt => exact List.take_of_length_le (by omega)

section

variable [IsStrictOrder K lt]

/-- A page with a continuation is what is left up to there. -/
theorem rest_eq_append (hl : l.Pairwise lt) (h : (page lt limit after l).2 = some k) :
    rest lt after l = (page lt limit after l).1 ++ rest lt (some k) l := by
  have hlast := List.mem_of_getLast? (page_next h)
  have hafter := after_of_mem_page hlast
  have hsplit := List.take_append_drop limit (rest lt after l)
  have hrest : rest lt (some k) l = (rest lt after l).filter fun j => lt k j := by
    unfold rest
    rw [List.filter_filter]
    refine List.filter_congr fun j _ => ?_
    cases after with
    | none => simp
    | some a =>
      have hak := hafter a rfl
      have himp : lt k j → lt a j := fun hkj => Trans.trans hak hkj
      simpa using himp
  have htake : ((rest lt after l).take limit).filter (fun j => lt k j) = [] := by
    refine List.filter_eq_nil_iff.2 fun j hj => ?_
    rw [decide_eq_true_eq]
    rcases le_of_next hl h j hj with rfl | hjk
    · exact irrefl j
    · exact asymm hjk
  have hdrop : ((rest lt after l).drop limit).filter (fun j => lt k j) = (rest lt after l).drop limit := by
    refine List.filter_eq_self.2 fun j hj => decide_eq_true ?_
    exact (rest_pairwise hl).rel_of_mem_take_of_mem_drop hlast hj
  show _ = (rest lt after l).take limit ++ _
  rw [hrest]
  nth_rewrite 3 [← hsplit]
  rw [List.filter_append, htake, hdrop, List.nil_append, hsplit]

/-- A key after the cursor is on the page or after its continuation. -/
theorem page_covers (hlimit : 0 < limit) (hl : l.Pairwise lt) (hk : k ∈ l) (hafter : ∀ a ∈ after, lt a k) :
    k ∈ (page lt limit after l).1 ∨ ∃ j, (page lt limit after l).2 = some j ∧ lt j k := by
  have hrest := mem_rest.2 ⟨hk, hafter⟩
  cases hnext : (page lt limit after l).2 with
  | none =>
    left
    rw [page_of_next_none hlimit hnext]
    exact hrest
  | some j =>
    rw [rest_eq_append hl hnext] at hrest
    rcases List.mem_append.1 hrest with hpage | hlater
    · exact .inl hpage
    · exact .inr ⟨j, rfl, (mem_rest.1 hlater).2 j rfl⟩

/-! ## Walks -/

theorem walk_pairwise (limit : Nat) (ls : List (List K)) : ∀ after : Option K, (∀ l ∈ ls, l.Pairwise lt) →
    ((walk lt limit after ls).flatMap Prod.fst).Pairwise lt ∧
      ∀ k ∈ (walk lt limit after ls).flatMap Prod.fst, ∀ a ∈ after, lt a k := by
  induction ls with
  | nil => exact fun _ _ => ⟨List.Pairwise.nil, List.forall_mem_nil _⟩
  | cons l ls ih =>
    intro after hls
    have hl := hls l List.mem_cons_self
    unfold walk
    rw [List.flatMap_cons]
    cases hnext : (page lt limit after l).2 with
    | none =>
      simp only [Option.elim_none, List.flatMap_nil, List.append_nil]
      exact ⟨page_pairwise hl, fun k hk => after_of_mem_page hk⟩
    | some j =>
      simp only [Option.elim_some]
      obtain ⟨hlater, habove⟩ := ih (some j) fun l' h => hls l' (List.mem_cons_of_mem l h)
      have hlast := List.mem_of_getLast? (page_next hnext)
      refine ⟨List.pairwise_append.2 ⟨page_pairwise hl, hlater, fun i hi k hk => ?_⟩, fun k hk a ha => ?_⟩
      · have hjk := habove k hk j rfl
        rcases le_of_next hl hnext i hi with rfl | hij
        · exact hjk
        · exact Trans.trans hij hjk
      · rcases List.mem_append.1 hk with hk | hk
        · exact after_of_mem_page hk a ha
        · exact Trans.trans (after_of_mem_page hlast a ha) (habove k hk j rfl)

/-- A walk that ended has passed every key that was there at each of its calls. -/
theorem walk_covers (hlimit : 0 < limit) (ls : List (List K)) : ∀ after : Option K,
    (∀ l ∈ ls, l.Pairwise lt) → Ended (walk lt limit after ls) →
    (∀ l ∈ ls.take (walk lt limit after ls).length, k ∈ l) → (∀ a ∈ after, lt a k) →
    k ∈ (walk lt limit after ls).flatMap Prod.fst := by
  induction ls with
  | nil =>
    rintro after - ⟨call, hcall, -⟩
    exact absurd hcall List.not_mem_nil
  | cons l ls ih =>
    intro after hls hended hmem hafter
    have hl := hls l List.mem_cons_self
    have hkl : k ∈ l := hmem l (by simp [walk])
    unfold walk at hended hmem ⊢
    rw [List.flatMap_cons]
    rcases page_covers hlimit hl hkl hafter with hpage | ⟨j, hnext, hjk⟩
    · exact List.mem_append_left _ hpage
    rw [hnext] at hended hmem ⊢
    simp only [Option.elim_some, List.length_cons, List.take_succ_cons] at hended hmem ⊢
    refine List.mem_append_right _ (ih (some j) (fun l' h => hls l' (List.mem_cons_of_mem l h)) ?_
      (fun l' h => hmem l' (List.mem_cons_of_mem l h)) fun a ha => ?_)
    · obtain ⟨call, hcall, hnone⟩ := hended
      rcases List.mem_cons.1 hcall with rfl | hcall
      · exact absurd (hnext.symm.trans hnone) (Option.some_ne_none j)
      · exact ⟨call, hcall, hnone⟩
    · cases ha
      exact hjk

/-- A walk over a collection that stays the same returns what is left of it. -/
theorem walk_replicate (hlimit : 0 < limit) (hl : l.Pairwise lt) (n : Nat) : ∀ after : Option K,
    Ended (walk lt limit after (List.replicate n l)) →
    (walk lt limit after (List.replicate n l)).flatMap Prod.fst = rest lt after l := by
  induction n with
  | zero =>
    rintro after ⟨call, hcall, -⟩
    exact absurd hcall List.not_mem_nil
  | succ n ih =>
    intro after hended
    rw [List.replicate_succ] at hended ⊢
    unfold walk at hended ⊢
    rw [List.flatMap_cons]
    cases hnext : (page lt limit after l).2 with
    | none =>
      simp only [Option.elim_none, List.flatMap_nil, List.append_nil]
      exact page_of_next_none hlimit hnext
    | some j =>
      rw [hnext] at hended
      simp only [Option.elim_some] at hended ⊢
      have hlater : Ended (walk lt limit (some j) (List.replicate n l)) := by
        obtain ⟨call, hcall, hnone⟩ := hended
        rcases List.mem_cons.1 hcall with rfl | hcall
        · exact absurd (hnext.symm.trans hnone) (Option.some_ne_none j)
        · exact ⟨call, hcall, hnone⟩
      rw [ih (some j) hlater, ← rest_eq_append hl hnext]

/-- Each call but the last takes a key, so the walk over such a collection ends. -/
theorem walk_ends (limit : Nat) (hl : l.Pairwise lt) (n : Nat) : ∀ after : Option K,
    (rest lt after l).length < n → Ended (walk lt limit after (List.replicate n l)) := by
  induction n with
  | zero => exact fun _ h => absurd h (Nat.not_lt_zero _)
  | succ n ih =>
    intro after hlength
    rw [List.replicate_succ]
    unfold walk
    cases hnext : (page lt limit after l).2 with
    | none => exact ⟨_, List.mem_cons_self, hnext⟩
    | some j =>
      have hlast := List.length_pos_of_mem (List.mem_of_getLast? (page_next hnext))
      rw [rest_eq_append hl hnext, List.length_append] at hlength
      obtain ⟨call, hcall, hnone⟩ := ih (some j) (by omega)
      exact ⟨call, List.mem_cons_of_mem _ hcall, hnone⟩

end

end Cursor
