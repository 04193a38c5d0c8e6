import Mathlib.Data.List.Forall2

/-!
# Cutting a list into pieces

A pattern is a list of items, each of which says what may stand for it.  A list has the pattern if it can be cut
into consecutive pieces, one for each item (`Cut`).

Where every item stands for one element or for a run of any length, `scan` decides this without trying all cuts: it
reads both lists from the left and goes back to the last run it met only, which is made one element longer.  The
older runs need no second try (`anywhere_run`): what the items between two runs have taken once they can take, and
the newer run takes what the older one would have taken more.  An item that may be read both ways is read as one
element, so `scan` is right for the lists in which no item is (`scan_iff`).
-/

namespace Pieces

variable {σ α : Type}

/-- The list is cut into one piece for each item. -/
inductive Cut (stands : σ → List α → Prop) : List σ → List α → Prop
  | nil : Cut stands [] []
  | cons {i : σ} {is : List σ} {u v : List α} (piece : stands i u) (rest : Cut stands is v) :
      Cut stands (i :: is) (u ++ v)

variable {stands : σ → List α → Prop} {i : σ} {is js : List σ} {w : List α}

theorem cut_nil : Cut stands [] w ↔ w = [] := by
  constructor
  · rintro ⟨⟩
    rfl
  · rintro rfl
    exact .nil

theorem cut_cons : Cut stands (i :: is) w ↔ ∃ u v, w = u ++ v ∧ stands i u ∧ Cut stands is v := by
  constructor
  · rintro ⟨⟩
    next u v piece rest => exact ⟨u, v, rfl, piece, rest⟩
  · rintro ⟨u, v, rfl, piece, rest⟩
    exact .cons piece rest

theorem cut_singleton : Cut stands [i] w ↔ stands i w := by
  rw [cut_cons]
  constructor
  · rintro ⟨u, v, rfl, piece, rest⟩
    rw [cut_nil] at rest
    subst rest
    rwa [List.append_nil]
  · exact fun piece => ⟨w, [], (List.append_nil w).symm, piece, .nil⟩

theorem cut_append : Cut stands (is ++ js) w ↔ ∃ u v, w = u ++ v ∧ Cut stands is u ∧ Cut stands js v := by
  induction is generalizing w with
  | nil =>
    simp only [List.nil_append, cut_nil]
    constructor
    · exact fun h => ⟨[], w, rfl, rfl, h⟩
    · rintro ⟨u, v, rfl, rfl, h⟩
      exact h
  | cons i is ih =>
    rw [List.cons_append, cut_cons]
    constructor
    · rintro ⟨u, v, rfl, piece, rest⟩
      obtain ⟨x, y, rfl, hx, hy⟩ := ih.mp rest
      exact ⟨u ++ x, y, (List.append_assoc u x y).symm, .cons piece hx, hy⟩
    · rintro ⟨x, y, rfl, hx, hy⟩
      obtain ⟨u, v, rfl, piece, rest⟩ := cut_cons.mp hx
      exact ⟨u, v ++ y, List.append_assoc u v y, piece, ih.mpr ⟨v, y, rfl, rest, hy⟩⟩

/-! ## Single elements and runs -/

variable (run : σ → Bool) (fits : σ → α → Bool)

/-- What stands for an item: anything for a run, else one element that fits. -/
def Stands (i : σ) (u : List α) : Prop := run i = true ∨ ∃ a, u = [a] ∧ fits i a = true

/-- The scan: what is left of the items and of the elements, and the last run met with the elements it was met at. -/
def scan : Nat → List σ → List α → Option (List σ × List α) → Bool
  | 0, _, _, _ => false
  | _ + 1, is, [], _ => is.all run
  | fuel + 1, is, a :: as, back =>
    if is.head?.any fun i => fits i a then scan fuel is.tail as back
    else if is.head?.any run then scan fuel is.tail (a :: as) (some (is.tail, a :: as))
    else back.elim false fun b => scan fuel b.1 b.2.tail (some (b.1, b.2.tail))

/-- No item of `is` that fits an element of `as` is a run. -/
def Clear (is : List σ) (as : List α) : Prop := ∀ i ∈ is, ∀ a ∈ as, fits i a = true → run i = false

/-- The elements have the pattern after some of them are left out in front. -/
def Anywhere (is : List σ) (as : List α) : Prop := ∃ k, Cut (Stands run fits) is (as.drop k)

variable {run fits} {a : α} {as bs : List α}

theorem cut_elements_nil : Cut (Stands run fits) is [] ↔ is.all run = true := by
  induction is with
  | nil => exact ⟨fun _ => rfl, fun _ => .nil⟩
  | cons i is ih =>
    rw [cut_cons, List.all_cons, Bool.and_eq_true, ← ih]
    constructor
    · rintro ⟨u, v, huv, piece, rest⟩
      obtain ⟨rfl, rfl⟩ := List.append_eq_nil_iff.mp huv.symm
      rcases piece with hrun | ⟨a, ha, -⟩
      · exact ⟨hrun, rest⟩
      · exact absurd ha (List.cons_ne_nil a []).symm
    · exact fun h => ⟨[], [], rfl, .inl h.1, h.2⟩

theorem cut_single (hi : run i = false) :
    Cut (Stands run fits) (i :: is) (a :: as) ↔ fits i a = true ∧ Cut (Stands run fits) is as := by
  rw [cut_cons]
  constructor
  · rintro ⟨u, v, huv, piece, rest⟩
    rcases piece with hrun | ⟨b, rfl, hb⟩
    · exact absurd hrun (by rw [hi]; decide)
    · obtain ⟨rfl, rfl⟩ := List.cons.inj huv
      exact ⟨hb, rest⟩
  · exact fun h => ⟨[a], as, rfl, .inr ⟨a, rfl, h.1⟩, h.2⟩

theorem cut_run (hi : run i = true) : Cut (Stands run fits) (i :: is) as ↔ Anywhere run fits is as := by
  rw [cut_cons]
  constructor
  · rintro ⟨u, v, rfl, -, rest⟩
    exact ⟨u.length, by rwa [List.drop_left]⟩
  · rintro ⟨k, h⟩
    exact ⟨as.take k, as.drop k, (List.take_append_drop k as).symm, .inl hi, h⟩

theorem cut_singles (hv : ∀ v ∈ js, run v = false) (h : Cut (Stands run fits) (js ++ is) as) :
    js.length ≤ as.length ∧ Cut (Stands run fits) is (as.drop js.length) := by
  induction js generalizing as with
  | nil => exact ⟨Nat.zero_le _, h⟩
  | cons j js ih =>
    cases as with
    | nil =>
      have hall := cut_elements_nil.mp h
      rw [List.cons_append, List.all_cons, hv j (List.mem_cons_self ..)] at hall
      exact absurd hall (by simp)
    | cons a as =>
      have hrest := ((cut_single (hv j (List.mem_cons_self ..))).mp h).2
      obtain ⟨hlen, hdrop⟩ := ih (fun v hmem => hv v (List.mem_cons_of_mem j hmem)) hrest
      exact ⟨Nat.succ_le_succ hlen, hdrop⟩

theorem cut_of_forall₂ {vs : List σ} {us : List α} (h : List.Forall₂ (fun i a => fits i a = true) vs us)
    (hrest : Cut (Stands run fits) is as) : Cut (Stands run fits) (vs ++ is) (us ++ as) := by
  induction h with
  | nil => exact hrest
  | @cons v a vs us hfit _ ih => exact .cons (u := [a]) (.inr ⟨a, rfl, hfit⟩) ih

section Progress

/-!
The scan is at `is` and `as`, and since the last run, after which the items `vs ++ is` and the elements `us ++ as`
were left, it has read `us` for `vs`. -/

variable {vs : List σ} {us : List α}

theorem singles_of_clear (hclear : Clear run fits (vs ++ is) (us ++ as))
    (hread : List.Forall₂ (fun i a => fits i a = true) vs us) : ∀ v ∈ vs, run v = false := by
  intro v hv
  obtain ⟨hlen, hget⟩ := List.forall₂_iff_get.mp hread
  obtain ⟨n, hn, rfl⟩ := List.getElem_of_mem hv
  have hfit := hget n hn (hlen ▸ hn)
  have ha := List.get_mem us ⟨n, hlen ▸ hn⟩
  exact hclear _ (List.mem_append_left is hv) _ (List.mem_append_left as ha) hfit

/-- With the elements read, only the items in hand are left to match. -/
theorem anywhere_end (hread : List.Forall₂ (fun i a => fits i a = true) vs us) (hsingle : ∀ v ∈ vs, run v = false) :
    Anywhere run fits (vs ++ is) (us ++ []) ↔ is.all run = true := by
  constructor
  · rintro ⟨k, h⟩
    obtain ⟨hlen, hdrop⟩ := cut_singles hsingle h
    have hempty : ((us ++ []).drop k).drop vs.length = [] := by
      rw [List.append_nil, List.drop_drop, List.drop_eq_nil_iff, hread.length_eq]
      omega
    rw [hempty] at hdrop
    exact cut_elements_nil.mp hdrop
  · intro hall
    exact ⟨0, cut_of_forall₂ hread (cut_elements_nil.mpr hall)⟩

/-- At a run the runs before it need no second try. -/
theorem anywhere_run (hread : List.Forall₂ (fun i a => fits i a = true) vs us) (hsingle : ∀ v ∈ vs, run v = false)
    (hi : run i = true) : Anywhere run fits (vs ++ i :: is) (us ++ as) ↔ Anywhere run fits is as := by
  constructor
  · rintro ⟨k, h⟩
    obtain ⟨hlen, hdrop⟩ := cut_singles hsingle h
    rw [List.drop_drop, Nat.add_comm, ← List.drop_drop, hread.length_eq, List.drop_left] at hdrop
    obtain ⟨j, hj⟩ := (cut_run hi).mp hdrop
    exact ⟨k + j, by rwa [← List.drop_drop]⟩
  · intro h
    exact ⟨0, cut_of_forall₂ hread ((cut_run hi).mpr h)⟩

/-- Where what is in hand does not match, the last run is longer. -/
theorem anywhere_retreat (hread : List.Forall₂ (fun i a => fits i a = true) vs us) (hsingle : ∀ v ∈ vs, run v = false)
    (hno : ¬Cut (Stands run fits) is as) :
    Anywhere run fits (vs ++ is) (us ++ as) ↔ Anywhere run fits (vs ++ is) (us ++ as).tail := by
  constructor
  · rintro ⟨k, h⟩
    cases k with
    | zero =>
      obtain ⟨-, hdrop⟩ := cut_singles hsingle h
      rw [List.drop_zero, hread.length_eq, List.drop_left] at hdrop
      exact absurd hdrop hno
    | succ k => exact ⟨k, by rwa [List.drop_tail]⟩
  · rintro ⟨k, h⟩
    exact ⟨k + 1, by rwa [List.drop_tail] at h⟩

end Progress

/-- What is in hand does not match where neither test of the scan succeeds. -/
theorem not_cut_of_stuck (hfit : ¬(is.head?.any fun i => fits i a) = true) (hrun : ¬is.head?.any run = true) :
    ¬Cut (Stands run fits) is (a :: as) := by
  intro h
  cases is with
  | nil => exact List.cons_ne_nil a as (cut_nil.mp h)
  | cons i is =>
    have hi : run i = false := Bool.eq_false_iff.mpr hrun
    exact hfit ((cut_single hi).mp h).1

theorem Clear.mono {is' : List σ} {as' : List α} (h : Clear run fits is as) (his : ∀ i ∈ is', i ∈ is)
    (has : ∀ a ∈ as', a ∈ as) : Clear run fits is' as' :=
  fun i hi a ha => h i (his i hi) a (has a ha)

/-- The scan after a run was met decides whether the run can be as long as the rest needs. -/
theorem scan_back_iff : ∀ (fuel : Nat) (is : List σ) (as : List α) (vs : List σ) (us : List α),
    List.Forall₂ (fun i a => fits i a = true) vs us → Clear run fits (vs ++ is) (us ++ as) →
    (us ++ as).length * ((vs ++ is).length + 1) + is.length < fuel →
    (scan run fits fuel is as (some (vs ++ is, us ++ as)) = true ↔ Anywhere run fits (vs ++ is) (us ++ as)) := by
  intro fuel
  induction fuel with
  | zero => exact fun _ _ _ _ _ _ h => absurd h (Nat.not_lt_zero _)
  | succ fuel ih =>
    intro is as vs us hread hclear hfuel
    have hsingle := singles_of_clear hclear hread
    cases as with
    | nil =>
      rw [scan, anywhere_end hread hsingle]
    | cons a as =>
      rw [scan]
      split
      · next hfit =>
        cases is with
        | nil => exact absurd hfit (by simp)
        | cons i is =>
          -- one more item has been read
          have hread' : List.Forall₂ (fun i a => fits i a = true) (vs ++ [i]) (us ++ [a]) :=
            List.rel_append hread (.cons hfit .nil)
          have hitems : vs ++ i :: is = (vs ++ [i]) ++ is := by rw [List.append_assoc, List.singleton_append]
          have helements : us ++ a :: as = (us ++ [a]) ++ as := by rw [List.append_assoc, List.singleton_append]
          rw [hitems, helements] at hclear hfuel ⊢
          rw [List.length_cons] at hfuel
          exact ih is as (vs ++ [i]) (us ++ [a]) hread' hclear (by omega)
      split
      · next hfit hrun =>
        cases is with
        | nil => exact absurd hrun (by simp)
        | cons i is =>
          have hsmaller : (a :: as).length * (is.length + 1) ≤ (us ++ a :: as).length * ((vs ++ i :: is).length + 1) := by
            apply Nat.mul_le_mul
            · rw [List.length_append]
              omega
            · rw [List.length_append, List.length_cons]
              omega
          rw [List.length_cons] at hfuel
          rw [anywhere_run hread hsingle hrun]
          refine ih is (a :: as) [] [] .nil ?_ ?_
          · exact hclear.mono (fun j hj => List.mem_append_right vs (List.mem_cons_of_mem i hj))
              (fun b hb => List.mem_append_right us hb)
          · rw [List.nil_append, List.nil_append]
            omega
      next hfit hrun =>
      rw [anywhere_retreat hread hsingle (not_cut_of_stuck hfit hrun)]
      refine ih (vs ++ is) (us ++ a :: as).tail [] [] .nil ?_ ?_
      · exact hclear.mono (fun j hj => hj) (fun b hb => List.mem_of_mem_tail hb)
      have hpos : 1 ≤ (us ++ a :: as).length := by
        rw [List.length_append, List.length_cons]
        omega
      have hstep := Nat.sub_one_mul (us ++ a :: as).length ((vs ++ is).length + 1)
      have hle := Nat.mul_le_mul_right ((vs ++ is).length + 1) hpos
      rw [List.nil_append, List.nil_append, List.length_tail]
      omega

/-- **The scan decides whether the elements have the pattern**, where no item can be read both ways. -/
theorem scan_iff : ∀ (fuel : Nat) (is : List σ) (as : List α), Clear run fits is as →
    as.length * (is.length + 1) + is.length < fuel →
    (scan run fits fuel is as none = true ↔ Cut (Stands run fits) is as) := by
  intro fuel
  induction fuel with
  | zero => exact fun _ _ _ h => absurd h (Nat.not_lt_zero _)
  | succ fuel ih =>
    intro is as hclear hfuel
    cases as with
    | nil => rw [scan, cut_elements_nil]
    | cons a as =>
      rw [scan]
      split
      · next hfit =>
        cases is with
        | nil => exact absurd hfit (by simp)
        | cons i is =>
          have hi : run i = false := hclear i (List.mem_cons_self ..) a (List.mem_cons_self ..) hfit
          have hle : as.length * (is.length + 1) ≤ (a :: as).length * ((i :: is).length + 1) :=
            Nat.mul_le_mul (Nat.le_succ _) (Nat.le_succ _)
          have hfits : fits i a = true := hfit
          rw [cut_single hi, and_iff_right hfits]
          exact ih is as (hclear.mono (fun j hj => List.mem_cons_of_mem i hj) fun b hb => List.mem_cons_of_mem a hb)
            (by simp only [List.length_cons] at hfuel hle; omega)
      split
      · next hfit hrun =>
        cases is with
        | nil => exact absurd hrun (by simp)
        | cons i is =>
          have hle : (a :: as).length * (is.length + 1) ≤ (a :: as).length * ((i :: is).length + 1) :=
            Nat.mul_le_mul_left _ (Nat.le_succ _)
          have hi : run i = true := hrun
          rw [cut_run hi]
          refine scan_back_iff fuel is (a :: as) [] [] .nil ?_ ?_
          · exact hclear.mono (fun j hj => List.mem_cons_of_mem i hj) fun b hb => hb
          · simp only [List.nil_append, List.length_cons] at hfuel hle ⊢
            omega
      · next hfit hrun =>
        exact ⟨fun h => absurd h Bool.false_ne_true, fun h => absurd h (not_cut_of_stuck hfit hrun)⟩

/-! ## The length of a scan -/

theorem scan_cons (fuel : Nat) (is : List σ) (back : Option (List σ × List α)) :
    scan run fits (fuel + 1) is (a :: as) back =
      if is.head?.any fun i => fits i a then scan run fits fuel is.tail as back
      else if is.head?.any run then scan run fits fuel is.tail (a :: as) (some (is.tail, a :: as))
      else back.elim false fun b => scan run fits fuel b.1 b.2.tail (some (b.1, b.2.tail)) := rfl

/-- What the scan may go back to, or what it has in hand. -/
def reach (back : Option (List σ × List α)) (is : List σ) (as : List α) : List σ × List α := back.getD (is, as)

/-- A scan has ended before its fuel has. -/
theorem scan_succ : ∀ (fuel : Nat) (back : Option (List σ × List α)) (is : List σ) (as : List α),
    is.length ≤ (reach back is as).1.length → as.length ≤ (reach back is as).2.length →
    (reach back is as).2.length * ((reach back is as).1.length + 1) + is.length < fuel →
    scan run fits (fuel + 1) is as back = scan run fits fuel is as back := by
  intro fuel
  induction fuel with
  | zero => exact fun _ _ _ _ _ h => absurd h (Nat.not_lt_zero _)
  | succ fuel ih =>
    intro back is as hitems helements hfuel
    cases as with
    | nil => rw [scan, scan]
    | cons a as =>
      rw [scan_cons (fuel + 1) is, scan_cons fuel is]
      split
      · next hfit =>
        cases is with
        | nil => exact absurd hfit (by simp)
        | cons i is =>
          cases back with
          | none =>
            have hle : as.length * (is.length + 1) ≤ (a :: as).length * ((i :: is).length + 1) :=
              Nat.mul_le_mul (Nat.le_succ _) (Nat.le_succ _)
            apply ih none is as (Nat.le_refl _) (Nat.le_refl _)
            simp only [reach, Option.getD_none, List.length_cons] at hfuel hle ⊢
            omega
          | some b =>
            simp only [reach, Option.getD_some, List.length_cons] at hitems helements hfuel
            exact ih (some b) is as (by simp only [reach, Option.getD_some]; omega)
              (by simp only [reach, Option.getD_some]; omega) (by simp only [reach, Option.getD_some]; omega)
      split
      · next hfit hrun =>
        cases is with
        | nil => exact absurd hrun (by simp)
        | cons i is =>
          have hle : (a :: as).length * (is.length + 1) ≤
              (reach back (i :: is) (a :: as)).2.length * ((reach back (i :: is) (a :: as)).1.length + 1) :=
            Nat.mul_le_mul helements (Nat.le_trans (Nat.le_succ _) (Nat.succ_le_succ hitems))
          apply ih (some (is, a :: as)) is (a :: as) (Nat.le_refl _) (Nat.le_refl _)
          have hlength : (i :: is).length = is.length + 1 := rfl
          simp only [reach, Option.getD_some] at hfuel hle ⊢
          omega
      cases back with
      | none => rfl
      | some b =>
        simp only [reach, Option.getD_some, List.length_cons] at hitems helements hfuel
        have hpos : 1 ≤ b.2.length := by omega
        have hstep := Nat.sub_one_mul b.2.length (b.1.length + 1)
        have hle := Nat.mul_le_mul_right (b.1.length + 1) hpos
        apply ih (some (b.1, b.2.tail)) b.1 b.2.tail (Nat.le_refl _) (Nat.le_refl _)
        simp only [reach, Option.getD_some, List.length_tail]
        omega

end Pieces
