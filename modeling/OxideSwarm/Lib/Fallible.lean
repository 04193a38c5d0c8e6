import Mathlib.Data.List.Forall2

/-!
# When a fallible computation succeeds

Each lemma says what the success of one construct comes to, so that a `do` block is taken apart step by step:
`bind_ok` for a call, `guard_ok` for an early return, `forM_ok` and `mapM_ok` for the loops.
-/

namespace Fallible

variable {ε ε' α β : Type}

theorem bind_ok {x : Except ε α} {f : α → Except ε β} {b : β} : (x >>= f) = .ok b ↔ ∃ a, x = .ok a ∧ f a = .ok b := by
  cases x with
  | error e => exact ⟨fun h => (nomatch h), fun ⟨_, h, _⟩ => nomatch h⟩
  | ok a =>
    constructor
    · exact fun h => ⟨a, rfl, h⟩
    · rintro ⟨a, ⟨⟩, h⟩
      exact h

theorem ite_error_ok {c : Prop} [Decidable c] {e : ε} {x : Except ε α} {a : α} :
    (if c then .error e else x) = .ok a ↔ ¬c ∧ x = .ok a := by
  by_cases hc : c
  · rw [if_pos hc]
    exact ⟨fun h => (nomatch h), fun h => absurd hc h.1⟩
  · rw [if_neg hc]
    exact ⟨fun h => ⟨hc, h⟩, fun h => h.2⟩

theorem guard_ok {c : Prop} [Decidable c] {e : ε} {f : PUnit → Except ε α} {a : α} :
    (if c then Except.error e >>= f else f ⟨⟩) = .ok a ↔ ¬c ∧ f ⟨⟩ = .ok a :=
  ite_error_ok

theorem mapError_ok {x : Except ε α} {text : ε → ε'} {a : α} : x.mapError text = .ok a ↔ x = .ok a := by
  cases x with
  | error e => exact ⟨fun h => (nomatch h), fun h => (nomatch h)⟩
  | ok b =>
    constructor
    · rintro ⟨⟩
      rfl
    · rintro ⟨⟩
      rfl

theorem forM_ok {f : α → Except ε Unit} {l : List α} : l.forM f = .ok () ↔ ∀ a ∈ l, f a = .ok () := by
  induction l with
  | nil => exact ⟨fun _ => List.forall_mem_nil _, fun _ => rfl⟩
  | cons a l ih =>
    rw [List.forall_mem_cons, ← ih, List.forM]
    cases hf : f a with
    | error e => exact ⟨fun h => (nomatch h), fun h => (nomatch h.1)⟩
    | ok u => exact ⟨fun h => ⟨rfl, h⟩, fun h => h.2⟩

theorem mapM_ok {f : α → Except ε β} {l : List α} {r : List β} :
    l.mapM f = .ok r ↔ List.Forall₂ (fun a b => f a = .ok b) l r := by
  induction l generalizing r with
  | nil =>
    rw [List.mapM_nil, List.forall₂_nil_left_iff]
    constructor
    · rintro ⟨⟩
      rfl
    · rintro rfl
      rfl
  | cons a l ih =>
    rw [List.mapM_cons, bind_ok]
    constructor
    · rintro ⟨b, hb, h⟩
      obtain ⟨bs, hbs, h⟩ := bind_ok.mp h
      cases h
      exact .cons hb (ih.mp hbs)
    · rintro (_ | ⟨hb, hbs⟩)
      exact ⟨_, hb, bind_ok.mpr ⟨_, ih.mpr hbs, rfl⟩⟩

end Fallible
