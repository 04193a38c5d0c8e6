import Mathlib.Data.List.Infix

/-!
# One-way channels

What a receiver may make of an unreliable channel: it takes the values that were sent, in order and without
gaps, until it closes for good.  `Ordered` and `Closed` are what every step keeps.
-/

/-- A channel: the values sent, the values taken, and whether the receiver has closed. -/
structure Channel (α : Type) where
  sent : List α
  taken : List α
  closed : Bool
deriving DecidableEq, Repr

namespace Channel

variable {α : Type}

def empty : Channel α := ⟨[], [], false⟩

/-- The values taken are the first ones sent. -/
def Ordered (c : Channel α) : Prop := c.taken <+: c.sent

inductive Step (c : Channel α) : Channel α → Prop where
  | idle : Step c c
  | send (a : α) : Step c { c with sent := c.sent ++ [a] }
  | take (a : α) (live : c.closed = false) (next : c.sent[c.taken.length]? = some a) :
      Step c { c with taken := c.taken ++ [a] }
  | close : Step c { c with closed := true }

variable {c c' : Channel α}

theorem ordered_empty : (empty : Channel α).Ordered := List.nil_prefix

theorem Step.ordered (h : Step c c') (hc : c.Ordered) : c'.Ordered := by
  cases h with
  | idle | close => exact hc
  | send a => exact hc.trans (List.prefix_append _ _)
  | take a live next =>
    obtain ⟨rest, hrest⟩ := hc
    unfold Ordered
    rw [← hrest, List.getElem?_append_right (Nat.le_refl _), Nat.sub_self] at next
    cases rest with
    | nil => cases next
    | cons b rest =>
      cases next
      exact ⟨rest, by rw [List.append_assoc]; exact hrest⟩

/-- A receiver that has closed takes nothing any more. -/
theorem Step.closed (h : Step c c') (hc : c.closed = true) : c'.closed = true ∧ c'.taken = c.taken := by
  cases h with
  | idle | send => exact ⟨hc, rfl⟩
  | close => exact ⟨rfl, rfl⟩
  | take a live => cases hc.symm.trans live

end Channel
