import Mathlib.Data.Finmap
import Mathlib.Data.Finset.Sort
import Mathlib.Algebra.BigOperators.Group.Finset.Basic

/-!
# Finite maps with a small interface, and iteration orders of finite sets

`FMap κ ν` is Mathlib's `Finmap` with one value type, seen only through

    get : Option ν      set      del      keys : Finset κ

so that every update is described by one equation about `get`
(`get_set`, `get_del`) and two maps that agree under `get` are equal (`ext_get`).
Sums and counts over a map are sums over its key set.

`SetOrder α` is the order in which one particular run walks a hash set: some list
without repetitions of exactly the members, nothing more.
-/

/-- A finite map from `κ` to `ν`. -/
def FMap (κ ν : Type) := Finmap fun _ : κ => ν

namespace FMap

variable {κ ν : Type} [DecidableEq κ]

instance : EmptyCollection (FMap κ ν) := ⟨(∅ : Finmap fun _ : κ => ν)⟩
instance : Inhabited (FMap κ ν) := ⟨∅⟩
instance [DecidableEq ν] : DecidableEq (FMap κ ν) :=
  inferInstanceAs (DecidableEq (Finmap fun _ : κ => ν))

def get (m : FMap κ ν) (k : κ) : Option ν := Finmap.lookup k m
def set (m : FMap κ ν) (k : κ) (v : ν) : FMap κ ν := Finmap.insert k v m
def del (m : FMap κ ν) (k : κ) : FMap κ ν := Finmap.erase k m
def keys (m : FMap κ ν) : Finset κ := Finmap.keys m

@[simp, grind =] theorem get_empty (k : κ) : (∅ : FMap κ ν).get k = none :=
  Finmap.lookup_empty k

@[simp, grind =] theorem get_set (m : FMap κ ν) (k k' : κ) (v : ν) :
    (m.set k v).get k' = if k' = k then some v else m.get k' := by
  unfold get set
  split
  · next h => subst h; exact Finmap.lookup_insert _
  · next h => exact Finmap.lookup_insert_of_ne _ h

@[simp, grind =] theorem get_del (m : FMap κ ν) (k k' : κ) :
    (m.del k).get k' = if k' = k then none else m.get k' := by
  unfold get del
  split
  · next h => subst h; exact Finmap.lookup_erase _ _
  · next h => exact Finmap.lookup_erase_ne h

variable {m : FMap κ ν}

theorem ext_get {m' : FMap κ ν} (h : ∀ k, m.get k = m'.get k) : m = m' :=
  Finmap.ext_lookup h

variable {k : κ}

theorem set_eq_self {v : ν} (h : m.get k = some v) : m.set k v = m := by
  apply ext_get
  intro k'
  rw [get_set]
  split
  · next hk => rw [hk, h]
  · rfl

theorem del_eq_self (h : m.get k = none) : m.del k = m := by
  apply ext_get
  intro k'
  rw [get_del]
  split
  · next hk => rw [hk, h]
  · rfl

theorem set_set (m : FMap κ ν) (k : κ) (v v' : ν) : (m.set k v).set k v' = m.set k v' := by
  apply ext_get
  intro k'
  simp only [get_set]
  split <;> rfl

@[simp, grind =] theorem mem_keys : k ∈ m.keys ↔ (m.get k).isSome := by
  have hmem : k ∈ m.keys ↔ ∃ v, m.get k = some v := Finmap.mem_keys.trans Finmap.mem_iff
  rw [hmem, Option.isSome_iff_exists]

theorem mem_keys_of_get {v : ν} (h : m.get k = some v) : k ∈ m.keys := by
  simp [h]

theorem get_foldl_set (l : List (κ × ν)) (u : κ) : ∀ m : FMap κ ν,
    (∃ v, (u, v) ∈ l ∧ (l.foldl (fun m r => m.set r.1 r.2) m).get u = some v) ∨
    (u ∉ l.map Prod.fst ∧ (l.foldl (fun m r => m.set r.1 r.2) m).get u = m.get u) := by
  induction l with
  | nil => exact fun m => Or.inr ⟨List.not_mem_nil, rfl⟩
  | cons r rest ih =>
    intro m
    rcases ih (m.set r.1 r.2) with ⟨v, hv, hget⟩ | ⟨hnot, hget⟩
    · exact .inl ⟨v, List.mem_cons_of_mem _ hv, hget⟩
    rw [get_set] at hget
    by_cases hu : u = r.1
    · rw [if_pos hu] at hget
      exact .inl ⟨r.2, by rw [hu]; exact List.mem_cons_self, hget⟩
    rw [if_neg hu] at hget
    refine .inr ⟨?_, hget⟩
    rw [List.map_cons, List.mem_cons, not_or]
    exact ⟨hu, hnot⟩

theorem get_foldl_del (l : List κ) (u : κ) : ∀ m : FMap κ ν,
    (l.foldl del m).get u = if u ∈ l then none else m.get u := by
  induction l with
  | nil => exact fun m => (if_neg List.not_mem_nil).symm
  | cons k rest ih =>
    intro m
    rw [List.foldl_cons, ih, get_del]
    by_cases hu : u = k
    · simp [hu]
    · simp [hu]

@[simp] theorem keys_del (m : FMap κ ν) (k : κ) : (m.del k).keys = m.keys.erase k := by
  ext k'
  by_cases hk : k' = k <;> simp [hk]

section Sum

variable {M : Type} [AddCommMonoid M] (f : ν → M)

/-- The sum of `f` over the values. -/
def sum (m : FMap κ ν) : M := ∑ k ∈ m.keys, (m.get k).elim 0 f

@[simp] theorem sum_empty : (∅ : FMap κ ν).sum f = 0 := by
  have hkeys : (∅ : FMap κ ν).keys = ∅ := by
    ext k
    simp
  rw [sum, hkeys, Finset.sum_empty]

/-- The value at `k` counts once. -/
theorem sum_of_get {v : ν} (h : m.get k = some v) : m.sum f = f v + (m.del k).sum f := by
  have hk : k ∈ m.keys := by simp [h]
  have hrest : ∀ k' ∈ m.keys.erase k, ((m.del k).get k').elim 0 f = (m.get k').elim 0 f := by
    intro k' hk'
    rw [get_del, if_neg (Finset.ne_of_mem_erase hk')]
  rw [sum, sum, keys_del, Finset.sum_congr rfl hrest, ← Finset.add_sum_erase _ _ hk, h]
  rfl

theorem sum_set (m : FMap κ ν) (k : κ) (v : ν) : (m.set k v).sum f = f v + (m.del k).sum f := by
  have hdel : (m.set k v).del k = m.del k := by
    apply ext_get
    intro k'
    by_cases hk : k' = k <;> simp [hk]
  rw [sum_of_get f (k := k) (v := v) (by simp), hdel]

theorem sum_set_fresh (h : m.get k = none) (v : ν) : (m.set k v).sum f = f v + m.sum f := by
  rw [sum_set, del_eq_self h]

theorem hom_sum {N : Type} [AddCommMonoid N] (g : M →+ N) (m : FMap κ ν) : g (m.sum f) = m.sum fun v => g (f v) := by
  have hvalue : ∀ v : Option ν, g (v.elim 0 f) = v.elim 0 fun v => g (f v) := by
    intro v
    cases v with
    | none => exact g.map_zero
    | some v => rfl
  unfold sum
  rw [map_sum]
  exact Finset.sum_congr rfl fun k _ => hvalue (m.get k)

end Sum

theorem le_sum (f : ν → Nat) {v : ν} (h : m.get k = some v) : f v ≤ m.sum f := by
  rw [sum_of_get f h]
  exact Nat.le_add_right _ _

/-- How many keys hold a value with `p`. -/
def count (m : FMap κ ν) (p : ν → Bool) : Nat :=
  (m.keys.filter fun k => (m.get k).any p).card

end FMap

/-- The order in which a run walks a hash set. -/
structure SetOrder (α : Type) where
  list : Finset α → List α
  nodup : ∀ s, (list s).Nodup
  mem_list : ∀ s a, a ∈ list s ↔ a ∈ s

attribute [simp] SetOrder.mem_list

/-- The order by a number that tells the members apart, for concrete runs. -/
def SetOrder.byKey {α : Type} (key : α → Nat) (hkey : Function.Injective key) : SetOrder α :=
  have hanti : Std.Antisymm fun a b : α => key a ≤ key b := ⟨fun a b h h' => hkey (Nat.le_antisymm h h')⟩
  have htotal : Std.Total fun a b : α => key a ≤ key b := ⟨fun a b => Nat.le_total (key a) (key b)⟩
  have htrans : IsTrans α fun a b => key a ≤ key b := ⟨fun _ _ _ h h' => Nat.le_trans h h'⟩
  { list s := Quot.liftOn s.val (fun l => l.insertionSort fun a b => key a ≤ key b) fun l l' h =>
      (((List.perm_insertionSort _ l).trans h).trans (List.perm_insertionSort _ l').symm).eq_of_pairwise'
        (List.pairwise_insertionSort _ l) (List.pairwise_insertionSort _ l')
    nodup := fun ⟨m, hm⟩ => by
      induction m using Quot.ind with
      | mk l => exact (List.perm_insertionSort _ l).nodup_iff.mpr hm
    mem_list := fun ⟨m, hm⟩ a => by
      induction m using Quot.ind with
      | mk l => exact (List.perm_insertionSort _ l).mem_iff }
