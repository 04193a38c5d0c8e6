import Mathlib.Data.List.Basic
import Mathlib.Data.List.Count
import Mathlib.Data.List.Flatten

/-!
# Threads that share a state, and their runs

A thread is a list of atomic sections still to run and an owner who may cancel it.  `exec` says what
one section does: the new shared state, the sections the thread continues with and the threads it
starts.  A `Pool` is the shared state with all threads; one step of it runs the first section of one
thread (`advance`), starts a thread (`spawn`) or cancels the threads of some owners (`kill`).

* `Fires` says all that a step of one thread does to the pool.  `Has` and `All` are the two ways an
  invariant speaks about sections still to run; `Fires.has`, `Fires.all` and `Fires.count` carry
  them over a step.
* `run` folds a step function over a list of labels, and `Within ok` is a run each of whose steps
  meets `ok`.  `Within.invariant` is the rule for what such runs keep.
* `Alone` is what one thread does, with nothing said about the others; `advance_get`, `advance_self`,
  `advance_other`, `spawn_get` and `kill_get` follow a thread through the pool, and `Alone.invariant` is the rule for what it
  keeps.
-/

/-- A thread: who may cancel it, and the atomic sections it still has to run. -/
structure Thread (κ ι : Type) where
  owner : κ
  code : List ι
deriving DecidableEq

/-- What one atomic section does. -/
structure Outcome (σ κ ι : Type) where
  shared : σ
  code : List ι
  spawned : List (Thread κ ι)

structure Pool (σ κ ι : Type) where
  shared : σ
  threads : List (Thread κ ι)

namespace Pool

variable {σ κ ι χ : Type}

/-- All sections still to run. -/
def pending (p : Pool σ κ ι) : List ι := p.threads.flatMap Thread.code

/-- Runs the next section of thread `i`; nothing happens if there is none. -/
def advance (exec : χ → κ → ι → σ → Outcome σ κ ι) (p : Pool σ κ ι) (i : Nat) (c : χ) : Pool σ κ ι :=
  match p.threads.drop i with
  | ⟨k, a :: rest⟩ :: post =>
    let o := exec c k a p.shared
    ⟨o.shared, p.threads.take i ++ ⟨k, o.code ++ rest⟩ :: (post ++ o.spawned)⟩
  | _ => p

def spawn (p : Pool σ κ ι) (s : σ) (t : Thread κ ι) : Pool σ κ ι := ⟨s, p.threads ++ [t]⟩

/-- Cancels the threads whose owner is `dead`. -/
def kill (p : Pool σ κ ι) (dead : κ → Bool) : Pool σ κ ι :=
  ⟨p.shared, p.threads.filter fun t => !dead t.owner⟩

/-- The section thread `i` runs next, with the thread's owner. -/
def next? (p : Pool σ κ ι) (i : Nat) : Option (κ × ι) :=
  match p.threads.drop i with
  | ⟨k, a :: _⟩ :: _ => some (k, a)
  | _ => none

theorem next_mem {p : Pool σ κ ι} {i : Nat} {k : κ} {a : ι} (h : p.next? i = some (k, a)) :
    ∃ t ∈ p.threads, t.owner = k ∧ a ∈ t.code := by
  unfold next? at h
  split at h
  · next k' a' rest post hdrop =>
    cases h
    refine ⟨⟨k, a :: rest⟩, List.mem_of_mem_drop (i := i) ?_, rfl, List.mem_cons_self⟩
    rw [hdrop]
    exact List.mem_cons_self
  · cases h

/-- Some section still to run satisfies `P`. -/
def Has (p : Pool σ κ ι) (P : κ → ι → Prop) : Prop := ∃ t ∈ p.threads, ∃ a ∈ t.code, P t.owner a

/-- Every section still to run satisfies `R`. -/
def All (p : Pool σ κ ι) (R : κ → ι → Prop) : Prop := ∀ t ∈ p.threads, ∀ a ∈ t.code, R t.owner a

instance (p : Pool σ κ ι) (R : κ → ι → Prop) [∀ k a, Decidable (R k a)] : Decidable (p.All R) :=
  inferInstanceAs (Decidable (∀ t ∈ p.threads, ∀ a ∈ t.code, R t.owner a))

/-- A thread of `k` ran the section `a` with outcome `o`, and `p` became `p'`. -/
structure Fires (p p' : Pool σ κ ι) (k : κ) (a : ι) (o : Outcome σ κ ι) : Prop where
  split : ∃ pre rest post, p.threads = pre ++ ⟨k, a :: rest⟩ :: post ∧
    p'.threads = pre ++ ⟨k, o.code ++ rest⟩ :: (post ++ o.spawned)
  shared : p'.shared = o.shared

/-- A step of thread `i` fires the section that is next, or there is none. -/
theorem advance_fires (exec : χ → κ → ι → σ → Outcome σ κ ι) (p : Pool σ κ ι) (i : Nat) (c : χ) :
    (p.next? i = none ∧ p.advance exec i c = p) ∨
    ∃ k a, p.next? i = some (k, a) ∧ Fires p (p.advance exec i c) k a (exec c k a p.shared) := by
  have hsplit := (List.take_append_drop i p.threads).symm
  unfold advance next?
  split
  · next k a rest post hdrop =>
    refine .inr ⟨k, a, rfl, ⟨p.threads.take i, rest, post, ?_, rfl⟩, rfl⟩
    rw [hdrop] at hsplit
    exact hsplit
  · exact .inl ⟨rfl, rfl⟩

variable {P R : κ → ι → Prop}

section Fires

variable {p p' : Pool σ κ ι} {k : κ} {a : ι} {o : Outcome σ κ ι}

/-- A section still to run was the one that fired, or is still to run. -/
theorem Fires.has (h : Fires p p' k a o) (hp : p.Has P) : P k a ∨ p'.Has P := by
  obtain ⟨pre, rest, post, heq, heq'⟩ := h.split
  obtain ⟨t, ht, b, hb, hP⟩ := hp
  rw [heq, List.mem_append, List.mem_cons] at ht
  rcases ht with ht | rfl | ht
  · exact .inr ⟨t, by rw [heq']; simp [ht], b, hb, hP⟩
  · rcases List.mem_cons.mp hb with rfl | hb
    · exact .inl hP
    · refine .inr ⟨⟨k, o.code ++ rest⟩, by rw [heq']; simp, b, ?_, hP⟩
      exact List.mem_append_right _ hb
  · exact .inr ⟨t, by rw [heq']; simp [ht], b, hb, hP⟩

theorem Fires.has_code (h : Fires p p' k a o) {b : ι} (hb : b ∈ o.code) (hP : P k b) : p'.Has P := by
  obtain ⟨pre, rest, post, -, heq'⟩ := h.split
  exact ⟨⟨k, o.code ++ rest⟩, by rw [heq']; simp, b, List.mem_append_left _ hb, hP⟩

theorem Fires.has_spawned (h : Fires p p' k a o) {t : Thread κ ι} {b : ι}
    (ht : t ∈ o.spawned) (hb : b ∈ t.code) (hP : P t.owner b) : p'.Has P := by
  obtain ⟨pre, rest, post, -, heq'⟩ := h.split
  exact ⟨t, by rw [heq']; simp [ht], b, hb, hP⟩

theorem Fires.all_head (h : Fires p p' k a o) (hR : p.All R) : R k a := by
  obtain ⟨pre, rest, post, heq, -⟩ := h.split
  refine hR ⟨k, a :: rest⟩ ?_ a List.mem_cons_self
  rw [heq]
  simp

/-- What holds of every section still to run and of what the section brings holds after the step. -/
theorem Fires.all (h : Fires p p' k a o) (hR : p.All R) (hcode : ∀ b ∈ o.code, R k b)
    (hspawned : ∀ t ∈ o.spawned, ∀ b ∈ t.code, R t.owner b) : p'.All R := by
  obtain ⟨pre, rest, post, heq, heq'⟩ := h.split
  intro t ht b hb
  rw [heq', List.mem_append, List.mem_cons, List.mem_append] at ht
  rcases ht with ht | rfl | ht | ht
  · exact hR t (by rw [heq]; simp [ht]) b hb
  · rcases List.mem_append.mp hb with hb | hb
    · exact hcode b hb
    · exact hR ⟨k, a :: rest⟩ (by rw [heq]; simp) b (List.mem_cons_of_mem _ hb)
  · exact hR t (by rw [heq]; simp [ht]) b hb
  · exact hspawned t ht b hb

/-- How the number of sections with `f` changes. -/
theorem Fires.count (h : Fires p p' k a o) (f : ι → Bool) : p'.pending.countP f + [a].countP f =
      p.pending.countP f + o.code.countP f + (o.spawned.flatMap Thread.code).countP f := by
  obtain ⟨pre, rest, post, heq, heq'⟩ := h.split
  unfold pending
  rw [heq, heq']
  simp only [List.flatMap_append, List.flatMap_cons, List.countP_append, List.countP_cons,
    List.countP_nil]
  omega

/-- All sections still to run, before and after: the one that fired makes way for what it brings. -/
theorem Fires.perm (h : Fires p p' k a o) : ∃ others, p.pending.Perm (a :: others) ∧
    p'.pending.Perm (o.code ++ (others ++ o.spawned.flatMap Thread.code)) := by
  obtain ⟨pre, rest, post, heq, heq'⟩ := h.split
  refine ⟨pre.flatMap Thread.code ++ (rest ++ post.flatMap Thread.code), ?_, ?_⟩
  · unfold pending
    rw [heq, List.flatMap_append, List.flatMap_cons]
    exact List.perm_middle
  unfold pending
  rw [heq', List.flatMap_append, List.flatMap_cons, List.flatMap_append]
  simp only [List.append_assoc]
  exact List.perm_append_comm_assoc _ _ _

end Fires

theorem All.mono {p : Pool σ κ ι} {R' : κ → ι → Prop} (h : p.All R) (hR : ∀ k a, R k a → R' k a) : p.All R' :=
  fun t ht a ha => hR _ _ (h t ht a ha)

theorem Has.mono {p : Pool σ κ ι} {P' : κ → ι → Prop} (h : p.Has P) (hR : p.All R)
    (hP : ∀ k a, R k a → P k a → P' k a) : p.Has P' := by
  obtain ⟨t, ht, a, ha, hPa⟩ := h
  exact ⟨t, ht, a, ha, hP _ _ (hR t ht a ha) hPa⟩

section Congr

variable {p p' : Pool σ κ ι}

theorem All.congr (h : p.All R) (hthreads : p'.threads = p.threads) : p'.All R := by
  unfold All
  rw [hthreads]
  exact h

theorem Has.congr (h : p.Has P) (hthreads : p'.threads = p.threads) : p'.Has P := by
  unfold Has
  rw [hthreads]
  exact h

theorem pending_congr (hthreads : p'.threads = p.threads) : p'.pending = p.pending :=
  congrArg (List.flatMap Thread.code) hthreads

end Congr

theorem All.pending {p : Pool σ κ ι} (h : p.All R) : p.All fun k a => a ∈ p.pending ∧ R k a :=
  fun t ht a ha => ⟨List.mem_flatMap.mpr ⟨t, ht, ha⟩, h t ht a ha⟩

section Kill

variable {p : Pool σ κ ι} {dead : κ → Bool}

theorem All.kill (h : p.All R) : (p.kill dead).All R :=
  fun t ht a ha => h t (List.mem_of_mem_filter ht) a ha

/-- A section still to run survives unless its thread was cancelled. -/
theorem Has.kill (h : p.Has P) (halive : p.All fun k a => P k a → dead k = false) : (p.kill dead).Has P := by
  obtain ⟨t, ht, a, ha, hP⟩ := h
  refine ⟨t, List.mem_filter.mpr ⟨ht, ?_⟩, a, ha, hP⟩
  rw [halive t ht a ha hP]
  rfl

/-- Cancelling threads without sections of the kind `f` leaves their number. -/
theorem count_kill (f : ι → Bool) (h : p.All fun k a => f a = true → dead k = false) :
    (p.kill dead).pending.countP f = p.pending.countP f := by
  unfold pending Pool.kill
  have hall : ∀ t ∈ p.threads, ∀ a ∈ t.code, f a = true → dead t.owner = false := h
  generalize p.threads = threads at hall ⊢
  induction threads with
  | nil => rfl
  | cons t rest ih =>
    have hrest := ih fun u hu => hall u (List.mem_cons_of_mem _ hu)
    dsimp only at hrest ⊢
    rw [List.filter_cons]
    split
    · rw [List.flatMap_cons, List.flatMap_cons, List.countP_append, List.countP_append, hrest]
    next hdead =>
    have hnone : t.code.countP f = 0 := by
      rw [List.countP_eq_zero]
      intro a ha hf
      have := hall t List.mem_cons_self a ha hf
      simp [this] at hdead
    rw [List.flatMap_cons, List.countP_append, hnone, Nat.zero_add, hrest]

theorem pending_kill (p : Pool σ κ ι) (dead : κ → Bool) : (p.kill dead).pending.Sublist p.pending :=
  List.Sublist.flatMap List.filter_sublist _

end Kill

section Spawn

variable {p : Pool σ κ ι} {s : σ} {t : Thread κ ι}

theorem All.spawn (h : p.All R) (ht : ∀ a ∈ t.code, R t.owner a) : (p.spawn s t).All R := by
  intro u hu a ha
  rcases List.mem_append.mp hu with hu | hu
  · exact h u hu a ha
  · rw [List.mem_singleton] at hu
    subst hu
    exact ht a ha

theorem Has.spawn (h : p.Has P) : (p.spawn s t).Has P := by
  obtain ⟨u, hu, a, ha, hP⟩ := h
  exact ⟨u, List.mem_append_left _ hu, a, ha, hP⟩

theorem has_spawn {a : ι} (ha : a ∈ t.code) (hP : P t.owner a) : (p.spawn s t).Has P :=
  ⟨t, List.mem_append_right _ (List.mem_singleton_self t), a, ha, hP⟩

theorem count_spawn (f : ι → Bool) : (p.spawn s t).pending.countP f = p.pending.countP f + t.code.countP f := by
  simp [pending, Pool.spawn, List.countP_append]

theorem pending_spawn (p : Pool σ κ ι) (s : σ) (t : Thread κ ι) : (p.spawn s t).pending = p.pending ++ t.code := by
  simp [pending, Pool.spawn]

end Spawn

end Pool

/-! ## Runs -/

section Runs

variable {σ α : Type} (step : σ → α → σ) (ok : σ → α → Prop)

/-- The state after a list of labels. -/
def runFrom (s : σ) (labels : List α) : σ := labels.foldl step s

variable {step} in
/-- An invariant that every step keeps holds after every run. -/
theorem runFrom_invariant {Inv : σ → Prop} (hstep : ∀ s a, Inv s → Inv (step s a)) {s : σ} (hs : Inv s)
    (labels : List α) : Inv (runFrom step s labels) := by
  induction labels generalizing s with
  | nil => exact hs
  | cons a rest ih => exact ih (hstep s a hs)

/-- Every step of the run from `s` meets `ok`. -/
def Within : σ → List α → Prop
  | _, [] => True
  | s, a :: rest => ok s a ∧ Within (step s a) rest

instance [∀ s a, Decidable (ok s a)] : ∀ s labels, Decidable (Within step ok s labels)
  | _, [] => inferInstanceAs (Decidable True)
  | s, a :: rest =>
    have : Decidable (Within step ok (step s a) rest) := instDecidableWithin (step s a) rest
    inferInstanceAs (Decidable (_ ∧ _))

variable {step ok}

/-- An invariant that every step with `ok` keeps holds after every such run. -/
theorem Within.invariant {Inv : σ → Prop} (hstep : ∀ s a, Inv s → ok s a → Inv (step s a)) {s : σ}
    (hs : Inv s) {labels : List α} (h : Within step ok s labels) : Inv (runFrom step s labels) := by
  induction labels generalizing s with
  | nil => exact hs
  | cons a rest ih => exact ih (hstep s a hs h.1) h.2

end Runs

/-! ## What one thread does -/

/-- A section a thread ran, with the shared state it found and what the environment decided. -/
structure Ran (σ χ ι : Type) where
  shared : σ
  choice : χ
  code : ι

section Alone

variable {σ κ ι χ : Type} {exec : χ → κ → ι → σ → Outcome σ κ ι} {k : κ}

/-- A thread of `k` ran `done` and went from `code` to `code'`.  Between two of its sections the other threads
may have done anything to the shared state. -/
inductive Alone (exec : χ → κ → ι → σ → Outcome σ κ ι) (k : κ) : List ι → List (Ran σ χ ι) → List ι → Prop where
  | nil (code : List ι) : Alone exec k code [] code
  | cons {s : σ} {c : χ} {a : ι} {rest code' : List ι} {done : List (Ran σ χ ι)}
      (h : Alone exec k ((exec c k a s).code ++ rest) done code') : Alone exec k (a :: rest) (⟨s, c, a⟩ :: done) code'

variable {code : List ι}

/-- What each of its sections keeps, in whatever state it runs, a thread keeps. -/
theorem Alone.invariant {Inv : List (Ran σ χ ι) → List ι → Prop}
    (hstep : ∀ past s c a rest, Inv past (a :: rest) → Inv (past ++ [⟨s, c, a⟩]) ((exec c k a s).code ++ rest))
    {code' : List ι} {done : List (Ran σ χ ι)} (h : Alone exec k code done code') :
    ∀ {past : List (Ran σ χ ι)}, Inv past code → Inv (past ++ done) code' := by
  induction h with
  | nil code =>
    intro past hinv
    rw [List.append_nil]
    exact hinv
  | cons _ ih =>
    intro past hinv
    rw [List.append_cons]
    exact ih (hstep _ _ _ _ _ hinv)

theorem Alone.trans {code' code'' : List ι} {done done' : List (Ran σ χ ι)} (h : Alone exec k code done code')
    (h' : Alone exec k code' done' code'') : Alone exec k code (done ++ done') code'' := by
  induction h with
  | nil code => exact h'
  | cons _ ih => exact .cons (ih h')

namespace Pool

/-- What thread `i` runs when it is its turn. -/
def turn (p : Pool σ κ ι) (i : Nat) (c : χ) : List (Ran σ χ ι) :=
  ((p.next? i).map fun x => ⟨p.shared, c, x.2⟩).toList

variable {p : Pool σ κ ι} {i : Nat} {t : Thread κ ι}

theorem drop_of_get (h : p.threads[i]? = some t) : p.threads.drop i = t :: p.threads.drop (i + 1) := by
  rw [List.drop_eq_getElem?_toList_append, h]
  rfl

theorem advance_get {a : ι} {rest : List ι} (h : p.threads[i]? = some ⟨k, a :: rest⟩) (c : χ) :
    (p.advance exec i c).threads[i]? = some ⟨k, (exec c k a p.shared).code ++ rest⟩ := by
  have hi : i < p.threads.length := (List.getElem?_eq_some_iff.mp h).1
  unfold advance
  rw [drop_of_get h]
  dsimp only
  rw [List.getElem?_append_right (List.length_take_le i _), List.length_take, Nat.min_eq_left (Nat.le_of_lt hi), Nat.sub_self]
  rfl

theorem advance_self (h : p.threads[i]? = some ⟨k, code⟩) (c : χ) :
    ∃ code', (p.advance exec i c).threads[i]? = some ⟨k, code'⟩ ∧ Alone exec k code (p.turn i c) code' := by
  cases code with
  | nil =>
    refine ⟨[], ?_, ?_⟩
    · unfold advance
      rw [drop_of_get h]
      exact h
    · unfold turn next?
      rw [drop_of_get h]
      exact .nil []
  | cons a rest =>
    refine ⟨(exec c k a p.shared).code ++ rest, advance_get h c, ?_⟩
    unfold turn next?
    rw [drop_of_get h]
    exact .cons (.nil _)

theorem advance_other (h : p.threads[i]? = some t) {j : Nat} (hj : j ≠ i) (c : χ) :
    (p.advance exec j c).threads[i]? = some t := by
  unfold advance
  split
  · next k a rest post hdrop =>
    have hsplit : p.threads = p.threads.take j ++ ⟨k, a :: rest⟩ :: post := by
      rw [← hdrop, List.take_append_drop]
    have hlen : (p.threads.take j).length = j := by
      have hpos : 0 < (p.threads.drop j).length := by
        rw [hdrop]
        exact Nat.succ_pos _
      rw [List.length_drop] at hpos
      rw [List.length_take]
      omega
    rw [hsplit] at h
    dsimp only
    rcases Nat.lt_or_ge i j with hlt | hge
    · rw [List.getElem?_append_left (by omega)] at h ⊢
      exact h
    rw [List.getElem?_append_right (by omega), hlen] at h ⊢
    obtain ⟨d, hd⟩ : ∃ d, i - j = d + 1 := ⟨i - j - 1, by omega⟩
    rw [hd, List.getElem?_cons_succ] at h ⊢
    rw [List.getElem?_append_left (List.getElem?_eq_some_iff.mp h).1]
    exact h
  · exact h

theorem spawn_get (h : p.threads[i]? = some t) (s : σ) (u : Thread κ ι) : (p.spawn s u).threads[i]? = some t := by
  unfold spawn
  rw [List.getElem?_append_left (List.getElem?_eq_some_iff.mp h).1]
  exact h

/-- The threads that are cancelled before `i` make `i` move up. -/
theorem kill_get {dead : κ → Bool} (h : p.threads[i]? = some t) (halive : dead t.owner = false) :
    (p.kill dead).threads[(p.threads.take i).countP fun u => !dead u.owner]? = some t := by
  have hmove : ∀ (l : List (Thread κ ι)) (i : Nat), l[i]? = some t →
      (l.filter fun u => !dead u.owner)[(l.take i).countP fun u => !dead u.owner]? = some t := by
    intro l
    induction l with
    | nil => exact fun i h => nomatch h
    | cons u rest ih =>
      intro i h
      cases i with
      | zero =>
        cases h
        rw [List.filter_cons_of_pos (by rw [halive]; rfl)]
        rfl
      | succ i =>
        rw [List.take_succ_cons, List.countP_cons, List.filter_cons]
        split
        · rw [List.getElem?_cons_succ]
          exact ih i h
        · exact ih i h
  exact hmove p.threads i h

end Pool

end Alone
