import OxideSwarm.Blob.Accounting
import OxideSwarm.Lib.RefCount
import Mathlib.Tactic.Abel

/-!
# Pins are counted exactly

Three kinds of holders pin blobs: tasks that wait for their inputs (`pins`), finished tasks whose outputs
are kept (`output_pins`), and `OutputPinGuard`s.  They share `pin_counts`; `output_pin_counts` counts the
second kind alone.  Both maps are reference counts of the lists that are held (`BlobInner.Counted`), so
every release finds what it lowers, however pins, commits, drops and sweeps follow each other
(`pin_counts_exact`).
-/

namespace OxideSwarm

open RefCount

namespace BlobInner

/-- The blobs that tasks hold as inputs. -/
def heldInputs (s : BlobInner) : Multiset BlobId := s.pins.sum fun pin => (pin.2 : Multiset BlobId)

/-- The blobs that finished tasks hold as outputs. -/
def heldOutputs (s : BlobInner) : Multiset BlobId :=
  s.outputPins.sum fun entry => (entry.ids : Multiset BlobId)

theorem count_heldInputs (s : BlobInner) (id : BlobId) :
    s.heldInputs.count id = s.pins.sum fun pin => pin.2.count id := by
  rw [heldInputs, ← Multiset.coe_countAddMonoidHom, FMap.hom_sum]
  simp only [Multiset.coe_countAddMonoidHom, Multiset.coe_count]

theorem count_heldOutputs (s : BlobInner) (id : BlobId) :
    s.heldOutputs.count id = s.outputPins.sum fun entry => entry.ids.count id := by
  rw [heldOutputs, ← Multiset.coe_countAddMonoidHom, FMap.hom_sum]
  simp only [Multiset.coe_countAddMonoidHom, Multiset.coe_count]

/-- The two count maps stand for what is held. -/
structure Holds (s : BlobInner) (held outputs : Multiset BlobId) : Prop where
  pinCounts : Represents s.pinCounts held
  outputPinCounts : Represents s.outputPinCounts outputs

/-- The counts are exact, with `guards` held by guards. -/
def Counted (s : BlobInner) (guards : Multiset BlobId) : Prop :=
  s.Holds (s.heldInputs + s.heldOutputs + guards) s.heldOutputs

/-- One call of `release_pins`, or one of the two loops of `release_output_pins`: the counts it finds and
the ids it lowers. -/
abbrev Release := FMap BlobId Nat × List BlobId

/-- Every decrement finds its key, with a positive count. -/
def Release.Sound (r : Release) : Prop := Finds r.1 r.2

theorem bump_eq : BlobInner.bump = RefCount.bump := rfl

theorem lower_eq : BlobInner.lower = RefCount.lower := rfl

section

variable {s : BlobInner} {held outputs guards : Multiset BlobId} {ids : List BlobId}

theorem Holds.releasePins (h : s.Holds (held + ids) outputs) :
    (s.releasePins ids).Holds held outputs ∧ Release.Sound (s.pinCounts, ids) := by
  refine ⟨⟨?_, h.outputPinCounts⟩, h.pinCounts.finds⟩
  show Represents (ids.foldl BlobInner.lower s.pinCounts) held
  rw [lower_eq]
  exact h.pinCounts.lowerAll ids

theorem Holds.releaseOutputPins (h : s.Holds (held + ids) (outputs + ids)) :
    (s.releaseOutputPins ids).Holds held outputs ∧ Release.Sound (s.outputPinCounts, ids) ∧
      Release.Sound (s.pinCounts, ids) := by
  have hlowered : Represents (ids.foldl BlobInner.lower s.outputPinCounts) outputs := by
    rw [lower_eq]
    exact h.outputPinCounts.lowerAll ids
  have hmid : ({ s with outputPinCounts := ids.foldl BlobInner.lower s.outputPinCounts } : BlobInner).Holds
      (held + ids) outputs := ⟨h.pinCounts, hlowered⟩
  obtain ⟨hholds, hsound⟩ := hmid.releasePins
  exact ⟨hholds, h.outputPinCounts.finds, hsound⟩

/-! ## Pins of inputs -/

theorem heldInputs_get {t : TaskId} {pin : Instant × List BlobId} (h : s.pins.get t = some pin) :
    s.heldInputs = pin.2 + (s.pins.del t).sum fun pin => (pin.2 : Multiset BlobId) :=
  FMap.sum_of_get _ h

/-- The release of `pin_task`. -/
def pinReleases (s : BlobInner) (t : TaskId) (ids : List BlobId) : List Release :=
  match s.pins.get t with
  | some (_, previous) => [(ids.foldl BlobInner.bump s.pinCounts, previous)]
  | none => []

theorem Counted.pinTask (h : s.Counted guards) (now : Instant) (t : TaskId) (ids : List BlobId) :
    (s.pinTask now t ids).2.Counted guards ∧ ∀ r ∈ s.pinReleases t ids, r.Sound := by
  have hbumped : Represents (ids.foldl BlobInner.bump s.pinCounts)
      (s.heldInputs + s.heldOutputs + guards + ids) := by
    rw [bump_eq]
    exact h.pinCounts.bumpAll ids
  have hset : (s.pins.set t (now, ids)).sum (fun pin => (pin.2 : Multiset BlobId)) =
      ids + (s.pins.del t).sum fun pin => (pin.2 : Multiset BlobId) := FMap.sum_set _ _ _ _
  unfold BlobInner.pinTask pinReleases
  cases hget : s.pins.get t with
  | none =>
    refine ⟨⟨?_, h.outputPinCounts⟩, nofun⟩
    show Represents (ids.foldl BlobInner.bump s.pinCounts)
      ((s.pins.set t (now, ids)).sum (fun pin => (pin.2 : Multiset BlobId)) + s.heldOutputs + guards)
    rw [hset, FMap.del_eq_self hget]
    convert hbumped using 1
    unfold heldInputs
    abel
  | some pin =>
    obtain ⟨at', previous⟩ := pin
    rw [heldInputs_get hget] at hbumped
    -- the new list goes in before the old one is released
    have hheld : ({ s with
        pinCounts := ids.foldl BlobInner.bump s.pinCounts
        pins := s.pins.set t (now, ids) } : BlobInner).Holds
        ((s.pins.set t (now, ids)).sum (fun pin => (pin.2 : Multiset BlobId)) + s.heldOutputs + guards +
          previous) s.heldOutputs := by
      refine ⟨?_, h.outputPinCounts⟩
      rw [hset]
      convert hbumped using 1
      abel
    obtain ⟨hcounted, hsound⟩ := hheld.releasePins
    refine ⟨hcounted, fun r hr => ?_⟩
    rw [List.mem_singleton.mp hr]
    exact hsound

/-- The release of `unpin_task`. -/
def unpinReleases (s : BlobInner) (t : TaskId) : List Release :=
  match s.pins.get t with
  | some (_, ids) => [(s.pinCounts, ids)]
  | none => []

theorem Counted.unpinTask (h : s.Counted guards) (t : TaskId) :
    (s.unpinTask t).Counted guards ∧ ∀ r ∈ s.unpinReleases t, r.Sound := by
  unfold BlobInner.unpinTask unpinReleases
  cases hget : s.pins.get t with
  | none => exact ⟨h, nofun⟩
  | some pin =>
    obtain ⟨at', ids⟩ := pin
    have hheld : ({ s with pins := s.pins.del t } : BlobInner).Holds
        ((s.pins.del t).sum (fun pin => (pin.2 : Multiset BlobId)) + s.heldOutputs + guards + ids)
        s.heldOutputs := by
      refine ⟨?_, h.outputPinCounts⟩
      convert h.pinCounts using 1
      rw [heldInputs_get hget]
      abel
    obtain ⟨hcounted, hsound⟩ := hheld.releasePins
    refine ⟨hcounted, fun r hr => ?_⟩
    rw [List.mem_singleton.mp hr]
    exact hsound

/-! ## Guards -/

/-- `s'` has the pins of `s`. -/
structure SamePins (s s' : BlobInner) : Prop where
  pins : s'.pins = s.pins
  outputPins : s'.outputPins = s.outputPins
  pinCounts : s'.pinCounts = s.pinCounts
  outputPinCounts : s'.outputPinCounts = s.outputPinCounts

theorem SamePins.trans {s s' s'' : BlobInner} (h : SamePins s s') (h' : SamePins s' s'') : SamePins s s'' :=
  ⟨h'.pins.trans h.pins, h'.outputPins.trans h.outputPins, h'.pinCounts.trans h.pinCounts,
    h'.outputPinCounts.trans h.outputPinCounts⟩

theorem SamePins.counted {s' : BlobInner} (hs : SamePins s s') (h : s.Counted guards) : s'.Counted guards := by
  unfold Counted heldInputs heldOutputs at *
  rw [hs.pins, hs.outputPins]
  refine ⟨?_, ?_⟩
  · rw [hs.pinCounts]
    exact h.pinCounts
  · rw [hs.outputPinCounts]
    exact h.outputPinCounts

theorem samePins_touch (s : BlobInner) (id : BlobId) : SamePins s (s.touch id) := by
  unfold touch
  split <;> exact ⟨rfl, rfl, rfl, rfl⟩

theorem samePins_remove (s : BlobInner) (id : BlobId) : SamePins s (s.remove id) := by
  unfold remove
  split <;> exact ⟨rfl, rfl, rfl, rfl⟩

theorem samePins_touchAll (ids : List BlobId) : ∀ s : BlobInner, SamePins s (ids.foldl touch s) := by
  induction ids with
  | nil => exact fun s => ⟨rfl, rfl, rfl, rfl⟩
  | cons id rest ih => exact fun s => (samePins_touch s id).trans (ih (s.touch id))

theorem Change.samePins {s' : BlobInner} (h : Change s s') : SamePins s s' := by
  cases h with
  | touch id => exact samePins_touch s id
  | insert id size =>
    unfold BlobInner.insert
    split
    · exact samePins_touch s id
    · exact ⟨rfl, rfl, rfl, rfl⟩
  | evict unpinned => exact samePins_remove s _
  | release | swap => exact ⟨rfl, rfl, rfl, rfl⟩

theorem Changes.samePins {s' : BlobInner} (h : Changes s s') : SamePins s s' := by
  induction h with
  | refl => exact ⟨rfl, rfl, rfl, rfl⟩
  | tail _ hlast ih => exact ih.trans hlast.samePins

theorem Counted.checkAndPinOutputs (h : s.Counted guards) (ids : List BlobId) : match s.checkAndPinOutputs ids with
    | (.ok unique, s') => s'.Counted (guards + unique) | (.error _, s') => s'.Counted guards := by
  unfold BlobInner.checkAndPinOutputs
  have htouched := (samePins_touchAll ids.reverse.dedup.reverse s).counted h
  generalize ids.reverse.dedup.reverse = unique at htouched ⊢
  dsimp only
  split
  · next heq =>
    split at heq
    · cases heq
    cases heq
    refine ⟨?_, htouched.outputPinCounts⟩
    rw [bump_eq]
    convert htouched.pinCounts.bumpAll unique using 1
    exact (add_assoc _ _ _).symm
  next heq =>
  split at heq
  · cases heq
    exact htouched
  · cases heq

theorem Counted.dropGuard (h : s.Counted (guards + ids)) :
    (s.releasePins ids).Counted guards ∧ Release.Sound (s.pinCounts, ids) := by
  unfold Counted at h
  rw [← add_assoc] at h
  exact h.releasePins

/-! ## Pins of outputs -/

theorem heldOutputs_get {t : TaskId} {entry : OutputPinEntry} (h : s.outputPins.get t = some entry) :
    s.heldOutputs = entry.ids + (s.outputPins.del t).sum fun entry => (entry.ids : Multiset BlobId) :=
  FMap.sum_of_get _ h

/-- The releases of one dropped output pin. -/
def dropReleases (s : BlobInner) (t : TaskId) : List Release :=
  match s.outputPins.get t with
  | some entry => [(s.outputPinCounts, entry.ids), (s.pinCounts, entry.ids)]
  | none => []

theorem Counted.dropOutputPin (h : s.Counted guards) (t : TaskId) :
    (s.dropOutputPin t).Counted guards ∧ ∀ r ∈ s.dropReleases t, r.Sound := by
  unfold BlobInner.dropOutputPin dropReleases
  cases hget : s.outputPins.get t with
  | none => exact ⟨h, nofun⟩
  | some entry =>
    have hheld : ({ s with outputPins := s.outputPins.del t } : BlobInner).Holds
        (s.heldInputs + (s.outputPins.del t).sum (fun entry => (entry.ids : Multiset BlobId)) + guards +
          entry.ids)
        ((s.outputPins.del t).sum (fun entry => (entry.ids : Multiset BlobId)) + entry.ids) := by
      refine ⟨?_, ?_⟩
      · convert h.pinCounts using 1
        rw [heldOutputs_get hget]
        abel
      · convert h.outputPinCounts using 1
        rw [heldOutputs_get hget]
        abel
    obtain ⟨hcounted, houtputs, hpins⟩ := hheld.releaseOutputPins
    refine ⟨hcounted, fun r hr => ?_⟩
    rcases List.mem_pair.mp hr with rfl | rfl
    · exact houtputs
    · exact hpins

/-- The releases of the `while` of `commit_terminal`. -/
def shedReleases (order : SetOrder TaskId) (maxBytes : Nat) (t : TaskId) : Nat → BlobInner → List Release
  | 0, _ => []
  | fuel + 1, s =>
    if s.outputPins.keys.card > 1 ∧ s.outputPinnedBytes > maxBytes then
      match s.oldestOther order t with
      | some oldest => s.dropReleases oldest ++ shedReleases order maxBytes t fuel (s.dropOutputPin oldest)
      | none => []
    else []

theorem Counted.shedOutputPins (order : SetOrder TaskId) (maxBytes : Nat) (t : TaskId) (fuel : Nat) :
    ∀ {s : BlobInner}, s.Counted guards → (BlobInner.shedOutputPins order maxBytes t fuel s).Counted guards ∧
      ∀ r ∈ shedReleases order maxBytes t fuel s, r.Sound := by
  induction fuel with
  | zero => exact fun h => ⟨h, List.forall_mem_nil _⟩
  | succ fuel ih =>
    intro s h
    unfold BlobInner.shedOutputPins shedReleases
    split
    · cases s.oldestOther order t with
      | none => exact ⟨h, List.forall_mem_nil _⟩
      | some oldest =>
        obtain ⟨hdropped, hsound⟩ := h.dropOutputPin oldest
        obtain ⟨hcounted, hrest⟩ := ih hdropped
        refine ⟨hcounted, fun r hr => ?_⟩
        rcases List.mem_append.mp hr with hr | hr
        · exact hsound r hr
        · exact hrest r hr
    · exact ⟨h, List.forall_mem_nil _⟩

/-- `commit_terminal` before its `while`: the ids of the guard go to the task. -/
def bindOutputs (s : BlobInner) (now : Instant) (t : TaskId) (ids : List BlobId) : BlobInner :=
  let s' := { s with
    outputPinCounts := ids.foldl BlobInner.bump s.outputPinCounts
    outputPinSeq := s.outputPinSeq + 1
    outputPins := s.outputPins.set t ⟨now, s.outputPinSeq + 1, ids⟩ }
  match s.outputPins.get t with
  | some previous => s'.releaseOutputPins previous.ids
  | none => s'

/-- The releases of `bindOutputs`. -/
def bindReleases (s : BlobInner) (t : TaskId) (ids : List BlobId) : List Release :=
  match s.outputPins.get t with
  | some previous => [(ids.foldl BlobInner.bump s.outputPinCounts, previous.ids), (s.pinCounts, previous.ids)]
  | none => []

theorem commitTerminal_eq (s : BlobInner) (order : SetOrder TaskId) (maxBytes : Nat) (now : Instant) (t : TaskId)
    (ids : List BlobId) : s.commitTerminal order maxBytes now t ids = if ids = [] then s
      else BlobInner.shedOutputPins order maxBytes t (s.bindOutputs now t ids).outputPins.keys.card
        (s.bindOutputs now t ids) := rfl

theorem Counted.bindOutputs (h : s.Counted (guards + ids)) (now : Instant) (t : TaskId) :
    (s.bindOutputs now t ids).Counted guards ∧ ∀ r ∈ s.bindReleases t ids, r.Sound := by
  have hbumped : Represents (ids.foldl BlobInner.bump s.outputPinCounts) (s.heldOutputs + ids) := by
    rw [bump_eq]
    exact h.outputPinCounts.bumpAll ids
  have hset : (s.outputPins.set t ⟨now, s.outputPinSeq + 1, ids⟩).sum
      (fun entry => (entry.ids : Multiset BlobId)) =
      ids + (s.outputPins.del t).sum fun entry => (entry.ids : Multiset BlobId) := FMap.sum_set _ _ _ _
  have hpins := h.pinCounts
  unfold BlobInner.bindOutputs bindReleases
  cases hget : s.outputPins.get t with
  | none =>
    have hdel : (s.outputPins.del t).sum (fun entry => (entry.ids : Multiset BlobId)) = s.heldOutputs := by
      rw [FMap.del_eq_self hget, heldOutputs]
    rw [hdel] at hset
    refine ⟨⟨?_, ?_⟩, nofun⟩
    · show Represents s.pinCounts (s.heldInputs + (s.outputPins.set t _).sum _ + guards)
      rw [hset]
      convert hpins using 1
      abel
    · show Represents (ids.foldl BlobInner.bump s.outputPinCounts) ((s.outputPins.set t _).sum _)
      rw [hset, add_comm]
      exact hbumped
  | some previous =>
    rw [heldOutputs_get hget] at hbumped hpins
    have hheld : ({ s with
        outputPinCounts := ids.foldl BlobInner.bump s.outputPinCounts
        outputPinSeq := s.outputPinSeq + 1
        outputPins := s.outputPins.set t ⟨now, s.outputPinSeq + 1, ids⟩ } : BlobInner).Holds
        (s.heldInputs + (s.outputPins.set t ⟨now, s.outputPinSeq + 1, ids⟩).sum
          (fun entry => (entry.ids : Multiset BlobId)) + guards + previous.ids)
        ((s.outputPins.set t ⟨now, s.outputPinSeq + 1, ids⟩).sum
          (fun entry => (entry.ids : Multiset BlobId)) + previous.ids) := by
      rw [hset]
      refine ⟨?_, ?_⟩
      · convert hpins using 1
        abel
      · convert hbumped using 1
        abel
    obtain ⟨hcounted, houtputs, hpins'⟩ := hheld.releaseOutputPins
    refine ⟨hcounted, fun r hr => ?_⟩
    rcases List.mem_pair.mp hr with rfl | rfl
    · exact houtputs
    · exact hpins'

/-- The releases of `commit_terminal`. -/
def commitReleases (s : BlobInner) (order : SetOrder TaskId) (maxBytes : Nat) (now : Instant) (t : TaskId)
    (ids : List BlobId) : List Release :=
  if ids = [] then []
  else s.bindReleases t ids ++ shedReleases order maxBytes t
    (s.bindOutputs now t ids).outputPins.keys.card (s.bindOutputs now t ids)

theorem Counted.commitTerminal (h : s.Counted (guards + ids)) (order : SetOrder TaskId) (maxBytes : Nat)
    (now : Instant) (t : TaskId) : (s.commitTerminal order maxBytes now t ids).Counted guards ∧
      ∀ r ∈ s.commitReleases order maxBytes now t ids, r.Sound := by
  rw [commitTerminal_eq]
  unfold commitReleases
  split
  · next hempty =>
    rw [hempty, Multiset.coe_nil, add_zero] at h
    exact ⟨h, nofun⟩
  obtain ⟨hbound, hsound⟩ := h.bindOutputs now t
  obtain ⟨hcounted, hrest⟩ := hbound.shedOutputPins order maxBytes t _
  refine ⟨hcounted, fun r hr => ?_⟩
  rcases List.mem_append.mp hr with hr | hr
  · exact hsound r hr
  · exact hrest r hr

/-- The releases of the loop of `sweep_expired_output_pins`. -/
def sweepReleases : List TaskId → BlobInner → List Release
  | [], _ => []
  | t :: rest, s => s.dropReleases t ++ sweepReleases rest (s.dropOutputPin t)

theorem Counted.dropOutputPins (expired : List TaskId) : ∀ {s : BlobInner}, s.Counted guards →
    (expired.foldl BlobInner.dropOutputPin s).Counted guards ∧ ∀ r ∈ sweepReleases expired s, r.Sound := by
  induction expired with
  | nil => exact fun h => ⟨h, nofun⟩
  | cons t rest ih =>
    intro s h
    obtain ⟨hdropped, hsound⟩ := h.dropOutputPin t
    obtain ⟨hcounted, hrest⟩ := ih hdropped
    refine ⟨hcounted, fun r hr => ?_⟩
    rcases List.mem_append.mp hr with hr | hr
    · exact hsound r hr
    · exact hrest r hr

end

end BlobInner

/-! ## Runs -/

/-- The store with the guards that are alive. -/
structure GuardedStore where
  store : BlobStore
  guards : List (List BlobId)

/-- The calls that pin and unpin; `store` is any other step of the store. -/
inductive PinCall where
  | store (l : BlobStore.Label)
  | pinTask (now : Instant) (t : TaskId) (ids : List BlobId)
  | unpinTask (t : TaskId)
  | checkAndPinOutputs (ids : List BlobId)
  | commitTerminal (order : SetOrder TaskId) (now : Instant) (t : TaskId) (guard : Nat)
  | dropGuard (guard : Nat)
  | sweepExpiredOutputPins (order : SetOrder TaskId) (now : Instant) (retention : Nat)

namespace GuardedStore

open BlobInner

section

variable [Host]

/-- One pin operation on the store. -/
def pinned (s : GuardedStore) (op : BlobStore.PinOp) (guards : List (List BlobId)) : GuardedStore :=
  ⟨s.store.step (.pins op), guards⟩

def step (s : GuardedStore) : PinCall → GuardedStore
  | .store (.pins _) => s
  | .store l => { s with store := s.store.step l }
  | .pinTask now t ids => s.pinned (.pinTask now t ids) s.guards
  | .unpinTask t => s.pinned (.unpinTask t) s.guards
  | .checkAndPinOutputs ids =>
    match (s.store.inner.checkAndPinOutputs ids).1 with
    | .ok unique => s.pinned (.checkAndPinOutputs ids) (s.guards ++ [unique])
    | .error _ => s.pinned (.checkAndPinOutputs ids) s.guards
  | .commitTerminal order now t guard =>
    match s.guards[guard]? with
    | some ids => s.pinned (.commitTerminal order now t ids) (s.guards.eraseIdx guard)
    | none => s
  | .dropGuard guard =>
    match s.guards[guard]? with
    | some ids => s.pinned (.dropGuard ids) (s.guards.eraseIdx guard)
    | none => s
  | .sweepExpiredOutputPins order now retention =>
    s.pinned (.sweepExpiredOutputPins order now retention) s.guards

end

/-- The releases that a call makes, in order. -/
def releases (s : GuardedStore) : PinCall → List Release
  | .store _ | .checkAndPinOutputs _ => []
  | .pinTask _ t ids => s.store.inner.pinReleases t ids
  | .unpinTask t => s.store.inner.unpinReleases t
  | .commitTerminal order now t guard =>
    match s.guards[guard]? with
    | some ids => s.store.inner.commitReleases order s.store.maxBytes now t ids
    | none => []
  | .dropGuard guard =>
    match s.guards[guard]? with
    | some ids => [(s.store.inner.pinCounts, ids)]
    | none => []
  | .sweepExpiredOutputPins order now retention =>
    sweepReleases ((order.list s.store.inner.outputPins.keys).filter fun t =>
      (s.store.inner.outputPins.get t).any fun entry => now - entry.pinnedAt ≥ retention) s.store.inner

/-- The counts are exact, and writes in flight have their slots. -/
structure Exact (s : GuardedStore) : Prop where
  counted : s.store.inner.Counted s.guards.flatten
  reserved : s.store.Reserved

theorem flatten_eraseIdx {guards : List (List BlobId)} {i : Nat} {ids : List BlobId} (h : guards[i]? = some ids) :
    (guards.flatten : Multiset BlobId) = ((guards.eraseIdx i).flatten : Multiset BlobId) + ids := by
  induction guards generalizing i with
  | nil => cases h
  | cons guard rest ih =>
    cases i with
    | zero =>
      cases h
      rw [List.flatten_cons, ← Multiset.coe_add, add_comm]
      rfl
    | succ i =>
      rw [List.eraseIdx_cons_succ, List.flatten_cons, List.flatten_cons, ← Multiset.coe_add,
        ← Multiset.coe_add, ih h, add_assoc]

variable [Host] {s : GuardedStore}

theorem Exact.store_step (h : s.Exact) {l : BlobStore.Label} (hl : ∀ op, l ≠ .pins op) :
    ({ s with store := s.store.step l } : GuardedStore).Exact := by
  refine ⟨?_, h.reserved.step l⟩
  obtain ⟨hchange, -⟩ := BlobStore.step_change h.reserved l
  generalize (s.store.step l).inner = inner at hchange ⊢
  cases hchange with
  | plain changes => exact (Changes.samePins changes).counted h.counted
  | @reserve _ mid _ changes reserved =>
    cases reserved
    exact SamePins.counted (s := mid) ⟨rfl, rfl, rfl, rfl⟩ ((Changes.samePins changes).counted h.counted)
  | forget read => exact (samePins_remove _ _).counted h.counted
  | @pins op => exact (hl op rfl).elim

/-- **One call** keeps the counts exact, and its releases find what they lower. -/
theorem Exact.step (h : s.Exact) (call : PinCall) : (s.step call).Exact ∧ ∀ r ∈ s.releases call, r.Sound := by
  have hpinned : ∀ {op : BlobStore.PinOp} {guards : List (List BlobId)},
      (op.apply s.store.inner s.store.maxBytes).Counted guards.flatten → (s.pinned op guards).Exact :=
    fun hcounted => ⟨hcounted, h.reserved.step _⟩
  cases call with
  | store l =>
    refine ⟨?_, nofun⟩
    cases l with
    | pins op => exact h
    | _ => exact h.store_step nofun
  | pinTask now t ids =>
    obtain ⟨hcounted, hsound⟩ := h.counted.pinTask now t ids
    exact ⟨hpinned hcounted, hsound⟩
  | unpinTask t =>
    obtain ⟨hcounted, hsound⟩ := h.counted.unpinTask t
    exact ⟨hpinned hcounted, hsound⟩
  | checkAndPinOutputs ids =>
    refine ⟨?_, nofun⟩
    have hcounted := h.counted.checkAndPinOutputs ids
    simp only [GuardedStore.step]
    cases hcheck : s.store.inner.checkAndPinOutputs ids with
    | mk result inner =>
      have hinner : (BlobStore.PinOp.checkAndPinOutputs ids).apply s.store.inner s.store.maxBytes = inner :=
        congrArg Prod.snd hcheck
      rw [hcheck] at hcounted
      cases result with
      | ok unique =>
        refine hpinned ?_
        rw [hinner, List.flatten_append, List.flatten_singleton, ← Multiset.coe_add]
        exact hcounted
      | error missing =>
        refine hpinned ?_
        rw [hinner]
        exact hcounted
  | commitTerminal order now t guard =>
    simp only [GuardedStore.step, releases]
    cases hguard : s.guards[guard]? with
    | none => exact ⟨h, nofun⟩
    | some ids =>
      have hcounted := h.counted
      rw [flatten_eraseIdx hguard] at hcounted
      obtain ⟨hcommitted, hsound⟩ := hcounted.commitTerminal order s.store.maxBytes now t
      exact ⟨hpinned hcommitted, hsound⟩
  | dropGuard guard =>
    simp only [GuardedStore.step, releases]
    cases hguard : s.guards[guard]? with
    | none => exact ⟨h, nofun⟩
    | some ids =>
      have hcounted := h.counted
      rw [flatten_eraseIdx hguard] at hcounted
      obtain ⟨hdropped, hsound⟩ := hcounted.dropGuard
      refine ⟨hpinned hdropped, fun r hr => ?_⟩
      rw [List.mem_singleton.mp hr]
      exact hsound
  | sweepExpiredOutputPins order now retention =>
    obtain ⟨hcounted, hsound⟩ := h.counted.dropOutputPins
      ((order.list s.store.inner.outputPins.keys).filter fun t =>
        (s.store.inner.outputPins.get t).any fun entry => now - entry.pinnedAt ≥ retention)
    exact ⟨hpinned hcounted, hsound⟩

omit [Host] in
theorem openDir_samePins (maxBytes : Nat) (objects : List (BlobId × Bytes)) (removed : BlobId → Bool) :
    SamePins .empty (BlobStore.openDir maxBytes objects removed).inner := by
  have hadopt : ∀ (l : List (BlobId × Bytes)) (s : BlobStore), SamePins s.inner (l.foldl BlobStore.adopt s).inner := by
    intro l
    induction l with
    | nil => exact fun s => ⟨rfl, rfl, rfl, rfl⟩
    | cons object rest ih =>
      intro s
      refine SamePins.trans ?_ (ih _)
      unfold BlobStore.adopt
      split
      · exact ⟨rfl, rfl, rfl, rfl⟩
      · exact (Change.insert object.1 object.2.length).samePins
  have hevict := BlobStore.tends_evictAll { Io.fine with removed := removed }
    ((objects.foldl BlobStore.adopt (.new maxBytes)).inner.evictionVictims maxBytes none)
    (objects.foldl BlobStore.adopt (.new maxBytes)) fun id hid => victims_unpinned _ none _ _ _ id hid
  exact (hadopt objects (.new maxBytes)).trans (Changes.samePins hevict.changes)

omit [Host] in
theorem openDir_exact (maxBytes : Nat) (objects : List (BlobId × Bytes)) (removed : BlobId → Bool) :
    Exact ⟨.openDir maxBytes objects removed, []⟩ := by
  refine ⟨(openDir_samePins maxBytes objects removed).counted ⟨?_, ?_⟩,
    (BlobStore.openDir_balanced maxBytes objects removed).1.reserved⟩
  · exact represents_empty
  · exact represents_empty

theorem Exact.run (h : s.Exact) (calls : List PinCall) : (runFrom GuardedStore.step s calls).Exact := by
  induction calls generalizing s with
  | nil => exact h
  | cons call rest ih => exact ih (h.step call).1

/-- **Pins are counted exactly.**  Open a directory and let pins, unpins, checks, commits, guard drops and
sweeps follow each other and all other steps of the store in any order.  In every state reached `pin_counts`
says how often each blob occurs in the lists of `pins`, of `output_pins` and of the guards that are alive,
`output_pin_counts` how often it occurs in those of `output_pins`, a blob that does not occur is in neither
map, and whatever call is next, no decrement it makes misses. -/
theorem pin_counts_exact (maxBytes : Nat) (objects : List (BlobId × Bytes)) (removed : BlobId → Bool)
    (calls : List PinCall) :
    let s := runFrom step ⟨.openDir maxBytes objects removed, []⟩ calls
    let inner := s.store.inner
    (∀ id, inner.pinCounts.get id = countEntry (inner.pins.sum (fun pin => pin.2.count id) +
      inner.outputPins.sum (fun entry => entry.ids.count id) + s.guards.flatten.count id)) ∧
    (∀ id, inner.outputPinCounts.get id = countEntry (inner.outputPins.sum fun entry => entry.ids.count id)) ∧
    ∀ call, ∀ r ∈ s.releases call, r.Sound := by
  intro s inner
  have h : s.Exact := (openDir_exact maxBytes objects removed).run calls
  refine ⟨fun id => ?_, fun id => ?_, fun call => (h.step call).2⟩
  · rw [h.counted.pinCounts.get, Multiset.count_add, Multiset.count_add, count_heldInputs, count_heldOutputs,
      Multiset.coe_count]
  · rw [h.counted.outputPinCounts.get, count_heldOutputs]

end GuardedStore

end OxideSwarm
