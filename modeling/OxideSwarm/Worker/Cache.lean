import OxideSwarm.Blob.Store
import OxideSwarm.Lib.RefCount

/-!
# The worker's blob cache (`worker/src/blob_cache.rs`)

`CacheInner` is what `Mutex<Inner>` protects: the index with its recency order, how many guards pin each
blob, and the pins kept for the outputs of tasks.  `CacheState` adds the object files.  Each function here
is one lock hold.
-/

namespace OxideSwarm

variable [Host]

/-- `Inner`. -/
structure CacheInner where
  entries : FMap BlobId BlobEntry
  /-- least recently used first -/
  lru : Std.ExtTreeMap Nat BlobId compare
  tick : Nat
  totalBytes : Nat
  pins : FMap BlobId Nat
  taskPins : FMap TaskId (List BlobId)

namespace CacheInner

/-- `Inner::default()`. -/
def empty : CacheInner := ⟨∅, ∅, 0, 0, ∅, ∅⟩

def contains (s : CacheInner) (id : BlobId) : Bool := (s.entries.get id).isSome

/-- `Inner::touch`: the answer is `contains`, and the clock ticks even for an unknown blob. -/
def touch (s : CacheInner) (id : BlobId) : CacheInner :=
  match s.entries.get id with
  | some entry =>
    { s with
      tick := s.tick + 1
      entries := s.entries.set id { entry with tick := s.tick + 1 }
      lru := (s.lru.erase entry.tick).insert (s.tick + 1) id }
  | none => { s with tick := s.tick + 1 }

def insert (s : CacheInner) (id : BlobId) (size : Nat) : CacheInner :=
  if s.contains id then s.touch id
  else
    { s with
      tick := s.tick + 1
      entries := s.entries.set id ⟨size, s.tick + 1⟩
      lru := s.lru.insert (s.tick + 1) id
      totalBytes := s.totalBytes + size }

def remove (s : CacheInner) (id : BlobId) : CacheInner :=
  match s.entries.get id with
  | some entry =>
    { s with
      entries := s.entries.del id
      lru := s.lru.erase entry.tick
      totalBytes := s.totalBytes - entry.size }
  | none => s

/-- `CachePin::extend`. -/
def pinIds (s : CacheInner) (ids : List BlobId) : CacheInner :=
  { s with pins := ids.foldl RefCount.bump s.pins }

def unpinIds (s : CacheInner) (ids : List BlobId) : CacheInner :=
  { s with pins := ids.foldl RefCount.lower s.pins }

/-- `keep_task_outputs` with the ids taken from the guard. -/
def keepTaskOutputs (s : CacheInner) (t : TaskId) (ids : List BlobId) : CacheInner :=
  if ids = [] then s
  else unpinIds { s with taskPins := s.taskPins.set t ids } ((s.taskPins.get t).getD [])

def releaseTaskOutputs (s : CacheInner) (t : TaskId) : CacheInner :=
  unpinIds { s with taskPins := s.taskPins.del t } ((s.taskPins.get t).getD [])

/-- The loop over `lru` of `evict_to_fit`. -/
def victims (s : CacheInner) : Nat → Nat → List BlobId → List BlobId
  | _, _, [] => []
  | excess, room, id :: rest =>
    if excess = 0 ∨ room = 0 then []
    else if (s.pins.get id).isSome then victims s excess room rest
    else id :: victims s (excess - max ((s.entries.get id).elim 0 BlobEntry.size) 1) (room - 1) rest

end CacheInner

/-- The cache: its bound, the index, and the object files by the id they are named after. -/
structure CacheState where
  maxBytes : Nat
  inner : CacheInner
  objects : FMap BlobId Bytes

namespace CacheState

/-- `BlobCache::open`, with the objects `found` in the directory, the oldest first. -/
def opened (maxBytes : Nat) (found : List (BlobId × Bytes)) : CacheState where
  maxBytes := maxBytes
  inner := found.foldl (fun inner object => inner.insert object.1 object.2.length) .empty
  objects := found.foldl (fun objects object => objects.set object.1 object.2) ∅

/-- The blob is indexed and its object file is there. -/
def Holds (s : CacheState) (id : BlobId) : Prop := s.inner.contains id = true ∧ (s.objects.get id).isSome = true

instance (s : CacheState) (id : BlobId) : Decidable (s.Holds id) := inferInstanceAs (Decidable (_ ∧ _))

/-- The lock hold of `adopt_inner` with the verified `data`; `renamed` tells whether the file could be moved
into place.  There is nothing to adopt if it could not and no object is there. -/
def adopt (s : CacheState) (id : BlobId) (data : Bytes) (size : Nat) (renamed : Bool) : Option CacheState :=
  if renamed then some { s with objects := s.objects.set id data, inner := s.inner.insert id size }
  else if (s.objects.get id).isSome then some { s with inner := s.inner.insert id size }
  else none

/-- The lock hold of `drop_corrupt`. -/
def dropCorrupt (s : CacheState) (id : BlobId) : CacheState :=
  { s with objects := s.objects.del id, inner := s.inner.remove id }

/-- The victims of one lock hold of `evict_to_fit`. -/
def evictionBatch (s : CacheState) : List BlobId :=
  s.inner.victims (s.inner.totalBytes - s.maxBytes) evictionBatchSize s.inner.lru.values

/-- Takes `id` out of the index; `removed` tells whether its file could be deleted. -/
def evictOne (removed : Bool) (s : CacheState) (id : BlobId) : CacheState :=
  { s with inner := s.inner.remove id, objects := if removed then s.objects.del id else s.objects }

/-- One lock hold of `evict_to_fit`; `removed` tells which files could be deleted. -/
def evictBatch (s : CacheState) (removed : BlobId → Bool) : CacheState :=
  s.evictionBatch.foldl (fun s id => s.evictOne (removed id) id) s

omit [Host] in
theorem adopt_cases {s s' : CacheState} {id : BlobId} {data : Bytes} {size : Nat} {renamed : Bool}
    (h : s.adopt id data size renamed = some s') : ∃ objects, s' = { s with inner := s.inner.insert id size, objects } ∧
      (objects = s.objects.set id data ∨ objects = s.objects ∧ (s.objects.get id).isSome = true) := by
  unfold adopt at h
  split at h
  · cases h
    exact ⟨_, rfl, .inl rfl⟩
  split at h
  · next hobject =>
    cases h
    exact ⟨_, rfl, .inr ⟨rfl, hobject⟩⟩
  · cases h

omit [Host] in
/-- `scan_existing` adopts one object after the other. -/
theorem opened_induction {P : CacheState → Prop} (maxBytes : Nat) (found : List (BlobId × Bytes))
    (hempty : P ⟨maxBytes, .empty, ∅⟩) (hadopt : ∀ s s' : CacheState, ∀ object ∈ found,
      s.adopt object.1 object.2 object.2.length true = some s' → P s → P s') : P (.opened maxBytes found) := by
  have hscan : ∀ (rest : List (BlobId × Bytes)) (s : CacheState), rest ⊆ found → P s →
      P ⟨s.maxBytes, rest.foldl (fun inner object => inner.insert object.1 object.2.length) s.inner,
        rest.foldl (fun objects object => objects.set object.1 object.2) s.objects⟩ := by
    intro rest
    induction rest with
    | nil => exact fun s _ h => h
    | cons object rest ih =>
      intro s hsub h
      obtain ⟨hobject, hrest⟩ := List.cons_subset.mp hsub
      exact ih { s with objects := s.objects.set object.1 object.2, inner := s.inner.insert object.1 object.2.length }
        hrest (hadopt s _ object hobject rfl h)
  exact hscan found ⟨maxBytes, .empty, ∅⟩ (List.Subset.refl found) hempty

end CacheState

/-! ## What the operations do to the index -/

namespace CacheInner

omit [Host]

variable (s : CacheInner) (id id' : BlobId)

@[simp] theorem contains_touch : (s.touch id).contains id' = s.contains id' := by
  unfold touch contains
  split
  · next entry h =>
    rw [FMap.get_set]
    split
    · next hid => rw [hid, h]; rfl
    · rfl
  · rfl

variable (size : Nat)

theorem contains_insert : (s.insert id size).contains id' = (decide (id' = id) || s.contains id') := by
  unfold insert
  split
  · next h =>
    rw [contains_touch]
    by_cases hid : id' = id
    · rw [hid, h, Bool.or_true]
    · rw [decide_eq_false hid, Bool.false_or]
  unfold contains
  rw [FMap.get_set]
  by_cases hid : id' = id
  · rw [if_pos hid, decide_eq_true hid, Bool.true_or]
    rfl
  · rw [if_neg hid, decide_eq_false hid, Bool.false_or]

theorem contains_remove : (s.remove id).contains id' = (decide (id' ≠ id) && s.contains id') := by
  unfold remove contains
  split
  · rw [FMap.get_del]
    by_cases hid : id' = id
    · rw [if_pos hid, decide_eq_false (not_not.mpr hid), Bool.false_and]
      rfl
    · rw [if_neg hid, decide_eq_true hid, Bool.true_and]
  next h =>
  by_cases hid : id' = id
  · rw [hid, h]
    simp
  · rw [decide_eq_true hid, Bool.true_and]

@[simp] theorem pins_touch : (s.touch id).pins = s.pins := by
  unfold touch
  split <;> rfl

@[simp] theorem taskPins_touch : (s.touch id).taskPins = s.taskPins := by
  unfold touch
  split <;> rfl

@[simp] theorem pins_insert : (s.insert id size).pins = s.pins := by
  unfold insert
  split
  · exact pins_touch s id
  · rfl

@[simp] theorem taskPins_insert : (s.insert id size).taskPins = s.taskPins := by
  unfold insert
  split
  · exact taskPins_touch s id
  · rfl

@[simp] theorem pins_remove : (s.remove id).pins = s.pins := by
  unfold remove
  split <;> rfl

@[simp] theorem taskPins_remove : (s.remove id).taskPins = s.taskPins := by
  unfold remove
  split <;> rfl

theorem victims_unpinned : ∀ (ids : List BlobId) (excess room : Nat),
    ∀ id ∈ s.victims excess room ids, s.pins.get id = none := by
  intro ids
  induction ids with
  | nil => exact fun _ _ id hid => absurd hid List.not_mem_nil
  | cons id rest ih =>
    intro excess room id' hid'
    rw [victims] at hid'
    split at hid'
    · exact absurd hid' List.not_mem_nil
    split at hid'
    · exact ih _ _ id' hid'
    next hpin =>
    rcases List.mem_cons.mp hid' with rfl | hid'
    · exact Option.not_isSome_iff_eq_none.mp hpin
    · exact ih _ _ id' hid'

end CacheInner

end OxideSwarm
