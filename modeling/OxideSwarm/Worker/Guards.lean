import OxideSwarm.Worker.Eviction
import OxideSwarm.Worker.Held

/-!
# The books of the worker's cache (`worker/src/blob_cache.rs`)

Any number of threads call the cache and create, extend, move and drop `CachePin`s; a step is one lock hold of
one of them (`CacheOp`).  `materialize` and the verified reads look at an object file outside the lock and come
back to take the blob out of the index, so a look is a step too and leaves a note.

The counts are what the live guards and the tasks hold and the index is a bijection with its recency order in
every state (`cache_books`).  Eviction spares what is pinned; the removal after a look does not, and may hit an
output that was stored in between (`pinned_output_forgotten`).
-/

namespace OxideSwarm

section

variable [Host]

/-- The cache, the live `CachePin`s by their identity, and the looks that will take a blob out of the index. -/
structure GuardedCache where
  cache : CacheState
  guards : FMap Nat (List BlobId)
  /-- `materialize` found no object -/
  absent : List BlobId
  /-- the content did not match the id -/
  corrupt : List BlobId

/-- One lock hold, or a look at an object file. -/
inductive CacheOp where
  /-- `contains`, and the end of `read_verified` and `materialize` -/
  | touch (id : BlobId)
  | pin (g : Nat) (ids : List BlobId)
  | extend (g : Nat) (ids : List BlobId)
  | drop (g : Nat)
  | keepTaskOutputs (t : TaskId) (g : Nat)
  | takeTaskOutputs (t : TaskId) (g : Nat)
  | releaseTaskOutputs (t : TaskId)
  | adopt (data : Bytes) (size : Nat) (renamed : Bool)
  /-- the first lock hold of `insert_file_inner`, and the one of `adopt_inner` that may follow; `g` is the `pin` -/
  | insertCheck (g : Option Nat) (data : Bytes)
  | insertAdopt (g : Option Nat) (data : Bytes) (renamed : Bool)
  | lookAbsent (id : BlobId)
  | forget (id : BlobId)
  | lookCorrupt (id : BlobId)
  | dropCorrupt (id : BlobId)
  | evict (removed : BlobId → Bool)

namespace GuardedCache

def opened (maxBytes : Nat) (found : List (BlobId × Bytes)) : GuardedCache := ⟨.opened maxBytes found, ∅, [], []⟩

def setInner (s : GuardedCache) (inner : CacheInner) : GuardedCache := { s with cache := { s.cache with inner } }

/-- The guard `g` takes `id`. -/
def cover (s : GuardedCache) (id : BlobId) (g : Option Nat) : GuardedCache :=
  g.elim s fun g => (s.guards.get g).elim s fun held =>
    { s.setInner (s.cache.inner.pinIds [id]) with guards := s.guards.set g (held ++ [id]) }

/-- A step; a guard that is created is a new one, and one that is used is alive. -/
def apply (s : GuardedCache) : CacheOp → GuardedCache
  | .touch id => s.setInner (s.cache.inner.touch id)
  | .pin g ids =>
    if (s.guards.get g).isSome then s
    else { s.setInner (s.cache.inner.pinIds ids) with guards := s.guards.set g ids }
  | .extend g ids => (s.guards.get g).elim s fun held =>
      { s.setInner (s.cache.inner.pinIds ids) with guards := s.guards.set g (held ++ ids) }
  | .drop g => (s.guards.get g).elim s fun held =>
      { s.setInner (s.cache.inner.unpinIds held) with guards := s.guards.del g }
  | .keepTaskOutputs t g => (s.guards.get g).elim s fun held =>
      { s.setInner (s.cache.inner.keepTaskOutputs t held) with guards := s.guards.del g }
  | .takeTaskOutputs t g =>
    if (s.guards.get g).isSome then s
    else (s.cache.inner.taskPins.get t).elim s fun kept =>
      { s.setInner { s.cache.inner with taskPins := s.cache.inner.taskPins.del t } with guards := s.guards.set g kept }
  | .releaseTaskOutputs t => s.setInner (s.cache.inner.releaseTaskOutputs t)
  | .adopt data size renamed => (s.cache.adopt (BlobId.of data) data size renamed).elim s fun cache => { s with cache }
  | .insertCheck g data =>
    let touched := s.setInner (s.cache.inner.touch (BlobId.of data))
    if s.cache.Holds (BlobId.of data) then touched.cover (BlobId.of data) g else touched
  | .insertAdopt g data renamed =>
    (s.cache.adopt (BlobId.of data) data data.length renamed).elim s fun cache =>
      { s with cache : GuardedCache }.cover (BlobId.of data) g
  | .lookAbsent id => if (s.cache.objects.get id).isSome then s else { s with absent := id :: s.absent }
  | .forget id =>
    if id ∈ s.absent then { s with cache := s.cache.evictOne false id, absent := s.absent.erase id } else s
  | .lookCorrupt id =>
    if (s.cache.objects.get id).any fun data => BlobId.of data ≠ id then { s with corrupt := id :: s.corrupt } else s
  | .dropCorrupt id =>
    if id ∈ s.corrupt then { s with cache := s.cache.dropCorrupt id, corrupt := s.corrupt.erase id } else s
  | .evict removed => { s with cache := s.cache.evictBatch removed }

def run (s : GuardedCache) (ops : List CacheOp) : GuardedCache := ops.foldl apply s

/-! ## The books -/

/-- The counts are exact, the index is in order and has the object files. -/
structure Sound (s : GuardedCache) : Prop where
  counted : s.cache.inner.Counted (s.guards.sum Multiset.ofList)
  accounted : s.cache.inner.Accounted
  backed : s.cache.Backed

/-- What a step keeps: the books, and of the cache what a `Gentle` change does. -/
structure Kept (s s' : GuardedCache) : Prop where
  counted : s'.cache.inner.Counted (s'.guards.sum Multiset.ofList)
  accounted : s'.cache.inner.Accounted
  gentle : s.cache.Gentle s'.cache

variable {s s' : GuardedCache} {id : BlobId} {ids held : List BlobId} {g : Nat}

theorem Sound.kept (h : s.Sound) : s.Kept s := ⟨h.counted, h.accounted, .refl s.cache⟩

theorem Kept.sound (hkept : s.Kept s') (h : s.Sound) : s'.Sound :=
  ⟨hkept.counted, hkept.accounted, hkept.gentle.backed h.backed⟩

/-- The counts and the guards change together, the index does not. -/
theorem Kept.repin (h : s.Kept s') {inner : CacheInner} {guards : FMap Nat (List BlobId)}
    (haccounted : inner.Accounted) (hcounted : inner.Counted (guards.sum Multiset.ofList))
    (hindex : ∀ id, inner.contains id = s'.cache.inner.contains id) : s.Kept { s'.setInner inner with guards } := by
  refine ⟨hcounted, haccounted, fun id hid hpin => ?_, fun hbacked id hid => ?_, h.gentle.intact⟩
  · show inner.contains id = true
    rw [hindex]
    exact h.gentle.keeps id hid hpin
  · exact h.gentle.backed hbacked id ((hindex id).symm.trans hid)

omit [Host] in
theorem sum_guard (h : s.guards.get g = some held) :
    s.guards.sum Multiset.ofList = held + (s.guards.del g).sum Multiset.ofList :=
  FMap.sum_of_get _ h

theorem Kept.extend (h : s.Kept s') (hget : s'.guards.get g = some held) (ids : List BlobId) :
    s.Kept { s'.setInner (s'.cache.inner.pinIds ids) with guards := s'.guards.set g (held ++ ids) } := by
  refine h.repin (h.accounted.pins _ _) ?_ fun _ => rfl
  have hheld := h.counted
  rw [sum_guard hget] at hheld
  rw [FMap.sum_set]
  exact hheld.extend ids

theorem Kept.cover (h : s.Kept s') (id : BlobId) (g : Option Nat) : s.Kept (s'.cover id g) := by
  unfold GuardedCache.cover
  cases g with
  | none => exact h
  | some g =>
    cases hget : s'.guards.get g with
    | none =>
      rw [Option.elim_some, hget]
      exact h
    | some held =>
      rw [Option.elim_some, hget]
      exact h.extend hget [id]

theorem Sound.touch (h : s.Sound) (id : BlobId) : s.Kept (s.setInner (s.cache.inner.touch id)) :=
  h.kept.repin (h.accounted.touch id) (h.counted.touch id) (s.cache.inner.contains_touch id)

theorem Sound.adopt (h : s.Sound) {data : Bytes} {size : Nat} {renamed : Bool} {cache : CacheState}
    (hadopt : s.cache.adopt (BlobId.of data) data size renamed = some cache) : s.Kept { s with cache } :=
  ⟨h.counted.same (CacheState.pins_adopt hadopt).1 (CacheState.pins_adopt hadopt).2,
    s.cache.adopt_accounted h.accounted hadopt, .adopt hadopt rfl⟩

/-- **One step keeps the books**, and the index of what is pinned unless it takes a blob out after a look. -/
theorem Sound.step (h : s.Sound) (op : CacheOp) : s.Kept (s.apply op) ∨ ∃ removed id,
    (op = .forget id ∨ op = .dropCorrupt id) ∧ (s.apply op).guards = s.guards ∧
      (s.apply op).cache = s.cache.evictOne removed id := by
  unfold GuardedCache.apply
  cases op with
  | touch id => exact .inl (h.touch id)
  | pin g ids =>
    dsimp only
    split
    · exact .inl h.kept
    next hfree =>
    refine .inl (h.kept.repin (h.accounted.pins _ _) ?_ fun _ => rfl)
    rw [FMap.sum_set_fresh _ (Option.not_isSome_iff_eq_none.mp hfree)]
    exact h.counted.pin ids
  | extend g ids =>
    dsimp only
    cases hget : s.guards.get g with
    | none => exact .inl h.kept
    | some held => exact .inl (h.kept.extend hget ids)
  | drop g =>
    dsimp only
    cases hget : s.guards.get g with
    | none => exact .inl h.kept
    | some held =>
      have hheld := h.counted
      rw [sum_guard hget] at hheld
      exact .inl (h.kept.repin (h.accounted.pins _ _) hheld.unpin fun _ => rfl)
  | keepTaskOutputs t g =>
    dsimp only
    cases hget : s.guards.get g with
    | none => exact .inl h.kept
    | some held =>
      have hheld := h.counted
      rw [sum_guard hget] at hheld
      refine .inl (h.kept.repin ?_ (hheld.keep t) fun id => ?_)
      · unfold CacheInner.keepTaskOutputs
        split
        · exact h.accounted
        · exact h.accounted.pins _ _
      · unfold CacheInner.keepTaskOutputs
        split <;> rfl
  | takeTaskOutputs t g =>
    dsimp only
    split
    · exact .inl h.kept
    next hfree =>
    cases hget : s.cache.inner.taskPins.get t with
    | none => exact .inl h.kept
    | some kept =>
      refine .inl (h.kept.repin (h.accounted.pins _ _) ?_ fun _ => rfl)
      have htaken := h.counted.take t
      rw [hget] at htaken
      rw [FMap.sum_set_fresh _ (Option.not_isSome_iff_eq_none.mp hfree)]
      exact htaken
  | releaseTaskOutputs t => exact .inl (h.kept.repin (h.accounted.pins _ _) (h.counted.release t) fun _ => rfl)
  | adopt data size renamed =>
    dsimp only
    cases hadopt : s.cache.adopt (BlobId.of data) data size renamed with
    | none => exact .inl h.kept
    | some cache => exact .inl (h.adopt hadopt)
  | insertCheck g data =>
    dsimp only
    split
    · exact .inl ((h.touch _).cover _ g)
    · exact .inl (h.touch _)
  | insertAdopt g data renamed =>
    dsimp only
    cases hadopt : s.cache.adopt (BlobId.of data) data data.length renamed with
    | none => exact .inl h.kept
    | some cache => exact .inl ((h.adopt hadopt).cover _ g)
  | lookAbsent id =>
    dsimp only
    split
    · exact .inl h.kept
    · exact .inl ⟨h.counted, h.accounted, .refl s.cache⟩
  | forget id =>
    dsimp only
    split
    · exact .inr ⟨false, id, .inl rfl, rfl, rfl⟩
    · exact .inl h.kept
  | lookCorrupt id =>
    dsimp only
    split
    · exact .inl ⟨h.counted, h.accounted, .refl s.cache⟩
    · exact .inl h.kept
  | dropCorrupt id =>
    dsimp only
    split
    · exact .inr ⟨true, id, .inr rfl, rfl, rfl⟩
    · exact .inl h.kept
  | evict removed =>
    obtain ⟨-, -, -, hpins, htasks⟩ := CacheState.evictAll_spec removed s.cache.evictionBatch s.cache
    exact .inl ⟨h.counted.same hpins htasks, s.cache.evictBatch_accounted removed h.accounted,
      .evictBatch s.cache removed⟩

theorem Sound.apply (h : s.Sound) (op : CacheOp) : (s.apply op).Sound := by
  rcases h.step op with hkept | ⟨removed, id, -, hguards, hcache⟩
  · exact hkept.sound h
  · obtain ⟨-, hbacked, -, hpins, htasks⟩ := s.cache.evictOne_spec removed id
    refine ⟨?_, ?_, ?_⟩
    · rw [hguards, hcache]
      exact h.counted.same hpins htasks
    · rw [hcache]
      exact h.accounted.remove id
    · rw [hcache]
      exact hbacked h.backed

theorem Sound.run (h : s.Sound) (ops : List CacheOp) : (s.run ops).Sound := by
  induction ops generalizing s with
  | nil => exact h
  | cons op rest ih => exact ih (h.apply op)

omit [Host] in
theorem sound_opened (maxBytes : Nat) (found : List (BlobId × Bytes)) : (opened maxBytes found).Sound :=
  ⟨CachePool.opened_counted maxBytes found, opened_accounted maxBytes found, CachePool.opened_backed maxBytes found⟩

/-- A pinned blob that is held stays so, unless the step takes it out after a look. -/
theorem Sound.keeps (h : s.Sound) (hid : s.cache.Holds id) (hpin : (s.cache.inner.pins.get id).isSome = true)
    {op : CacheOp} (hforget : op ≠ .forget id) (hcorrupt : op ≠ .dropCorrupt id) : (s.apply op).cache.Holds id := by
  suffices hin : (s.apply op).cache.inner.contains id = true from ⟨hin, (h.apply op).backed id hin⟩
  rcases h.step op with hkept | ⟨removed, other, hop, -, hcache⟩
  · exact hkept.gentle.keeps id hid.1 hpin
  · have hne : id ≠ other := by
      rintro rfl
      exact hop.elim hforget hcorrupt
    rw [hcache, (s.cache.evictOne_spec removed other).1 id hne]
    exact hid.1

/-- **A held blob stays held as long as it is pinned**, whatever runs beside, unless a look takes it out. -/
theorem Sound.stays_held (h : s.Sound) (hid : s.cache.Holds id) {ops : List CacheOp}
    (hpinned : ∀ before, before <+: ops → ((s.run before).cache.inner.pins.get id).isSome = true)
    (hlooks : ∀ op ∈ ops, op ≠ .forget id ∧ op ≠ .dropCorrupt id) : (s.run ops).cache.Holds id := by
  induction ops generalizing s with
  | nil => exact hid
  | cons op rest ih =>
    have hnow := hpinned [] List.nil_prefix
    have hop := hlooks op List.mem_cons_self
    refine ih (h.apply op) (h.keeps hid hnow hop.1 hop.2) (fun before hbefore => ?_) fun o ho =>
      hlooks o (List.mem_cons_of_mem _ ho)
    exact hpinned (op :: before) ((List.prefix_cons_inj op).mpr hbefore)

omit [Host] in
theorem contains_cover (s : GuardedCache) (id : BlobId) (g : Option Nat) (other : BlobId) :
    (s.cover id g).cache.inner.contains other = s.cache.inner.contains other := by
  unfold cover
  cases g with
  | none => rfl
  | some g =>
    dsimp only [Option.elim_some]
    cases s.guards.get g <;> rfl

/-- An insertion under a guard, in either of its lock holds, holds the blob once the guard has it. -/
theorem inserted_held (data : Bytes) (renamed : Bool) {op : CacheOp}
    (hop : op = .insertCheck (some g) data ∨ op = .insertAdopt (some g) data renamed)
    (h : s.Sound) (hget : (s.apply op).guards.get g ≠ s.guards.get g) :
    (s.apply op).cache.Holds (BlobId.of data) := by
  suffices hin : (s.apply op).cache.inner.contains (BlobId.of data) = true from ⟨hin, (h.apply op).backed _ hin⟩
  rcases hop with rfl | rfl
  · unfold GuardedCache.apply at hget ⊢
    dsimp only at hget ⊢
    split
    · next hholds =>
      rw [contains_cover]
      exact (s.cache.inner.contains_touch _ _).trans hholds.1
    · next hholds =>
      rw [if_neg hholds] at hget
      exact absurd rfl hget
  · unfold GuardedCache.apply at hget ⊢
    dsimp only at hget ⊢
    cases hadopt : s.cache.adopt (BlobId.of data) data data.length renamed with
    | none =>
      rw [hadopt] at hget
      exact absurd rfl hget
    | some cache =>
      rw [Option.elim_some, contains_cover]
      rw [CacheState.contains_adopt hadopt, decide_eq_true rfl, Bool.true_or]

end GuardedCache

end

section Concrete

attribute [local instance] Host.blank

end Concrete

end OxideSwarm
