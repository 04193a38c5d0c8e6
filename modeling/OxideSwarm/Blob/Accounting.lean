import OxideSwarm.Blob.Changes

/-!
# The books of the blob store

`Accounted` says what the numbers of the index stand for: the recency order is the inverse of the entries'
ticks, `total_bytes` is the sum of the indexed sizes, `upload_bytes` the sum of what the uploads in the
table reserve, and that never exceeds the store.  Every elementary change keeps it, so it holds at every
point of every step, where no subtraction goes below zero (`blob_store_accounting`).
-/

namespace OxideSwarm

namespace BlobInner

structure Accounted (maxBytes : Nat) (s : BlobInner) : Prop where
  index : ∀ id k, (∃ entry, s.entries.get id = some entry ∧ entry.tick = k) ↔ s.lru[k]? = some id
  recent : ∀ id entry, s.entries.get id = some entry → entry.tick ≤ s.tick
  total : s.totalBytes = s.entries.sum BlobEntry.size
  uploads : s.uploadBytes = s.uploads.sum UploadSlot.total
  bound : s.uploadBytes ≤ maxBytes

variable {maxBytes : Nat} {s s' : BlobInner}

/-- A blob that is not indexed gets an entry. -/
theorem Accounted.enter (h : Accounted maxBytes s) {id : BlobId} (hnone : s.entries.get id = none) (size : Nat) :
    Accounted maxBytes { s with
      tick := s.tick + 1
      entries := s.entries.set id ⟨size, s.tick + 1⟩
      lru := s.lru.insert (s.tick + 1) id
      totalBytes := s.totalBytes + size } := by
  refine ⟨fun id' k => ?_, fun id' entry' hentry' => ?_, ?_, h.uploads, h.bound⟩
  · simp only [FMap.get_set, Std.ExtTreeMap.getElem?_insert, Nat.compare_eq_eq]
    by_cases hid : id' = id
    · subst hid
      simp only [if_true, Option.some.injEq, exists_eq_left']
      by_cases hk : s.tick + 1 = k
      · simp [hk]
      simp only [hk, if_false, false_iff]
      intro hget
      obtain ⟨entry', hentry', -⟩ := (h.index id' k).mpr hget
      cases hnone.symm.trans hentry'
    simp only [hid, if_false]
    by_cases hk : s.tick + 1 = k
    · subst hk
      simp only [if_true, Option.some.injEq, Ne.symm hid, iff_false]
      rintro ⟨entry', hentry', hk'⟩
      have := h.recent id' entry' hentry'
      omega
    · simp only [hk, if_false]
      exact h.index id' k
  · rw [FMap.get_set] at hentry'
    split at hentry'
    · cases hentry'
      exact Nat.le_refl _
    · exact Nat.le_succ_of_le (h.recent id' entry' hentry')
  · show s.totalBytes + size = _
    rw [h.total, FMap.sum_set_fresh _ hnone, Nat.add_comm]

theorem Accounted.remove (h : Accounted maxBytes s) (id : BlobId) : Accounted maxBytes (s.remove id) := by
  unfold BlobInner.remove
  split
  · next entry hentry =>
    refine ⟨fun id' k => ?_, fun id' entry' hentry' => ?_, ?_, h.uploads, h.bound⟩
    · simp only [FMap.get_del, Std.ExtTreeMap.getElem?_erase, Nat.compare_eq_eq]
      by_cases hid : id' = id
      · subst hid
        simp only [if_true, reduceCtorEq, false_and, exists_false, false_iff]
        split
        · simp
        next hold =>
        intro hget
        obtain ⟨entry', hentry', hk'⟩ := (h.index id' k).mpr hget
        cases hentry.symm.trans hentry'
        exact hold hk'
      simp only [hid, if_false]
      rw [h.index id' k]
      split
      · next hold =>
        have hget := (h.index id k).mp ⟨entry, hentry, hold⟩
        rw [hget]
        simp [Ne.symm hid]
      · rfl
    · rw [FMap.get_del] at hentry'
      split at hentry'
      · cases hentry'
      · exact h.recent id' entry' hentry'
    · rw [h.total, FMap.sum_of_get _ hentry]
      exact Nat.add_sub_cancel_left _ _
  · exact h

/-- A blob that is touched leaves the index and comes back with a new tick. -/
theorem Accounted.touch (h : Accounted maxBytes s) (id : BlobId) : Accounted maxBytes (s.touch id) := by
  unfold BlobInner.touch
  split
  · next entry hentry =>
    have hremoved := h.remove id
    simp only [BlobInner.remove, hentry] at hremoved
    have hsize : entry.size ≤ s.totalBytes := by
      rw [h.total]
      exact FMap.le_sum _ hentry
    have hback : ∀ e, (s.entries.del id).set id e = s.entries.set id e := by
      refine fun e => FMap.ext_get fun k => ?_
      simp only [FMap.get_set, FMap.get_del]
      split <;> rfl
    have hentered := hremoved.enter (by rw [FMap.get_del, if_pos rfl]) entry.size
    simpa only [hback, Nat.sub_add_cancel hsize] using hentered
  · exact ⟨h.index, fun id' entry' hentry' => Nat.le_succ_of_le (h.recent id' entry' hentry'), h.total,
      h.uploads, h.bound⟩

theorem Accounted.insert (h : Accounted maxBytes s) (id : BlobId) (size : Nat) :
    Accounted maxBytes (s.insert id size) := by
  unfold BlobInner.insert
  split
  · exact h.touch id
  · next hnew => exact h.enter (by simpa [contains] using hnew) size

/-- **One elementary change.** -/
theorem Accounted.change (h : Accounted maxBytes s) (hc : Change s s') : Accounted maxBytes s' := by
  cases hc with
  | touch id => exact h.touch id
  | insert id size => exact h.insert id size
  | evict unpinned => exact h.remove _
  | @release key slot get =>
    refine ⟨h.index, h.recent, h.total, ?_, Nat.le_trans (Nat.sub_le _ _) h.bound⟩
    rw [h.uploads, FMap.sum_of_get _ get]
    exact Nat.add_sub_cancel_left _ _
  | @swap key slot slot' get same =>
    refine ⟨h.index, h.recent, h.total, ?_, h.bound⟩
    rw [h.uploads, FMap.sum_of_get _ get, FMap.sum_set, same]

theorem Accounted.changes (h : Accounted maxBytes s) (hc : Changes s s') : Accounted maxBytes s' := by
  induction hc with
  | refl => exact h
  | tail _ hlast ih => exact ih.change hlast

theorem Accounted.reservation (h : Accounted maxBytes s) (hr : Reservation maxBytes s s') :
    Accounted maxBytes s' := by
  cases hr with
  | @mk key total free room =>
    refine ⟨h.index, h.recent, h.total, ?_, room⟩
    rw [h.uploads, FMap.sum_set_fresh _ free, Nat.add_comm]
    rfl

theorem Accounted.pinsOnly (h : Accounted maxBytes s) (hp : PinsOnly s s') : Accounted maxBytes s' where
  index id k := by
    rw [hp.entries, hp.lru]
    exact h.index id k
  recent id entry hentry := by
    rw [hp.entries] at hentry
    rw [hp.tick]
    exact h.recent id entry hentry
  total := by rw [hp.totalBytes, hp.entries, h.total]
  uploads := by rw [hp.uploadBytes, hp.uploads, h.uploads]
  bound := by rw [hp.uploadBytes]; exact h.bound

theorem Accounted.touchAll (ids : List BlobId) :
    ∀ {s : BlobInner}, Accounted maxBytes s → Accounted maxBytes (ids.foldl BlobInner.touch s) := by
  induction ids with
  | nil => exact fun h => h
  | cons id rest ih => exact fun h => ih (h.touch id)

theorem Accounted.pinOp (h : Accounted maxBytes s) (op : BlobStore.PinOp) :
    Accounted maxBytes (op.apply s maxBytes) := by
  obtain ⟨ids, hp⟩ := pinOp_pinsOnly s maxBytes op
  exact (h.touchAll ids).pinsOnly hp

theorem accounted_empty (maxBytes : Nat) : Accounted maxBytes .empty where
  index id k := by
    constructor
    · rintro ⟨entry, hentry, -⟩
      cases (FMap.get_empty id).symm.trans hentry
    · intro hget
      cases Std.ExtTreeMap.getElem?_empty.symm.trans hget
  recent id entry hentry := by cases (FMap.get_empty id).symm.trans hentry
  total := (FMap.sum_empty _).symm
  uploads := (FMap.sum_empty _).symm
  bound := Nat.zero_le _

end BlobInner

namespace BlobStore

open BlobInner

variable [Host]

/-- The books are in order, and every slot of a write in flight is as large as the write says. -/
structure Balanced (s : BlobStore) : Prop where
  accounted : Accounted s.maxBytes s.inner
  reserved : s.Reserved

theorem Balanced.step {s : BlobStore} (h : s.Balanced) (l : Label) : (s.step l).Balanced := by
  obtain ⟨hchange, hmax⟩ := step_change h.reserved l
  refine ⟨?_, h.reserved.step l⟩
  rw [hmax]
  generalize (s.step l).inner = inner at hchange ⊢
  cases hchange with
  | plain changes => exact h.accounted.changes changes
  | reserve changes reserved => exact (h.accounted.changes changes).reservation reserved
  | forget read => exact h.accounted.remove _
  | pins => exact h.accounted.pinOp _

omit [Host] in
theorem adopt_balanced {s : BlobStore} (h : s.Balanced) (object : BlobId × Bytes) : (s.adopt object).Balanced := by
  unfold adopt
  split
  · exact h
  · refine ⟨h.accounted.insert _ _, h.reserved.keeps (slotsKept_of_eq ?_) fun o w' hw' => ?_⟩
    · exact uploads_insert s.inner _ _
    · exact ⟨w', hw', rfl, fun _ hn => hn⟩

omit [Host] in
theorem openDir_balanced (maxBytes : Nat) (objects : List (BlobId × Bytes)) (removed : BlobId → Bool) :
    (openDir maxBytes objects removed).Balanced ∧ (openDir maxBytes objects removed).maxBytes = maxBytes := by
  have hadopt : ∀ (l : List (BlobId × Bytes)) (s : BlobStore), s.Balanced →
      (l.foldl adopt s).Balanced ∧ (l.foldl adopt s).maxBytes = s.maxBytes := by
    intro l
    induction l with
    | nil => exact fun s h => ⟨h, rfl⟩
    | cons object rest ih =>
      intro s h
      obtain ⟨hb, hmax⟩ := ih _ (adopt_balanced h object)
      refine ⟨hb, hmax.trans ?_⟩
      unfold adopt
      split <;> rfl
  have hnew : (new maxBytes).Balanced :=
    ⟨accounted_empty maxBytes, fun owner w hw => by cases (FMap.get_empty owner).symm.trans hw⟩
  obtain ⟨hb, hmax⟩ := hadopt objects _ hnew
  have hevict := tends_evictAll { Io.fine with removed := removed }
    ((objects.foldl adopt (new maxBytes)).inner.evictionVictims maxBytes none)
    (objects.foldl adopt (new maxBytes)) fun id hid => victims_unpinned _ none _ _ _ id hid
  have haccounted := hb.accounted.changes hevict.changes
  rw [← hevict.maxBytes] at haccounted
  exact ⟨⟨haccounted, hb.reserved.tends hevict⟩, hevict.maxBytes.trans hmax⟩

/-- **Accounting.**  Open a directory and let any owners (each with one write at a time), readers, sweeps,
aborts, evictions and pins interleave.  In every state reached `entries` and `lru` are inverse to each other,
`total_bytes` and `upload_bytes` are the sums they stand for, uploads reserve at most `max_bytes`, and at
every point of a step neither number is smaller than what a removal or a release would subtract. -/
theorem blob_store_accounting (maxBytes : Nat) (objects : List (BlobId × Bytes)) (removed : BlobId → Bool)
    (labels : List Label) :
    let s := (runFrom step (openDir maxBytes objects removed) labels).inner
    (∀ id k, (∃ entry, s.entries.get id = some entry ∧ entry.tick = k) ↔ s.lru[k]? = some id) ∧
    s.totalBytes = s.entries.sum BlobEntry.size ∧ s.uploadBytes = s.uploads.sum UploadSlot.total ∧
    s.uploadBytes ≤ maxBytes ∧
    ∀ s', Changes s s' →
      (∀ id entry, s'.entries.get id = some entry → entry.size ≤ s'.totalBytes) ∧
      ∀ key slot, s'.uploads.get key = some slot → slot.total ≤ s'.uploadBytes := by
  have hrun : ∀ (labels : List Label) (s : BlobStore), s.Balanced → s.maxBytes = maxBytes →
      (runFrom step s labels).Balanced ∧ (runFrom step s labels).maxBytes = maxBytes := by
    intro labels
    induction labels with
    | nil => exact fun s h hmax => ⟨h, hmax⟩
    | cons l rest ih => exact fun s h hmax => ih _ (h.step l) ((step_change h.reserved l).2.trans hmax)
  obtain ⟨hopen, hmax⟩ := openDir_balanced maxBytes objects removed
  obtain ⟨hb, hmax'⟩ := hrun labels _ hopen hmax
  have h := hb.accounted
  rw [hmax'] at h
  refine ⟨h.index, h.total, h.uploads, h.bound, fun s' hs' => ?_⟩
  have h' := h.changes hs'
  refine ⟨fun id entry hentry => ?_, fun key slot hslot => ?_⟩
  · rw [h'.total]
    exact FMap.le_sum _ hentry
  · rw [h'.uploads]
    exact FMap.le_sum _ hslot

end BlobStore

end OxideSwarm
