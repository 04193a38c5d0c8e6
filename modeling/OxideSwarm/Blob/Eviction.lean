import OxideSwarm.Blob.Accounting
import OxideSwarm.Lib.Eviction

/-!
# Evicting until the store fits (`master/src/blob_store.rs:710-759`)

`evict_to_fit` drops unpinned blobs in batches, one lock hold each, until a batch is not full.  `Evicts` is
what a call does to the index when nothing runs beside it: it drops a front of the blobs it may drop, in
recency order, and each of them was needed.  A batch counts an empty blob as one byte, so it can stop before
the excess is covered; `Evicts.fits` is about indexes without empty blobs to drop.
-/

namespace OxideSwarm

open Eviction

namespace BlobInner

variable {maxBytes : Nat} {keep : Option BlobId} {s s' : BlobInner}

/-! ## What may be dropped -/

/-- The blob is pinned, or is the one to keep. -/
def guards (s : BlobInner) (keep : Option BlobId) (id : BlobId) : Bool :=
  (s.pinCounts.get id).isSome || decide (keep = some id)

/-- The size under which a blob is indexed. -/
def bytesOf (s : BlobInner) (id : BlobId) : Nat := (s.sizeOf id).getD 0

/-- The blobs that may be dropped, least recently used first. -/
def evictable (s : BlobInner) (keep : Option BlobId) : List BlobId := free (s.guards keep) s.lru.values

theorem victims_eq_batch (s : BlobInner) (keep : Option BlobId) (ids : List BlobId) :
    ∀ excess room, s.victims keep excess room ids = batch (s.guards keep) s.bytesOf excess room ids := by
  induction ids with
  | nil => exact fun _ _ => rfl
  | cons id rest ih =>
    intro excess room
    unfold victims batch
    rw [ih, ih]
    have hguards : s.guards keep id = true ↔ (s.pinCounts.get id).isSome ∨ keep = some id := by
      unfold guards
      rw [Bool.or_eq_true, decide_eq_true_eq]
    split
    · rfl
    by_cases h : (s.pinCounts.get id).isSome ∨ keep = some id
    · rw [if_pos h, if_pos (hguards.2 h)]
    · rw [if_neg h, if_neg fun hg => h (hguards.1 hg)]
      rfl

theorem Accounted.mem_values (h : Accounted maxBytes s) {id : BlobId} :
    id ∈ s.lru.values ↔ (s.entries.get id).isSome := by
  rw [Eviction.mem_values, Option.isSome_iff_exists]
  constructor
  · rintro ⟨k, hget⟩
    obtain ⟨entry, hentry, -⟩ := (h.index id k).2 hget
    exact ⟨entry, hentry⟩
  · rintro ⟨entry, hentry⟩
    exact ⟨entry.tick, (h.index id entry.tick).1 ⟨entry, hentry, rfl⟩⟩

theorem Accounted.values_ordered (h : Accounted maxBytes s) : s.lru.values.Pairwise fun a b =>
    ∃ entry entry', s.entries.get a = some entry ∧ s.entries.get b = some entry' ∧ entry.tick < entry'.tick := by
  rw [values_eq_map_toList, List.pairwise_map]
  refine (toList_ordered s.lru).imp_of_mem fun hx hy hlt => ?_
  rename_i x y
  obtain ⟨entry, hentry, htick⟩ := (h.index x.2 x.1).2 (Std.ExtTreeMap.mem_toList_iff_getElem?_eq_some.1 hx)
  obtain ⟨entry', hentry', htick'⟩ := (h.index y.2 y.1).2 (Std.ExtTreeMap.mem_toList_iff_getElem?_eq_some.1 hy)
  exact ⟨entry, entry', hentry, hentry', by omega⟩

theorem Accounted.values_nodup (h : Accounted maxBytes s) : s.lru.values.Nodup := by
  refine h.values_ordered.imp fun hab heq => ?_
  obtain ⟨entry, entry', hentry, hentry', hlt⟩ := hab
  rw [heq] at hentry
  cases hentry.symm.trans hentry'
  exact Nat.lt_irrefl _ hlt

/-! ## Removing a batch -/

theorem Accounted.values_remove (h : Accounted maxBytes s) (id : BlobId) :
    (s.remove id).lru.values = s.lru.values.filter fun b => b ≠ id := by
  unfold BlobInner.remove
  split
  · next entry hentry =>
    refine values_erase ((h.index id entry.tick).1 ⟨entry, hentry, rfl⟩) fun k hget => ?_
    obtain ⟨entry', hentry', htick⟩ := (h.index id k).2 hget
    cases hentry.symm.trans hentry'
    exact htick.symm
  next hnone =>
  refine (List.filter_eq_self.2 fun b hb => ?_).symm
  rw [decide_eq_true_eq]
  rintro rfl
  rw [h.mem_values, hnone] at hb
  cases hb

theorem entries_remove (s : BlobInner) (id id' : BlobId) :
    (s.remove id).entries.get id' = if id' = id then none else s.entries.get id' := by
  unfold BlobInner.remove
  split
  · exact FMap.get_del _ _ _
  next hnone =>
  split
  · next heq => rw [heq, hnone]
  · rfl

theorem uploadBytes_remove (s : BlobInner) (id : BlobId) : (s.remove id).uploadBytes = s.uploadBytes := by
  unfold BlobInner.remove
  split <;> rfl

theorem bytesOf_remove {id id' : BlobId} (hne : id' ≠ id) : (s.remove id).bytesOf id' = s.bytesOf id' := by
  unfold bytesOf sizeOf
  rw [entries_remove, if_neg hne]

theorem Accounted.used_remove (h : Accounted maxBytes s) (id : BlobId) :
    (s.remove id).used + s.bytesOf id = s.used := by
  unfold used bytesOf sizeOf
  rw [uploadBytes_remove]
  unfold BlobInner.remove
  cases hentry : s.entries.get id with
  | none => rfl
  | some entry =>
    have hle : entry.size ≤ s.totalBytes := by
      rw [h.total]
      exact FMap.le_sum _ hentry
    show s.totalBytes - entry.size + s.uploadBytes + entry.size = s.totalBytes + s.uploadBytes
    omega

/-- **Removing several blobs.** -/
theorem Accounted.removeAll (ids : List BlobId) : ∀ {s : BlobInner}, Accounted maxBytes s → ids.Nodup →
    Accounted maxBytes (s.removeAll ids) ∧ (s.removeAll ids).lru.values = s.lru.values.filter (fun b => b ∉ ids) ∧
    (∀ id, (s.removeAll ids).entries.get id = if id ∈ ids then none else s.entries.get id) ∧
    (s.removeAll ids).pinCounts = s.pinCounts ∧ (s.removeAll ids).used + bytes s.bytesOf ids = s.used := by
  induction ids with
  | nil =>
    intro s h _
    refine ⟨h, (List.filter_eq_self.2 fun b _ => by simp).symm, fun id => ?_, rfl, rfl⟩
    rw [if_neg List.not_mem_nil]
    rfl
  | cons id rest ih =>
    intro s h hnodup
    obtain ⟨hnot, hrest⟩ := List.nodup_cons.1 hnodup
    obtain ⟨haccounted, hvalues, hentries, hpins, hused⟩ := ih (h.remove id) hrest
    refine ⟨haccounted, ?_, fun id' => ?_, hpins.trans (pinCounts_remove s id), ?_⟩
    · refine hvalues.trans ?_
      rw [h.values_remove, List.filter_filter]
      refine List.filter_congr fun b _ => ?_
      rw [← Bool.decide_and, decide_eq_decide, List.mem_cons, not_or, and_comm]
    · refine (hentries id').trans ?_
      rw [entries_remove]
      by_cases hid : id' = id
      · rw [if_pos hid, if_pos (List.mem_cons.2 (Or.inl hid))]
        split <;> rfl
      · rw [if_neg hid]
        simp only [List.mem_cons, hid, false_or]
    have hsame : bytes (s.remove id).bytesOf rest = bytes s.bytesOf rest :=
      bytes_congr fun b hb => bytesOf_remove fun heq => hnot (heq ▸ hb)
    rw [hsame] at hused
    rw [bytes_cons, ← h.used_remove id, ← hused]
    rw [BlobInner.removeAll, List.foldl_cons]
    show ((s.remove id).removeAll rest).used + _ = _
    omega

/-! ## Rounds -/

/-- One lock hold of `evict_to_fit`. -/
def evictRound (s : BlobInner) (maxBytes : Nat) (keep : Option BlobId) : BlobInner :=
  s.removeAll (s.evictionBatch maxBytes keep)

/-- The loop of `evict_to_fit`, for at most `fuel` rounds. -/
def evictRounds (maxBytes : Nat) (keep : Option BlobId) : Nat → BlobInner → BlobInner
  | 0, s => s
  | fuel + 1, s =>
    if evictionBatchSize ≤ (s.evictionBatch maxBytes keep).length then
      evictRounds maxBytes keep fuel (s.evictRound maxBytes keep)
    else s.evictRound maxBytes keep

/-- From `s` to `s'` exactly `evicted` was dropped, in order, and none of it for nothing. -/
structure Evicts (maxBytes : Nat) (keep : Option BlobId) (s s' : BlobInner) (evicted : List BlobId) : Prop where
  inOrder : evicted <+: s.evictable keep
  entries : ∀ id, s'.entries.get id = if id ∈ evicted then none else s.entries.get id
  pins : s'.pinCounts = s.pinCounts
  used : s'.used + bytes s.bytesOf evicted = s.used
  needed : ∀ before id after, evicted = before ++ id :: after → maxBytes < s.used - bytes s.bytesOf before

theorem evictionBatch_eq (s : BlobInner) (maxBytes : Nat) (keep : Option BlobId) : s.evictionBatch maxBytes keep =
      batch (s.guards keep) s.bytesOf (s.used - maxBytes) evictionBatchSize s.lru.values :=
  victims_eq_batch s keep _ _ _

section

variable (h : Accounted maxBytes s)
include h

theorem Accounted.evictable_nodup : (s.evictable keep).Nodup := h.values_nodup.filter _

variable (keep) in
/-- One round, and what is left to drop after it. -/
theorem Accounted.evictRound : Accounted maxBytes (s.evictRound maxBytes keep) ∧
    Evicts maxBytes keep s (s.evictRound maxBytes keep) (s.evictionBatch maxBytes keep) ∧
    s.evictable keep = s.evictionBatch maxBytes keep ++ (s.evictRound maxBytes keep).evictable keep := by
  have hprefix : s.evictionBatch maxBytes keep <+: s.evictable keep := by
    rw [evictionBatch_eq]
    exact batch_inOrder _ _ _
  obtain ⟨rest, hrest⟩ := hprefix
  have hnodup : (s.evictionBatch maxBytes keep ++ rest).Nodup := hrest ▸ h.evictable_nodup
  obtain ⟨haccounted, hvalues, hentries, hpins, hused⟩ :=
    h.removeAll (s.evictionBatch maxBytes keep) hnodup.of_append_left
  refine ⟨haccounted, ⟨⟨rest, hrest⟩, hentries, hpins, hused, fun before id after heq => ?_⟩, ?_⟩
  · rw [evictionBatch_eq] at heq
    have hless := batch_needed _ _ _ before id after heq
    omega
  rw [← hrest]
  congr 1
  have hguards : (s.evictRound maxBytes keep).guards keep = s.guards keep := by
    unfold guards BlobInner.evictRound
    rw [hpins]
  -- what is left is the rest, since no blob is listed twice
  have hleft : (s.evictRound maxBytes keep).evictable keep =
      (s.evictable keep).filter fun b => b ∉ s.evictionBatch maxBytes keep := by
    unfold evictable free
    rw [hguards]
    show List.filter _ (s.removeAll _).lru.values = _
    rw [hvalues, List.filter_filter, List.filter_filter]
    exact List.filter_congr fun b _ => Bool.and_comm _ _
  have hdropped : (s.evictionBatch maxBytes keep).filter (fun b => b ∉ s.evictionBatch maxBytes keep) = [] :=
    List.filter_eq_nil_iff.2 fun b hb => by simpa using hb
  have hkept : rest.filter (fun b => b ∉ s.evictionBatch maxBytes keep) = rest := by
    refine List.filter_eq_self.2 fun b hb => decide_eq_true fun hmem => ?_
    exact (List.nodup_append.1 hnodup).2.2 b hmem b hb rfl
  rw [hleft, ← hrest, List.filter_append, hdropped, hkept, List.nil_append]

end

theorem Evicts.trans {mid : BlobInner} {first rest : List BlobId} (h : Evicts maxBytes keep s mid first)
    (h' : Evicts maxBytes keep mid s' rest) (hsplit : s.evictable keep = first ++ mid.evictable keep)
    (hnodup : (s.evictable keep).Nodup) : Evicts maxBytes keep s s' (first ++ rest) := by
  have hdisjoint : ∀ b ∈ rest, b ∉ first := by
    intro b hb hfirst
    rw [hsplit] at hnodup
    exact (List.nodup_append.1 hnodup).2.2 b hfirst b (h'.inOrder.subset hb) rfl
  have hbytes : ∀ l, (∀ b ∈ l, b ∈ rest) → bytes mid.bytesOf l = bytes s.bytesOf l := by
    intro l hl
    refine bytes_congr fun b hb => ?_
    unfold bytesOf sizeOf
    rw [h.entries, if_neg (hdisjoint b (hl b hb))]
  have hused := h.used
  refine ⟨?_, fun id => ?_, h'.pins.trans h.pins, ?_, fun before id after heq => ?_⟩
  · rw [hsplit]
    exact (List.prefix_append_right_inj first).2 h'.inOrder
  · rw [h'.entries, h.entries]
    simp only [List.mem_append]
    by_cases hfirst : id ∈ first
    · rw [if_pos hfirst, if_pos (Or.inl hfirst)]
      split <;> rfl
    · simp only [hfirst, if_false, false_or]
  · have hused' := h'.used
    rw [hbytes rest fun b hb => hb] at hused'
    rw [bytes_append]
    omega
  -- the blob was dropped in the first stretch, or in the second after all of the first
  rcases List.append_eq_append_iff.1 heq with ⟨more, hbefore, hrest⟩ | ⟨more, hfirst, hmore⟩
  · have hneeded := h'.needed more id after hrest
    have hmem : ∀ b ∈ more, b ∈ rest := fun b hb => hrest ▸ List.mem_append_left _ hb
    rw [hbytes more hmem] at hneeded
    rw [hbefore, bytes_append]
    omega
  cases more with
  | nil =>
    have hneeded := h'.needed [] id after hmore.symm
    rw [List.append_nil] at hfirst
    have hzero : bytes mid.bytesOf [] = 0 := rfl
    rw [hzero] at hneeded
    rw [← hfirst]
    omega
  | cons b more =>
    obtain ⟨rfl, -⟩ := List.cons.inj hmore
    exact h.needed before id more hfirst

/-- A round without empty blobs to drop that is not full ends within the bound, or drops all it may. -/
theorem evictRound_short (h : Accounted maxBytes s) (hsize : ∀ id ∈ s.evictable keep, 0 < s.bytesOf id)
    (hshort : ¬evictionBatchSize ≤ (s.evictionBatch maxBytes keep).length) :
    (s.evictRound maxBytes keep).used ≤ maxBytes ∨ s.evictionBatch maxBytes keep = s.evictable keep := by
  obtain ⟨-, hround, -⟩ := h.evictRound keep
  have hused := hround.used
  rw [evictionBatch_eq] at hshort hused ⊢
  rcases batch_short _ _ _ hsize (Nat.not_le.1 hshort) with hcovered | hall
  · left
    omega
  · exact .inr hall

/-- **A whole call.**  It drops a front of what it may, each blob because it was needed; without empty blobs
to drop it ends within the bound or drops all it may. -/
theorem evictRounds_evicts (fuel : Nat) : ∀ {s : BlobInner}, Accounted maxBytes s → (s.evictable keep).length < fuel →
    ∃ evicted, Evicts maxBytes keep s (evictRounds maxBytes keep fuel s) evicted ∧
      ((∀ id ∈ s.evictable keep, 0 < s.bytesOf id) →
        (evictRounds maxBytes keep fuel s).used ≤ maxBytes ∨ evicted = s.evictable keep) := by
  induction fuel with
  | zero => exact fun _ h => absurd h (Nat.not_lt_zero _)
  | succ fuel ih =>
    intro s h hfuel
    obtain ⟨haccounted, hround, hsplit⟩ := h.evictRound keep
    unfold evictRounds
    split
    · next hfull =>
      have hlength := congrArg List.length hsplit
      rw [List.length_append] at hlength
      unfold evictionBatchSize at hfull
      obtain ⟨rest, hrest, hfits⟩ := ih haccounted (by omega)
      refine ⟨_, hround.trans hrest hsplit h.evictable_nodup, fun hsize => ?_⟩
      have hlater : ∀ id ∈ (s.evictRound maxBytes keep).evictable keep,
          0 < (s.evictRound maxBytes keep).bytesOf id := by
        intro id hid
        have hnodup : (s.evictable keep).Nodup := h.evictable_nodup
        rw [hsplit] at hnodup hsize
        have hnot : id ∉ s.evictionBatch maxBytes keep := fun hmem =>
          (List.nodup_append.1 hnodup).2.2 id hmem id hid rfl
        have hsame : (s.evictRound maxBytes keep).bytesOf id = s.bytesOf id := by
          unfold bytesOf sizeOf
          rw [hround.entries, if_neg hnot]
        rw [hsame]
        exact hsize id (List.mem_append_right _ hid)
      refine (hfits hlater).imp_right fun hall => ?_
      rw [hall, ← hsplit]
    · next hshort =>
      exact ⟨_, hround, fun hsize => evictRound_short h hsize hshort⟩

/-- The purpose of the call, for an index without empty blobs to drop. -/
theorem evictRounds_restores (h : Accounted maxBytes s) {fuel : Nat} (hfuel : s.lru.values.length < fuel)
    (hsize : ∀ id ∈ s.evictable keep, 0 < s.bytesOf id) :
    ∃ evicted, Restores maxBytes s.lru.values (s.guards keep) s.bytesOf s.used (evictRounds maxBytes keep fuel s).used
      (fun id => (evictRounds maxBytes keep fuel s).contains id = true) evicted := by
  have hlength : (s.evictable keep).length ≤ s.lru.values.length := List.length_filter_le _ _
  have hshort : (s.evictable keep).length < fuel := by omega
  obtain ⟨evicted, hevicts, hfits⟩ := evictRounds_evicts fuel h hshort
  have hleft : ∀ id, (evictRounds maxBytes keep fuel s).contains id = true ↔
      id ∈ s.lru.values ∧ id ∉ evicted := by
    intro id
    rw [contains, hevicts.entries, h.mem_values]
    split
    · next hmem => simp [hmem]
    · next hnot => simp [hnot]
  refine ⟨evicted, hevicts.inOrder, hleft, hevicts.needed, (hfits hsize).imp_right fun hall id hid => ?_⟩
  obtain ⟨hlisted, hnot⟩ := (hleft id).1 hid
  rw [hall] at hnot
  by_contra hfree
  exact hnot (List.mem_filter.2 ⟨hlisted, by rw [Bool.eq_false_iff.2 hfree]; rfl⟩)

end BlobInner

namespace BlobStore

open BlobInner

/-- `evict_to_fit` with nothing beside it, for at most `fuel` lock holds; `io` says which files can be
removed. -/
def evictLoop (io : Nat → Io) (keep : Option BlobId) : Nat → BlobStore → BlobStore
  | 0, s => s
  | fuel + 1, s =>
    if (s.evictToFit (io fuel) keep).1 then evictLoop io keep fuel (s.evictToFit (io fuel) keep).2
    else (s.evictToFit (io fuel) keep).2

/-- `evict_to_fit`.  A full batch drops blobs, so one lock hold more than there are blobs is enough. -/
def evictCall (s : BlobStore) (io : Nat → Io) (keep : Option BlobId) : BlobStore :=
  evictLoop io keep (s.inner.lru.values.length + 1) s

theorem evictAll_inner (io : Io) (ids : List BlobId) : ∀ s : BlobStore,
    (ids.foldl (evictOne io) s).inner = s.inner.removeAll ids ∧ (ids.foldl (evictOne io) s).maxBytes = s.maxBytes := by
  induction ids with
  | nil => exact fun _ => ⟨rfl, rfl⟩
  | cons id rest ih =>
    intro s
    have hone : (evictOne io s id).inner = s.inner.remove id ∧ (evictOne io s id).maxBytes = s.maxBytes := by
      unfold evictOne removeFile
      split <;> exact ⟨rfl, rfl⟩
    obtain ⟨hinner, hmax⟩ := ih (evictOne io s id)
    rw [hone.1] at hinner
    exact ⟨hinner, hmax.trans hone.2⟩

theorem evictLoop_inner (io : Nat → Io) (keep : Option BlobId) (fuel : Nat) : ∀ s : BlobStore,
    (evictLoop io keep fuel s).inner = evictRounds s.maxBytes keep fuel s.inner := by
  induction fuel with
  | zero => exact fun _ => rfl
  | succ fuel ih =>
    intro s
    obtain ⟨hinner, hmax⟩ := evictAll_inner (io fuel) (s.inner.evictionBatch s.maxBytes keep) s
    have hfull : (s.evictToFit (io fuel) keep).1 = true ↔
        evictionBatchSize ≤ (s.inner.evictionBatch s.maxBytes keep).length := decide_eq_true_iff
    unfold evictLoop evictRounds
    by_cases hmore : evictionBatchSize ≤ (s.inner.evictionBatch s.maxBytes keep).length
    · rw [if_pos hmore, if_pos (hfull.2 hmore), ih]
      show evictRounds ((s.inner.evictionBatch s.maxBytes keep).foldl (evictOne (io fuel)) s).maxBytes keep fuel
        ((s.inner.evictionBatch s.maxBytes keep).foldl (evictOne (io fuel)) s).inner = _
      rw [hmax, hinner]
      rfl
    · rw [if_neg hmore, if_neg fun h => hmore (hfull.1 h)]
      exact hinner

end BlobStore

end OxideSwarm
