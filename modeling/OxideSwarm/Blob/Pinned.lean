import OxideSwarm.Blob.Accounting
import OxideSwarm.Blob.Integrity

/-!
# A pin protects a blob

An indexed blob has a file (`Stored`), and evictions skip pinned blobs, so an indexed blob that is pinned
stays indexed, with one exception: a read that found no file removes its blob from the index later, in a
lock hold of its own, without another look.  By then the blob can have been uploaded again and pinned
(`pin_can_fail_to_protect`).  `Undisturbed` excludes that; `pinned_blob_stays` is what runs of such steps
keep.
-/

namespace OxideSwarm

namespace BlobInner

theorem contains_eq (s : BlobInner) (id : BlobId) : s.contains id = (s.sizeOf id).isSome := by
  unfold contains sizeOf
  rw [Option.isSome_map]

/-- How often `id` is pinned. -/
def pinCount (s : BlobInner) (id : BlobId) : Nat := (s.pinCounts.get id).getD 0

/-- `id` is indexed and pinned. -/
def Protected (s : BlobInner) (id : BlobId) : Prop := s.contains id = true ∧ 1 ≤ s.pinCount id

instance (s : BlobInner) (id : BlobId) : Decidable (s.Protected id) :=
  inferInstanceAs (Decidable (_ ∧ _))

variable {s s' : BlobInner} {id : BlobId}

theorem Protected.ne_none (h : s.Protected id) : s.pinCounts.get id ≠ none := by
  intro hnone
  have hcount := h.2
  rw [pinCount, hnone] at hcount
  exact Nat.not_succ_le_zero 0 hcount

theorem Protected.of_eq (h : s.Protected id) (hsize : s'.sizeOf id = s.sizeOf id)
    (hpins : s'.pinCounts = s.pinCounts) : s'.Protected id := by
  obtain ⟨hin, hcount⟩ := h
  rw [contains_eq] at hin
  refine ⟨?_, ?_⟩
  · rw [contains_eq, hsize]
    exact hin
  · rw [pinCount, hpins]
    exact hcount

theorem Protected.change (h : s.Protected id) (hc : Change s s') : s'.Protected id := by
  cases hc with
  | touch id' =>
    refine h.of_eq (sizeOf_touch s id' id) ?_
    unfold touch
    split <;> rfl
  | insert id' size =>
    have hsize : (s.insert id' size).sizeOf id = s.sizeOf id := by
      rw [sizeOf_insert]
      split
      · next heq =>
        -- the blob is indexed already
        obtain ⟨n, hn⟩ := Option.isSome_iff_exists.mp (by rw [← contains_eq]; exact h.1)
        rw [← heq, hn]
        rfl
      · rfl
    refine h.of_eq hsize ?_
    unfold insert touch
    split
    · split <;> rfl
    · rfl
  | @evict id' unpinned =>
    have hne : id ≠ id' := by
      rintro rfl
      exact h.ne_none unpinned
    refine h.of_eq ?_ (pinCounts_remove s id')
    rw [sizeOf_remove, if_neg hne]
  | release | swap => exact h

theorem Protected.changes (h : s.Protected id) (hc : Changes s s') : s'.Protected id := by
  induction hc with
  | refl => exact h
  | tail _ hlast ih => exact ih.change hlast

end BlobInner

namespace BlobStore

open BlobInner

section

variable {s : BlobStore}

variable [Host]

omit [Host] in
theorem Stored.adopt (h : s.Stored) (object : BlobId × Bytes) : (s.adopt object).Stored := by
  unfold BlobStore.adopt
  split
  · exact h
  next hnone =>
  have hc := FileSystem.create_creates s.files (.object object.1)
  refine Stored.index (s := { s with files := _, hashed := _ }) (fun id size hsize => ?_) ?_ _
  · show ((s.files.create (.object object.1)).2.names.get (.object id)).isSome
    have hold := h id size hsize
    rw [hc.others]
    · exact hold
    · intro heq
      rw [heq, hnone] at hold
      cases hold
  · show ((s.files.create (.object object.1)).2.names.get (.object object.1)).isSome
    rw [hc.here]
    rfl

omit [Host] in
theorem openDir_stored (maxBytes : Nat) (objects : List (BlobId × Bytes)) (removed : BlobId → Bool) :
    (openDir maxBytes objects removed).Stored := by
  have hadopt : ∀ (l : List (BlobId × Bytes)) (s : BlobStore), s.Stored → (l.foldl BlobStore.adopt s).Stored := by
    intro l
    induction l with
    | nil => exact fun s h => h
    | cons object rest ih => exact fun s h => ih _ (h.adopt object)
  have hnew : (new maxBytes).Stored := nofun
  exact (hadopt objects _ hnew).still (still_foldl _ (fun s id => still_evictOne s _ id) _ _)

/-! ## Runs -/

/-- The blob that a step takes out of the index because a read found no file for it. -/
def forgets (s : BlobStore) : Label → Option BlobId
  | .advanceRead i _ =>
    match s.reads[i]? with
    | some (.forget id) => some id
    | _ => none
  | _ => none

/-- The step forgets a blob only while there still is no file for it, or while nothing pins it. -/
def Undisturbed (s : BlobStore) (l : Label) : Prop :=
  ∀ id ∈ s.forgets l, s.files.names.get (.object id) = none ∨ s.inner.pinCounts.get id = none

theorem contains_step (hstored : s.Stored) (hreserved : s.Reserved) {id : BlobId} (h : s.inner.Protected id)
    {l : Label} (hl : Undisturbed s l) : (s.step l).inner.contains id = true := by
  obtain ⟨hchange, -⟩ := step_change hreserved l
  generalize (s.step l).inner = inner at hchange ⊢
  cases hchange with
  | plain changes => exact (h.changes changes).1
  | reserve changes reserved =>
    cases reserved
    exact (h.changes changes).1
  | @forget i io id' read =>
    have hforgets : s.forgets (.advanceRead i io) = some id' := by
      simp only [forgets, read]
    have hne : id ≠ id' := by
      rintro rfl
      obtain ⟨size, hsize⟩ := Option.isSome_iff_exists.mp (by rw [← contains_eq]; exact h.1)
      have hfile := hstored id size hsize
      rcases hl id hforgets with hgone | hunpinned
      · rw [hgone] at hfile
        cases hfile
      · exact h.ne_none hunpinned
    rw [contains_eq, sizeOf_remove, if_neg hne, ← contains_eq]
    exact h.1
  | @pins op =>
    rw [contains_eq, (alike_pinOp s.inner s.maxBytes op).1, ← contains_eq]
    exact h.1

/-- Reservations and files are as `contains_step` needs them. -/
structure Sound (s : BlobStore) : Prop where
  stored : s.Stored
  reserved : s.Reserved

theorem Sound.run (h : s.Sound) (labels : List Label) : (runFrom BlobStore.step s labels).Sound := by
  induction labels generalizing s with
  | nil => exact h
  | cons l rest ih => exact ih ⟨(Recorded.step ⟨fun _ hc => hc, h.stored⟩ l).2, h.reserved.step l⟩

/-- **A pin protects a blob.**  Open a directory and let reads, writes, commits, evictions, aborts, sweeps
and pins interleave.  If a blob is indexed and pinned in some state, then it is indexed in every later
state as long as its pin count stays positive and every step is undisturbed. -/
theorem pinned_blob_stays (maxBytes : Nat) (objects : List (BlobId × Bytes)) (removed : BlobId → Bool)
    (labels later : List Label) (id : BlobId)
    (hpinned : (runFrom step (openDir maxBytes objects removed) labels).inner.Protected id)
    (h : Within step (fun s l => Undisturbed s l ∧ 1 ≤ (s.step l).inner.pinCount id)
      (runFrom step (openDir maxBytes objects removed) labels) later) :
    (runFrom step (runFrom step (openDir maxBytes objects removed) labels) later).inner.contains id = true := by
  have hopen : (openDir maxBytes objects removed).Sound :=
    ⟨openDir_stored maxBytes objects removed, (openDir_balanced maxBytes objects removed).1.reserved⟩
  have hsound := hopen.run labels
  have hstep : ∀ (s : BlobStore) (l : Label), s.Sound ∧ s.inner.Protected id →
      Undisturbed s l ∧ 1 ≤ (s.step l).inner.pinCount id →
      (s.step l).Sound ∧ (s.step l).inner.Protected id := by
    rintro s l ⟨hs, hid⟩ ⟨hl, hcount⟩
    exact ⟨hs.run [l], contains_step hs.stored hs.reserved hid hl, hcount⟩
  exact (Within.invariant hstep ⟨hsound, hpinned⟩ h).2.1

end

section Concrete

attribute [local instance] Host.blank

instance (s : BlobStore) (l : Label) : Decidable (Undisturbed s l) :=
  inferInstanceAs (Decidable (∀ id ∈ s.forgets l, _))

/-- A read looks blob 0 up.  An upload that needs the room evicts the blob before the read opens its file,
and fails. -/
def evictedUnderRead : List Label :=
  [.read ⟨0⟩ 0 10, .write 2 ⟨1⟩ 10 0 [1] .fine, .advance 2 .fine, .advanceRead 0 .fine,
    .advance 2 { Io.fine with ok := false }, .advance 2 .fine]

/-- Blob 0 is uploaded again and task 5 pins it. -/
def uploadAndPin : List Label :=
  [.write 1 ⟨0⟩ 2 0 [7, 9] .fine, .advance 1 .fine, .advance 1 .fine, .advance 1 .fine, .advance 1 .fine,
    .advance 1 .fine, .advance 1 .fine, .pins (.pinTask 0 ⟨5⟩ [⟨0⟩])]

/-- The read that found no file takes the new, pinned blob out of the index. -/
theorem pin_can_fail_to_protect :
    let s := runFrom step (openDir 10 [(⟨0⟩, [7, 9])] fun _ => true) (evictedUnderRead ++ uploadAndPin)
    s.inner.Protected ⟨0⟩ ∧ (s.step (.advanceRead 0 .fine)).inner.contains ⟨0⟩ = false ∧
      1 ≤ (s.step (.advanceRead 0 .fine)).inner.pinCount ⟨0⟩ := by
  decide

/-- Task 5 pins blob 0, and an upload that has no room asks for evictions. -/
theorem pinned_blob_stays_evicting :
    let s := runFrom step (openDir 10 [(⟨0⟩, [7, 9])] fun _ => true) [.pins (.pinTask 0 ⟨5⟩ [⟨0⟩])]
    s.inner.Protected ⟨0⟩ ∧
      (runFrom step s [.write 2 ⟨1⟩ 10 0 [1] .fine, .advance 2 .fine]).inner.contains ⟨0⟩ = true := by
  intro s
  have hpinned : s.inner.Protected ⟨0⟩ := by decide
  refine ⟨hpinned, ?_⟩
  exact pinned_blob_stays 10 [(⟨0⟩, [7, 9])] (fun _ => true) [.pins (.pinTask 0 ⟨5⟩ [⟨0⟩])]
    [.write 2 ⟨1⟩ 10 0 [1] .fine, .advance 2 .fine] ⟨0⟩ hpinned (by decide)

end Concrete

end BlobStore

end OxideSwarm
