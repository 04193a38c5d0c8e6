import OxideSwarm.Blob.Files

/-!
# What keeps the blob store intact

`Intact` is what every step of the interleaved store keeps: an object file hashes to its name, an indexed
blob has an object file of the indexed size, an upload's temporary file holds exactly what was hashed and
belongs to no one else, and a file that is being read is not being written.  Here are the steps that move
no byte: they keep `Intact` for one reason (`Intact.still` for the table and the directory,
`Intact.goto` and `Intact.finish` for the write in flight).
-/

namespace OxideSwarm

/-! ## The index operations, seen through `sizeOf` -/

namespace BlobInner

@[simp] theorem sizeOf_touch (s : BlobInner) (id id' : BlobId) : (s.touch id).sizeOf id' = s.sizeOf id' := by
  unfold touch
  split
  · next entry h =>
    unfold sizeOf
    rw [FMap.get_set]
    split
    · next heq => simp [heq, h]
    · rfl
  · rfl

@[simp] theorem uploads_touch (s : BlobInner) (id : BlobId) : (s.touch id).uploads = s.uploads := by
  unfold touch
  split <;> rfl

theorem sizeOf_insert (s : BlobInner) (id id' : BlobId) (size : Nat) : (s.insert id size).sizeOf id' =
      if id' = id then some ((s.sizeOf id).getD size) else s.sizeOf id' := by
  unfold insert contains
  split
  · next h =>
    obtain ⟨entry, he⟩ := Option.isSome_iff_exists.mp h
    rw [sizeOf_touch]
    split
    · next heq => simp [heq, sizeOf, he]
    · rfl
  next h =>
  have hnone : s.entries.get id = none := by simpa using h
  unfold sizeOf
  rw [FMap.get_set]
  split
  · simp [hnone]
  · rfl

@[simp] theorem uploads_insert (s : BlobInner) (id : BlobId) (size : Nat) :
    (s.insert id size).uploads = s.uploads := by
  unfold insert
  split
  · exact uploads_touch s id
  · rfl

theorem sizeOf_remove (s : BlobInner) (id id' : BlobId) :
    (s.remove id).sizeOf id' = if id' = id then none else s.sizeOf id' := by
  unfold remove
  split
  · unfold sizeOf
    rw [FMap.get_del]
    split <;> rfl
  next h =>
  split
  · next heq => simp [sizeOf, heq, h]
  · rfl

@[simp] theorem uploads_remove (s : BlobInner) (id : BlobId) : (s.remove id).uploads = s.uploads := by
  unfold remove
  split <;> rfl

/-- Two indexes with the same sizes and the same uploads. -/
def Alike (s s' : BlobInner) : Prop := (∀ id, s'.sizeOf id = s.sizeOf id) ∧ s'.uploads = s.uploads

theorem Alike.trans {s s' s'' : BlobInner} (h : Alike s s') (h' : Alike s' s'') : Alike s s'' :=
  ⟨fun id => (h'.1 id).trans (h.1 id), h'.2.trans h.2⟩

theorem alike_touch (s : BlobInner) (id : BlobId) : Alike s (s.touch id) :=
  ⟨sizeOf_touch s id, uploads_touch s id⟩

theorem alike_foldl {α : Type} (f : BlobInner → α → BlobInner) (hf : ∀ s a, Alike s (f s a))
    (l : List α) (s : BlobInner) : Alike s (l.foldl f s) := by
  induction l generalizing s with
  | nil => exact ⟨fun _ => rfl, rfl⟩
  | cons a rest ih => exact (hf s a).trans (ih (f s a))

theorem alike_missingIds (ids : List BlobId) :
    ∀ (s : BlobInner) (seen : List BlobId), Alike s (s.missingIds seen ids).2 := by
  induction ids with
  | nil => exact fun s seen => ⟨fun _ => rfl, rfl⟩
  | cons id rest ih =>
    intro s seen
    unfold missingIds
    split
    · exact ih s seen
    · exact (alike_touch s id).trans (ih (s.touch id) (id :: seen))

/-- Only the pins differ. -/
structure PinsOnly (s s' : BlobInner) : Prop where
  entries : s'.entries = s.entries
  lru : s'.lru = s.lru
  tick : s'.tick = s.tick
  totalBytes : s'.totalBytes = s.totalBytes
  uploadBytes : s'.uploadBytes = s.uploadBytes
  uploads : s'.uploads = s.uploads

theorem PinsOnly.refl (s : BlobInner) : PinsOnly s s := ⟨rfl, rfl, rfl, rfl, rfl, rfl⟩

theorem PinsOnly.trans {s s' s'' : BlobInner} (h : PinsOnly s s') (h' : PinsOnly s' s'') : PinsOnly s s'' :=
  ⟨h'.entries.trans h.entries, h'.lru.trans h.lru, h'.tick.trans h.tick, h'.totalBytes.trans h.totalBytes,
    h'.uploadBytes.trans h.uploadBytes, h'.uploads.trans h.uploads⟩

theorem pinsOnly_dropOutputPin (s : BlobInner) (t : TaskId) : PinsOnly s (s.dropOutputPin t) := by
  unfold dropOutputPin
  split
  · exact ⟨rfl, rfl, rfl, rfl, rfl, rfl⟩
  · exact .refl s

theorem pinsOnly_dropOutputPins (ts : List TaskId) : ∀ s : BlobInner, PinsOnly s (ts.foldl dropOutputPin s) := by
  induction ts with
  | nil => exact .refl
  | cons t rest ih => exact fun s => (pinsOnly_dropOutputPin s t).trans (ih _)

theorem pinsOnly_shedOutputPins (order : SetOrder TaskId) (maxBytes : Nat) (t : TaskId) (fuel : Nat) :
    ∀ s : BlobInner, PinsOnly s (shedOutputPins order maxBytes t fuel s) := by
  induction fuel with
  | zero => exact .refl
  | succ fuel ih =>
    intro s
    unfold shedOutputPins
    split
    · split
      · next oldest _ => exact (pinsOnly_dropOutputPin s oldest).trans (ih _)
      · exact .refl s
    · exact .refl s

theorem pinsOnly_commitTerminal (s : BlobInner) (order : SetOrder TaskId) (maxBytes : Nat)
    (now : Instant) (t : TaskId) (ids : List BlobId) : PinsOnly s (s.commitTerminal order maxBytes now t ids) := by
  unfold commitTerminal
  split
  · exact .refl s
  · refine PinsOnly.trans ?_ (pinsOnly_shedOutputPins order maxBytes t _ _)
    split <;> exact ⟨rfl, rfl, rfl, rfl, rfl, rfl⟩

theorem pinOp_pinsOnly (s : BlobInner) (maxBytes : Nat) (op : BlobStore.PinOp) :
    ∃ ids : List BlobId, PinsOnly (ids.foldl touch s) (op.apply s maxBytes) := by
  cases op with
  | pinTask now t ids =>
    refine ⟨[], ?_⟩
    show PinsOnly s (s.pinTask now t ids).2
    unfold pinTask
    split <;> exact ⟨rfl, rfl, rfl, rfl, rfl, rfl⟩
  | unpinTask t =>
    refine ⟨[], ?_⟩
    show PinsOnly s (s.unpinTask t)
    unfold unpinTask
    split
    · exact ⟨rfl, rfl, rfl, rfl, rfl, rfl⟩
    · exact .refl s
  | checkAndPinOutputs ids =>
    refine ⟨ids.reverse.dedup.reverse, ?_⟩
    show PinsOnly _ (s.checkAndPinOutputs ids).2
    unfold checkAndPinOutputs
    dsimp only
    split
    · exact .refl _
    · exact ⟨rfl, rfl, rfl, rfl, rfl, rfl⟩
  | dropGuard ids => exact ⟨[], rfl, rfl, rfl, rfl, rfl, rfl⟩
  | commitTerminal order now t ids => exact ⟨[], pinsOnly_commitTerminal s order maxBytes now t ids⟩
  | sweepExpiredOutputPins order now retention => exact ⟨[], pinsOnly_dropOutputPins _ s⟩

theorem alike_pinOp (s : BlobInner) (maxBytes : Nat) (op : BlobStore.PinOp) : Alike s (op.apply s maxBytes) := by
  obtain ⟨ids, h⟩ := pinOp_pinsOnly s maxBytes op
  refine (alike_foldl touch alike_touch ids s).trans ⟨fun id => ?_, h.uploads⟩
  unfold sizeOf
  rw [h.entries]

end BlobInner

/-! ## The invariant -/

/-- The upload a write has in hand. -/
def WritePhase.upload? : WritePhase → Option Upload
  | .append _ _ _ u | .putBack u | .commit u | .install u => some u
  | _ => none

namespace BlobStore

section Integrity

variable [Host]

/-- No two different contents whose digest was computed have the same digest. -/
def NoCollision (hashed : List Bytes) : Prop :=
  ∀ a ∈ hashed, ∀ b ∈ hashed, BlobId.of a = BlobId.of b → a = b

instance (hashed : List Bytes) : Decidable (NoCollision hashed) :=
  inferInstanceAs (Decidable (∀ a ∈ hashed, ∀ b ∈ hashed, BlobId.of a = BlobId.of b → a = b))

/-- `u` is an upload of `id` by `owner` that can still receive bytes: idle in the table, or in hand. -/
def Live (s : BlobStore) (owner : BlobOwner) (id : BlobId) (u : Upload) : Prop :=
  s.inner.uploads.get (owner, id) = some (.idle u) ∨
    ∃ w, s.writes.get owner = some w ∧ w.id = id ∧ w.phase.upload? = some u

/-- The temporary file of an upload holds what was hashed, and only the upload's own path leads to it. -/
structure UploadOk (s : BlobStore) (owner : BlobOwner) (id : BlobId) (u : Upload) : Prop where
  lt : u.file < s.files.next
  content : s.files.contents u.file = u.hashed
  received : u.received = u.hashed.length
  bounded : u.received ≤ u.total
  linked : ∀ p, s.files.names.get p = some u.file → p = .part owner id
  mine : ∀ n, s.files.names.get (.part owner id) = some n → n = u.file

/-- What a write has established when it commits. -/
def PhaseOk (s : BlobStore) (id : BlobId) : WritePhase → Prop
  | .commit u => u.received = u.total
  | .install u => u.received = u.total ∧ BlobId.of u.hashed = id ∧ u.hashed ∈ s.hashed
  | _ => True

/-- The part of `id`'s content that a read asks for. -/
def Range (s : BlobStore) (id : BlobId) (offset len size : Nat) (c : Bytes) : Prop :=
  c ∈ s.hashed ∧ BlobId.of c = id ∧ size = c.length ∧ offset + len ≤ c.length

/-- A read stays within the content of its blob, and the file it has open is never written again. -/
def ReadOk (s : BlobStore) : ReadPhase → Prop
  | .open id offset len size => ∃ c, s.Range id offset len size c
  | .read id file offset len size =>
    s.Range id offset len size (s.files.contents file) ∧ file < s.files.next ∧
      (∀ owner id', s.files.names.get (.part owner id') ≠ some file) ∧
      ∀ owner id' u, s.Live owner id' u → u.file ≠ file
  | .forget _ => True

/-- A chunk is the range it says of the content of its blob. -/
def ReplyOk (s : BlobStore) : BlobReply → Prop
  | .chunk id offset size data =>
    ∃ c, s.Range id offset data.length size c ∧ data = (c.drop offset).take data.length
  | _ => True

/-- While an owner writes a blob, the blob's slot in the table is not idle. -/
def Exclusive (s : BlobStore) : Prop :=
  ∀ owner w, s.writes.get owner = some w → ∀ u, s.inner.uploads.get (owner, w.id) ≠ some (.idle u)

def Phased (s : BlobStore) : Prop :=
  ∀ owner w, s.writes.get owner = some w → s.PhaseOk w.id w.phase

structure Intact (s : BlobStore) : Prop where
  objects : ∀ id n, s.files.names.get (.object id) = some n →
    BlobId.of (s.files.contents n) = id ∧ s.files.contents n ∈ s.hashed
  indexed : ∀ id size, s.inner.sizeOf id = some size →
    ∃ n, s.files.names.get (.object id) = some n ∧ (s.files.contents n).length = size
  uploads : ∀ owner id u, s.Live owner id u → s.UploadOk owner id u
  distinct : ∀ owner id u owner' id' u', s.Live owner id u → s.Live owner' id' u' →
    u.file = u'.file → owner = owner' ∧ id = id'
  exclusive : s.Exclusive
  phases : s.Phased
  reads : ∀ r ∈ s.reads, s.ReadOk r
  replies : ∀ r ∈ s.replies, s.ReplyOk r

variable {s s' : BlobStore}

theorem Range.mono {id : BlobId} {offset len size : Nat} {c : Bytes}
    (h : s.Range id offset len size c) (hashed : ∀ c ∈ s.hashed, c ∈ s'.hashed) : s'.Range id offset len size c :=
  ⟨hashed c h.1, h.2⟩

variable {r : BlobReply}

theorem ReplyOk.mono (h : s.ReplyOk r) (hashed : ∀ c ∈ s.hashed, c ∈ s'.hashed) : s'.ReplyOk r := by
  cases r with
  | chunk id offset size data =>
    obtain ⟨c, hc, hdata⟩ := h
    exact ⟨c, hc.mono hashed, hdata⟩
  | _ => trivial

variable {phase : WritePhase}

theorem PhaseOk.mono {id : BlobId} (h : s.PhaseOk id phase)
    (hashed : ∀ c ∈ s.hashed, c ∈ s'.hashed) : s'.PhaseOk id phase := by
  cases phase with
  | install u => exact ⟨h.1, h.2.1, hashed _ h.2.2⟩
  | _ => exact h

/-! ## Steps that move no byte -/

/-- Nothing is written, nothing is linked, and nothing becomes an upload, a read or a chunk that was
not one before. -/
structure Calm (s s' : BlobStore) : Prop where
  names : ∀ p n, s'.files.names.get p = some n → s.files.names.get p = some n
  contents : s'.files.contents = s.files.contents
  next : s'.files.next = s.files.next
  hashed : ∀ c ∈ s.hashed, c ∈ s'.hashed
  index : ∀ id size, s'.inner.sizeOf id = some size →
    s.inner.sizeOf id = some size ∧ s'.files.names.get (.object id) = s.files.names.get (.object id)
  live : ∀ owner id u, s'.Live owner id u → s.Live owner id u
  reads : ∀ r ∈ s'.reads, r ∈ s.reads
  replies : ∀ r ∈ s'.replies, r ∈ s.replies ∨ s'.ReplyOk r

omit [Host] in
theorem UploadOk.calm {owner : BlobOwner} {id : BlobId} {u : Upload}
    (h : s.UploadOk owner id u) (names : ∀ p n, s'.files.names.get p = some n → s.files.names.get p = some n)
    (contents : s'.files.contents = s.files.contents) (next : s'.files.next = s.files.next) :
    s'.UploadOk owner id u where
  lt := by rw [next]; exact h.lt
  content := by rw [contents]; exact h.content
  received := h.received
  bounded := h.bounded
  linked p hp := h.linked p (names p _ hp)
  mine n hn := h.mine n (names _ n hn)

theorem ReadOk.calm (c : Calm s s') {r : ReadPhase} (h : s.ReadOk r) : s'.ReadOk r := by
  cases r with
  | «open» id offset len size =>
    obtain ⟨content, hc⟩ := h
    exact ⟨content, hc.mono c.hashed⟩
  | read id file offset len size =>
    obtain ⟨hrange, hlt, hpart, hlive⟩ := h
    refine ⟨?_, ?_, fun owner id' hn => hpart owner id' (c.names _ _ hn),
      fun owner id' u hu => hlive owner id' u (c.live owner id' u hu)⟩
    · rw [c.contents]
      exact hrange.mono c.hashed
    · rw [c.next]
      exact hlt
  | forget id => trivial

theorem Intact.calm (h : s.Intact) (c : Calm s s') (hexclusive : s'.Exclusive)
    (hphased : s'.Phased) : s'.Intact where
  objects id n hn := by
    rw [c.contents]
    obtain ⟨hid, hmem⟩ := h.objects id n (c.names _ _ hn)
    exact ⟨hid, c.hashed _ hmem⟩
  indexed id size hsize := by
    obtain ⟨hold, hname⟩ := c.index id size hsize
    obtain ⟨n, hn, hlen⟩ := h.indexed id size hold
    exact ⟨n, by rw [hname]; exact hn, by rw [c.contents]; exact hlen⟩
  uploads owner id u hu := (h.uploads owner id u (c.live owner id u hu)).calm c.names c.contents c.next
  distinct owner id u owner' id' u' hu hu' :=
    h.distinct owner id u owner' id' u' (c.live _ _ _ hu) (c.live _ _ _ hu')
  exclusive := hexclusive
  phases := hphased
  reads r hr := (h.reads r (c.reads r hr)).calm c
  replies r hr := by
    rcases c.replies r hr with hold | hnew
    · exact (h.replies r hold).mono c.hashed
    · exact hnew

/-- A calm step of the table and the directory: the writes in flight do not change. -/
structure Still (s s' : BlobStore) : Prop where
  names : ∀ p n, s'.files.names.get p = some n → s.files.names.get p = some n
  contents : s'.files.contents = s.files.contents
  next : s'.files.next = s.files.next
  hashed : s'.hashed = s.hashed
  index : ∀ id size, s'.inner.sizeOf id = some size →
    s.inner.sizeOf id = some size ∧ s'.files.names.get (.object id) = s.files.names.get (.object id)
  writes : s'.writes = s.writes
  idle : ∀ key u, s'.inner.uploads.get key = some (.idle u) → s.inner.uploads.get key = some (.idle u)
  reads : s'.reads = s.reads
  replies : s'.replies = s.replies

omit [Host] in
theorem Still.refl (s : BlobStore) : Still s s :=
  ⟨fun _ _ h => h, rfl, rfl, rfl, fun _ _ h => ⟨h, rfl⟩, rfl, fun _ _ h => h, rfl, rfl⟩

omit [Host] in
theorem Still.trans {s'' : BlobStore} (h : Still s s') (h' : Still s' s'') : Still s s'' where
  names p n hn := h.names p n (h'.names p n hn)
  contents := h'.contents.trans h.contents
  next := h'.next.trans h.next
  hashed := h'.hashed.trans h.hashed
  index id size hsize := by
    obtain ⟨h1, hn1⟩ := h'.index id size hsize
    obtain ⟨h2, hn2⟩ := h.index id size h1
    exact ⟨h2, hn1.trans hn2⟩
  writes := h'.writes.trans h.writes
  idle key u hu := h.idle key u (h'.idle key u hu)
  reads := h'.reads.trans h.reads
  replies := h'.replies.trans h.replies

theorem Still.calm (h : Still s s') : Calm s s' where
  names := h.names
  contents := h.contents
  next := h.next
  hashed c hc := by rw [h.hashed]; exact hc
  index := h.index
  live owner id u hu := by
    rcases hu with hidle | hw
    · exact .inl (h.idle _ u hidle)
    · rw [h.writes] at hw
      exact .inr hw
  reads r hr := by rw [h.reads] at hr; exact hr
  replies r hr := by rw [h.replies] at hr; exact .inl hr

theorem Intact.still (h : s.Intact) (c : Still s s') : s'.Intact := by
  refine h.calm c.calm ?_ ?_
  · intro owner w hw u hu
    rw [c.writes] at hw
    exact h.exclusive owner w hw u (c.idle _ u hu)
  intro owner w hw
  rw [c.writes] at hw
  refine (h.phases owner w hw).mono fun content hc => ?_
  rw [c.hashed]
  exact hc

section

omit [Host]

theorem still_inner (s : BlobStore) (inner : BlobInner) (h : BlobInner.Alike s.inner inner) :
    Still s { s with inner := inner } where
  names _ _ hn := hn
  contents := rfl
  next := rfl
  hashed := rfl
  index id size hsize := ⟨by rw [← h.1 id]; exact hsize, rfl⟩
  writes := rfl
  idle key u hu := by rw [← h.2]; exact hu
  reads := rfl
  replies := rfl

theorem still_touch (s : BlobStore) (id : BlobId) : Still s (s.touch id) :=
  still_inner s _ (BlobInner.alike_touch s.inner id)

theorem still_addUploadBytes (s : BlobStore) (total : Nat) : Still s (s.addUploadBytes total) :=
  still_inner s _ ⟨fun _ => rfl, rfl⟩

theorem still_uploads (s : BlobStore) (inner : BlobInner) (key : BlobOwner × BlobId)
    (hsize : ∀ id, inner.sizeOf id = s.inner.sizeOf id) (hkey : ∀ u, inner.uploads.get key ≠ some (.idle u))
    (hother : ∀ key', key' ≠ key → inner.uploads.get key' = s.inner.uploads.get key') :
    Still s { s with inner := inner } where
  names _ _ hn := hn
  contents := rfl
  next := rfl
  hashed := rfl
  index id size h := ⟨by rw [← hsize id]; exact h, rfl⟩
  writes := rfl
  idle key' u hu := by
    by_cases hk : key' = key
    · subst hk
      exact absurd hu (hkey u)
    · rw [← hother key' hk]
      exact hu
  reads := rfl
  replies := rfl

theorem releaseSlot_uploads (s : BlobStore) (owner : BlobOwner) (id : BlobId)
    (key : BlobOwner × BlobId) : (s.releaseSlot owner id).inner.uploads.get key =
      if key = (owner, id) then none else s.inner.uploads.get key := by
  unfold releaseSlot
  split
  · exact FMap.get_del _ _ _
  next hnone =>
  split
  · next heq => rw [heq, hnone]
  · rfl

theorem still_releaseSlot (s : BlobStore) (owner : BlobOwner) (id : BlobId) : Still s (s.releaseSlot owner id) := by
  unfold releaseSlot
  split
  · refine still_uploads s _ (owner, id) (fun _ => rfl) ?_ ?_
    · simp
    · intro key hk
      simp [hk]
  · exact .refl s

theorem still_setSlot_writing (s : BlobStore) (owner : BlobOwner) (id : BlobId) (total : Nat) :
    Still s (s.setSlot owner id (.writing total)) := by
  refine still_uploads s _ (owner, id) (fun _ => rfl) ?_ ?_
  · simp
  · intro key hk
    simp [hk]

theorem still_removeFile (s : BlobStore) (path : BlobPath) (ok : Bool)
    (hpath : ∀ id, path = .object id → s.inner.sizeOf id = none) : Still s (s.removeFile path ok) := by
  unfold removeFile
  split
  · have hnames : ∀ p, (s.withFiles (s.files.unlink path)).files.names.get p =
        if p = path then none else s.files.names.get p := FMap.get_del _ _
    refine ⟨?_, rfl, rfl, rfl, ?_, rfl, fun _ _ h => h, rfl, rfl⟩
    · intro p n hn
      rw [hnames] at hn
      split at hn
      · cases hn
      · exact hn
    intro id size hsize
    refine ⟨hsize, ?_⟩
    rw [hnames, if_neg]
    intro heq
    have hnone : s.inner.sizeOf id = none := hpath id heq.symm
    have hsome : s.inner.sizeOf id = some size := hsize
    rw [hnone] at hsome
    cases hsome
  · exact .refl s

theorem still_removePart (s : BlobStore) (owner : BlobOwner) (id : BlobId) (ok : Bool) :
    Still s (s.removeFile (.part owner id) ok) :=
  still_removeFile s _ ok nofun

theorem still_remove (s : BlobStore) (id : BlobId) : Still s { s with inner := s.inner.remove id } where
  names _ _ hn := hn
  contents := rfl
  next := rfl
  hashed := rfl
  index id' size hsize := by
    have h : (s.inner.remove id).sizeOf id' = some size := hsize
    rw [BlobInner.sizeOf_remove] at h
    split at h
    · cases h
    · exact ⟨h, rfl⟩
  writes := rfl
  idle key u hu := by rw [← BlobInner.uploads_remove s.inner id]; exact hu
  reads := rfl
  replies := rfl

theorem still_evictOne (s : BlobStore) (io : Io) (id : BlobId) : Still s (evictOne io s id) := by
  refine (still_remove s id).trans (still_removeFile _ (.object id) (io.removed id) ?_)
  intro id' heq
  cases heq
  exact (BlobInner.sizeOf_remove s.inner id id).trans (if_pos rfl)

theorem still_foldl {α : Type} (f : BlobStore → α → BlobStore) (hf : ∀ s a, Still s (f s a))
    (l : List α) (s : BlobStore) : Still s (l.foldl f s) := by
  induction l generalizing s with
  | nil => exact .refl s
  | cons a rest ih => exact (hf s a).trans (ih (f s a))

theorem still_evictToFit (s : BlobStore) (io : Io) (keep : Option BlobId) : Still s (s.evictToFit io keep).2 :=
  still_foldl (evictOne io) (fun s id => still_evictOne s io id) _ s

/-- Dropping an upload leaves a path to remove, which `Still` does not look at. -/
theorem still_dropUpload (s : BlobStore) (key : BlobOwner × BlobId) : Still s (s.dropUpload key) := by
  have h := still_releaseSlot s key.1 key.2
  unfold dropUpload
  split
  · exact ⟨h.names, h.contents, h.next, h.hashed, h.index, h.writes, h.idle, h.reads, h.replies⟩
  · exact h

end

/-! ## Moving a write on -/

theorem calm_reply (hr : s.ReplyOk r) : Calm s (s.reply r) := by
  refine ⟨fun _ _ hn => hn, rfl, rfl, fun _ hc => hc, fun _ _ hs => ⟨hs, rfl⟩, fun _ _ _ hu => hu,
    fun _ hr => hr, ?_⟩
  intro r' hr'
  rcases List.mem_append.mp hr' with hold | hnew
  · exact .inl hold
  · rw [List.mem_singleton] at hnew
    subst hnew
    exact .inr (hr.mono fun _ hc => hc)

theorem Intact.reply (h : s.Intact) (hr : s.ReplyOk r) : (s.reply r).Intact :=
  h.calm (calm_reply hr) h.exclusive h.phases

theorem Intact.finish (h : s.Intact) (owner : BlobOwner) (hr : s.ReplyOk r) : (s.finish owner r).Intact := by
  have hdel : ∀ owner' w, (s.finish owner r).writes.get owner' = some w →
      s.writes.get owner' = some w := by
    intro owner' w hw
    have : (s.writes.del owner).get owner' = some w := hw
    rw [FMap.get_del] at this
    split at this
    · cases this
    · exact this
  refine Intact.calm (h.reply hr) ⟨fun _ _ hn => hn, rfl, rfl, fun _ hc => hc,
    fun _ _ hs => ⟨hs, rfl⟩, ?_, fun _ hr => hr, fun _ hr => Or.inl hr⟩ ?_ ?_
  · intro owner' id u hu
    rcases hu with hidle | ⟨w, hw, hid, hup⟩
    · exact .inl hidle
    · exact .inr ⟨w, hdel owner' w hw, hid, hup⟩
  · exact fun owner' w hw => h.exclusive owner' w (hdel owner' w hw)
  · exact fun owner' w hw => h.phases owner' w (hdel owner' w hw)

section

omit [Host]

theorem writes_goto (s : BlobStore) (owner owner' : BlobOwner) (id : BlobId) (phase : WritePhase) :
    (s.goto owner id phase).writes.get owner' = if owner' = owner then some ⟨id, phase⟩ else s.writes.get owner' :=
  FMap.get_set _ _ _ _

theorem live_goto {owner owner' : BlobOwner} {id id' : BlobId}
    {u : Upload} (hu : (s.goto owner id phase).Live owner' id' u) :
    (owner' = owner ∧ id' = id ∧ phase.upload? = some u) ∨ (s.inner.uploads.get (owner', id') = some (.idle u)) ∨
      (owner' ≠ owner ∧ s.Live owner' id' u) := by
  rcases hu with hidle | ⟨w, hw, hid, hup⟩
  · exact .inr (Or.inl hidle)
  rw [writes_goto] at hw
  split at hw
  · next heq =>
    cases hw
    exact .inl ⟨heq, hid.symm, hup⟩
  · next hne => exact .inr (Or.inr ⟨hne, Or.inr ⟨w, hw, hid, hup⟩⟩)

theorem exclusive_goto (h : s.Exclusive) {owner : BlobOwner} {id : BlobId} (hslot : ∀ u, s.inner.uploads.get (owner, id) ≠ some (.idle u)) :
    (s.goto owner id phase).Exclusive := by
  intro owner' w hw
  rw [writes_goto] at hw
  split at hw
  · next heq =>
    cases hw
    rw [heq]
    exact hslot
  · exact h owner' w hw

end

theorem phased_goto (h : s.Phased) {owner : BlobOwner} {id : BlobId} (hphase : s.PhaseOk id phase) : (s.goto owner id phase).Phased := by
  intro owner' w hw
  rw [writes_goto] at hw
  split at hw
  · cases hw
    exact hphase.mono fun _ hc => hc
  · exact (h owner' w hw).mono fun _ hc => hc

/-- A write moves on with an upload that was its own before, or with none. -/
theorem Intact.goto (h : s.Intact) {owner : BlobOwner} {id : BlobId} (hslot : ∀ u, s.inner.uploads.get (owner, id) ≠ some (.idle u))
    (hphase : s.PhaseOk id phase) (hup : ∀ u, phase.upload? = some u → s.Live owner id u) :
    (s.goto owner id phase).Intact := by
  refine h.calm ⟨fun _ _ hn => hn, rfl, rfl, fun _ hc => hc, fun _ _ hs => ⟨hs, rfl⟩, ?_,
    fun _ hr => hr, fun _ hr => Or.inl hr⟩ (exclusive_goto h.exclusive hslot)
    (phased_goto h.phases hphase)
  intro owner' id' u hu
  rcases live_goto hu with ⟨rfl, rfl, hcarried⟩ | hidle | ⟨-, hlive⟩
  · exact hup u hcarried
  · exact .inl hidle
  · exact hlive

end Integrity

end BlobStore

end OxideSwarm
