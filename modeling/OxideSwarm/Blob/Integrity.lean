import OxideSwarm.Blob.Writes

/-!
# Integrity of the blob store

`Intact.step` and `Intact.run` carry the invariant over every interleaving, `openDir_intact` establishes
it, and `blob_store_integrity` states what it means for the index and for the chunks that readers get.

No digest of 256 bits is injective on all contents, so the assumption about BLAKE3 is the one a run can
meet: no two different contents whose digest was computed have the same digest (`NoCollision`).
-/

namespace OxideSwarm

namespace BlobStore

section Integrity

variable [Host]

/-! ## Steps -/

variable {s : BlobStore}

theorem Intact.withReads (h : s.Intact) {reads : List ReadPhase}
    (hreads : ∀ r ∈ reads, s.ReadOk r) : BlobStore.Intact { s with reads := reads } :=
  ⟨h.objects, h.indexed, fun owner id u hu =>
    (h.uploads owner id u hu).calm (fun _ _ hn => hn) rfl rfl, h.distinct, h.exclusive, h.phases,
    fun r hr => by
      have hold := hreads r hr
      cases r <;> exact hold,
    h.replies⟩

theorem Intact.reserve (h : s.Intact) (owner : BlobOwner) (id : BlobId)
    (total offset : Nat) (data : Bytes) : (s.reserve owner id total offset data).Intact := by
  unfold BlobStore.reserve
  split
  · exact h.reply trivial
  have h' := h.still ((still_addUploadBytes s total).trans (still_setSlot_writing _ owner id total))
  refine h'.goto ?_ trivial nofun
  intro u
  show (s.inner.uploads.set (owner, id) (.writing total)).get (owner, id) ≠ some (.idle u)
  simp

theorem Intact.alreadyHere (h : s.Intact) (io : Io) (owner : BlobOwner) (id : BlobId)
    (total : Nat) : (s.alreadyHere io owner id total).Intact := by
  have h' := h.still (still_releaseSlot s owner id)
  unfold BlobStore.alreadyHere
  split
  · exact (h'.still (still_removePart _ owner id io.unlinked)).reply trivial
  · exact h'.reply trivial

theorem Intact.openSlot (h : s.Intact) (io : Io) (owner : BlobOwner) (id : BlobId)
    (total offset : Nat) (data : Bytes) : (s.openSlot io owner id total offset data).Intact := by
  unfold BlobStore.openSlot
  split
  · exact h.reply trivial
  · next upload hidle =>
    split
    · -- the idle upload goes from the table into the writer's hand
      have hstill := still_setSlot_writing s owner id upload.total
      refine h.calm ⟨hstill.names, hstill.contents, hstill.next, fun _ hc => hc, hstill.index, ?_,
        fun _ hr => hr, fun _ hr => Or.inl hr⟩ (exclusive_goto (h.still hstill).exclusive ?_)
        (phased_goto (h.still hstill).phases trivial)
      · intro owner' id' u hu
        rcases live_goto hu with ⟨rfl, rfl, hcarried⟩ | hidle' | ⟨-, hold⟩
        · cases hcarried
          exact .inl hidle
        · exact .inl (hstill.idle _ u hidle')
        · exact hstill.calm.live owner' id' u hold
      · intro u
        show (s.inner.uploads.set (owner, id) (.writing upload.total)).get (owner, id) ≠ some (.idle u)
        simp
    · exact (h.still ((still_releaseSlot s owner id).trans
        (still_removePart _ owner id io.unlinked))).reserve owner id total offset data
  · split
    · exact h.reserve owner id total offset data
    · exact h.reply trivial

theorem Intact.writeChunk (h : s.Intact) (io : Io) (owner : BlobOwner) (id : BlobId)
    (total offset : Nat) (data : Bytes) : (s.writeChunk io owner id total offset data).Intact := by
  have h' := h.still (still_touch s id)
  unfold BlobStore.writeChunk
  split
  · exact h.reply trivial
  · split
    · exact h'.alreadyHere io owner id total
    · exact h'.openSlot io owner id total offset data

theorem Intact.advance (h : s.Intact) (hcol : NoCollision s.hashed) (io : Io)
    {owner : BlobOwner} {w : Write} (hw : s.writes.get owner = some w) : (s.advance io owner w).Intact := by
  obtain ⟨id, phase⟩ := w
  have hrelease := still_releaseSlot s owner id
  cases phase with
  | evict total offset data =>
    have hstill := still_evictToFit s io none
    show BlobStore.Intact (if _ then _ else _)
    split
    · exact h.still hstill
    · exact (h.still hstill).advance_to (hstill.writes.symm ▸ hw) _ rfl trivial
  | create total offset data =>
    show (s.create io owner id total offset data).Intact
    unfold BlobStore.create
    split
    · exact h.create hw (s.files.create_creates (.part owner id)) total offset data io.now
    · exact h.advance_to hw _ rfl trivial
  | append total offset data upload => exact h.append hw
  | putBack upload => exact h.putBack hw
  | commit upload => exact h.commit hw
  | install upload => exact h.install hcol hw
  | abandon file e =>
    cases file with
    | true => exact (h.still hrelease).advance_to (hrelease.writes.symm ▸ hw) (.unlink e) rfl trivial
    | false => exact (h.still hrelease).finish owner trivial
  | unlink e => exact (h.still (still_removePart s owner id io.unlinked)).finish owner trivial
  | trim total =>
    have hstill := still_evictToFit s io (some id)
    show BlobStore.Intact (if _ then _ else _)
    split
    · exact h.still hstill
    · exact (h.still hstill).finish owner trivial

theorem Intact.readChunk (h : s.Intact) (id : BlobId) (offset maxLen : Nat) :
    (s.readChunk id offset maxLen).Intact := by
  have h' := h.still (still_touch s id)
  unfold BlobStore.readChunk
  split
  · exact h'.reply trivial
  next size hsize =>
  split
  · exact h'.reply trivial
  next hoffset =>
  refine h'.withReads fun r hr => ?_
  rcases List.mem_append.mp hr with hold | hnew
  · exact h'.reads r hold
  rw [List.mem_singleton] at hnew
  subst hnew
  obtain ⟨n, hn, hlen⟩ := h.indexed id size hsize
  obtain ⟨hid, hmem⟩ := h.objects id n hn
  exact ⟨s.files.contents n, hmem, hid, hlen.symm, by rw [hlen]; omega⟩

theorem Intact.advanceRead (h : s.Intact) (hcol : NoCollision s.hashed) (io : Io) {r : ReadPhase} (hr : s.ReadOk r) :
    (s.advanceRead io r).2.Intact ∧ (∀ r' ∈ (s.advanceRead io r).1, s.ReadOk r') ∧
      ∀ r', s.ReadOk r' → (s.advanceRead io r).2.ReadOk r' := by
  have hanswer : ∀ answer, s.ReplyOk answer → (s.reply answer).Intact ∧
      (∀ r' ∈ ([] : List ReadPhase), s.ReadOk r') ∧ ∀ r', s.ReadOk r' → (s.reply answer).ReadOk r' :=
    fun answer ha => ⟨h.reply ha, nofun, fun r' hr' => hr'.calm (calm_reply ha)⟩
  cases r with
  | «open» id offset len size =>
    obtain ⟨c, hmem, hid, hsize, hlen⟩ := hr
    simp only [BlobStore.advanceRead]
    split
    · split
      · next file hfile =>
        refine ⟨h, fun r' hr' => ?_, fun _ hr' => hr'⟩
        rw [List.mem_singleton] at hr'
        subst hr'
        obtain ⟨hid', hmem'⟩ := h.objects id file hfile
        have hsame : s.files.contents file = c := hcol _ hmem' _ hmem (hid'.trans hid.symm)
        refine ⟨by rw [hsame]; exact ⟨hmem, hid, hsize, hlen⟩, s.files.names_lt _ _ hfile, ?_, ?_⟩
        · intro owner id' hpart
          exact absurd (s.files.names_inj _ _ _ hfile hpart) (by simp)
        · rintro owner id' u hu rfl
          exact absurd ((h.uploads owner id' u hu).linked _ hfile) (by simp)
      refine ⟨h, fun r' hr' => ?_, fun _ hr' => hr'⟩
      rw [List.mem_singleton] at hr'
      subst hr'
      trivial
    · exact hanswer (.failed _) trivial
  | read id file offset len size =>
    obtain ⟨⟨hmem, hid, hsize, hlen⟩, -⟩ := hr
    simp only [BlobStore.advanceRead]
    split
    · have htake : (((s.files.contents file).drop offset).take len).length = len := by
        rw [List.length_take, List.length_drop]
        omega
      refine hanswer (.chunk id offset size _) ⟨s.files.contents file, ?_, ?_⟩
      · rw [htake]
        exact ⟨hmem, hid, hsize, hlen⟩
      · rw [htake]
    · exact hanswer (.failed _) trivial
  | forget id =>
    have hstill := still_remove s id
    exact ⟨(h.still hstill).reply (r := .notFound id) trivial, nofun,
      fun r' hr' => (hr'.calm hstill.calm).calm (calm_reply (r := .notFound id) trivial)⟩

/-- **One step.**  Whatever an owner, a reader, a sweep or an eviction does next, the store stays
intact. -/
theorem Intact.step (h : s.Intact) (hcol : NoCollision s.hashed) (l : Label) : (s.step l).Intact := by
  cases l with
  | write owner id total offset data io =>
    show BlobStore.Intact (if _ then _ else _)
    split
    · exact h
    · exact h.writeChunk io owner id total offset data
  | advance owner io =>
    simp only [BlobStore.step]
    split
    · next w hw => exact h.advance hcol io hw
    · exact h
  | joinError owner error =>
    simp only [BlobStore.step]
    split
    · next w hw => exact (h.still (still_releaseSlot s owner w.id)).finish owner trivial
    · exact h
  | read id offset maxLen => exact h.readChunk id offset maxLen
  | advanceRead i io =>
    simp only [BlobStore.step]
    split
    · next r hr =>
      obtain ⟨hnext, hrest, hkept⟩ := h.advanceRead hcol io (h.reads r (List.mem_of_getElem? hr))
      refine hnext.withReads fun r' hr' => hkept r' ?_
      rcases List.mem_append.mp hr' with hold | hnew
      · exact h.reads r' (List.mem_of_mem_eraseIdx hold)
      · exact hrest r' hnew
    · exact h
  | dropRead i => exact h.withReads fun r hr => h.reads r (List.mem_of_mem_eraseIdx hr)
  | missing ids =>
    show BlobStore.Intact (if _ then _ else _)
    split
    · exact h.reply trivial
    · exact (h.still (still_inner s _ (BlobInner.alike_missingIds ids s.inner []))).reply trivial
  | abort owner =>
    exact ⟨h.objects, h.indexed, fun owner id u hu =>
      (h.uploads owner id u hu).calm (fun _ _ hn => hn) rfl rfl, h.distinct, h.exclusive, h.phases,
      h.reads, h.replies⟩
  | abortUploads order owner =>
    show BlobStore.Intact (if _ then _ else _)
    split
    · exact h.still (still_foldl dropUpload still_dropUpload _ s)
    · exact h
  | sweepStaleUploads order now => exact h.still (still_foldl dropUpload still_dropUpload _ s)
  | removal i io =>
    simp only [BlobStore.step]
    split
    · next key hkey =>
      have hstill := still_removePart s key.1 key.2 io.unlinked
      exact h.still ⟨hstill.names, hstill.contents, hstill.next, hstill.hashed, hstill.index,
        hstill.writes, hstill.idle, hstill.reads, hstill.replies⟩
    · exact h
  | evict io => exact h.still (still_evictToFit s io none)
  | pins op => exact h.still (still_inner s _ (BlobInner.alike_pinOp s.inner s.maxBytes op))

/-! ## Runs -/

/-! ## An indexed blob has a file -/

def Stored (s : BlobStore) : Prop :=
  ∀ id size, s.inner.sizeOf id = some size → (s.files.names.get (.object id)).isSome

section

omit [Host]

variable {s' : BlobStore}

theorem Stored.still (h : s.Stored) (hs : Still s s') : s'.Stored := by
  intro id size hsize
  obtain ⟨hold, hname⟩ := hs.index id size hsize
  rw [hname]
  exact h id size hold

theorem Stored.index (h : s.Stored) {id : BlobId} (hfile : (s.files.names.get (.object id)).isSome)
    (size : Nat) : (s.index id size).Stored := by
  intro id' size' hsize
  replace hsize : (s.inner.insert id size).sizeOf id' = some size' := hsize
  rw [BlobInner.sizeOf_insert] at hsize
  split at hsize
  · next heq =>
    rw [heq]
    exact hfile
  · exact h id' size' hsize

/-- Every content in `hashed` still counts as hashed, and every indexed blob has a file. -/
def Recorded (hashed : List Bytes) (s : BlobStore) : Prop := (∀ c ∈ hashed, c ∈ s.hashed) ∧ s.Stored

variable {hashed : List Bytes}

theorem Recorded.still (h : s.Recorded hashed) (hs : Still s s') : s'.Recorded hashed :=
  ⟨fun c hc => hs.hashed ▸ h.1 c hc, h.2.still hs⟩

theorem Recorded.releaseSlot (h : s.Recorded hashed) (owner : BlobOwner) (id : BlobId) :
    (s.releaseSlot owner id).Recorded hashed :=
  h.still (still_releaseSlot s owner id)

theorem Recorded.removePart (h : s.Recorded hashed) (owner : BlobOwner) (id : BlobId) (unlinked : Bool) :
    (s.removeFile (.part owner id) unlinked).Recorded hashed :=
  h.still (still_removePart s owner id unlinked)

theorem Recorded.files (h : s.Recorded hashed) {files : FileSystem BlobPath}
    (hnames : ∀ id, files.names.get (.object id) = s.files.names.get (.object id)) :
    (s.withFiles files).Recorded hashed := by
  refine ⟨h.1, fun id size hsize => ?_⟩
  show (files.names.get (.object id)).isSome
  rw [hnames id]
  exact h.2 id size hsize

theorem Recorded.writeChunk (h : s.Recorded hashed) (io : Io) (owner : BlobOwner) (id : BlobId) (total offset : Nat)
    (data : Bytes) : (s.writeChunk io owner id total offset data).Recorded hashed := by
  have htouch : (s.touch id).Recorded hashed := h.still (still_touch s id)
  have hreserve : ∀ mid : BlobStore, mid.Recorded hashed →
      (mid.reserve owner id total offset data).Recorded hashed := by
    intro mid hmid
    unfold reserve
    split <;> exact hmid
  have hrestart : (((s.touch id).releaseSlot owner id).removeFile (.part owner id) io.unlinked).Recorded hashed :=
    (htouch.releaseSlot owner id).removePart owner id io.unlinked
  unfold BlobStore.writeChunk
  split
  · exact h
  split
  · unfold alreadyHere
    split
    · exact hrestart
    · exact htouch.releaseSlot owner id
  unfold openSlot
  split
  · exact htouch
  · split
    · exact htouch
    · exact hreserve _ hrestart
  · split
    · exact hreserve _ htouch
    · exact htouch

theorem Recorded.install (h : s.Recorded hashed) (io : Io) (owner : BlobOwner) (id : BlobId) (upload : Upload) :
    (s.install io owner id upload).Recorded hashed := by
  have hrelease : (s.releaseSlot owner id).Recorded hashed := h.releaseSlot owner id
  unfold BlobStore.install
  split
  · exact h
  dsimp only
  split
  · next files hfiles =>
    split at hfiles
    · obtain ⟨n, -, hnames, -, -⟩ := FileSystem.rename_eq_some hfiles
      have hstored : ((s.releaseSlot owner id).withFiles files).Stored := by
        intro id' size hsize
        show (files.names.get (.object id')).isSome
        rw [hnames, FMap.get_set]
        split
        · rfl
        · rw [FMap.get_del, if_neg (by simp)]
          exact hrelease.2 id' size hsize
      refine ⟨hrelease.1, hstored.index ?_ upload.total⟩
      show (files.names.get (.object id)).isSome
      rw [hnames, FMap.get_set, if_pos rfl]
      rfl
    · cases hfiles
  have hremove := hrelease.removePart owner id io.unlinked
  split
  · next hexists =>
    refine ⟨hremove.1, hremove.2.index ?_ upload.total⟩
    rw [FileSystem.read, Option.isSome_map] at hexists
    exact hexists
  · exact hremove

end

variable {hashed : List Bytes}

theorem Recorded.advance (h : s.Recorded hashed) (io : Io) (owner : BlobOwner) (w : Write) :
    (s.advance io owner w).Recorded hashed := by
  have hevict : ∀ keep, (s.evictToFit io keep).2.Recorded hashed := fun keep => h.still (still_evictToFit s io keep)
  unfold BlobStore.advance
  split
  · split <;> exact hevict none
  · unfold create
    split
    · exact h.files fun id => (FileSystem.create_creates s.files (.part owner w.id)).others _ (by simp)
    · exact h
  · unfold append
    split
    · exact h
    split
    · dsimp only
      split <;> exact h
    · exact h
  · unfold putBack
    split <;> exact h
  · next upload _ =>
    have hhash : BlobStore.Recorded hashed { s with hashed := upload.hashed :: s.hashed } :=
      ⟨fun c hc => List.mem_cons_of_mem _ (h.1 c hc), h.2⟩
    unfold commit
    dsimp only
    split
    · exact hhash
    · split <;> exact hhash
  · exact h.install io owner w.id _
  · exact h.releaseSlot owner w.id
  · exact h.releaseSlot owner w.id
  · exact h.removePart owner w.id io.unlinked
  · split <;> exact hevict (some w.id)

theorem Recorded.step (h : s.Recorded hashed) (l : Label) : (s.step l).Recorded hashed := by
  cases l with
  | write owner id total offset data io =>
    simp only [BlobStore.step]
    split
    · exact h
    · exact h.writeChunk io owner id total offset data
  | advance owner io =>
    simp only [BlobStore.step]
    split
    · next w _ => exact h.advance io owner w
    · exact h
  | joinError owner error =>
    simp only [BlobStore.step]
    split
    · next w _ => exact h.releaseSlot owner w.id
    · exact h
  | read id offset maxLen =>
    have htouch : (s.touch id).Recorded hashed := h.still (still_touch s id)
    simp only [BlobStore.step, readChunk]
    split
    · exact htouch
    · split <;> exact htouch
  | advanceRead i io =>
    simp only [BlobStore.step]
    split
    · next r _ =>
      cases r with
      | «open» id offset len size =>
        simp only [advanceRead]
        split
        · split <;> exact h
        · exact h
      | read id file offset len size =>
        simp only [advanceRead]
        split <;> exact h
      | forget id =>
        have hremove := h.still (still_remove s id)
        exact hremove
    · exact h
  | dropRead | abort => exact h
  | missing ids =>
    simp only [BlobStore.step]
    split
    · exact h
    · have hmissing := h.still (still_inner s _ (BlobInner.alike_missingIds ids s.inner []))
      exact hmissing
  | abortUploads order owner =>
    simp only [BlobStore.step]
    split
    · exact h.still (still_foldl dropUpload still_dropUpload _ s)
    · exact h
  | sweepStaleUploads order now => exact h.still (still_foldl dropUpload still_dropUpload _ s)
  | removal i io =>
    simp only [BlobStore.step]
    split
    · next key _ => exact h.removePart key.1 key.2 io.unlinked
    · exact h
  | evict io => exact h.still (still_evictToFit s io none)
  | pins op => exact h.still (still_inner s _ (BlobInner.alike_pinOp s.inner s.maxBytes op))

theorem Recorded.run (h : s.Recorded hashed) (labels : List Label) :
    (runFrom BlobStore.step s labels).Recorded hashed := by
  induction labels generalizing s with
  | nil => exact h
  | cons l rest ih => exact ih (h.step l)

theorem Intact.recorded (h : s.Intact) : s.Recorded s.hashed := by
  refine ⟨fun c hc => hc, fun id size hsize => ?_⟩
  obtain ⟨n, hn, -⟩ := h.indexed id size hsize
  exact Option.isSome_iff_exists.mpr ⟨n, hn⟩

theorem NoCollision.mono {hashed hashed' : List Bytes} (h : NoCollision hashed')
    (hsub : ∀ c ∈ hashed, c ∈ hashed') : NoCollision hashed :=
  fun a ha b hb => h a (hsub a ha) b (hsub b hb)

theorem Intact.run (h : s.Intact) (labels : List Label)
    (hcol : NoCollision (runFrom BlobStore.step s labels).hashed) : (runFrom BlobStore.step s labels).Intact := by
  induction labels generalizing s with
  | nil => exact h
  | cons l rest ih => exact ih (h.step (hcol.mono (h.recorded.run (l :: rest)).1) l) hcol

/-! ## A store just opened -/

/-- Nothing is in flight. -/
structure Quiet (s : BlobStore) : Prop where
  writes : ∀ owner, s.writes.get owner = none
  uploads : ∀ key, s.inner.uploads.get key = none
  reads : s.reads = []
  replies : s.replies = []

omit [Host] in
theorem Quiet.not_live (h : s.Quiet) {owner : BlobOwner} {id : BlobId} {u : Upload} : ¬s.Live owner id u := by
  rintro (hidle | ⟨w, hw, -⟩)
  · rw [h.uploads] at hidle
    cases hidle
  · rw [h.writes] at hw
    cases hw

/-- A store with nothing in flight is intact if its objects and its index are. -/
theorem Quiet.intact (h : s.Quiet)
    (objects : ∀ id n, s.files.names.get (.object id) = some n →
      BlobId.of (s.files.contents n) = id ∧ s.files.contents n ∈ s.hashed)
    (indexed : ∀ id size, s.inner.sizeOf id = some size →
      ∃ n, s.files.names.get (.object id) = some n ∧ (s.files.contents n).length = size) :
    s.Intact where
  objects := objects
  indexed := indexed
  uploads _ _ _ hu := absurd hu h.not_live
  distinct _ _ _ _ _ _ hu := absurd hu h.not_live
  exclusive owner w hw := by
    rw [h.writes] at hw
    cases hw
  phases owner w hw := by
    rw [h.writes] at hw
    cases hw
  reads r hr := by
    rw [h.reads] at hr
    cases hr
  replies r hr := by
    rw [h.replies] at hr
    cases hr

variable (maxBytes : Nat)

omit [Host] in
theorem new_quiet : (new maxBytes).Quiet :=
  ⟨fun owner => FMap.get_empty owner, fun key => FMap.get_empty key, rfl, rfl⟩

theorem new_intact : (new maxBytes).Intact := by
  refine (new_quiet maxBytes).intact (fun id n hn => ?_) fun id size hsize => ?_
  · rw [show (new maxBytes).files.names.get (.object id) = none from FMap.get_empty _] at hn
    cases hn
  · rw [show (new maxBytes).inner.sizeOf id = none from
      congrArg (Option.map BlobEntry.size) (FMap.get_empty id)] at hsize
    cases hsize

theorem Intact.adopt (h : s.Intact) (hq : s.Quiet) {object : BlobId × Bytes}
    (hid : BlobId.of object.2 = object.1) : (s.adopt object).Intact ∧ (s.adopt object).Quiet := by
  unfold BlobStore.adopt
  split
  · exact ⟨h, hq⟩
  next hnone =>
  dsimp only
  have hc := s.files.create_creates (.object object.1)
  generalize (s.files.create (.object object.1)).1 = n at hc ⊢
  generalize (s.files.create (.object object.1)).2 = files at hc ⊢
  have hfresh : ∀ m, m < s.files.next → m ≠ n := by
    rintro m hlt rfl
    rw [hc.old hlt] at hnone
    cases hnone
  have hcontent : (files.append n object.2).contents n = object.2 := by
    rw [FileSystem.contents_append_self, hc.blank, List.nil_append]
  have hkept : ∀ id m, s.files.names.get (.object id) = some m →
      (files.append n object.2).contents m = s.files.contents m := by
    intro id m hm
    have hne := hfresh m (s.files.names_lt _ _ hm)
    rw [FileSystem.contents_append_ne _ _ _ hne, hc.kept m hne]
  have hother : ∀ id, id ≠ object.1 →
      files.names.get (.object id) = s.files.names.get (.object id) :=
    fun id hne => hc.others _ (by simpa using hne)
  have hq' : BlobStore.Quiet
      { s with files := files.append n object.2, hashed := object.2 :: s.hashed } :=
    ⟨hq.writes, hq.uploads, hq.reads, hq.replies⟩
  have h' := hq'.intact (fun id m hm => ?_) fun id size hsize => ?_
  · refine ⟨h'.index hc.here (by rw [show _ = object.2 from hcontent]), hq.writes, ?_, hq.reads, hq.replies⟩
    intro key
    show (s.inner.insert object.1 object.2.length).uploads.get key = none
    rw [BlobInner.uploads_insert]
    exact hq.uploads key
  · by_cases heq : id = object.1
    · subst heq
      have hn : m = n := Option.some.inj (hm.symm.trans hc.here)
      rw [hn]
      exact ⟨(congrArg BlobId.of hcontent).trans hid, by rw [show _ = object.2 from hcontent]; exact List.mem_cons_self⟩
    have hm' : s.files.names.get (.object id) = some m := (hother id heq).symm.trans hm
    obtain ⟨hold, hmem⟩ := h.objects id m hm'
    rw [show _ = s.files.contents m from hkept id m hm']
    exact ⟨hold, List.mem_cons_of_mem _ hmem⟩
  obtain ⟨m, hm, hlen⟩ := h.indexed id size hsize
  have hne : id ≠ object.1 := by
    rintro rfl
    rw [hm] at hnone
    cases hnone
  exact ⟨m, (hother id hne).trans hm, (congrArg List.length (hkept id m hm)).trans hlen⟩

theorem openDir_intact (objects : List (BlobId × Bytes)) (removed : BlobId → Bool)
    (hobjects : ∀ object ∈ objects, BlobId.of object.2 = object.1) : (openDir maxBytes objects removed).Intact := by
  have hadopt : ∀ (l : List (BlobId × Bytes)) (s : BlobStore), s.Intact → s.Quiet →
      (∀ object ∈ l, BlobId.of object.2 = object.1) → (l.foldl BlobStore.adopt s).Intact := by
    intro l
    induction l with
    | nil => exact fun s h _ _ => h
    | cons object rest ih =>
      intro s h hq hl
      obtain ⟨h', hq'⟩ := h.adopt hq (hl object List.mem_cons_self)
      exact ih _ h' hq' fun o ho => hl o (List.mem_cons_of_mem _ ho)
  exact (hadopt objects (new maxBytes) (new_intact maxBytes) (new_quiet maxBytes) hobjects).still
    (still_foldl _ (fun s id => still_evictOne s _ id) _ _)

/-- The content named `id` among those whose digest was computed. -/
def content (s : BlobStore) (id : BlobId) : Option Bytes := s.hashed.find? fun c => BlobId.of c = id

theorem content_eq (hcol : NoCollision s.hashed) {c : Bytes} (hc : c ∈ s.hashed) :
    s.content (BlobId.of c) = some c := by
  unfold content
  cases hfind : s.hashed.find? fun c' => decide (BlobId.of c' = BlobId.of c) with
  | none =>
    rw [List.find?_eq_none] at hfind
    exact absurd (hfind c hc) (by simp)
  | some c' =>
    have hid : BlobId.of c' = BlobId.of c := by simpa using List.find?_some hfind
    rw [hcol c' (List.mem_of_find?_eq_some hfind) c hc hid]

/-- **Integrity of the blob store.**  Open a directory whose object files hash to their names and let any
owners, readers, sweeps, aborts, evictions and pins interleave, with any chunks, offsets and sizes and
any file operations failing.  As long as no two hashed contents collide, every indexed blob has an
object file with its content and the indexed size, and every chunk ever answered is the stated range of
its blob's content and states that content's length. -/
theorem blob_store_integrity (maxBytes : Nat) (objects : List (BlobId × Bytes))
    (removed : BlobId → Bool) (hobjects : ∀ object ∈ objects, BlobId.of object.2 = object.1) (labels : List Label)
    (hcol : NoCollision (runFrom step (openDir maxBytes objects removed) labels).hashed) :
    let s := runFrom step (openDir maxBytes objects removed) labels
    (∀ id entry, s.inner.entries.get id = some entry →
      ∃ c, s.files.read (.object id) = some c ∧ s.content id = some c ∧ BlobId.of c = id ∧
        c.length = entry.size) ∧
    ∀ id offset total data, .chunk id offset total data ∈ s.replies →
      ∃ c, s.content id = some c ∧ BlobId.of c = id ∧ total = c.length ∧
        offset + data.length ≤ c.length ∧ data = (c.drop offset).take data.length := by
  intro s
  have h : s.Intact := (openDir_intact maxBytes objects removed hobjects).run labels hcol
  refine ⟨fun id entry hentry => ?_, fun id offset total data hchunk => ?_⟩
  · obtain ⟨n, hn, hlen⟩ := h.indexed id entry.size (congrArg (Option.map BlobEntry.size) hentry)
    obtain ⟨rfl, hmem⟩ := h.objects id n hn
    exact ⟨s.files.contents n, congrArg (Option.map s.files.contents) hn, content_eq hcol hmem, rfl,
      hlen⟩
  · obtain ⟨c, ⟨hmem, rfl, hsize, hlen⟩, hdata⟩ := h.replies _ hchunk
    exact ⟨c, content_eq hcol hmem, rfl, hsize, hlen, hdata⟩
end Integrity

section Upload

attribute [local instance] Host.blank

/-- Two chunks of one upload with an eviction pass before the first, then a read of the whole blob. -/
def uploadAndRead : List Label :=
  [.write 1 ⟨0⟩ 2 0 [7] .fine, .advance 1 .fine, .advance 1 .fine, .advance 1 .fine, .advance 1 .fine,
    .write 1 ⟨0⟩ 2 1 [9] .fine, .advance 1 .fine, .advance 1 .fine, .advance 1 .fine, .advance 1 .fine,
    .read ⟨0⟩ 0 10, .advanceRead 0 .fine, .advanceRead 0 .fine]

theorem blob_store_integrity_uploaded :
    let s := runFrom step (openDir 10 [] fun _ => true) uploadAndRead
    .chunk ⟨0⟩ 0 2 [7, 9] ∈ s.replies ∧ ∃ c, s.content ⟨0⟩ = some c ∧ 2 = c.length ∧
      [7, 9] = (c.drop 0).take 2 := by
  intro s
  have hchunk : .chunk ⟨0⟩ 0 2 [7, 9] ∈ s.replies := by decide
  obtain ⟨c, hc, -, hsize, -, hdata⟩ :=
    (blob_store_integrity 10 [] (fun _ => true) nofun uploadAndRead (by decide)).2 _ _ _ _ hchunk
  exact ⟨hchunk, c, hc, hsize, hdata⟩

end Upload

end BlobStore

end OxideSwarm
