import OxideSwarm.Blob.Intact
import Mathlib.Logic.Relation

/-!
# What a step of the blob store does to its index

Under the lock a step makes a few elementary changes one after the other (`BlobInner.Change`): it touches,
indexes or evicts a blob, gives an upload's bytes back or swaps its slot.  A first chunk reserves bytes
(`BlobInner.Reservation`), a read that found no file forgets its blob, and pins are steps of their own
(`StepChange`).  `step_change` says that this is all; what holds along every run is then proved once for
each elementary change.
-/

namespace OxideSwarm

namespace BlobInner

/-- One elementary change. -/
inductive Change (s : BlobInner) : BlobInner → Prop where
  | touch (id : BlobId) : Change s (s.touch id)
  | insert (id : BlobId) (size : Nat) : Change s (s.insert id size)
  | evict {id : BlobId} (unpinned : s.pinCounts.get id = none) : Change s (s.remove id)
  | release {key : BlobOwner × BlobId} {slot : UploadSlot} (get : s.uploads.get key = some slot) :
      Change s { s with uploads := s.uploads.del key, uploadBytes := s.uploadBytes - slot.total }
  | swap {key : BlobOwner × BlobId} {slot slot' : UploadSlot} (get : s.uploads.get key = some slot)
      (same : slot'.total = slot.total) : Change s { s with uploads := s.uploads.set key slot' }

/-- Elementary changes one after the other. -/
abbrev Changes : BlobInner → BlobInner → Prop := Relation.ReflTransGen Change

/-- Bytes are reserved for a new upload. -/
inductive Reservation (maxBytes : Nat) (s : BlobInner) : BlobInner → Prop where
  | mk {key : BlobOwner × BlobId} {total : Nat} (free : s.uploads.get key = none)
      (room : s.uploadBytes + total ≤ maxBytes) : Reservation maxBytes s { s with
        uploadBytes := s.uploadBytes + total
        uploads := s.uploads.set key (.writing total) }

/-- Every slot of `s'` was one of `s` with the same size. -/
def SlotsKept (s s' : BlobInner) : Prop :=
  ∀ key slot', s'.uploads.get key = some slot' →
    ∃ slot, s.uploads.get key = some slot ∧ slot'.total = slot.total

theorem slotsKept_of_eq {s s' : BlobInner} (h : s'.uploads = s.uploads) : SlotsKept s s' := by
  intro key slot' hslot
  rw [h] at hslot
  exact ⟨slot', hslot, rfl⟩

theorem Change.slots {s s' : BlobInner} (h : Change s s') : SlotsKept s s' := by
  cases h with
  | touch id => exact slotsKept_of_eq (uploads_touch s id)
  | insert id size => exact slotsKept_of_eq (uploads_insert s id size)
  | evict unpinned => exact slotsKept_of_eq (uploads_remove s _)
  | release get =>
    intro key' slot' hslot
    rw [FMap.get_del] at hslot
    split at hslot
    · cases hslot
    · exact ⟨slot', hslot, rfl⟩
  | swap get same =>
    intro key' slot' hslot
    rw [FMap.get_set] at hslot
    split at hslot
    · next heq =>
      cases hslot
      exact ⟨_, by rw [heq]; exact get, same⟩
    · exact ⟨slot', hslot, rfl⟩

theorem Changes.slots {s s' : BlobInner} (h : Changes s s') : SlotsKept s s' := by
  induction h with
  | refl => exact fun _ slot' hslot => ⟨slot', hslot, rfl⟩
  | tail _ hlast ih =>
    intro key slot'' hslot
    obtain ⟨slot', hslot', htotal'⟩ := hlast.slots key slot'' hslot
    obtain ⟨slot, hget, htotal⟩ := ih key slot' hslot'
    exact ⟨slot, hget, htotal'.trans htotal⟩

theorem victims_unpinned (s : BlobInner) (keep : Option BlobId) (l : List BlobId) :
    ∀ excess room, ∀ id ∈ s.victims keep excess room l, s.pinCounts.get id = none := by
  induction l with
  | nil =>
    intro excess room id hid
    cases hid
  | cons x rest ih =>
    intro excess room id hid
    unfold victims at hid
    split at hid
    · cases hid
    split at hid
    · exact ih _ _ id hid
    next hfree =>
    rcases List.mem_cons.mp hid with rfl | hid
    · rw [not_or] at hfree
      simpa using hfree.1
    · exact ih _ _ id hid

@[simp] theorem pinCounts_remove (s : BlobInner) (id : BlobId) : (s.remove id).pinCounts = s.pinCounts := by
  unfold remove
  split <;> rfl

theorem changes_missingIds (ids : List BlobId) :
    ∀ (s : BlobInner) (seen : List BlobId), Changes s (s.missingIds seen ids).2 := by
  induction ids with
  | nil => exact fun s seen => .refl
  | cons id rest ih =>
    intro s seen
    unfold missingIds
    split
    · exact ih s seen
    · exact .head (.touch id) (ih (s.touch id) (id :: seen))

end BlobInner

namespace BlobStore

open BlobInner

/-! ## Steps that reserve nothing -/

/-- The index changes elementarily, the writes in flight stay. -/
structure Tends (s s' : BlobStore) : Prop where
  maxBytes : s'.maxBytes = s.maxBytes
  changes : Changes s.inner s'.inner
  writes : s'.writes = s.writes

theorem Tends.refl (s : BlobStore) : Tends s s := ⟨rfl, .refl, rfl⟩

theorem Tends.trans {s s' s'' : BlobStore} (h : Tends s s') (h' : Tends s' s'') : Tends s s'' :=
  ⟨h'.maxBytes.trans h.maxBytes, h.changes.trans h'.changes, h'.writes.trans h.writes⟩

theorem tends_change {s : BlobStore} {inner : BlobInner} (h : Change s.inner inner) :
    Tends s { s with inner := inner } :=
  ⟨rfl, .single h, rfl⟩

section

variable (s : BlobStore)

theorem tends_touch (id : BlobId) : Tends s (s.touch id) := tends_change (.touch id)

theorem tends_index (id : BlobId) (size : Nat) : Tends s (s.index id size) := tends_change (.insert id size)

theorem tends_releaseSlot (owner : BlobOwner) (id : BlobId) : Tends s (s.releaseSlot owner id) := by
  unfold releaseSlot
  split
  · next slot hslot => exact tends_change (.release hslot)
  · exact .refl s

theorem tends_removeFile (path : BlobPath) (ok : Bool) : Tends s (s.removeFile path ok) := by
  unfold removeFile
  split
  · exact ⟨rfl, .refl, rfl⟩
  · exact .refl s

theorem tends_evictAll (io : Io) (ids : List BlobId) :
    ∀ s : BlobStore, (∀ id ∈ ids, s.inner.pinCounts.get id = none) → Tends s (ids.foldl (evictOne io) s) := by
  induction ids with
  | nil => exact fun s _ => Tends.refl s
  | cons id rest ih =>
    intro s hfree
    have hone : Tends s (evictOne io s id) :=
      (tends_change (.evict (hfree id List.mem_cons_self))).trans (tends_removeFile _ _ _)
    have hpins : (evictOne io s id).inner.pinCounts = s.inner.pinCounts := by
      unfold evictOne removeFile
      split
      · exact pinCounts_remove s.inner id
      · exact pinCounts_remove s.inner id
    refine hone.trans (ih _ fun x hx => ?_)
    rw [hpins]
    exact hfree x (List.mem_cons_of_mem _ hx)

theorem tends_evictToFit (io : Io) (keep : Option BlobId) : Tends s (s.evictToFit io keep).2 :=
  tends_evictAll io _ s fun id hid => victims_unpinned s.inner keep _ _ _ id hid

theorem tends_dropUpload (key : BlobOwner × BlobId) : Tends s (s.dropUpload key) := by
  unfold dropUpload
  split
  · exact (tends_releaseSlot s key.1 key.2).trans ⟨rfl, .refl, rfl⟩
  · exact tends_releaseSlot s key.1 key.2

theorem tends_dropUploads (keys : List (BlobOwner × BlobId)) :
    ∀ s : BlobStore, Tends s (keys.foldl dropUpload s) := by
  induction keys with
  | nil => exact fun s => Tends.refl s
  | cons key rest ih => exact fun s => (tends_dropUpload s key).trans (ih _)

theorem tends_alreadyHere (io : Io) (owner : BlobOwner) (id : BlobId) (total : Nat) :
    Tends s (s.alreadyHere io owner id total) := by
  unfold alreadyHere
  split
  · exact ((tends_releaseSlot s owner id).trans (tends_removeFile _ _ _)).trans ⟨rfl, .refl, rfl⟩
  · exact (tends_releaseSlot s owner id).trans ⟨rfl, .refl, rfl⟩

theorem tends_readChunk (id : BlobId) (offset maxLen : Nat) : Tends s (s.readChunk id offset maxLen) := by
  unfold readChunk
  split
  · exact (tends_touch s id).trans ⟨rfl, .refl, rfl⟩
  · split
    · exact (tends_touch s id).trans ⟨rfl, .refl, rfl⟩
    · exact (tends_touch s id).trans ⟨rfl, .refl, rfl⟩

end

/-! ## Writes -/

end BlobStore

/-- The bytes a write in flight has reserved. -/
def WritePhase.reserved : WritePhase → Option Nat
  | .evict total _ _ | .create total _ _ => some total
  | .append _ _ _ upload | .putBack upload | .commit upload | .install upload => some upload.total
  | _ => none

namespace BlobStore

open BlobInner

/-- The slot of a write in flight is as large as the write says. -/
def Reserved (s : BlobStore) : Prop :=
  ∀ owner w, s.writes.get owner = some w → ∀ n ∈ w.phase.reserved, ∀ slot,
    s.inner.uploads.get (owner, w.id) = some slot → slot.total = n

/-- The write of `owner` moves on, or is over. -/
structure Moves (s s' : BlobStore) (owner : BlobOwner) (w : Write) : Prop where
  maxBytes : s'.maxBytes = s.maxBytes
  changes : Changes s.inner s'.inner
  others : ∀ o, o ≠ owner → s'.writes.get o = s.writes.get o
  own : ∀ w', s'.writes.get owner = some w' → w'.id = w.id ∧ ∀ n ∈ w'.phase.reserved, n ∈ w.phase.reserved

theorem Tends.goto {s s' : BlobStore} (h : Tends s s') (owner : BlobOwner) {w : Write} {phase : WritePhase}
    (hphase : ∀ n ∈ phase.reserved, n ∈ w.phase.reserved) : Moves s (s'.goto owner w.id phase) owner w where
  maxBytes := h.maxBytes
  changes := h.changes
  others o ho := by
    show (s'.writes.set owner _).get o = _
    rw [FMap.get_set, if_neg ho, h.writes]
  own w' hw' := by
    replace hw' : (s'.writes.set owner _).get owner = some w' := hw'
    rw [FMap.get_set, if_pos rfl] at hw'
    cases hw'
    exact ⟨rfl, hphase⟩

theorem Tends.finish {s s' : BlobStore} (h : Tends s s') (owner : BlobOwner) (w : Write) (r : BlobReply) :
    Moves s (s'.finish owner r) owner w where
  maxBytes := h.maxBytes
  changes := h.changes
  others o ho := by
    show (s'.writes.del owner).get o = _
    rw [FMap.get_del, if_neg ho, h.writes]
  own w' hw' := by
    replace hw' : (s'.writes.del owner).get owner = some w' := hw'
    rw [FMap.get_del, if_pos rfl] at hw'
    cases hw'

theorem Tends.moves {s s' : BlobStore} (h : Tends s s') {owner : BlobOwner} {w : Write}
    (hw : s.writes.get owner = some w) : Moves s s' owner w where
  maxBytes := h.maxBytes
  changes := h.changes
  others o _ := by rw [h.writes]
  own w' hw' := by
    rw [h.writes] at hw'
    cases hw.symm.trans hw'
    exact ⟨rfl, fun _ hn => hn⟩

section

variable [Host] {s : BlobStore} {owner : BlobOwner} {w : Write}

omit [Host] in
theorem append_moves {io : Io} {total offset : Nat} {data : Bytes} {upload : Upload}
    (hphase : w.phase = .append total offset data upload) :
    Moves s (s.append io owner w.id total offset data upload) owner w := by
  have hfiles : ∀ files, Tends s (s.withFiles files) := fun _ => ⟨rfl, .refl, rfl⟩
  unfold append
  split
  · exact (Tends.refl s).goto owner nofun
  split
  · dsimp only
    split
    · exact (hfiles _).goto owner (by rw [hphase]; exact fun _ hn => hn)
    · exact (hfiles _).goto owner (by rw [hphase]; exact fun _ hn => hn)
  · exact (hfiles _).goto owner nofun

omit [Host] in
theorem putBack_moves (h : s.Reserved) (hw : s.writes.get owner = some w) {upload : Upload}
    (hphase : w.phase = .putBack upload) : Moves s (s.putBack owner w.id upload) owner w := by
  unfold putBack
  split
  · next total hslot =>
    have htotal : (UploadSlot.idle upload).total = (UploadSlot.writing total).total :=
      (h owner w hw upload.total (by rw [hphase]; rfl) _ hslot).symm
    exact (tends_change (.swap hslot htotal)).finish owner w _
  · exact (Tends.refl s).goto owner nofun

theorem commit_moves {io : Io} {upload : Upload} (hphase : w.phase = .commit upload) :
    Moves s (s.commit io owner w.id upload) owner w := by
  have hhashed : Tends s { s with hashed := upload.hashed :: s.hashed } := ⟨rfl, .refl, rfl⟩
  unfold commit
  split
  · exact hhashed.goto owner nofun
  · split
    · exact hhashed.goto owner (by rw [hphase]; exact fun _ hn => hn)
    · exact hhashed.goto owner nofun

omit [Host] in
theorem install_moves {io : Io} {upload : Upload} : Moves s (s.install io owner w.id upload) owner w := by
  unfold install
  split
  · exact (Tends.refl s).goto owner nofun
  have hrelease := tends_releaseSlot s owner w.id
  dsimp only
  split
  · next files _ =>
    have hfiles : Tends s ((s.releaseSlot owner w.id).withFiles files) :=
      hrelease.trans ⟨rfl, .refl, rfl⟩
    exact (hfiles.trans (tends_index _ _ _)).goto owner nofun
  have hremove := hrelease.trans (tends_removeFile _ (.part owner w.id) io.unlinked)
  split
  · exact (hremove.trans (tends_index _ _ _)).goto owner nofun
  · exact hremove.finish owner w _

theorem advance_moves (h : s.Reserved) (hw : s.writes.get owner = some w) (io : Io) :
    Moves s (s.advance io owner w) owner w := by
  unfold advance
  split
  · next total offset data hphase =>
    split
    · exact (tends_evictToFit s io none).moves hw
    · exact (tends_evictToFit s io none).goto owner (by rw [hphase]; exact fun _ hn => hn)
  · next total offset data hphase =>
    unfold create
    split
    · have hfiles : Tends s (s.withFiles (s.files.create (.part owner w.id)).2) := ⟨rfl, .refl, rfl⟩
      exact hfiles.goto owner (by rw [hphase]; exact fun _ hn => hn)
    · exact (Tends.refl s).goto owner nofun
  · next hphase => exact append_moves hphase
  · next hphase => exact putBack_moves h hw hphase
  · next hphase => exact commit_moves hphase
  · exact install_moves
  · exact (tends_releaseSlot s owner w.id).goto owner nofun
  · exact (tends_releaseSlot s owner w.id).finish owner w _
  · exact (tends_removeFile s _ _).finish owner w _
  · split
    · exact (tends_evictToFit s io _).moves hw
    · exact (tends_evictToFit s io _).finish owner w _

end

/-! ## The first chunk of a write -/

/-- What `write_chunk` does under its lock: it answers at once, or the write gets a slot and goes on. -/
inductive Begins (s : BlobStore) (owner : BlobOwner) (id : BlobId) : BlobStore → Prop where
  | answered {s' : BlobStore} (tends : Tends s s') : Begins s owner id s'
  | opened {mid : BlobStore} {inner : BlobInner} {phase : WritePhase} {n : Nat} (tends : Tends s mid)
      (change : Change mid.inner inner ∨ Reservation s.maxBytes mid.inner inner)
      (slot : inner.uploads.get (owner, id) = some (.writing n))
      (others : ∀ key, key ≠ (owner, id) → inner.uploads.get key = mid.inner.uploads.get key)
      (reserved : phase.reserved = some n) :
      Begins s owner id (goto { mid with inner := inner } owner id phase)

section

variable {s : BlobStore} {owner : BlobOwner} {id : BlobId}

theorem uploads_releaseSlot (s : BlobStore) (owner : BlobOwner) (id : BlobId) :
    (s.releaseSlot owner id).inner.uploads.get (owner, id) = none := by
  unfold releaseSlot
  split
  · rw [FMap.get_del, if_pos rfl]
  · next hnone => exact hnone

theorem reserve_begins {mid : BlobStore} (h : Tends s mid) (hfree : mid.inner.uploads.get (owner, id) = none)
    (total offset : Nat) (data : Bytes) : Begins s owner id (mid.reserve owner id total offset data) := by
  unfold reserve
  split
  · exact .answered (h.trans ⟨rfl, .refl, rfl⟩)
  next hroom =>
  show Begins s owner id (goto { mid with inner := { mid.inner with
    uploadBytes := mid.inner.uploadBytes + total
    uploads := mid.inner.uploads.set (owner, id) (.writing total) } } owner id (.evict total offset data))
  refine .opened (n := total) h (Or.inr (.mk hfree ?_)) ?_ (fun key hkey => ?_) rfl
  · rw [h.maxBytes] at hroom
    exact Nat.le_of_not_lt hroom
  · rw [FMap.get_set, if_pos rfl]
  · rw [FMap.get_set, if_neg hkey]

theorem openSlot_begins {mid : BlobStore} (h : Tends s mid) (io : Io) (total offset : Nat) (data : Bytes) :
    Begins s owner id (mid.openSlot io owner id total offset data) := by
  unfold openSlot
  split
  · exact .answered (h.trans ⟨rfl, .refl, rfl⟩)
  · next upload hslot =>
    split
    · refine .opened (n := upload.total) h (Or.inl (.swap hslot rfl)) ?_ (fun key hkey => ?_) rfl
      · rw [FMap.get_set, if_pos rfl]
      · rw [FMap.get_set, if_neg hkey]
    · refine reserve_begins (h.trans ((tends_releaseSlot mid owner id).trans (tends_removeFile _ _ _))) ?_ _ _ _
      unfold removeFile
      split <;> exact uploads_releaseSlot mid owner id
  next hnone =>
  split
  · exact reserve_begins h hnone _ _ _
  · exact .answered (h.trans ⟨rfl, .refl, rfl⟩)

theorem writeChunk_begins (io : Io) (total offset : Nat) (data : Bytes) :
    Begins s owner id (s.writeChunk io owner id total offset data) := by
  unfold writeChunk
  split
  · exact .answered ⟨rfl, .refl, rfl⟩
  · split
    · exact .answered ((tends_touch s id).trans (tends_alreadyHere _ _ _ _ _))
    · exact openSlot_begins (tends_touch s id) io total offset data

end

/-! ## All steps -/

/-- What a step does to the index. -/
inductive StepChange (s : BlobStore) : Label → BlobInner → Prop where
  | plain {l : Label} {inner : BlobInner} (changes : Changes s.inner inner) : StepChange s l inner
  | reserve {l : Label} {mid inner : BlobInner} (changes : Changes s.inner mid)
      (reserved : Reservation s.maxBytes mid inner) : StepChange s l inner
  | forget {i : Nat} {io : Io} {id : BlobId} (read : s.reads[i]? = some (.forget id)) :
      StepChange s (.advanceRead i io) (s.inner.remove id)
  | pins {op : PinOp} : StepChange s (.pins op) (op.apply s.inner s.maxBytes)

section

variable {s : BlobStore}

theorem Begins.change {owner : BlobOwner} {id : BlobId} {s' : BlobStore} (h : Begins s owner id s') (l : Label) :
    StepChange s l s'.inner ∧ s'.maxBytes = s.maxBytes := by
  cases h with
  | answered tends => exact ⟨.plain tends.changes, tends.maxBytes⟩
  | opened tends change slot others reserved =>
    refine ⟨?_, tends.maxBytes⟩
    rcases change with hchange | hreserve
    · exact .plain (tends.changes.tail hchange)
    · exact .reserve tends.changes hreserve

theorem advanceRead_change (i : Nat) (io : Io) {r : ReadPhase} (hr : s.reads[i]? = some r) :
    StepChange s (.advanceRead i io) (s.advanceRead io r).2.inner ∧
      (s.advanceRead io r).2.maxBytes = s.maxBytes ∧ (s.advanceRead io r).2.writes = s.writes ∧
      (s.advanceRead io r).2.inner.uploads = s.inner.uploads := by
  have hsame : ∀ s' : BlobStore, s'.inner = s.inner → StepChange s (.advanceRead i io) s'.inner := by
    intro s' hinner
    rw [hinner]
    exact .plain .refl
  cases r with
  | «open» id offset len size =>
    simp only [advanceRead]
    split
    · split <;> exact ⟨hsame _ rfl, rfl, rfl, rfl⟩
    · exact ⟨hsame _ rfl, rfl, rfl, rfl⟩
  | read id file offset len size =>
    simp only [advanceRead]
    split <;> exact ⟨hsame _ rfl, rfl, rfl, rfl⟩
  | forget id => exact ⟨.forget hr, rfl, rfl, uploads_remove s.inner id⟩

/-! ## Reservations over a step -/

theorem Reserved.keeps (h : s.Reserved) {s' : BlobStore} (hslots : SlotsKept s.inner s'.inner)
    (hwrites : ∀ o w', s'.writes.get o = some w' → ∃ w, s.writes.get o = some w ∧ w'.id = w.id ∧
      ∀ n ∈ w'.phase.reserved, n ∈ w.phase.reserved) : s'.Reserved := by
  intro owner w' hw' n hn slot' hslot'
  obtain ⟨w, hw, hid, hphase⟩ := hwrites owner w' hw'
  obtain ⟨slot, hslot, htotal⟩ := hslots _ slot' hslot'
  rw [hid] at hslot
  rw [htotal]
  exact h owner w hw n (hphase n hn) slot hslot

theorem Reserved.tends (h : s.Reserved) {s' : BlobStore} (ht : Tends s s') : s'.Reserved := by
  refine h.keeps (Changes.slots ht.changes) fun o w' hw' => ⟨w', ?_, rfl, fun _ hn => hn⟩
  rw [← ht.writes]
  exact hw'

theorem Reserved.moves (h : s.Reserved) {s' : BlobStore} {owner : BlobOwner} {w : Write}
    (hm : Moves s s' owner w) (hw : s.writes.get owner = some w) : s'.Reserved := by
  refine h.keeps (Changes.slots hm.changes) fun o w' hw' => ?_
  by_cases ho : o = owner
  · subst ho
    exact ⟨w, hw, hm.own w' hw'⟩
  · rw [hm.others o ho] at hw'
    exact ⟨w', hw', rfl, fun _ hn => hn⟩

theorem Reserved.begins (h : s.Reserved) {s' : BlobStore} {owner : BlobOwner} {id : BlobId}
    (hb : Begins s owner id s') : s'.Reserved := by
  cases hb with
  | answered tends => exact h.tends tends
  | @opened mid inner phase n tends change slot others reserved =>
    have hmid := h.tends tends
    intro o w hw k hk slot' hslot'
    replace hw : (mid.writes.set owner ⟨id, phase⟩).get o = some w := hw
    replace hslot' : inner.uploads.get (o, w.id) = some slot' := hslot'
    rw [FMap.get_set] at hw
    split at hw
    · next ho =>
      cases hw
      subst ho
      cases reserved.symm.trans hk
      cases slot.symm.trans hslot'
      rfl
    · next ho =>
      rw [others _ fun heq => ho (congrArg Prod.fst heq)] at hslot'
      exact hmid o w hw k hk slot' hslot'

variable [Host]

/-- **One step.**  The index changes only in these ways, and the slots stay as large as the writes say. -/
theorem step_reserved (h : s.Reserved) (l : Label) :
    (StepChange s l (s.step l).inner ∧ (s.step l).maxBytes = s.maxBytes) ∧ (s.step l).Reserved := by
  have hsame : (StepChange s l s.inner ∧ s.maxBytes = s.maxBytes) ∧ s.Reserved := ⟨⟨.plain .refl, rfl⟩, h⟩
  have htends : ∀ {s' : BlobStore}, Tends s s' → (StepChange s l s'.inner ∧ s'.maxBytes = s.maxBytes) ∧ s'.Reserved :=
    fun ht => ⟨⟨.plain ht.changes, ht.maxBytes⟩, h.tends ht⟩
  have hmoves : ∀ {s' : BlobStore} {owner : BlobOwner} {w : Write}, s.writes.get owner = some w → Moves s s' owner w →
      (StepChange s l s'.inner ∧ s'.maxBytes = s.maxBytes) ∧ s'.Reserved :=
    fun hw hm => ⟨⟨.plain hm.changes, hm.maxBytes⟩, h.moves hm hw⟩
  cases l with
  | write owner id total offset data io =>
    simp only [step]
    split
    · exact hsame
    · have hbegins := @writeChunk_begins s owner id io total offset data
      exact ⟨hbegins.change _, h.begins hbegins⟩
  | advance owner io =>
    simp only [step]
    split
    · next w hw => exact hmoves hw (advance_moves h hw io)
    · exact hsame
  | joinError owner error =>
    simp only [step]
    split
    · next w hw => exact hmoves hw ((tends_releaseSlot s owner w.id).finish owner w _)
    · exact hsame
  | read id offset maxLen => exact htends (tends_readChunk s id offset maxLen)
  | advanceRead i io =>
    simp only [step]
    split
    · next r hr =>
      obtain ⟨hchange, hmax, hwrites, huploads⟩ := advanceRead_change i io hr
      exact ⟨⟨hchange, hmax⟩, h.keeps (slotsKept_of_eq huploads)
        fun o w' hw' => ⟨w', by rw [← hwrites]; exact hw', rfl, fun _ hn => hn⟩⟩
    · exact hsame
  | dropRead | abort => exact hsame
  | missing ids =>
    simp only [step]
    split
    · exact hsame
    · exact htends ⟨rfl, changes_missingIds ids s.inner [], rfl⟩
  | abortUploads order owner =>
    simp only [step]
    split
    · exact htends (tends_dropUploads _ s)
    · exact hsame
  | sweepStaleUploads order now => exact htends (tends_dropUploads _ s)
  | removal i io =>
    simp only [step]
    split
    · next key _ => exact htends ((tends_removeFile s (.part key.1 key.2) io.unlinked).trans ⟨rfl, .refl, rfl⟩)
    · exact hsame
  | evict io => exact htends (tends_evictToFit s io none)
  | pins op =>
    exact ⟨⟨.pins, rfl⟩, h.keeps (slotsKept_of_eq (alike_pinOp s.inner s.maxBytes op).2)
      fun o w' hw' => ⟨w', hw', rfl, fun _ hn => hn⟩⟩

theorem step_change (h : s.Reserved) (l : Label) : StepChange s l (s.step l).inner ∧ (s.step l).maxBytes = s.maxBytes :=
  (step_reserved h l).1

theorem Reserved.step (h : s.Reserved) (l : Label) : (s.step l).Reserved := (step_reserved h l).2

end

end BlobStore

end OxideSwarm
