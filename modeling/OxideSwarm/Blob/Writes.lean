import OxideSwarm.Blob.Intact

/-!
# Writing keeps the blob store intact

A write touches bytes in three places: it opens its temporary file (`Intact.create`), appends to it
(`Intact.rewrite`) and gives it the object's name (`Intact.move`).  From these, each phase of a write
keeps `Intact`.  That two uploads of one blob can both be installed, or a failed `rename` be answered by
the object that is already there, is where the absence of collisions is used.
-/

namespace OxideSwarm

namespace BlobStore

variable [Host]

/-! ## Steps that write -/

variable {w : Write}

/-- An upload that is live after a write moved on and is not the one it carries was live before, and
is not an upload of the same blob by the same owner. -/
theorem Intact.live_other {s : BlobStore} (h : s.Intact) {owner owner' : BlobOwner} {id' : BlobId} (hw : s.writes.get owner = some w) {u : Upload}
    (hu : s.inner.uploads.get (owner', id') = some (.idle u) ∨ (owner' ≠ owner ∧ s.Live owner' id' u)) :
    s.Live owner' id' u ∧ ¬(owner' = owner ∧ id' = w.id) := by
  rcases hu with hidle | ⟨hne, hlive⟩
  · refine ⟨Or.inl hidle, ?_⟩
    rintro ⟨rfl, rfl⟩
    exact h.exclusive owner' w hw u hidle
  · exact ⟨hlive, fun heq => hne heq.1⟩

variable {files : FileSystem BlobPath} {n : Nat}

/-- Only file `n`, which nothing but the temporary path of `owner`'s upload of `id` leads to and nobody else has open,
differs between the directory and `files`. -/
structure Fills (s : BlobStore) (owner : BlobOwner) (id : BlobId) (n : Nat) (files : FileSystem BlobPath) : Prop where
  others : ∀ p, p ≠ .part owner id → files.names.get p = s.files.names.get p
  mine : ∀ m, files.names.get (.part owner id) = some m → m = n
  kept : ∀ m, m ≠ n → files.contents m = s.files.contents m
  grows : s.files.next ≤ files.next
  lt : n < files.next
  fresh : ∀ p, s.files.names.get p = some n → p = .part owner id
  free : ∀ owner' id' u, s.Live owner' id' u → ¬(owner' = owner ∧ id' = id) → u.file ≠ n
  unread : ∀ id' offset len size, .read id' n offset len size ∉ s.reads

/-- A write changes its temporary file and moves on. -/
theorem Intact.fill {s : BlobStore} (h : s.Intact) {owner : BlobOwner} (hw : s.writes.get owner = some w)
    (hf : s.Fills owner w.id n files) {phase : WritePhase} (hphase : s.PhaseOk w.id phase)
    (hup : ∀ u', phase.upload? = some u' → u'.file = n ∧ files.contents n = u'.hashed ∧
      u'.received = u'.hashed.length ∧ u'.received ≤ u'.total) :
    ((s.withFiles files).goto owner w.id phase).Intact := by
  have hcases : ∀ owner' id' u', ((s.withFiles files).goto owner w.id phase).Live owner' id' u' →
      (owner' = owner ∧ id' = w.id ∧ phase.upload? = some u') ∨
      (s.Live owner' id' u' ∧ ¬(owner' = owner ∧ id' = w.id)) := by
    intro owner' id' u' hl
    rcases live_goto hl with hnew | hidle | hold
    · exact .inl hnew
    · exact .inr (h.live_other hw (Or.inl hidle))
    · exact .inr (h.live_other hw (Or.inr hold))
  have hobject : ∀ id' m, s.files.names.get (.object id') = some m → m ≠ n := by
    rintro id' m hm rfl
    exact absurd (hf.fresh _ hm) (by simp)
  refine ⟨?_, ?_, ?_, ?_, exclusive_goto h.exclusive (h.exclusive owner w hw),
    phased_goto h.phases hphase, ?_, ?_⟩
  · intro id' m hm
    have hm' : s.files.names.get (.object id') = some m := (hf.others _ (by simp)).symm.trans hm
    have hold := h.objects id' m hm'
    rw [← hf.kept m (hobject id' m hm')] at hold
    exact hold
  · intro id' size hsize
    obtain ⟨m, hm, hlen⟩ := h.indexed id' size hsize
    refine ⟨m, (hf.others _ (by simp)).trans hm, ?_⟩
    rw [← hf.kept m (hobject id' m hm)] at hlen
    exact hlen
  · intro owner' id' u' hl
    rcases hcases owner' id' u' hl with ⟨rfl, rfl, hu'⟩ | ⟨hold, hne⟩
    · obtain ⟨rfl, hcontent, hrec, hle⟩ := hup u' hu'
      refine ⟨hf.lt, hcontent, hrec, hle, fun p hp => ?_, hf.mine⟩
      by_contra hpart
      exact hpart (hf.fresh p ((hf.others p hpart).symm.trans hp))
    have hok := h.uploads owner' id' u' hold
    have hne' := hf.free owner' id' u' hold hne
    refine ⟨Nat.lt_of_lt_of_le hok.lt hf.grows, (hf.kept _ hne').trans hok.content, hok.received,
      hok.bounded, fun p hp => ?_, fun m hm => ?_⟩
    · by_cases hpart : p = .part owner w.id
      · subst hpart
        exact absurd (hf.mine _ hp) hne'
      · exact hok.linked p ((hf.others p hpart).symm.trans hp)
    · have hother : BlobPath.part owner' id' ≠ .part owner w.id := by
        intro heq
        cases heq
        exact hne ⟨rfl, rfl⟩
      exact hok.mine m ((hf.others _ hother).symm.trans hm)
  · intro owner1 id1 u1 owner2 id2 u2 h1 h2 heq
    rcases hcases owner1 id1 u1 h1 with ⟨ho1, hi1, hu1⟩ | ⟨hold1, hne1⟩
    · rcases hcases owner2 id2 u2 h2 with ⟨ho2, hi2, -⟩ | ⟨hold2, hne2⟩
      · exact ⟨ho1.trans ho2.symm, hi1.trans hi2.symm⟩
      · rw [(hup u1 hu1).1] at heq
        exact absurd heq.symm (hf.free owner2 id2 u2 hold2 hne2)
    rcases hcases owner2 id2 u2 h2 with ⟨-, -, hu2⟩ | ⟨hold2, -⟩
    · rw [(hup u2 hu2).1] at heq
      exact absurd heq (hf.free owner1 id1 u1 hold1 hne1)
    · exact h.distinct _ _ _ _ _ _ hold1 hold2 heq
  · intro r hr
    have hold := h.reads r hr
    cases r with
    | read id' file offset len size =>
      obtain ⟨hrange, hlt, hpart, hfiles⟩ := hold
      have hne : file ≠ n := fun heq => hf.unread id' offset len size (heq ▸ hr)
      refine ⟨?_, Nat.lt_of_lt_of_le hlt hf.grows, fun owner' id'' hn => ?_, fun owner' id'' u' hl => ?_⟩
      · rw [← hf.kept file hne] at hrange
        exact hrange.mono fun _ hc => hc
      · by_cases heq : BlobPath.part owner' id'' = .part owner w.id
        · rw [heq] at hn
          exact hne (hf.mine _ hn)
        · exact hpart owner' id'' ((hf.others _ heq).symm.trans hn)
      rcases hcases owner' id'' u' hl with ⟨-, -, hu'⟩ | ⟨hl, -⟩
      · rw [(hup u' hu').1]
        exact hne.symm
      · exact hfiles owner' id'' u' hl
    | _ => exact hold
  · exact fun r hr => (h.replies r hr).mono fun _ hc => hc

/-- A write replaces the content of its own temporary file and moves on. -/
theorem Intact.rewrite {s : BlobStore} (h : s.Intact) {owner : BlobOwner} {u : Upload}
    (hw : s.writes.get owner = some w) (hu : w.phase.upload? = some u) (data : Bytes)
    {phase : WritePhase} (hphase : s.PhaseOk w.id phase) (hup : ∀ u', phase.upload? = some u' →
      u'.file = u.file ∧ u'.hashed = data ∧ u'.received = data.length ∧ u'.received ≤ u'.total) :
    ((s.withFiles (s.files.put u.file data)).goto owner w.id phase).Intact := by
  have hlive : s.Live owner w.id u := Or.inr ⟨w, hw, rfl, hu⟩
  have hown := h.uploads owner w.id u hlive
  have hfills : s.Fills owner w.id u.file (s.files.put u.file data) := by
    refine ⟨fun _ _ => rfl, hown.mine, fun _ hne => s.files.contents_put_ne u.file data hne, Nat.le_refl _,
      hown.lt, hown.linked, ?_, ?_⟩
    · exact fun owner' id' u' hl hne heq => hne (h.distinct _ _ _ _ _ _ hl hlive heq)
    · exact fun id' offset len size hr => (h.reads _ hr).2.2.2 owner w.id u hlive rfl
  refine h.fill hw hfills hphase fun u' hu' => ?_
  obtain ⟨hfile, rfl, hrec, hle⟩ := hup u' hu'
  exact ⟨hfile, s.files.contents_put_self u.file _, hrec, hle⟩

/-- A write opens its temporary file, which no other upload and no object has. -/
theorem Intact.create {s : BlobStore} (h : s.Intact) {owner : BlobOwner}
    (hw : s.writes.get owner = some w) (hc : FileSystem.Creates s.files (.part owner w.id) n files)
    (total offset : Nat) (data : Bytes) (now : Instant) : ((s.withFiles files).goto owner w.id
      (.append total offset data ⟨n, [], 0, total, now⟩)).Intact := by
  have hfresh : ∀ m, m < s.files.next → s.files.names.get (.part owner w.id) ≠ some m → m ≠ n := by
    rintro m hlt hpart rfl
    exact hpart (hc.old hlt)
  refine h.fill hw ⟨hc.others, fun m hm => Option.some.inj (hm.symm.trans hc.here), hc.kept, hc.grows, hc.lt, ?_, ?_, ?_⟩
    trivial fun u' hu' => ?_
  · intro p hp
    exact s.files.names_inj _ _ _ hp (hc.old (s.files.names_lt _ _ hp))
  · intro owner' id' u hl hne
    have hok := h.uploads owner' id' u hl
    refine hfresh u.file hok.lt fun hpart => ?_
    have hkey := hok.linked _ hpart
    cases hkey
    exact hne ⟨rfl, rfl⟩
  · intro id' offset' len size hr
    obtain ⟨-, hlt, hpart, -⟩ := h.reads _ hr
    exact hfresh n hlt (hpart owner w.id) rfl
  · cases hu'
    exact ⟨rfl, hc.blank, rfl, Nat.zero_le _⟩

/-- A file that no upload has and whose content hashes to `id` becomes the object of `id`.  The object
it replaces, if any, had the same content. -/
theorem Intact.move {s : BlobStore} (h : s.Intact) (hcol : NoCollision s.hashed) {owner : BlobOwner} {id : BlobId}
    (hnames : files.names = (s.files.names.del (.part owner id)).set (.object id) n)
    (hcontents : files.contents = s.files.contents) (hnext : files.next = s.files.next)
    (hid : BlobId.of (s.files.contents n) = id) (hhashed : s.files.contents n ∈ s.hashed)
    (hfree : ∀ owner' id' u, s.Live owner' id' u → u.file ≠ n) : (s.withFiles files).Intact := by
  have hget : ∀ p, files.names.get p = if p = .object id then some n
      else if p = .part owner id then none else s.files.names.get p := by
    intro p
    rw [hnames, FMap.get_set, FMap.get_del]
  have hother : ∀ p m, files.names.get p = some m → p ≠ .object id → s.files.names.get p = some m := by
    intro p m hm hp
    rw [hget, if_neg hp] at hm
    split at hm
    · cases hm
    · exact hm
  have hpartOther : ∀ owner' id' m, files.names.get (.part owner' id') = some m →
      s.files.names.get (.part owner' id') = some m :=
    fun owner' id' m hm => hother _ m hm (by simp)
  refine ⟨?_, ?_, ?_, h.distinct, h.exclusive, h.phases, ?_, h.replies⟩
  · intro id' m hm
    show BlobId.of (files.contents m) = id' ∧ files.contents m ∈ s.hashed
    rw [hcontents]
    by_cases heq : id' = id
    · have hm' : files.names.get (.object id') = some m := hm
      rw [hget, if_pos (by rw [heq])] at hm'
      cases hm'
      rw [heq]
      exact ⟨hid, hhashed⟩
    · exact h.objects id' m (hother _ m hm (by simpa using heq))
  · intro id' size hsize
    obtain ⟨m, hm, hlen⟩ := h.indexed id' size hsize
    by_cases heq : id' = id
    · refine ⟨n, (hget _).trans (if_pos (by rw [heq])), ?_⟩
      obtain ⟨hid', hmem⟩ := h.objects id' m hm
      have hsame := hcol _ hmem _ hhashed (by rw [hid', hid, heq])
      show (files.contents n).length = size
      rw [hcontents, ← hsame]
      exact hlen
    refine ⟨m, ?_, ?_⟩
    · refine (hget _).trans ?_
      rw [if_neg (by simpa using heq), if_neg (by simp)]
      exact hm
    · show (files.contents m).length = size
      rw [hcontents]
      exact hlen
  · intro owner' id' u hu
    have hok := h.uploads owner' id' u hu
    refine ⟨hnext ▸ hok.lt, ?_, hok.received, hok.bounded, ?_, ?_⟩
    · exact (congrFun hcontents u.file).trans hok.content
    · intro p hp
      by_cases hobj : p = .object id
      · have hp' : files.names.get p = some u.file := hp
        rw [hget, if_pos hobj] at hp'
        exact absurd (Option.some.inj hp').symm (hfree owner' id' u hu)
      · exact hok.linked p (hother p _ hp hobj)
    · exact fun m hm => hok.mine m (hpartOther owner' id' m hm)
  intro r hr
  have hold := h.reads r hr
  cases r with
  | read id' file offset len size =>
    obtain ⟨hrange, hlt, hfile, hfiles⟩ := hold
    refine ⟨?_, hnext ▸ hlt, fun owner' id'' hm => hfile owner' id'' (hpartOther _ _ _ hm), hfiles⟩
    show s.Range id' offset len size (files.contents file)
    rw [hcontents]
    exact hrange
  | _ => exact hold

theorem Intact.index {s : BlobStore} (h : s.Intact) {id : BlobId} {size : Nat}
    (hn : s.files.names.get (.object id) = some n) (hsize : (s.files.contents n).length = size) :
    (s.index id size).Intact := by
  have hlive : ∀ owner id' u, (s.index id size).Live owner id' u →
      s.Live owner id' u := by
    intro owner id' u hu
    unfold Live BlobStore.index at hu
    rw [BlobInner.uploads_insert] at hu
    exact hu
  refine ⟨h.objects, ?_, fun owner id' u hu => ?_, fun _ _ _ _ _ _ hu hu' =>
    h.distinct _ _ _ _ _ _ (hlive _ _ _ hu) (hlive _ _ _ hu'), ?_, h.phases, ?_, h.replies⟩
  · intro id' found hfound
    have hfound' : (s.inner.insert id size).sizeOf id' = some found := hfound
    rw [BlobInner.sizeOf_insert] at hfound'
    split at hfound'
    · next heq =>
      subst heq
      cases hold : s.inner.sizeOf id' with
      | none =>
        rw [hold] at hfound'
        exact ⟨n, hn, hsize.trans (Option.some.inj hfound')⟩
      | some old =>
        rw [hold] at hfound'
        cases hfound'
        exact h.indexed id' old hold
    · exact h.indexed id' found hfound'
  · have hok := h.uploads owner id' u (hlive owner id' u hu)
    exact ⟨hok.lt, hok.content, hok.received, hok.bounded, hok.linked, hok.mine⟩
  · intro owner w hw u hu
    unfold BlobStore.index at hu
    rw [BlobInner.uploads_insert] at hu
    exact h.exclusive owner w hw u hu
  intro r hr
  have hold := h.reads r hr
  cases r with
  | read id' file offset len size =>
    obtain ⟨hrange, hlt, hfile, hfiles⟩ := hold
    exact ⟨hrange, hlt, hfile, fun owner id'' u hu => hfiles owner id'' u (hlive owner id'' u hu)⟩
  | _ => exact hold

/-! ## The phases of a write -/

section Write

variable {s : BlobStore} {owner : BlobOwner} {id : BlobId}

theorem Intact.advance_to (h : s.Intact) {phase : WritePhase}
    (hw : s.writes.get owner = some ⟨id, phase⟩) (phase' : WritePhase) (hu : phase'.upload? = none)
    (hphase : s.PhaseOk id phase') : (s.goto owner id phase').Intact :=
  h.goto (h.exclusive owner _ hw) hphase fun u hu' => by rw [hu] at hu'; cases hu'

variable {upload : Upload}

omit [Host] in
theorem checkChunk_ok {total offset : Nat} {data : Bytes} (h : checkChunk id total offset data upload = .ok ()) :
    upload.total = total ∧ data.length ≤ total - upload.received := by
  unfold checkChunk at h
  split at h
  · cases h
  next htotal =>
  split at h
  · cases h
  unfold checkChunkLen at h
  split at h
  · cases h
  · next hlen =>
    rw [not_or] at hlen
    exact ⟨not_not.mp htotal, by omega⟩

variable {io : Io}

theorem Intact.append (h : s.Intact) {total offset : Nat} {data : Bytes}
    (hw : s.writes.get owner = some ⟨id, .append total offset data upload⟩) :
    (s.append io owner id total offset data upload).Intact := by
  have hown := h.uploads owner id upload (Or.inr ⟨_, hw, rfl, rfl⟩)
  unfold BlobStore.append
  split
  · exact h.advance_to hw _ rfl trivial
  next hok =>
  obtain ⟨htotal, hlen⟩ := checkChunk_ok hok
  have hbound := hown.bounded
  have hrec := hown.received
  have hup : (takeChunk upload data io.now).file = upload.file ∧
      (takeChunk upload data io.now).hashed = s.files.contents upload.file ++ data ∧
      (takeChunk upload data io.now).received = (s.files.contents upload.file ++ data).length ∧
      (takeChunk upload data io.now).received ≤ (takeChunk upload data io.now).total := by
    rw [hown.content, List.length_append, ← hrec]
    refine ⟨rfl, rfl, rfl, ?_⟩
    show upload.received + data.length ≤ upload.total
    omega
  split
  · dsimp only
    split
    · refine h.rewrite hw rfl _ trivial fun u' hu' => ?_
      cases hu'
      exact hup
    next hfull =>
    refine h.rewrite hw rfl _ ?_ fun u' hu' => ?_
    · -- the last byte arrived: the length is the announced one
      show (takeChunk upload data io.now).received = upload.total
      have heq : (takeChunk upload data io.now).total = upload.total := rfl
      omega
    · cases hu'
      exact hup
  · refine h.rewrite hw rfl _ trivial fun u' hu' => ?_
    cases hu'

theorem Intact.putBack (h : s.Intact) (hw : s.writes.get owner = some ⟨id, .putBack upload⟩) :
    (s.putBack owner id upload).Intact := by
  unfold BlobStore.putBack
  split
  · have hget : ∀ key, (s.inner.uploads.set (owner, id) (.idle upload)).get key =
        if key = (owner, id) then some (.idle upload) else s.inner.uploads.get key := fun key => FMap.get_set _ _ key _
    have hdel : ∀ owner', (s.writes.del owner).get owner' =
        if owner' = owner then none else s.writes.get owner' := FMap.get_del _ _
    -- the upload goes from the writer's hand into the table
    refine (h.reply (r := .written id upload.received false) trivial).calm
      ⟨fun _ _ hn => hn, rfl, rfl, fun _ hc => hc, fun _ _ hs => ⟨hs, rfl⟩, ?_, fun _ hr => hr,
        fun _ hr => Or.inl hr⟩ ?_ ?_
    · intro owner' id' u hu
      rcases hu with hidle | ⟨w, hw', hid, hup⟩
      · have hidle' : (s.inner.uploads.set (owner, id) (.idle upload)).get (owner', id') =
            some (.idle u) := hidle
        rw [hget] at hidle'
        split at hidle'
        · next heq =>
          cases heq
          cases hidle'
          exact .inr ⟨_, hw, rfl, rfl⟩
        · exact .inl hidle'
      have hw'' : (s.writes.del owner).get owner' = some w := hw'
      rw [hdel] at hw''
      split at hw''
      · cases hw''
      · exact .inr ⟨w, hw'', hid, hup⟩
    · intro owner' w hw' u hu
      have hw'' : (s.writes.del owner).get owner' = some w := hw'
      rw [hdel] at hw''
      split at hw''
      · cases hw''
      next hne =>
      have hu' : (s.inner.uploads.set (owner, id) (.idle upload)).get (owner', w.id) =
          some (.idle u) := hu
      rw [hget, if_neg (by simp [hne])] at hu'
      exact h.exclusive owner' w hw'' u hu'
    intro owner' w hw'
    have hw'' : (s.writes.del owner).get owner' = some w := hw'
    rw [hdel] at hw''
    split at hw''
    · cases hw''
    · exact h.phases owner' w hw''
  · exact h.advance_to hw _ rfl trivial

theorem Intact.hash (h : s.Intact) (content : Bytes) :
    BlobStore.Intact { s with hashed := content :: s.hashed } :=
  have hmem : ∀ c ∈ s.hashed, c ∈ content :: s.hashed := fun _ hc => List.mem_cons_of_mem _ hc
  h.calm ⟨fun _ _ hn => hn, rfl, rfl, hmem, fun _ _ hs => ⟨hs, rfl⟩, fun _ _ _ hu => hu,
    fun _ hr => hr, fun _ hr => Or.inl hr⟩ h.exclusive
    fun owner' w hw => (h.phases owner' w hw).mono hmem

theorem Intact.commit (h : s.Intact) (hw : s.writes.get owner = some ⟨id, .commit upload⟩) :
    (s.commit io owner id upload).Intact := by
  have hphase : upload.received = upload.total := h.phases owner _ hw
  have hhash := h.hash upload.hashed
  unfold BlobStore.commit
  split
  · exact hhash.advance_to hw _ rfl trivial
  next heq =>
  split
  · refine hhash.goto (h.exclusive owner _ hw) ⟨hphase, not_not.mp heq, List.mem_cons_self⟩ ?_
    intro u hu
    cases hu
    exact .inr ⟨_, hw, rfl, rfl⟩
  · exact hhash.advance_to hw _ rfl trivial

theorem Intact.publish (h : s.Intact) (hcol : NoCollision s.hashed)
    (hw : s.writes.get owner = some ⟨id, .install upload⟩)
    (hfiles : s.files.rename (.part owner id) (.object id) = some files) :
    (((s.withFiles files).index id upload.total).goto owner id (.trim upload.total)).Intact := by
  obtain ⟨htotal, hid, hhashed⟩ : upload.received = upload.total ∧ BlobId.of upload.hashed = id ∧
    upload.hashed ∈ s.hashed := h.phases owner _ hw
  have hlive : s.Live owner id upload := Or.inr ⟨_, hw, rfl, rfl⟩
  have hown := h.uploads owner id upload hlive
  obtain ⟨n, hpart, hnames, hcontents, hnext⟩ := FileSystem.rename_eq_some hfiles
  have hfile : n = upload.file := hown.mine n hpart
  have hcontent : s.files.contents n = upload.hashed := by rw [hfile, hown.content]
  have hgone := h.advance_to hw (.trim upload.total) rfl trivial
  have hfree : ∀ owner' id' u, (s.goto owner id (.trim upload.total)).Live owner' id' u →
      u.file ≠ n := by
    intro owner' id' u hu heq
    rcases live_goto hu with ⟨-, -, hu'⟩ | hidle | hold
    · cases hu'
    · obtain ⟨hl, hkey⟩ := h.live_other hw (Or.inl hidle)
      exact hkey (h.distinct _ _ _ _ _ _ hl hlive (heq.trans hfile))
    · obtain ⟨hl, hkey⟩ := h.live_other hw (Or.inr hold)
      exact hkey (h.distinct _ _ _ _ _ _ hl hlive (heq.trans hfile))
  have hmoved := hgone.move hcol hnames hcontents hnext
    ((congrArg BlobId.of hcontent).trans hid) (hcontent.symm ▸ hhashed) hfree
  have hobject : files.names.get (.object id) = some n := by
    rw [hnames, FMap.get_set, if_pos rfl]
  have hlength : (files.contents n).length = upload.total := by
    rw [hcontents, hcontent, ← hown.received, htotal]
  exact hmoved.index hobject hlength

theorem Intact.install (h : s.Intact) (hcol : NoCollision s.hashed)
    (hw : s.writes.get owner = some ⟨id, .install upload⟩) : (s.install io owner id upload).Intact := by
  unfold BlobStore.install
  split
  · exact h.advance_to hw _ rfl trivial
  have hstill := still_releaseSlot s owner id
  dsimp only
  split
  · next files hfiles =>
    split at hfiles
    · refine (h.still hstill).publish ?_ ?_ hfiles
      · rw [hstill.hashed]
        exact hcol
      · rw [hstill.writes]
        exact hw
    · cases hfiles
  have hremoved := hstill.trans (still_removePart (s.releaseSlot owner id) owner id io.unlinked)
  have h' := h.still hremoved
  split
  · next hexists =>
    -- the object is there already: it has the same content, so the announced size is its size
    obtain ⟨content, hread⟩ := Option.isSome_iff_exists.mp hexists
    obtain ⟨n, hn, -⟩ := Option.map_eq_some_iff.mp hread
    obtain ⟨hid', hmem⟩ := h'.objects id n hn
    rw [hremoved.hashed] at hmem
    obtain ⟨htotal, hid, hhashed⟩ : upload.received = upload.total ∧
      BlobId.of upload.hashed = id ∧ upload.hashed ∈ s.hashed := h.phases owner _ hw
    have hown := h.uploads owner id upload (Or.inr ⟨_, hw, rfl, rfl⟩)
    have hsame := hcol _ hmem _ hhashed (hid'.trans hid.symm)
    have hw' := hremoved.writes ▸ hw
    exact (h'.index hn (by rw [hsame, ← hown.received, htotal])).advance_to hw' _ rfl trivial
  · exact h'.finish owner trivial

end Write

end BlobStore

end OxideSwarm
