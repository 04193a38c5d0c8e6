import OxideSwarm.Worker.Tasks
import Mathlib.Tactic.Abel

/-!
# Fetched inputs stay in the cache

`fetch_task_inputs` pins a blob before it looks whether the blob is there, so from that look on no eviction can
take it away.  The invariant has three parts: the counts in the index are what the guards hold (`Counted`), every
section that follows a successful look `Promises` blobs that are indexed, and what is indexed has its object file
(`Backed`).

One path breaks it.  When `materialize` does not find an object it asks once more whether the file exists, and then
takes the cache's lock to drop the blob from the index; another task may have fetched the blob in between
(`forgotten_while_pinned`).  `LooksPinned` is the condition on a step that excludes this: the second look at a
missing object happens while a returned pin covers the blob.  A task that keeps its pin until `materialize_inputs`
has returned meets it.
-/

namespace OxideSwarm

section

variable [Host]

/-! ## Changes of the cache -/

variable {data : Bytes} {id : BlobId}

namespace CacheState

/-- Everything indexed has its object file. -/
def Backed (s : CacheState) : Prop := ∀ id, s.inner.contains id = true → (s.objects.get id).isSome = true

/-- No object file is corrupt. -/
def Intact (s : CacheState) : Prop := ∀ id data, s.objects.get id = some data → BlobId.of data = id

/-- A change that takes no pinned blob out of the index and leaves index and files sound. -/
structure Gentle (s s' : CacheState) : Prop where
  keeps : ∀ id, s.inner.contains id = true → (s.inner.pins.get id).isSome = true → s'.inner.contains id = true
  backed : s.Backed → s'.Backed
  intact : s.Intact → s'.Intact

variable {s s' : CacheState}

theorem Gentle.refl (s : CacheState) : Gentle s s := ⟨fun _ h _ => h, id, id⟩

theorem Gentle.of_index (s : CacheState) (inner : CacheInner) (h : ∀ id, inner.contains id = s.inner.contains id) :
    Gentle s { s with inner } := by
  refine ⟨fun id hid _ => ?_, fun hbacked id hid => ?_, id⟩
  · rw [h]
    exact hid
  · rw [h] at hid
    exact hbacked id hid

theorem Gentle.touch (s : CacheState) (id : BlobId) : Gentle s { s with inner := s.inner.touch id } :=
  .of_index s _ (s.inner.contains_touch id)

variable {renamed : Bool} {size : Nat}

omit [Host] in
theorem contains_adopt {id' : BlobId} (h : s.adopt id data size renamed = some s') :
    s'.inner.contains id' = (decide (id' = id) || s.inner.contains id') := by
  obtain ⟨objects, rfl, -⟩ := adopt_cases h
  exact s.inner.contains_insert id id' size

omit [Host] in
theorem Backed.adopt (h : s.adopt id data size renamed = some s') (hbacked : s.Backed) : s'.Backed := by
  intro id' hid
  rw [contains_adopt h] at hid
  obtain ⟨objects, rfl, hobjects⟩ := adopt_cases h
  by_cases heq : id' = id
  · subst heq
    rcases hobjects with rfl | ⟨rfl, hobject⟩
    · rw [FMap.get_set, if_pos rfl]
      rfl
    · exact hobject
  rw [decide_eq_false heq, Bool.false_or] at hid
  rcases hobjects with rfl | ⟨rfl, -⟩
  · rw [FMap.get_set, if_neg heq]
    exact hbacked id' hid
  · exact hbacked id' hid

theorem Gentle.adopt (h : s.adopt id data size renamed = some s') (hdata : BlobId.of data = id) : Gentle s s' := by
  refine ⟨fun id' hid _ => ?_, Backed.adopt h, fun hintact id' data' hget => ?_⟩
  · rw [contains_adopt h, hid, Bool.or_true]
  obtain ⟨objects, rfl, rfl | ⟨rfl, -⟩⟩ := adopt_cases h
  · rw [FMap.get_set] at hget
    split at hget
    · next heq =>
      cases hget
      rw [heq, hdata]
    · exact hintact id' data' hget
  · exact hintact id' data' hget

omit [Host] in
theorem pins_adopt (h : s.adopt id data size renamed = some s') :
    s'.inner.pins = s.inner.pins ∧ s'.inner.taskPins = s.inner.taskPins := by
  obtain ⟨objects, rfl, -⟩ := adopt_cases h
  exact ⟨s.inner.pins_insert id size, s.inner.taskPins_insert id size⟩

/-- What one eviction leaves: the other blobs, their files and all pins. -/
theorem evictOne_spec (s : CacheState) (removed : Bool) (id : BlobId) :
    (∀ id', id' ≠ id → (s.evictOne removed id).inner.contains id' = s.inner.contains id') ∧
      (s.Backed → (s.evictOne removed id).Backed) ∧ (s.Intact → (s.evictOne removed id).Intact) ∧
      (s.evictOne removed id).inner.pins = s.inner.pins ∧
      (s.evictOne removed id).inner.taskPins = s.inner.taskPins := by
  have hother : ∀ id', id' ≠ id → (s.evictOne removed id).inner.contains id' = s.inner.contains id' := by
    intro id' hne
    exact (s.inner.contains_remove id id').trans (by rw [decide_eq_true hne, Bool.true_and])
  have hfile : ∀ id', id' ≠ id → (s.evictOne removed id).objects.get id' = s.objects.get id' := by
    intro id' hne
    unfold evictOne
    split
    · rw [FMap.get_del, if_neg hne]
    · rfl
  have hself : (s.evictOne removed id).inner.contains id = false :=
    (s.inner.contains_remove id id).trans (by rw [decide_eq_false (not_not.mpr rfl), Bool.false_and])
  refine ⟨hother, fun hbacked id' hid => ?_, fun hintact id' data hget => ?_, s.inner.pins_remove id,
    s.inner.taskPins_remove id⟩
  · by_cases hne : id' = id
    · rw [hne, hself] at hid
      cases hid
    · rw [hother id' hne] at hid
      rw [hfile id' hne]
      exact hbacked id' hid
  unfold evictOne at hget
  split at hget
  · rw [FMap.get_del] at hget
    split at hget
    · cases hget
    · exact hintact id' data hget
  · exact hintact id' data hget

theorem evictAll_spec (removed : BlobId → Bool) : ∀ (ids : List BlobId) (s : CacheState),
    (∀ id', id' ∉ ids → (ids.foldl (fun s id => s.evictOne (removed id) id) s).inner.contains id' =
      s.inner.contains id') ∧ (s.Backed → (ids.foldl (fun s id => s.evictOne (removed id) id) s).Backed) ∧
    (s.Intact → (ids.foldl (fun s id => s.evictOne (removed id) id) s).Intact) ∧
    (ids.foldl (fun s id => s.evictOne (removed id) id) s).inner.pins = s.inner.pins ∧
    (ids.foldl (fun s id => s.evictOne (removed id) id) s).inner.taskPins = s.inner.taskPins := by
  intro ids
  induction ids with
  | nil => exact fun s => ⟨fun _ _ => rfl, id, id, rfl, rfl⟩
  | cons id ids ih =>
    intro s
    obtain ⟨hother, hbacked, hintact, hpins, htasks⟩ := s.evictOne_spec (removed id) id
    obtain ⟨hother', hbacked', hintact', hpins', htasks'⟩ := ih (s.evictOne (removed id) id)
    refine ⟨fun id' hid => ?_, fun h => hbacked' (hbacked h), fun h => hintact' (hintact h), hpins'.trans hpins,
      htasks'.trans htasks⟩
    rw [List.mem_cons, not_or] at hid
    exact (hother' id' hid.2).trans (hother id' hid.1)

/-- **Eviction spares what is pinned.** -/
theorem Gentle.evictBatch (s : CacheState) (removed : BlobId → Bool) : Gentle s (s.evictBatch removed) := by
  obtain ⟨hother, hbacked, hintact, -⟩ := evictAll_spec removed s.evictionBatch s
  refine ⟨fun id hid hpin => ?_, hbacked, hintact⟩
  have hspared : id ∉ s.evictionBatch := by
    intro hvictim
    rw [s.inner.victims_unpinned _ _ _ id hvictim] at hpin
    cases hpin
  exact (hother id hspared).trans hid

end CacheState

/-! ## Pins -/

namespace CacheInner

omit [Host]

open RefCount

/-- The blobs that are pinned for the outputs of tasks. -/
def kept (s : CacheInner) : Multiset BlobId := s.taskPins.sum Multiset.ofList

/-- The counts are what the guards and the outputs of tasks hold. -/
def Counted (s : CacheInner) (guards : Multiset BlobId) : Prop := Represents s.pins (guards + s.kept)

variable {s s' : CacheInner} {guards : Multiset BlobId} {ids : List BlobId}

theorem Counted.represents (h : s.Counted guards) : Represents s.pins (guards + s.kept) := h

theorem Counted.bare (h : s.Counted (([] : List BlobId) + guards)) : s.Counted guards := by
  rw [Multiset.coe_nil, zero_add] at h
  exact h

theorem Counted.same (h : s.Counted guards) (hpins : s'.pins = s.pins) (htasks : s'.taskPins = s.taskPins) :
    s'.Counted guards := by
  unfold Counted kept at *
  rw [hpins, htasks]
  exact h

theorem Counted.touch (h : s.Counted guards) (id : BlobId) : (s.touch id).Counted guards :=
  h.same (s.pins_touch id) (s.taskPins_touch id)

theorem Counted.pin (h : s.Counted guards) (ids : List BlobId) : (s.pinIds ids).Counted (ids + guards) := by
  have hbumped : Represents (ids.foldl RefCount.bump s.pins) (guards + s.kept + ids) := h.represents.bumpAll ids
  show Represents (ids.foldl RefCount.bump s.pins) (ids + guards + s.kept)
  convert hbumped using 1
  abel

theorem Counted.extend (h : s.Counted (ids + guards)) (more : List BlobId) :
    (s.pinIds more).Counted ((ids ++ more : List BlobId) + guards) := by
  have hpinned := h.pin more
  rw [← add_assoc, add_comm (more : Multiset BlobId) _, Multiset.coe_add] at hpinned
  exact hpinned

theorem Counted.unpin (h : s.Counted (ids + guards)) : (s.unpinIds ids).Counted guards := by
  have hheld : Represents s.pins (guards + s.kept + ids) := by
    convert h.represents using 1
    abel
  exact hheld.lowerAll ids

theorem Counted.take (h : s.Counted guards) (t : TaskId) :
    CacheInner.Counted { s with taskPins := s.taskPins.del t } (((s.taskPins.get t).getD [] : List BlobId) + guards) := by
  show Represents s.pins (((s.taskPins.get t).getD [] : Multiset BlobId) + guards + (s.taskPins.del t).sum _)
  cases hget : s.taskPins.get t with
  | none =>
    rw [FMap.del_eq_self hget, Option.getD_none, Multiset.coe_nil, zero_add]
    exact h
  | some previous =>
    have hkept : s.kept = previous + (s.taskPins.del t).sum Multiset.ofList :=
      FMap.sum_of_get _ hget
    rw [Option.getD_some]
    convert h.represents using 1
    rw [hkept]
    abel

/-- The ids of a guard go to the task; what was kept for it before is released. -/
theorem Counted.keep (h : s.Counted (ids + guards)) (t : TaskId) : (s.keepTaskOutputs t ids).Counted guards := by
  unfold keepTaskOutputs
  split
  · next hnil =>
    rw [hnil, Multiset.coe_nil, zero_add] at h
    exact h
  apply Counted.unpin
  have hset : (s.taskPins.set t ids).sum Multiset.ofList =
      ids + (s.taskPins.del t).sum Multiset.ofList := FMap.sum_set _ _ _ _
  show Represents s.pins (((s.taskPins.get t).getD [] : Multiset BlobId) + guards + (s.taskPins.set t ids).sum _)
  rw [hset]
  convert (h.take t).represents using 1
  show _ = ((s.taskPins.get t).getD [] : Multiset BlobId) + (ids + guards) + (s.taskPins.del t).sum _
  abel

theorem Counted.release (h : s.Counted guards) (t : TaskId) : (s.releaseTaskOutputs t).Counted guards :=
  (h.take t).unpin

end CacheInner

/-- The blobs under the pins of the calls that have `code` to run. -/
def guarded (code : List CacheSection) : Multiset BlobId := (code.map fun a => (a.owned : Multiset BlobId)).sum

/-- The blobs under the pin of the call that reads. -/
def Reader.ids : Reader → List BlobId
  | .fetch f _ => f.ids
  | .place _ _ => []

section Guarded

omit [Host]

open CacheSection

theorem guarded_nil : guarded [] = 0 := rfl

theorem guarded_cons (a : CacheSection) (code : List CacheSection) : guarded (a :: code) = a.owned + guarded code := by
  unfold guarded
  rw [List.map_cons, List.sum_cons]

theorem guarded_single (a : CacheSection) : guarded [a] = a.owned := by
  rw [guarded_cons, guarded_nil, add_zero]

theorem guarded_append (code rest : List CacheSection) : guarded (code ++ rest) = guarded code + guarded rest := by
  unfold guarded
  rw [List.map_append, List.sum_append]

theorem guarded_perm {code code' : List CacheSection} (h : code.Perm code') : guarded code = guarded code' :=
  (h.map _).sum_eq

theorem guarded_failFetch (f : Fetch) (message : String) : guarded (failFetch f message) = f.ids := by
  rw [failFetch, guarded_cons, guarded_single]
  exact add_zero _

theorem Reader.owned (r : Reader) (id : BlobId) (data : Bytes) :
    (readMeta r id).owned = r.ids ∧ (readData r id).owned = r.ids ∧ (readTouch r id data).owned = r.ids ∧
      (readCorrupt r id).owned = r.ids := by
  cases r with
  | fetch | place => exact ⟨rfl, rfl, rfl, rfl⟩

end Guarded

/-! ## What the sections know -/

/-- The files of a manifest with this id are among `ids`. -/
def TaskInput.SeenIn (input : TaskInput) (ids : List BlobId) : Prop :=
  ∀ manifest size, input.source = .tree manifest size → ∃ data tree, BlobId.of data = manifest ∧
    TreeManifest.decode data = .ok tree ∧ ∀ file ∈ tree.files, file.id ∈ ids

omit [Host] in
theorem TaskInput.top_fst (input : TaskInput) : input.top.1 = input.blobId := by
  unfold TaskInput.top TaskInput.blobId
  cases input.source with
  | file | tree => rfl

theorem TaskInput.SeenIn.mono {input : TaskInput} {ids ids' : List BlobId} (h : input.SeenIn ids)
    (hids : ∀ id ∈ ids, id ∈ ids') : input.SeenIn ids' := by
  intro manifest size htree
  obtain ⟨data, tree, hdata, hdecode, hfiles⟩ := h manifest size htree
  exact ⟨data, tree, hdata, hdecode, fun file hfile => hids _ (hfiles file hfile)⟩

/-- The pin has the blob of every input, and the files of every tree that is not in `left`. -/
structure Fetch.Covers (f : Fetch) (left : List TaskInput) : Prop where
  top : ∀ input ∈ f.inputs, input.blobId ∈ f.ids
  trees : ∀ input ∈ f.inputs, input ∈ left ∨ input.SeenIn f.ids

variable {a : CacheSection}

namespace CacheSection

/-- What a section of `fetch_task_inputs` knows about its pin. -/
def Knows : CacheSection → Prop
  | .fetchCheck f _ _ _ | .fetchJobs f _ | .fetchNext f => f.Covers f.todo
  | .holds f => f.Covers []
  | .readMeta (.fetch f input) id | .readData (.fetch f input) id =>
    f.Covers (input :: f.todo) ∧ ∃ size, input.source = .tree id size
  | .readTouch (.fetch f input) id data =>
    (f.Covers (input :: f.todo) ∧ ∃ size, input.source = .tree id size) ∧ BlobId.of data = id
  | .fetchExtend f input files => f.Covers (input :: f.todo) ∧ input.SeenIn (files.map Prod.fst)
  -- a collection without a guard has nothing under it
  | .insertCheck k | .insertAdopt k _ => k.pinned = false → k.ids = []
  | _ => True

/-- The blobs that are in the cache when `fetch_task_inputs` comes to a section: those of its pin that it has looked
at, and fetched if they were missing. -/
def Promises (id : BlobId) : CacheSection → Prop
  | .fetchCheck f blobs seen missing =>
    id ∈ f.ids ∧ id ∉ missing.map Prod.fst ∧ (id ∈ blobs.map Prod.fst → id ∈ seen)
  | .fetchJobs f jobs => id ∈ f.ids ∧ id ∉ jobs.map Prod.fst
  | .fetchNext f | .fetchExtend f _ _ | .holds f => id ∈ f.ids
  | .readMeta (.fetch f _) _ | .readData (.fetch f _) _ | .readTouch (.fetch f _) _ _ => id ∈ f.ids
  | _ => False

omit [Host] in
theorem Promises.owned (h : a.Promises id) : id ∈ a.owned := by
  cases a with
  | fetchCheck | fetchJobs => exact h.1
  | fetchNext | fetchExtend | holds => exact h
  | readMeta r manifest | readData r manifest | readTouch r manifest data =>
    cases r with
    | fetch f input => exact h
    | place p input => exact absurd h fun h => h
  | _ => exact absurd h fun h => h

end CacheSection

/-- What holds of a section still to run. -/
structure SoundSection (s : CacheState) (a : CacheSection) : Prop where
  knows : a.Knows
  promises : ∀ id, a.Promises id → s.inner.contains id = true
  gentle : a.drops = false

theorem SoundSection.plain (s : CacheState) (hknows : a.Knows) (hdrops : a.drops = false)
    (h : ∀ id, ¬a.Promises id) : SoundSection s a :=
  ⟨hknows, fun id hid => absurd hid (h id), hdrops⟩

/-! ## One section -/

variable {f : Fetch}

namespace CacheState

open CacheSection

variable (s : CacheState) (c : CacheChoice)

/-- **One section leaves what is pinned**, unless it is one that drops a blob. -/
theorem exec_gentle (hdrops : a.drops = false) : Gentle s (s.exec c a).shared := by
  have hmove := s.exec_move c a
  rw [hdrops] at hmove
  generalize (s.exec c a).shared = s' at hmove ⊢
  generalize hfalse : false = drops at hmove
  induction hmove with
  | same => exact .refl s
  | touch id => exact .touch s id
  | adopt hadopt hverified => exact .adopt hadopt hverified
  | pins _ _ _ ih => exact ⟨(ih hfalse).keeps, (ih hfalse).backed, (ih hfalse).intact⟩
  | evict removed => exact .evictBatch s removed
  | drop => cases hfalse

/-- The counts are exact after a section, with `others` held by guards of other calls. -/
def Counts (o : CacheOutcome) (others : Multiset BlobId) : Prop := o.shared.inner.Counted (guarded o.code + others)

variable {b : CacheSection} {r : Reader}

/-- What a section goes on with holds, and it starts no thread. -/
structure Sound (o : CacheOutcome) : Prop where
  code : ∀ b ∈ o.code, SoundSection o.shared b
  spawned : o.spawned = []

/-- What a section goes on with holds and owns the pins. -/
def Fine (o : CacheOutcome) (others : Multiset BlobId) : Prop := Counts o others ∧ Sound o

section Fine

variable {s} {others : Multiset BlobId}

theorem fine_one (hc : s.inner.Counted (b.owned + others)) (h : SoundSection s b) : Fine (s.goOn [b]) others := by
  refine ⟨?_, fun b' hb => ?_, rfl⟩
  · unfold Counts goOn
    rw [guarded_single]
    exact hc
  · rw [List.mem_singleton.mp hb]
    exact h

theorem fine_done (hc : s.inner.Counted others) : Fine (s.goOn []) others := by
  refine ⟨?_, List.forall_mem_nil _, rfl⟩
  unfold Counts goOn
  rw [guarded_nil, zero_add]
  exact hc

theorem fine_plain (hc : s.inner.Counted (b.owned + others)) (hknows : b.Knows) (hdrops : b.drops = false)
    (h : ∀ id, ¬b.Promises id) : Fine (s.goOn [b]) others :=
  fine_one hc (.plain s hknows hdrops h)

theorem fine_failFetch {message : String} (hc : s.inner.Counted (f.ids + others)) :
    Fine (s.goOn (failFetch f message)) others := by
  refine ⟨?_, fun b hb => ?_, rfl⟩
  · unfold Counts goOn
    rw [guarded_failFetch]
    exact hc
  rcases List.mem_pair.mp hb with rfl | rfl
  · exact .plain s trivial rfl fun _ h => h
  · exact .plain s trivial rfl fun _ h => h

theorem fine_failRead {e : String} (hc : s.inner.Counted (r.ids + others)) : Fine (s.goOn (failRead r e)) others := by
  cases r with
  | fetch f input => exact fine_failFetch hc
  | place p input => exact fine_plain hc trivial rfl fun _ h => h

/-- The pin has the blob of every input, and none was looked at yet. -/
theorem fetchPin_fine (hc : s.inner.Counted others) (inputs : List TaskInput) (online : Bool) :
    Fine (s.fetchPin inputs online) others := by
  refine fine_one (hc.pin _) ⟨⟨fun input hinput => ?_, fun input hinput => Or.inl hinput⟩, fun id hid => ?_, rfl⟩
  · rw [← input.top_fst]
    exact List.mem_map_of_mem (List.mem_map_of_mem hinput)
  · exact absurd (hid.2.2 hid.1) List.not_mem_nil

theorem fetchCheck_fine {blobs : List (BlobId × Nat)} {seen : List BlobId} {missing : List (BlobId × Nat)}
    (hc : s.inner.Counted (f.ids + others)) (h : SoundSection s (.fetchCheck f blobs seen missing)) :
    Fine (s.fetchCheck f blobs seen missing) others := by
  obtain ⟨hknows, hpromises, -⟩ := h
  unfold fetchCheck
  split
  · split
    · next hnone =>
      refine fine_one hc ⟨hknows, fun id hid => hpromises id ⟨hid, ?_, fun h => absurd h List.not_mem_nil⟩, rfl⟩
      rw [hnone]
      exact List.not_mem_nil
    · split
      · exact fine_one hc ⟨hknows, fun id hid => hpromises id ⟨hid.1, hid.2, fun h => absurd h List.not_mem_nil⟩, rfl⟩
      · exact fine_failFetch hc
  next blob rest =>
  split
  · next hseen =>
    refine fine_one hc ⟨hknows, fun id hid => hpromises id ⟨hid.1, hid.2.1, fun hmem => ?_⟩, rfl⟩
    rcases List.mem_cons.mp hmem with rfl | hmem
    · exact hseen
    · exact hid.2.2 hmem
  refine fine_one (hc.touch _) ⟨hknows, fun id hid => ?_, rfl⟩
  obtain ⟨hpinned, hmissing, hrest⟩ := hid
  rw [s.inner.contains_touch]
  by_cases heq : id = blob.1
  · -- a blob that is looked at and not put on the list is there
    by_contra habsent
    rw [heq] at habsent hmissing
    rw [if_neg habsent, List.map_append, List.mem_append, not_or] at hmissing
    exact hmissing.2 (List.mem_singleton_self _)
  refine hpromises id ⟨hpinned, fun hmem => hmissing ?_, fun hmem => ?_⟩
  · split
    · exact hmem
    · rw [List.map_append]
      exact List.mem_append_left _ hmem
  · rw [List.map_cons, List.mem_cons] at hmem
    have hlater := hrest (hmem.resolve_left heq)
    exact (List.mem_cons.mp hlater).resolve_left heq

omit [Host] in
/-- With jobs left, one of them ends next. -/
theorem jobs_eq_nil {jobs : List (BlobId × Nat)} {pick : Nat}
    (h : jobs[pick % min transferConcurrency jobs.length]? = none) : jobs = [] := by
  rw [List.getElem?_eq_none_iff] at h
  by_contra hne
  have hpos : 0 < jobs.length := List.length_pos_of_ne_nil hne
  have hmin : 0 < min transferConcurrency jobs.length := Nat.lt_min.mpr ⟨by decide, hpos⟩
  have hlt := Nat.mod_lt pick hmin
  omega

theorem fetchJobs_fine {jobs : List (BlobId × Nat)} (hc : s.inner.Counted (f.ids + others))
    (h : SoundSection s (.fetchJobs f jobs)) : Fine (s.fetchJobs c f jobs) others := by
  obtain ⟨hknows, hpromises, -⟩ := h
  unfold fetchJobs
  dsimp only
  split
  · next hnone =>
    have hnil := jobs_eq_nil hnone
    refine fine_one hc ⟨hknows, fun id hid => hpromises id ⟨hid, ?_⟩, rfl⟩
    rw [hnil]
    exact List.not_mem_nil
  next job hjob =>
  split
  · exact fine_failFetch hc
  split
  · exact fine_failFetch hc
  split
  · exact fine_failFetch hc
  next s' hadopt =>
  refine fine_one (hc.same (pins_adopt hadopt).1 (pins_adopt hadopt).2) ⟨hknows, fun id hid => ?_, rfl⟩
  rw [contains_adopt hadopt]
  by_cases heq : id = job.1
  · rw [decide_eq_true heq, Bool.true_or]
  rw [decide_eq_false heq, Bool.false_or]
  refine hpromises id ⟨hid.1, fun hmem => hid.2 ?_⟩
  obtain ⟨hlt, hget⟩ := List.getElem?_eq_some_iff.mp hjob
  have hperm := ((List.getElem_cons_eraseIdx_perm hlt).map Prod.fst).mem_iff.mpr hmem
  rw [hget, List.map_cons, List.mem_cons] at hperm
  exact hperm.resolve_left heq

theorem fetchNext_fine (hc : s.inner.Counted (f.ids + others)) (h : SoundSection s (.fetchNext f)) :
    Fine (s.fetchNext f) others := by
  obtain ⟨hknows, hpromises, -⟩ := h
  have hcovers : f.Covers f.todo := hknows
  unfold fetchNext
  split
  · next hdone =>
    rw [hdone] at hcovers
    exact fine_one hc ⟨hcovers, fun id hid => hpromises id hid, rfl⟩
  next input todo htodo =>
  rw [htodo] at hcovers
  split
  · next hfile =>
    refine fine_one hc ⟨⟨hcovers.top, fun other hother => ?_⟩, fun id hid => hpromises id hid, rfl⟩
    rcases hcovers.trees other hother with hleft | hseen
    · rcases List.mem_cons.mp hleft with rfl | hleft
      · exact .inr fun manifest size htree => absurd (hfile.symm.trans htree) fun h => nomatch h
      · exact .inl hleft
    · exact .inr hseen
  · next manifest size htree =>
    exact fine_one hc ⟨⟨⟨hcovers.top, hcovers.trees⟩, size, htree⟩, fun id hid => hpromises id hid, rfl⟩

theorem fetchExtend_fine {input : TaskInput} {files : List (BlobId × Nat)} (hc : s.inner.Counted (f.ids + others))
    (h : SoundSection s (.fetchExtend f input files)) : Fine (s.fetchExtend f input files) others := by
  obtain ⟨⟨hcovers, hseen⟩, hpromises, -⟩ := h
  refine fine_one (hc.extend _) ⟨⟨fun other hother => ?_, fun other hother => ?_⟩, fun id hid => ?_, rfl⟩
  · exact List.mem_append_left _ (hcovers.top other hother)
  · rcases hcovers.trees other hother with hleft | hother
    · rcases List.mem_cons.mp hleft with rfl | hleft
      · exact .inr (hseen.mono fun id hid => List.mem_append_right _ hid)
      · exact .inl hleft
    · exact .inr (hother.mono fun id hid => List.mem_append_left _ hid)
  obtain ⟨hpinned, -, hfiles⟩ := hid
  rcases List.mem_append.mp hpinned with hpinned | hfile
  · exact hpromises id hpinned
  · exact absurd (hfiles hfile) List.not_mem_nil

theorem afterRead_fine (hc : s.inner.Counted (r.ids + others)) (h : SoundSection s (.readTouch r id data)) :
    Fine (s.goOn (afterRead r data)) others := by
  cases r with
  | fetch f input =>
    obtain ⟨⟨⟨hcovers, size, htree⟩, hdata⟩, hpromises, -⟩ := h
    unfold afterRead
    dsimp only
    cases hdecode : TreeManifest.decode data with
    | error e => exact fine_failFetch hc
    | ok tree =>
      refine fine_one hc ⟨⟨hcovers, fun manifest size' htree' => ⟨data, tree, ?_, hdecode, fun file hfile => ?_⟩⟩,
        fun id' hid => hpromises id' hid, rfl⟩
      · rw [htree] at htree'
        cases htree'
        exact hdata
      · rw [List.map_map]
        exact List.mem_map_of_mem hfile
  | place p input =>
    unfold afterRead
    dsimp only
    cases TreeManifest.decode data with
    | error | ok => exact fine_plain hc trivial rfl fun _ h => h

end Fine

/-- **One section**: the pins it owns go to the sections it goes on with or to the outputs kept for a task, or it drops
them, and those sections hold, if the objects are intact and no object is gone when `materialize` looks a second
time. -/
theorem exec_fine {others : Multiset BlobId} (hintact : s.Intact) (h : SoundSection s a)
    (hgone : ∀ p file e, a = .placeGone p file e → (s.objects.get file.id).isSome = true)
    (hc : s.inner.Counted (a.owned + others)) : Fine (s.exec c a) others := by
  unfold exec
  split
  · exact fine_plain hc trivial rfl fun _ h => h
  unfold run
  cases a with
  | readCorrupt | placeCorrupt | placeForget => exact absurd h.gentle fun h => nomatch h
  | fetchPin inputs online => exact fetchPin_fine hc.bare inputs online
  | fetchCheck f blobs seen missing => exact fetchCheck_fine hc h
  | fetchJobs f jobs => exact fetchJobs_fine c hc h
  | fetchNext f => exact fetchNext_fine hc h
  | fetchExtend f input files => exact fetchExtend_fine hc h
  | fetchFailed | placed => exact fine_plain hc trivial rfl fun _ h => h
  | pinOutputs ids => exact fine_plain (hc.bare.pin ids) trivial rfl fun _ h => h
  | holds | dropPin => exact fine_done hc.unpin
  | keepOutputs t ids => exact fine_done (hc.keep t)
  | releaseOutputs t => exact fine_done (hc.bare.release t)
  | contains id => exact fine_done (hc.bare.touch id)
  | readMeta r id =>
    rw [(r.owned id []).1] at hc
    dsimp only
    unfold readMeta
    split
    · exact fine_failRead hc
    · exact fine_failRead hc
    split
    · exact fine_failRead hc
    · cases r with
      | fetch f input => exact fine_one hc ⟨h.knows, h.promises, rfl⟩
      | place p input => exact fine_plain hc trivial rfl fun _ h => h
  | readData r id =>
    rw [(r.owned id []).2.1] at hc
    dsimp only
    unfold readData
    split
    · exact fine_failRead hc
    · exact fine_failRead hc
    next data _ hobject =>
    have hdata := hintact id data hobject
    rw [if_neg (not_not.mpr hdata)]
    cases r with
    | fetch f input => exact fine_one hc ⟨⟨h.knows, hdata⟩, h.promises, rfl⟩
    | place p input => exact fine_plain hc trivial rfl fun _ h => h
  | readTouch r id data =>
    rw [(r.owned id data).2.2.1] at hc
    have htouched : SoundSection { s with inner := s.inner.touch id } (.readTouch r id data) :=
      ⟨h.knows, fun id' hid => (s.inner.contains_touch id id').trans (h.promises id' hid), rfl⟩
    exact afterRead_fine (hc.touch id) htouched
  | place p =>
    dsimp only
    unfold place
    split
    · split
      · exact fine_plain hc trivial rfl fun _ h => h
      · split
        · exact fine_plain hc trivial rfl fun _ h => h
        · exact fine_plain hc trivial rfl fun _ h => h
    split
    · exact fine_plain hc trivial rfl fun _ h => h
    split
    · exact fine_plain hc trivial rfl fun _ h => h
    split
    · exact fine_plain hc trivial rfl fun _ h => h
    next data hobject =>
    split
    · exact fine_plain hc trivial rfl fun _ h => h
    split
    · split
      · exact fine_plain hc trivial rfl fun _ h => h
      · exact fine_plain hc trivial rfl fun _ h => h
    · rw [if_neg (not_not.mpr (hintact _ data hobject))]
      exact fine_plain hc trivial rfl fun _ h => h
  | placeTouch p file data =>
    dsimp only
    unfold placeTouch
    split
    · exact fine_plain (hc.touch file.id) trivial rfl fun _ h => h
    · exact fine_plain (hc.touch file.id) trivial rfl fun _ h => h
  | placeGone p file error =>
    dsimp only
    unfold placeGone
    rw [if_pos (hgone p file error rfl)]
    exact fine_plain hc trivial rfl fun _ h => h
  | insertCheck k =>
    dsimp only
    unfold insertCheck
    dsimp only
    split
    · split
      · exact fine_plain hc trivial rfl fun _ h => h
      next hpinned =>
      have hnone : k.ids = [] := h.knows (Bool.eq_false_iff.mpr hpinned)
      rw [owned, hnone] at hc
      exact fine_done hc.bare
    split
    · exact fine_plain hc trivial rfl fun _ h => h
    split
    · split
      · next hpinned =>
        exact fine_plain ((hc.touch _).extend _) (fun hnot => absurd (hpinned.symm.trans hnot) (by decide)) rfl
          fun _ h => h
      · exact fine_plain (hc.touch _) h.knows rfl fun _ h => h
    · exact fine_plain (hc.touch _) h.knows rfl fun _ h => h
  | insertAdopt k data =>
    dsimp only
    unfold insertAdopt
    dsimp only
    split
    · exact fine_plain hc trivial rfl fun _ h => h
    split
    · exact fine_plain hc trivial rfl fun _ h => h
    next s' hadopt =>
    have hcounted := hc.same (pins_adopt hadopt).1 (pins_adopt hadopt).2
    split
    · next hpinned =>
      exact fine_plain (hcounted.extend _) (fun hnot => absurd (hpinned.symm.trans hnot) (by decide)) rfl fun _ h => h
    · exact fine_plain hcounted h.knows rfl fun _ h => h
  | takeOutputs t ids =>
    dsimp only
    unfold takeOutputs
    split
    · exact fine_plain hc trivial rfl fun _ h => h
    next kept hget =>
    refine ⟨?_, fun b hb => ?_, rfl⟩
    · have htaken := hc.bare.take t
      rw [hget, Option.getD_some] at htaken
      unfold Counts goOn
      rw [guarded_cons, guarded_single]
      exact (zero_add (kept : Multiset BlobId)).symm ▸ htaken
    rcases List.mem_pair.mp hb with rfl | rfl
    · exact .plain _ trivial rfl fun _ h => h
    · exact .plain _ trivial rfl fun _ h => h
  | evict =>
    obtain ⟨-, -, -, hpins, htasks⟩ := evictAll_spec c.removed s.evictionBatch s
    dsimp only
    split
    · exact fine_done (hc.bare.same hpins htasks)
    · exact fine_plain (hc.same hpins htasks) trivial rfl fun _ h => h

end CacheState

/-! ## Runs -/

/-- The blob whose object `materialize` looks at a second time. -/
def CacheSection.looksAgain : CacheSection → Option BlobId
  | .placeGone _ file _ => some file.id
  | _ => none

/-- A returned pin covers the blob. -/
def CacheSection.covers (id : BlobId) : CacheSection → Bool
  | .holds f => decide (id ∈ f.ids)
  | _ => false

/-- The condition on a step: `materialize` looks a second time at an object that was not there only while a pin that
was returned covers the blob. -/
def LooksPinned (m : CachePool) : CacheLabel → Prop
  | .start _ => True
  | .advance i _ => ∀ id ∈ (m.next? i).bind fun next => next.2.looksAgain, ∃ a ∈ m.pending, a.covers id = true

instance (m : CachePool) : ∀ label, Decidable (LooksPinned m label)
  | .start _ => inferInstanceAs (Decidable True)
  | .advance i _ => inferInstanceAs
      (Decidable (∀ id ∈ (m.next? i).bind fun next => next.2.looksAgain, ∃ a ∈ m.pending, a.covers id = true))

/-- What holds in every run whose steps meet the condition. -/
structure CachePool.Held (m : CachePool) : Prop where
  intact : m.shared.Intact
  backed : m.shared.Backed
  counted : m.shared.inner.Counted (guarded m.pending)
  sound : m.All fun _ a => SoundSection m.shared a

namespace CachePool

variable {m : CachePool}

omit [Host] in
theorem mem_pending : a ∈ m.pending ↔ ∃ t ∈ m.threads, a ∈ t.code := List.mem_flatMap

omit [Host] in
theorem mem_guarded {code : List CacheSection} (ha : a ∈ code) (hid : id ∈ a.owned) : id ∈ guarded code := by
  obtain ⟨before, after, rfl⟩ := List.append_of_mem ha
  rw [guarded_append, guarded_cons]
  exact Multiset.mem_add.mpr (Or.inr (Multiset.mem_add.mpr (Or.inl hid)))

/-- What a section still to run promises is in the index and has its file. -/
theorem Held.holds (h : m.Held) (hf : CacheSection.holds f ∈ m.pending) (hid : id ∈ f.ids) : m.shared.Holds id := by
  obtain ⟨t, ht, hcode⟩ := mem_pending.mp hf
  have hcontains := (h.sound t ht _ hcode).promises id hid
  exact ⟨hcontains, h.backed id hcontains⟩

theorem Held.covered (h : m.Held) (ha : a ∈ m.pending) (hid : a.covers id = true) : m.shared.Holds id := by
  cases a with
  | holds f => exact h.holds ha (of_decide_eq_true hid)
  | _ => cases hid

theorem Held.start (h : m.Held) (call : CacheCall) : (m.step (.start call)).Held := by
  have hsound : SoundSection m.shared call.code := by
    cases call with
    | collectOutputs t pinned files => exact .plain _ (fun _ => rfl) rfl fun _ h => h
    | _ => exact .plain _ trivial rfl fun _ h => h
  have howned : (call.code.owned : Multiset BlobId) = 0 := by
    cases call <;> rfl
  refine ⟨h.intact, h.backed, ?_, h.sound.spawn fun a ha => ?_⟩
  · show m.shared.inner.Counted (guarded (m.spawn m.shared call.thread).pending)
    rw [Pool.pending_spawn, guarded_append, CacheCall.thread, guarded_single, howned, add_zero]
    exact h.counted
  · rw [List.mem_singleton.mp ha]
    exact hsound

/-- **One step**: what the other calls were promised stays, because it is pinned. -/
theorem Held.step (h : m.Held) (label : CacheLabel) (hok : LooksPinned m label) : (m.step label).Held := by
  cases label with
  | start call => exact h.start call
  | advance i c =>
    show CachePool.Held (m.advance cacheExec i c)
    rcases Pool.advance_fires cacheExec m i c with ⟨-, hsame⟩ | ⟨⟨⟩, a, hnext, hfires⟩
    · rw [hsame]
      exact h
    have ha : SoundSection m.shared a := hfires.all_head h.sound
    obtain ⟨others, hbefore, hafter⟩ := hfires.perm
    have hcounted : m.shared.inner.Counted (a.owned + guarded others) := by
      have hall := h.counted
      rw [guarded_perm hbefore, guarded_cons] at hall
      exact hall
    have hgentle : CacheState.Gentle m.shared (m.shared.exec c a).shared := m.shared.exec_gentle c ha.gentle
    have hfine : CacheState.Fine (m.shared.exec c a) (guarded others) := by
      refine m.shared.exec_fine c h.intact ha (fun p file e hgone => ?_) hcounted
      have hlooks : file.id ∈ (m.next? i).bind fun next => next.2.looksAgain := by
        rw [hnext, hgone]
        rfl
      obtain ⟨b, hb, hcovers⟩ := hok file.id hlooks
      exact (h.covered hb hcovers).2
    obtain ⟨hcounts, hsound⟩ := hfine
    have hshared : (m.advance cacheExec i c).shared = (m.shared.exec c a).shared := hfires.shared
    refine ⟨?_, ?_, ?_, ?_⟩
    · rw [hshared]
      exact hgentle.intact h.intact
    · rw [hshared]
      exact hgentle.backed h.backed
    · rw [hshared, guarded_perm hafter]
      show (m.shared.exec c a).shared.inner.Counted (guarded ((m.shared.exec c a).code ++ (others ++
        (m.shared.exec c a).spawned.flatMap Thread.code)))
      rw [hsound.spawned, List.flatMap_nil, List.append_nil, guarded_append]
      exact hcounts
    rw [hshared]
    refine hfires.all (fun t ht b hb => ?_) hsound.code fun t ht => ?_
    · have hb' := h.sound t ht b hb
      refine ⟨hb'.knows, fun id hid => hgentle.keeps id (hb'.promises id hid) ?_, hb'.gentle⟩
      refine (h.counted.represents.mem_iff id).mpr (Multiset.mem_add.mpr (Or.inl ?_))
      exact mem_guarded (mem_pending.mpr ⟨t, ht, hb⟩) hid.owned
    · have hnone : t ∈ (m.shared.exec c a).spawned := ht
      rw [hsound.spawned] at hnone
      exact absurd hnone List.not_mem_nil

omit [Host] in
theorem opened_backed (maxBytes : Nat) (found : List (BlobId × Bytes)) : (CacheState.opened maxBytes found).Backed :=
  CacheState.opened_induction maxBytes found (fun _ h => nomatch h) fun _ _ _ _ => CacheState.Backed.adopt

omit [Host] in
theorem opened_counted (maxBytes : Nat) (found : List (BlobId × Bytes)) :
    (CacheState.opened maxBytes found).inner.Counted 0 :=
  CacheState.opened_induction (P := fun s => s.inner.Counted 0) maxBytes found RefCount.represents_empty
    fun _ _ _ _ hadopt h => h.same (CacheState.pins_adopt hadopt).1 (CacheState.pins_adopt hadopt).2

theorem held_opened (maxBytes : Nat) {found : List (BlobId × Bytes)}
    (hfound : ∀ object ∈ found, BlobId.of object.2 = object.1) : CachePool.Held ⟨.opened maxBytes found, []⟩ := by
  refine ⟨?_, opened_backed maxBytes found, opened_counted maxBytes found, List.forall_mem_nil _⟩
  exact CacheState.opened_induction maxBytes found (fun _ _ h => nomatch h) fun _ _ object hobject hadopt hintact =>
    (CacheState.Gentle.adopt hadopt (hfound object hobject)).intact hintact

end CachePool

/-- **Fetched inputs stay in the cache.**  In every run from a cache with intact objects whose steps meet
`LooksPinned`, as long as a pin that `fetch_task_inputs` returned is held, the blob of each of its inputs and all
files of each tree among them are indexed and have their object file. -/
theorem fetched_inputs_held {maxBytes : Nat} {found : List (BlobId × Bytes)}
    (hfound : ∀ object ∈ found, BlobId.of object.2 = object.1) {labels : List CacheLabel}
    (hrun : Within CachePool.step LooksPinned ⟨.opened maxBytes found, []⟩ labels) {m : CachePool}
    (hm : m = runFrom CachePool.step ⟨.opened maxBytes found, []⟩ labels) {f : Fetch}
    (hf : CacheSection.holds f ∈ m.pending) : ∀ input ∈ f.inputs, m.shared.Holds input.blobId ∧
      ∀ manifest size, input.source = .tree manifest size → ∃ data tree, BlobId.of data = manifest ∧
        TreeManifest.decode data = .ok tree ∧ ∀ file ∈ tree.files, m.shared.Holds file.id := by
  have hheld : m.Held := by
    rw [hm]
    exact Within.invariant (fun m label h hok => h.step label hok) (CachePool.held_opened maxBytes hfound) hrun
  obtain ⟨t, ht, hcode⟩ := CachePool.mem_pending.mp hf
  have hcovers : f.Covers [] := (hheld.sound t ht _ hcode).knows
  intro input hinput
  refine ⟨hheld.holds hf (hcovers.top input hinput), fun manifest size htree => ?_⟩
  rcases hcovers.trees input hinput with hleft | hseen
  · exact absurd hleft List.not_mem_nil
  · obtain ⟨data, tree, hdata, hdecode, hfiles⟩ := hseen manifest size htree
    exact ⟨data, tree, hdata, hdecode, fun file hfile => hheld.holds hf (hfiles file hfile)⟩

end

/-! ## A blob that is forgotten

Task A's run is aborted while `materialize_inputs` goes on, so its pin is dropped.  The blob is evicted, `materialize`
does not find the object, twice; before it takes the lock, task B pins the blob, fetches it and is given its pin. -/

namespace Forgotten

attribute [local instance] Host.blank

def inputs : List TaskInput := [⟨"x", .file ⟨0⟩ 1 false⟩]

/-- The master has the blob. -/
def answer : BlobRequest → Except BlobError BlobReply
  | .missing ids => .ok (.missing ids)
  | .read id offset _ => .ok (.chunk id offset 1 [42])
  | .write id totalSize _ _ => .ok (.written id totalSize true)

def smooth : CacheChoice := ⟨false, none, true, fun _ => true, 0, [answer]⟩

/-- The file is not found. -/
def missed : CacheChoice := { smooth with fault := some ⟨true, noSuchFile⟩ }

/-- Thread `i` fetches the inputs. -/
def fetch (i : Nat) : List CacheLabel := .start (.fetchTaskInputs inputs true) :: List.replicate 7 (.advance i smooth)

def labels : List CacheLabel :=
  fetch 0 ++
  [.start (.materializeInputs inputs ∅), .advance 1 smooth,
    -- A's pin is dropped, and the cache is over its bound
    .advance 0 smooth, .start .evictToFit, .advance 2 smooth,
    .advance 1 smooth, .advance 1 smooth] ++
  fetch 3 ++ [.advance 1 smooth]

def pin : Fetch := ⟨inputs, [⟨0⟩], [], none, true⟩

/-- A run in which the file is not found while the pin is held. -/
def pinnedLabels : List CacheLabel :=
  fetch 0 ++ [.start (.materializeInputs inputs ∅), .advance 1 smooth, .advance 1 missed, .advance 1 smooth,
    .start .evictToFit, .advance 2 smooth]

end Forgotten

section Concrete

attribute [local instance] Host.blank

/-- The pin was returned and is held, and the blob is not in the index. -/
theorem forgotten_while_pinned :
    CacheSection.holds Forgotten.pin ∈ (runFrom CachePool.step ⟨.opened 0 [], []⟩ Forgotten.labels).pending ∧
      ¬∀ input ∈ Forgotten.pin.inputs,
        (runFrom CachePool.step ⟨.opened 0 [], []⟩ Forgotten.labels).shared.Holds input.blobId := by
  decide +kernel

/-- The object stays when the second look finds it under a pin. -/
theorem pinned_input_held :
    CacheState.Holds (runFrom CachePool.step ⟨.opened 0 [], []⟩ Forgotten.pinnedLabels).shared ⟨0⟩ := by
  have hfound : ∀ object ∈ ([] : List (BlobId × Bytes)), BlobId.of object.2 = object.1 :=
    fun _ h => absurd h List.not_mem_nil
  have hrun : Within CachePool.step LooksPinned ⟨.opened 0 [], []⟩ Forgotten.pinnedLabels := by decide +kernel
  have hpin : CacheSection.holds Forgotten.pin ∈
      (runFrom CachePool.step ⟨.opened 0 [], []⟩ Forgotten.pinnedLabels).pending := by decide +kernel
  exact (fetched_inputs_held hfound hrun rfl hpin ⟨"x", .file ⟨0⟩ 1 false⟩ (List.mem_singleton_self _)).1

end Concrete

end OxideSwarm
