import OxideSwarm.Core.Blob
import OxideSwarm.Lib.Fallible

/-!
# What the path check accepts, and the round trip of a manifest

`ValidPath` is `validate_blob_path` as a predicate.  The path of a directory is valid if that of anything
below it is (`ValidPath.parent`), so a walk that leaves out a directory with an invalid path leaves out no
file with a valid one.  A path is its segments (`split_injective`), and joining paths appends them
(`split_append`).

A manifest that was built is read back from its encoding (`TreeManifest.decode_encode`), and nothing but its
encoding is read as it (`TreeManifest.encoding_canonical`).
-/

namespace OxideSwarm

open Fallible

/-! ## Segments -/

/-- The names between the slashes. -/
def segments (path : String) : List String := Text.split '/' path

theorem split_append (p q : String) : segments (p ++ "/" ++ q) = segments p ++ segments q := by
  have hlist : (p ++ "/" ++ q).toList = p.toList ++ '/' :: q.toList := by simp
  unfold segments Text.split
  rw [hlist, List.splitOn, List.splitOnP_append_cons _ _ (by simp), List.map_append]
  rfl

theorem split_injective : Function.Injective segments := by
  intro p q h
  have hinj : Function.Injective (List.map String.ofList) := List.map_injective_iff.mpr fun _ _ => String.ofList_injective
  have hsplit : p.toList.splitOn '/' = q.toList.splitOn '/' := hinj h
  have hp : ['/'].intercalate (p.toList.splitOn '/') = p.toList := List.intercalate_splitOn '/'
  rw [hsplit, List.intercalate_splitOn] at hp
  exact String.toList_inj.mp hp.symm

theorem join_segments (path : String) : Text.join "/" (segments path) = path := by
  have hmap : (segments path).map String.toList = path.toList.splitOn '/' := by
    unfold segments Text.split
    rw [List.map_map]
    simp only [Function.comp_def, String.toList_ofList, List.map_id']
  have hslash : "/".toList = ['/'] := rfl
  rw [Text.join, hmap, hslash, List.intercalate_splitOn, String.ofList_toList]

theorem segments_join {names : List String} (hne : names ≠ []) (h : ∀ name ∈ names, '/' ∉ name.toList) :
    segments (Text.join "/" names) = names := by
  have hslash : "/".toList = ['/'] := rfl
  have hpieces : ∀ l ∈ names.map String.toList, '/' ∉ l := by
    intro l hl
    obtain ⟨name, hname, rfl⟩ := List.mem_map.mp hl
    exact h name hname
  unfold segments Text.split Text.join
  rw [String.toList_ofList, hslash, List.splitOn_intercalate '/' hpieces (by simpa using hne), List.map_map]
  simp only [Function.comp_def, String.ofList_toList, List.map_id']

theorem segments_ne_nil (path : String) : segments path ≠ [] := by
  intro h
  exact List.splitOnP_ne_nil _ _ (List.map_eq_nil_iff.mp h)

/-! ## Valid paths -/

variable [Host]

/-- What `validate_blob_path` asks of a segment. -/
structure ValidSegment (segment : String) : Prop where
  nonempty : segment ≠ ""
  named : ¬(segment = "." ∨ segment = "..")
  short : Text.len segment ≤ maxPathSegmentBytes

/-- What `validate_blob_path` accepts. -/
structure ValidPath (path : String) : Prop where
  short : Text.len path ≤ maxBlobPathBytes
  relative : ¬Text.startsWith "/" path
  plain : ∀ c ∈ path.toList, ¬(c = '\\' ∨ c = ':' ∨ c = '\x00')
  segments : ∀ s ∈ segments path, ValidSegment s

omit [Host] in
theorem validateBlobSegment_iff (path s : String) : validateBlobSegment path s = .ok () ↔ ValidSegment s := by
  unfold validateBlobSegment
  split
  · next h => exact ⟨fun h => (nomatch h), fun hs => absurd h hs.nonempty⟩
  next hempty =>
  split
  · next h => exact ⟨fun h => (nomatch h), fun hs => absurd h hs.named⟩
  next hnamed =>
  split
  · next h => exact ⟨fun h => (nomatch h), fun hs => absurd hs.short (Nat.not_le.mpr h)⟩
  · next hlong => exact ⟨fun _ => ⟨hempty, hnamed, Nat.not_lt.mp hlong⟩, fun _ => rfl⟩

theorem validateBlobPath_iff (path : String) : validateBlobPath path = .ok () ↔ ValidPath path := by
  unfold validateBlobPath
  split
  · next hempty =>
    refine ⟨fun h => (nomatch h), fun h => ?_⟩
    subst hempty
    exact absurd rfl (h.segments "" (List.mem_singleton_self "")).nonempty
  split
  · next hlong => exact ⟨fun h => (nomatch h), fun h => absurd h.short (Nat.not_le.mpr hlong)⟩
  next hshort =>
  split
  · next habs => exact ⟨fun h => (nomatch h), fun h => absurd habs h.relative⟩
  next hrel =>
  split
  · next c hfind =>
    have hc := List.find?_some hfind
    have hmem := List.mem_of_find?_eq_some hfind
    exact ⟨fun h => (nomatch h), fun h => absurd (of_decide_eq_true hc) (h.plain c hmem)⟩
  next hfind =>
  rw [forM_ok]
  rw [List.find?_eq_none] at hfind
  constructor
  · intro h
    refine ⟨Nat.not_lt.mp hshort, hrel, fun c hc hbad => hfind c hc (decide_eq_true hbad), ?_⟩
    exact fun s hs => (validateBlobSegment_iff path s).mp (h s hs)
  · exact fun h s hs => (validateBlobSegment_iff path s).mpr (h.segments s hs)

instance (path : String) : Decidable (ValidPath path) :=
  decidable_of_iff _ (validateBlobPath_iff path)

omit [Host] in
theorem ValidPath.ne_empty {path : String} (h : ValidPath path) : path ≠ "" := by
  rintro rfl
  exact (h.segments "" (List.mem_singleton_self "")).nonempty rfl

omit [Host] in
/-- **A directory's path is valid if the path of something in it is.** -/
theorem ValidPath.parent {p q : String} (h : ValidPath (p ++ "/" ++ q)) : ValidPath p := by
  have hsegments : ∀ s ∈ OxideSwarm.segments p, ValidSegment s := by
    intro s hs
    apply h.segments
    rw [split_append]
    exact List.mem_append_left _ hs
  have hlist : (p ++ "/" ++ q).toList = p.toList ++ '/' :: q.toList := by simp
  refine ⟨?_, ?_, ?_, hsegments⟩
  · have hshort := h.short
    simp only [Text.len, String.utf8ByteSize_append] at hshort ⊢
    omega
  · intro habs
    apply h.relative
    unfold Text.startsWith at habs ⊢
    rw [List.isPrefixOf_iff_prefix] at habs ⊢
    rw [hlist]
    exact habs.trans (List.prefix_append _ _)
  intro c hc
  apply h.plain
  rw [hlist]
  exact List.mem_append_left _ hc

/-! ## Manifests -/

omit [Host] in
theorem stringCodec_canonical : stringCodec.Canonical := by
  refine Codec.via_canonical (Codec.bytes_canonical 8) fun _ b _ _ s hs => ?_
  obtain ⟨hvalid, hs⟩ := Option.dite_none_right_eq_some.mp hs
  cases hs
  exact List.toList_toArray ..

omit [Host] in
theorem BlobId.codec_canonical : BlobId.codec.Canonical := by
  refine Codec.via_canonical (fun _ _ _ h => (Codec.be_spec h).1) fun _ n _ hread id hid => ?_
  cases hid
  have hlt : n < 2 ^ 256 := Nat.lt_of_lt_of_le (Codec.be_spec hread).2 (by decide)
  exact Nat.mod_eq_of_lt hlt

omit [Host] in
theorem boolCodec_canonical : boolCodec.Canonical := by
  refine Codec.via_canonical (Codec.le_canonical 1) fun _ n _ _ b hb => ?_
  split at hb
  · next hzero =>
    cases hb
    exact hzero.symm
  · obtain ⟨hone, hb⟩ := Option.ite_none_right_eq_some.mp hb
    cases hb
    exact hone.symm

omit [Host] in
theorem blobFilesCodec_canonical : blobFilesCodec.Canonical := by
  refine Codec.list_canonical 8 (Codec.via_canonical (Codec.pair_canonical stringCodec_canonical
    (Codec.pair_canonical BlobId.codec_canonical (Codec.pair_canonical (Codec.le_canonical 8)
      boolCodec_canonical))) fun _ t _ _ f hf => ?_)
  cases hf
  rfl

namespace TreeManifest

/-- What the first loop of the check leaves: valid paths, all of them seen, none twice. -/
theorem validatePaths_spec {files : List BlobFile} : ∀ {paths seen : List String},
    validatePaths seen files = .ok paths → (∀ f ∈ files, ValidPath f.path) ∧
      paths = (files.map (·.path)).reverse ++ seen ∧ (seen.Nodup → paths.Nodup) := by
  induction files with
  | nil =>
    intro paths seen h
    cases h
    exact ⟨List.forall_mem_nil _, rfl, fun h => h⟩
  | cons file rest ih =>
    intro paths seen h
    obtain ⟨u, hpath, h⟩ := bind_ok.mp h
    obtain ⟨hmem, h⟩ := guard_ok.mp h
    obtain ⟨hvalid, hpaths, hnodup⟩ := ih h
    refine ⟨List.forall_mem_cons.mpr ⟨(validateBlobPath_iff _).mp hpath, hvalid⟩, ?_, ?_⟩
    · rw [hpaths, List.map_cons, List.reverse_cons, List.append_assoc, List.singleton_append]
    · exact fun hseen => hnodup (List.nodup_cons.mpr ⟨hmem, hseen⟩)

omit [Host] in
theorem mem_parents {p path : String} : p ∈ parents path ↔ ∃ q, path = p ++ "/" ++ q := by
  simp only [parents, List.mem_map, List.mem_filter, List.mem_range, decide_eq_true_eq]
  constructor
  · rintro ⟨i, ⟨hi, hslash⟩, rfl⟩
    refine ⟨String.ofList (path.toList.drop (i + 1)), String.toList_inj.mp ?_⟩
    have hget : path.toList[i] = '/' := by rwa [List.getElem?_eq_getElem hi, Option.some.injEq] at hslash
    have hdrop : path.toList.drop i = '/' :: path.toList.drop (i + 1) := by rw [List.drop_eq_getElem_cons hi, hget]
    have hcut : path.toList = path.toList.take i ++ '/' :: path.toList.drop (i + 1) := by
      rw [← hdrop, List.take_append_drop]
    simpa using hcut
  · rintro ⟨q, rfl⟩
    have hlist : (p ++ "/" ++ q).toList = p.toList ++ '/' :: q.toList := by simp
    refine ⟨p.toList.length, ⟨?_, ?_⟩, ?_⟩
    · rw [hlist, List.length_append, List.length_cons]
      omega
    · rw [hlist, List.getElem?_append_right (Nat.le_refl _), Nat.sub_self]
      rfl
    · rw [hlist, List.take_left, String.ofList_toList]

/-- What a manifest that passed its check has. -/
structure Sound (m : TreeManifest) : Prop where
  few : m.files.length ≤ maxTreeFiles
  valid : ∀ f ∈ m.files, ValidPath f.path
  distinct : (m.files.map (·.path)).Nodup
  /-- no file is the directory of another -/
  apart : ∀ f ∈ m.files, ∀ g ∈ m.files, ∀ q, g.path ≠ f.path ++ "/" ++ q

theorem validate_spec {m : TreeManifest} (h : m.validate = .ok ()) : m.Sound := by
  unfold validate at h
  obtain ⟨hmany, h⟩ := guard_ok.mp h
  obtain ⟨paths, hpaths, h⟩ := bind_ok.mp h
  obtain ⟨hvalid, rfl, hnodup⟩ := validatePaths_spec hpaths
  have hdistinct := hnodup List.nodup_nil
  rw [List.append_nil] at h hdistinct
  refine ⟨Nat.not_lt.mp hmany, hvalid, List.nodup_reverse.mp hdistinct, fun f hf g hg q hq => ?_⟩
  have hg := forM_ok.mp h g hg
  have hmem : f.path ∈ (m.files.map (·.path)).reverse := List.mem_reverse.mpr (List.mem_map_of_mem hf)
  split at hg
  · cases hg
  · next hfind => exact List.find?_eq_none.mp hfind f.path (mem_parents.mpr ⟨q, hq⟩) (decide_eq_true hmem)

omit [Host] in
theorem eq_of_path {files : List BlobFile} (h : (files.map (·.path)).Nodup) {f g : BlobFile} (hf : f ∈ files)
    (hg : g ∈ files) (hpath : f.path = g.path) : f = g :=
  List.inj_on_of_nodup_map h hf hg hpath

theorem new_spec {files : List BlobFile} {m : TreeManifest} (h : new files = .ok m) :
    m.validate = .ok () ∧ m.files.Perm files ∧ m.files.Pairwise fun a b => a.path.toList ≤ b.path.toList := by
  obtain ⟨u, hvalid, h⟩ := bind_ok.mp h
  cases h
  exact ⟨hvalid, List.perm_insertionSort _ files, List.pairwise_insertionSort _ files⟩

theorem new_perm {files files' : List BlobFile} {m : TreeManifest} (h : new files = .ok m) (hperm : files.Perm files') :
    new files' = .ok m := by
  obtain ⟨hvalid, hfiles, hsorted⟩ := new_spec h
  have hsort : files'.insertionSort (fun a b => a.path.toList ≤ b.path.toList) = m.files := by
    refine ((List.perm_insertionSort _ files').trans (hfiles.trans hperm).symm).eq_of_pairwise ?_
      (List.pairwise_insertionSort _ files') hsorted
    intro a b ha hb hab hba
    have ha := (hfiles.trans hperm).mem_iff.mpr ((List.perm_insertionSort _ files').mem_iff.mp ha)
    exact eq_of_path (validate_spec hvalid).distinct ha hb (String.toList_inj.mp (le_antisymm hab hba))
  unfold new
  rw [hsort]
  exact bind_ok.mpr ⟨(), hvalid, rfl⟩

omit [Host] in
theorem unsorted_eq_false : ∀ {files : List BlobFile}, (files.map (·.path)).Nodup →
    files.Pairwise (fun a b => a.path.toList ≤ b.path.toList) → unsorted files = false
  | [], _, _ => rfl
  | [_], _, _ => rfl
  | a :: b :: rest, hnodup, hsorted => by
    obtain ⟨hnot, hnodup⟩ := List.nodup_cons.mp hnodup
    obtain ⟨hle, hsorted⟩ := List.pairwise_cons.mp hsorted
    have hne : a.path.toList ≠ b.path.toList := by
      intro heq
      have hpath : a.path = b.path := String.toList_inj.mp heq
      exact hnot (List.mem_map.mpr ⟨b, List.mem_cons_self, hpath.symm⟩)
    have hlt := lt_of_le_of_ne (hle b List.mem_cons_self) hne
    rw [unsorted, decide_eq_true hlt, unsorted_eq_false hnodup hsorted]
    rfl

omit [Host] in
theorem blobFile_fits {f : BlobFile} (hpath : ValidPath f.path) (hsize : f.size < 2 ^ 64) : BlobFile.codec.Fits f := by
  have hshort : f.path.toUTF8.data.toList.length ≤ maxBlobPathBytes := by
    have hlen := hpath.short
    rw [Array.length_toList]
    exact hlen
  have hbits := f.id.bits.isLt
  refine ⟨?_, ?_, ?_, ?_⟩
  · exact Nat.lt_of_le_of_lt hshort (by decide)
  · exact Nat.lt_of_lt_of_le hbits (by decide)
  · exact Nat.lt_of_lt_of_le hsize (by decide)
  · exact Nat.lt_of_le_of_lt (Bool.toNat_le f.executable) (by decide)

/-- `decode` accepts the encodings of the sorted, valid manifests that are not too long. -/
theorem decode_iff {bytes : Bytes} {m : TreeManifest} : decode bytes = .ok m ↔ bytes.length ≤ maxManifestBytes ∧
    (∃ body, manifestMagic ++ body = bytes ∧ blobFilesCodec.decode body = some m.files) ∧
      unsorted m.files = false ∧ m.validate = .ok () := by
  unfold decode
  rw [guard_ok, Nat.not_lt]
  refine and_congr_right fun _ => ?_
  cases hbody : manifestMagic.isPrefixOf? bytes with
  | none =>
    refine ⟨fun h => (nomatch h), fun ⟨⟨body, hbytes, _⟩, _⟩ => ?_⟩
    rw [List.isPrefixOf?_eq_some_iff_append_eq.mpr hbytes] at hbody
    cases hbody
  | some body =>
    have hbytes := List.isPrefixOf?_eq_some_iff_append_eq.mp hbody
    have hother : ∀ body', manifestMagic ++ body' = bytes → body' = body := fun body' h =>
      List.append_cancel_left (h.trans hbytes.symm)
    cases hfiles : blobFilesCodec.decode body with
    | none =>
      dsimp only
      rw [hfiles]
      refine ⟨fun h => (nomatch h), fun ⟨⟨body', hbytes', hread⟩, _⟩ => ?_⟩
      rw [hother body' hbytes', hfiles] at hread
      cases hread
    | some files =>
      dsimp only
      rw [hfiles]
      rw [guard_ok, Bool.not_eq_true, bind_ok]
      constructor
      · rintro ⟨hsorted, u, hvalid, h⟩
        cases h
        exact ⟨⟨body, hbytes, hfiles⟩, hsorted, hvalid⟩
      · rintro ⟨⟨body', hbytes', hread⟩, hsorted, hvalid⟩
        rw [hother body' hbytes', hfiles] at hread
        cases hread
        exact ⟨hsorted, (), hvalid, rfl⟩

theorem decode_files {m : TreeManifest} (hvalid : m.validate = .ok ()) (hsize : ∀ f ∈ m.files, f.size < 2 ^ 64) :
    blobFilesCodec.decode (blobFilesCodec.encode m.files) = some m.files := by
  have hm := validate_spec hvalid
  exact blobFilesCodec.decode_encode ⟨Nat.lt_of_le_of_lt hm.few (by decide),
    fun f hf => blobFile_fits (hm.valid f hf) (hsize f hf)⟩

/-- **What is decoded from an encoded manifest is the manifest.** -/
theorem decode_encode {m tree : TreeManifest} (hvalid : m.validate = .ok ()) (hsize : ∀ f ∈ m.files, f.size < 2 ^ 64)
    (h : decode m.encode = .ok tree) : tree = m := by
  obtain ⟨-, ⟨body, hbody, hfiles⟩, -⟩ := decode_iff.mp h
  rw [List.append_cancel_left hbody, decode_files hvalid hsize, Option.some.injEq] at hfiles
  cases m
  cases tree
  cases hfiles
  rfl

/-- **The encoding of a manifest is canonical.**  An accepted list of files is read back from its encoding; bytes
that are read are the encoding of what they are read as; the order of the files does not matter; and the files of a
manifest have their places beside each other. -/
theorem encoding_canonical :
    (∀ files m, new files = .ok m → (∀ f ∈ files, f.size < 2 ^ 64) → m.encode.length ≤ maxManifestBytes →
      decode m.encode = .ok m) ∧ (∀ bytes m, decode bytes = .ok m → m.encode = bytes ∧ m.id = BlobId.of bytes) ∧
    (∀ files files' m, new files = .ok m → files.Perm files' → ∃ m', new files' = .ok m' ∧ m' = m ∧ m'.id = m.id) ∧
    ∀ m, (∃ files, new files = .ok m) ∨ (∃ bytes, decode bytes = .ok m) →
      (m.files.map (·.path)).Nodup ∧ ∀ f ∈ m.files, ∀ g ∈ m.files, ∀ q, g.path ≠ f.path ++ "/" ++ q := by
  refine ⟨?_, ?_, ?_, ?_⟩
  · intro files m h hsize hlength
    obtain ⟨hvalid, hperm, hsorted⟩ := new_spec h
    have hfiles := decode_files hvalid fun f hf => hsize f (hperm.mem_iff.mp hf)
    exact decode_iff.mpr ⟨hlength, ⟨_, rfl, hfiles⟩, unsorted_eq_false (validate_spec hvalid).distinct hsorted, hvalid⟩
  · intro bytes m h
    obtain ⟨-, ⟨body, hbytes, hfiles⟩, -⟩ := decode_iff.mp h
    have hencode : m.encode = bytes := by
      rw [encode, blobFilesCodec_canonical.encode_decode hfiles, hbytes]
    exact ⟨hencode, congrArg BlobId.of hencode⟩
  · exact fun files files' m h hperm => ⟨m, new_perm h hperm, rfl, rfl⟩
  · rintro m (⟨files, h⟩ | ⟨bytes, h⟩)
    · have hm := validate_spec (new_spec h).1
      exact ⟨hm.distinct, hm.apart⟩
    · have hm := validate_spec (decode_iff.mp h).2.2.2
      exact ⟨hm.distinct, hm.apart⟩

end TreeManifest

end OxideSwarm

namespace OxideSwarm.TreeManifest

attribute [local instance] Host.blank

theorem one_file_canonical : ∃ m, new [⟨"a", ⟨0⟩, 1, false⟩] = .ok m ∧ decode m.encode = .ok m := by
  have hnew : new [⟨"a", ⟨0⟩, 1, false⟩] = .ok ⟨[⟨"a", ⟨0⟩, 1, false⟩]⟩ := by decide +kernel
  exact ⟨_, hnew, encoding_canonical.1 _ _ hnew (by decide) (by decide +kernel)⟩

end OxideSwarm.TreeManifest
