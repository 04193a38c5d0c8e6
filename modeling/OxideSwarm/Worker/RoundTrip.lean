import OxideSwarm.Data.Walk
import OxideSwarm.Worker.Placing

/-!
# The round trip of a task's inputs

From the files a user names to the sandbox of the task: the client scans and uploads, the master resolves the
inputs, the worker fetches and places them.  `Delivered` says that every stage succeeded, each against an
arbitrary environment: the master may answer the transfers in any way, and other tasks may use the worker's
cache all the time.

Nothing between the two ends has to be trusted but BLAKE3.  The client names every content by its hash, in the
inputs and in the manifests, and the worker places a content only if it has that hash.  A hash of 256 bits is
not injective on all byte strings; what is asked is that none of the blobs the client prepared shares its id
with another content (`Unambiguous`).
-/

namespace OxideSwarm

section

variable [Host]

/-! ## What is to arrive -/

/-- A local tree gives the file `f`: the tree itself, or a regular file below it with the relative path `rel`,
which is valid, reached without symbolic links. -/
inductive Node.Gives : Node → Option String → RegularFile → Prop where
  | self (f : RegularFile) : Node.Gives (.file f) none f
  | inside {entries : Entries} {names : List String} {rel : String} {f : RegularFile}
      (hat : Node.At (.dir entries) (names.map .utf8) (.file f)) (hrel : rel = Text.join "/" names)
      (hvalid : validateBlobPath rel = .ok ()) : Node.Gives (.dir entries) (some rel) f

/-- The sandbox path of a file: the destination, joined with the relative path. -/
def targetPath (dest : String) (rel : Option String) : String := rel.elim dest (joinBlobPath dest)

/-- The input `i` of `specs` gives `f` under `rel`, to arrive at `target`. -/
def Lands (fs : LocalFs) (limits : Option InputLimits) (specs : List InputSpec) (i : Nat) (rel : Option String)
    (f : RegularFile) (target : String) : Prop :=
  ∃ spec node dest, specs[i]? = some spec ∧ fs.resolve limits.isSome spec.1 = .ok node ∧
    spec.destination node.isDir = .ok dest ∧ node.Gives rel f ∧ target = targetPath dest rel

/-- No two contents have this id. -/
def BlobId.Unambiguous (id : BlobId) : Prop := ∀ a b, BlobId.of a = id → BlobId.of b = id → a = b

/-- Every stage succeeded.  `fetcher` and `placer` are the threads of the task in a run of the worker's cache, which
the worker began with an empty sandbox. -/
structure Delivered (fs : LocalFs) (limits : Option InputLimits) (specs : List InputSpec) (prepared : PreparedInputs)
    (m : CachePool) (labels : List CacheLabel) (box : Sandbox) : Prop where
  scanned : scanInputPaths fs limits specs = .ok prepared
  uploaded : ∃ net report, uploadInputs fs net prepared = .ok report
  resolved : ∃ readings ids, resolveInputs readings prepared.inputs = .ok ids
  fetched : ∃ fetcher online f, m.At fetcher (CacheCall.fetchTaskInputs prepared.inputs online).code ∧
    CachePool.At (runFrom CachePool.step m labels) fetcher (.holds f)
  placed : ∃ placer n, m.At placer (CacheCall.materializeInputs prepared.inputs ∅).code ∧
    CachePool.At (runFrom CachePool.step m labels) placer (.placed (.ok n) box)

/-! ## Inputs and the files they expand to -/

variable {f : RegularFile} {rel : Option String}

theorem gives_walked {entries : Entries} :
    Node.Gives (.dir entries) rel f ↔ ∃ path, rel = some path ∧ Walked entries "" path f := by
  constructor
  · intro h
    cases h with
    | inside hat hrel hvalid => exact ⟨_, rfl, walked_iff.mpr ⟨_, hat, hrel, (validateBlobPath_iff _).mp hvalid⟩⟩
  · rintro ⟨path, rfl, hwalked⟩
    obtain ⟨names, hat, hrel, hvalid⟩ := walked_iff.mp hwalked
    exact .inside hat hrel ((validateBlobPath_iff _).mpr hvalid)

variable {blobs : FMap BlobId LocalBlob} {files : List ToPlace} {node : Node}

/-- **What an input expands to.**  The worker decodes the manifest the client encoded, so an input expands to the
files that the local tree gives. -/
theorem expands_gives {fs : LocalFs} {limits : Option InputLimits} {spec : InputSpec}
    {input : TaskInput} (hmade : MadeFrom fs limits blobs spec input node)
    (hblobs : ∀ id, (blobs.get id).isSome → id.Unambiguous) (hexpand : Expands input files) (file : ToPlace) :
    file ∈ files ↔ ∃ rel f, node.Gives rel f ∧
      file = ⟨targetPath input.path rel, BlobId.of f.content, executableMode f.mode⟩ := by
  obtain ⟨-, -, hsource⟩ := hmade
  cases hexpand with
  | file path id size executable =>
    cases hsource with
    | file f hblob =>
      rw [List.mem_singleton]
      constructor
      · rintro rfl
        exact ⟨none, f, .self f, rfl⟩
      · rintro ⟨rel, g, hgives, rfl⟩
        cases hgives
        rfl
  | tree path data size tree hdecode =>
    generalize hid : BlobId.of data = id at hsource
    cases hsource with
    | tree entries m hvalid hfiles _ hblob =>
      have hdata : data = m.encode := hblobs _ hblob data m.encode hid rfl
      have hsize : ∀ g ∈ m.files, g.size < 2 ^ 64 := by
        intro g hg
        obtain ⟨rel, f, -, rfl⟩ := (hfiles g).mp hg
        exact f.fits
      rw [hdata] at hdecode
      rw [TreeManifest.decode_encode hvalid hsize hdecode, List.mem_map]
      constructor
      · rintro ⟨g, hg, rfl⟩
        obtain ⟨rel, f, hwalked, rfl⟩ := (hfiles g).mp hg
        exact ⟨some rel, f, gives_walked.mpr ⟨rel, rfl, hwalked⟩, rfl⟩
      · rintro ⟨rel, f, hgives, rfl⟩
        obtain ⟨path', rfl, hwalked⟩ := gives_walked.mp hgives
        exact ⟨f.blobFile path', (hfiles _).mpr ⟨path', f, hwalked, rfl⟩, rfl⟩

/-- `files` are what a spec is to put into the sandbox, and no content is taken for that of another. -/
structure SpecFiles (fs : LocalFs) (limits : Option InputLimits) (spec : InputSpec) (files : List ToPlace) (node : Node)
    (dest : String) : Prop where
  named : fs.resolve limits.isSome spec.1 = .ok node
  goes : spec.destination node.isDir = .ok dest
  files : ∀ file, file ∈ files ↔ ∃ rel f, node.Gives rel f ∧
    file = ⟨targetPath dest rel, BlobId.of f.content, executableMode f.mode⟩
  hashed : ∀ rel f, node.Gives rel f → (BlobId.of f.content).Unambiguous

theorem Describes.hashed {source : InputSource} (h : Describes blobs node source) (hgives : node.Gives rel f) :
    (blobs.get (BlobId.of f.content)).isSome := by
  cases h with
  | file g hblob =>
    cases hgives
    exact hblob
  | tree entries m _ hfiles hblobs _ =>
    obtain ⟨path, -, hwalked⟩ := gives_walked.mp hgives
    exact hblobs _ ((hfiles _).mpr ⟨path, f, hwalked, rfl⟩)

theorem MadeFrom.specFiles {fs : LocalFs} {limits : Option InputLimits} {spec : InputSpec} {input : TaskInput}
    (h : MadeFrom fs limits blobs spec input node) (hblobs : ∀ id, (blobs.get id).isSome → id.Unambiguous)
    (hexpand : Expands input files) : SpecFiles fs limits spec files node input.path :=
  ⟨h.named, h.dest, expands_gives h hblobs hexpand, fun _ _ hgives => hblobs _ (h.source.hashed hgives)⟩

theorem specFiles_all {fs : LocalFs} {limits : Option InputLimits}
    (hblobs : ∀ id, (blobs.get id).isSome → id.Unambiguous) : ∀ {specs : List InputSpec} {inputs : List TaskInput}
    {lists : List (List ToPlace)},
    List.Forall₂ (fun spec input => ∃ node, MadeFrom fs limits blobs spec input node) specs inputs →
      List.Forall₂ Expands inputs lists →
        List.Forall₂ (fun spec files => ∃ node dest, SpecFiles fs limits spec files node dest) specs lists := by
  intro specs
  induction specs with
  | nil =>
    intro inputs lists hmade hexpand
    cases hmade
    cases hexpand
    exact .nil
  | cons spec specs ih =>
    intro inputs lists hmade hexpand
    cases hmade with
    | cons hhead htail =>
      cases hexpand with
      | cons hfiles hrest =>
        obtain ⟨node, hnode⟩ := hhead
        exact .cons ⟨node, _, hnode.specFiles hblobs hfiles⟩ (ih htail hrest)

section Lists

variable {fs : LocalFs} {limits : Option InputLimits} {specs : List InputSpec} {lists : List (List ToPlace)}

theorem lands_files
    (h : List.Forall₂ (fun spec files => ∃ node dest, SpecFiles fs limits spec files node dest) specs lists)
    {i : Nat} {target : String} (hlands : Lands fs limits specs i rel f target) :
    (∃ files, lists[i]? = some files ∧ ⟨target, BlobId.of f.content, executableMode f.mode⟩ ∈ files) ∧
      (BlobId.of f.content).Unambiguous := by
  obtain ⟨spec, node, dest, hspec, hnamed, hdest, hgives, rfl⟩ := hlands
  obtain ⟨hi, hget⟩ := List.getElem?_eq_some_iff.mp hspec
  have hi' : i < lists.length := h.length_eq ▸ hi
  obtain ⟨node', dest', hfiles⟩ := List.Forall₂.get h hi hi'
  rw [List.get_eq_getElem, hget] at hfiles
  have hnode : node' = node := by
    have := hfiles.named
    rw [hnamed] at this
    cases this
    rfl
  subst hnode
  have hdest' : dest' = dest := by
    have := hfiles.goes
    rw [hdest] at this
    cases this
    rfl
  subst hdest'
  exact ⟨⟨_, List.getElem?_eq_getElem hi', (hfiles.files _).mpr ⟨rel, f, hgives, rfl⟩⟩, hfiles.hashed rel f hgives⟩

theorem files_lands
    (h : List.Forall₂ (fun spec files => ∃ node dest, SpecFiles fs limits spec files node dest) specs lists)
    {file : ToPlace} (hfile : file ∈ lists.flatten) : ∃ i rel f, Lands fs limits specs i rel f file.rel := by
  obtain ⟨files, hfiles, hmem⟩ := List.mem_flatten.mp hfile
  obtain ⟨i, hi', hget⟩ := List.getElem_of_mem hfiles
  have hi : i < specs.length := h.length_eq ▸ hi'
  obtain ⟨node, dest, hspec⟩ := List.Forall₂.get h hi hi'
  rw [List.get_eq_getElem, List.get_eq_getElem, hget] at hspec
  obtain ⟨rel, f, hgives, rfl⟩ := (hspec.files file).mp hmem
  exact ⟨i, rel, f, _, node, dest, List.getElem?_eq_getElem hi, hspec.named, hspec.goes, hgives, rfl⟩

omit [Host] in
/-- Files of different inputs go to different paths if no path occurs twice. -/
theorem lands_apart (hapart : (lists.flatten.map fun file => segments file.rel).Nodup) {i j : Nat}
    {files' : List ToPlace} (hi : lists[i]? = some files) (hj : lists[j]? = some files') {file file' : ToPlace}
    (hfile : file ∈ files) (hfile' : file' ∈ files') (hpath : segments file.rel = segments file'.rel) : i = j := by
  rw [List.map_flatten, List.nodup_flatten] at hapart
  have hpairwise := hapart.2
  rw [List.pairwise_map] at hpairwise
  by_contra hne
  have hclash : ∀ {k l : Nat} {xs ys : List ToPlace} {x y : ToPlace}, k < l → lists[k]? = some xs → lists[l]? = some ys →
      x ∈ xs → y ∈ ys → segments x.rel ≠ segments y.rel := by
    intro k l xs ys x y hlt hk hl hx hy hxy
    obtain ⟨hklt, rfl⟩ := List.getElem?_eq_some_iff.mp hk
    obtain ⟨hllt, rfl⟩ := List.getElem?_eq_some_iff.mp hl
    have hdisjoint := List.pairwise_iff_getElem.mp hpairwise k l hklt hllt hlt
    exact hdisjoint (List.mem_map.mpr ⟨x, hx, rfl⟩) (List.mem_map.mpr ⟨y, hy, hxy.symm⟩)
  rcases Nat.lt_or_gt_of_ne hne with hlt | hgt
  · exact hclash hlt hi hj hfile hfile' hpath
  · exact hclash hgt hj hi hfile' hfile hpath.symm

end Lists

omit [Host] in
theorem joinBlobPath_injective (base : String) : Function.Injective (joinBlobPath base) := by
  intro p q h
  unfold joinBlobPath at h
  split at h
  · exact h
  · exact (String.append_right_inj _).mp h

/-- The target of a file tells its relative path. -/
theorem targetPath_injective {dest : String} {rel' : Option String} {f' : RegularFile}
    (hgives : node.Gives rel f) (hgives' : node.Gives rel' f') (h : targetPath dest rel = targetPath dest rel') :
    rel = rel' := by
  cases hgives with
  | self f =>
    cases hgives'
    rfl
  | inside _ _ _ =>
    cases hgives' with
    | inside _ _ _ => exact congrArg some (joinBlobPath_injective dest h)

omit [Host] in
theorem executableMode_placedMode (executable : Bool) : executableMode (placedMode executable) = executable := by
  cases executable <;> decide

/-! ## The round trip -/

/-- **Round trip.**  If every stage succeeds, each regular local file with a valid relative path that is reached
without symbolic links is in the sandbox, at the destination joined with its relative path, with the same content
and the same executable bit; no two of them share a place; and the sandbox holds no other file, and no directory
but those above the files. -/
theorem inputs_round_trip {fs : LocalFs} {limits : Option InputLimits} {specs : List InputSpec}
    {prepared : PreparedInputs} {m : CachePool} {labels : List CacheLabel} {box : Sandbox}
    (hblake : ∀ id, (prepared.blobs.get id).isSome → id.Unambiguous)
    (h : Delivered fs limits specs prepared m labels box) : (∀ i rel f target, Lands fs limits specs i rel f target →
      ∃ mode, box.get (segments target) = some (.file f.content mode) ∧ executableMode mode = executableMode f.mode) ∧
    (∀ i i' rel rel' f f' target target', Lands fs limits specs i rel f target → Lands fs limits specs i' rel' f' target' →
      segments target = segments target' → i = i' ∧ rel = rel') ∧
    (∀ path content mode, box.get path = some (.file content mode) →
      ∃ i rel f target, Lands fs limits specs i rel f target ∧ path = segments target) ∧
    (∀ path, box.get path = some .dir ↔ path ≠ [] ∧
      ∃ i rel f target, Lands fs limits specs i rel f target ∧ path <+: segments target ∧ path ≠ segments target) := by
  obtain ⟨placer, n, hstart, hend⟩ := h.placed
  obtain ⟨lists, done, hexpand, hfulfils, hlaid⟩ := placed_spec hstart hend
  have hspecs := specFiles_all hblake (scanInputPaths_spec h.scanned) hexpand
  have hpaths : done.map PlacedFile.path = lists.flatten.map fun file => segments file.rel := by
    have hall : ∀ {done : List PlacedFile} {files : List ToPlace}, List.Forall₂ PlacedFile.Fulfils done files →
        done.map PlacedFile.path = files.map fun file => segments file.rel := by
      intro done files hall
      induction hall with
      | nil => rfl
      | cons hhead _ ih => rw [List.map_cons, List.map_cons, ih, PlacedFile.path, hhead.rel]
    exact hall hfulfils
  have hmem : ∀ path, (∃ d ∈ done, d.path = path) ↔ ∃ i rel f target, Lands fs limits specs i rel f target ∧
      segments target = path := by
    intro path
    rw [← List.mem_map, hpaths, List.mem_map]
    constructor
    · rintro ⟨file, hfile, rfl⟩
      obtain ⟨i, rel, f, hlands⟩ := files_lands hspecs hfile
      exact ⟨i, rel, f, _, hlands, rfl⟩
    · rintro ⟨i, rel, f, target, hlands, rfl⟩
      obtain ⟨⟨files, hfiles, hfile⟩, -⟩ := lands_files hspecs hlands
      exact ⟨_, List.mem_flatten.mpr ⟨files, List.mem_of_getElem? hfiles, hfile⟩, rfl⟩
  refine ⟨?_, ?_, ?_, ?_⟩
  · intro i rel f target hlands
    obtain ⟨⟨files, hfiles, hfile⟩, hhash⟩ := lands_files hspecs hlands
    have hflat := List.mem_flatten.mpr ⟨files, List.mem_of_getElem? hfiles, hfile⟩
    obtain ⟨d, hd, hfulfil⟩ : ∃ d ∈ done, d.Fulfils ⟨target, BlobId.of f.content, executableMode f.mode⟩ := by
      obtain ⟨k, hk, hget⟩ := List.getElem_of_mem hflat
      have hk' : k < done.length := hfulfils.length_eq ▸ hk
      have hpair := List.Forall₂.get hfulfils hk' hk
      rw [List.get_eq_getElem, List.get_eq_getElem, hget] at hpair
      exact ⟨_, List.getElem_mem hk', hpair⟩
    have hcontent : d.content = f.content := hhash _ _ hfulfil.content rfl
    refine ⟨placedMode (executableMode f.mode), ?_, executableMode_placedMode _⟩
    rw [hlaid.files]
    refine ⟨d, hd, ?_, ?_⟩
    · rw [PlacedFile.path, hfulfil.rel]
    · rw [PlacedFile.entry, hcontent, hfulfil.executable]
  · intro i i' rel rel' f f' target target' hlands hlands' hpath
    obtain ⟨⟨files, hfiles, hfile⟩, -⟩ := lands_files hspecs hlands
    obtain ⟨⟨files', hfiles', hfile'⟩, -⟩ := lands_files hspecs hlands'
    have hi : i = i' := lands_apart (hpaths ▸ hlaid.apart) hfiles hfiles' hfile hfile' hpath
    subst hi
    obtain ⟨spec, node, dest, hspec, hnamed, hdest, hgives, rfl⟩ := hlands
    obtain ⟨spec', node', dest', hspec', hnamed', hdest', hgives', rfl⟩ := hlands'
    cases hspec.symm.trans hspec'
    cases hnamed.symm.trans hnamed'
    cases hdest.symm.trans hdest'
    exact ⟨rfl, targetPath_injective hgives hgives' (split_injective hpath)⟩
  · intro path content mode hfile
    obtain ⟨d, hd, hdpath, -⟩ := (hlaid.files path content mode).mp hfile
    obtain ⟨i, rel, f, target, hlands, htarget⟩ := (hmem path).mp ⟨d, hd, hdpath⟩
    exact ⟨i, rel, f, target, hlands, htarget.symm⟩
  intro path
  rw [hlaid.dirs]
  refine and_congr_right fun _ => ?_
  constructor
  · rintro ⟨d, hd, hpre, hne⟩
    obtain ⟨i, rel, f, target, hlands, htarget⟩ := (hmem d.path).mp ⟨d, hd, rfl⟩
    exact ⟨i, rel, f, target, hlands, htarget ▸ hpre, htarget ▸ hne⟩
  · rintro ⟨i, rel, f, target, hlands, hpre, hne⟩
    obtain ⟨d, hd, hdpath⟩ := (hmem (segments target)).mpr ⟨i, rel, f, target, hlands, rfl⟩
    exact ⟨d, hd, hdpath ▸ hpre, hdpath ▸ hne⟩

end

/-! ## A directory on its way

A script in a subdirectory, next to a symbolic link, a pipe and a name that is not UTF-8. -/

namespace Sample

/-- The script, and the manifest that lists it. -/
def script : Bytes := [35, 33, 10]

def listed : List BlobFile := [⟨"sub/run.sh", ⟨1⟩, 3, true⟩]

def manifest : Bytes := manifestMagic ++ blobFilesCodec.encode listed

/-- A host whose digest tells the two contents from all others. -/
@[reducible] def host : Host :=
  { Host.blank with blake3 := fun data => if data = script then ⟨1⟩ else if data = manifest then ⟨2⟩ else ⟨0⟩ }

attribute [local instance] host

def file : RegularFile := ⟨script, 0o755, none, 1, 7, by decide⟩

def tree : Entries :=
  .cons (.utf8 "link") .symlink (.cons (.other [255]) (.file file) (.cons (.utf8 "pipe") .special
    (.cons (.utf8 "sub") (.dir (.cons (.utf8 "run.sh") (.file file) .nil)) .nil)))

def fs : LocalFs where
  lookup _ := .ok (.dir tree)
  target _ := .ok (.dir tree)
  fault _ := none

def specs : List InputSpec := [(⟨"proj", [.normal (.utf8 "proj")]⟩, some "./in")]

def prepared : PreparedInputs where
  inputs := [⟨"in", .tree ⟨2⟩ manifest.length⟩]
  blobs := ((∅ : FMap BlobId LocalBlob).set ⟨1⟩ ⟨3, .file ⟨⟨"proj", [.normal (.utf8 "proj")]⟩,
    [.utf8 "sub", .utf8 "run.sh"]⟩ ⟨3, none, 1, 7, true⟩⟩).set ⟨2⟩ ⟨manifest.length, .bytes manifest⟩
  files := 1
  bytes := 3
  skipped := ["proj/link (symbolic links are not sent)", "proj/ (name is not UTF-8)",
    "proj/pipe (not a regular file)"]

/-- The contents by their ids. -/
def content (id : BlobId) : Bytes := if id = ⟨1⟩ then script else manifest

/-- A master that has what the client sent. -/
def answer : BlobRequest → Except BlobError BlobReply
  | .missing ids => .ok (.missing ids)
  | .read id offset maxLen => .ok (.chunk id offset (content id).length (((content id).drop offset).take maxLen))
  | .write id totalSize _ _ => .ok (.written id totalSize true)

def net : UploadNet where
  order := BlobId.order
  queries := [answer]
  transfers _ := [answer]
  picks := []

def readings : BlobReadings where
  sizeOf _ id := some (content id).length
  readAll id := .ok (content id)

/-- Every operation of a step succeeds. -/
def smooth : CacheChoice := ⟨false, none, true, fun _ => true, 0, [answer]⟩

def worker : CachePool :=
  ⟨.opened 4096 [], [(CacheCall.fetchTaskInputs prepared.inputs true).thread,
    (CacheCall.materializeInputs prepared.inputs ∅).thread]⟩

def labels : List CacheLabel := List.replicate 15 (.advance 0 smooth) ++ List.replicate 8 (.advance 1 smooth)

def box : Sandbox :=
  ((∅ : Sandbox).set ["in"] .dir |>.set ["in", "sub"] .dir).set ["in", "sub", "run.sh"] (.file script 0o755)

def pin : Fetch := ⟨prepared.inputs, [⟨2⟩, ⟨1⟩], [], some "in", true⟩

theorem of_eq (data : Bytes) :
    BlobId.of data = if data = script then ⟨1⟩ else if data = manifest then ⟨2⟩ else ⟨0⟩ := rfl

theorem unambiguous (id : BlobId) (h : (prepared.blobs.get id).isSome) : id.Unambiguous := by
  have hkeys : prepared.blobs.keys = {⟨1⟩, ⟨2⟩} := by decide +kernel
  have hid : id ∈ prepared.blobs.keys := FMap.mem_keys.mpr h
  rw [hkeys, Finset.mem_insert, Finset.mem_singleton] at hid
  have hscript : ∀ data, BlobId.of data = ⟨1⟩ → data = script := by
    intro data hdata
    rw [of_eq] at hdata
    split at hdata
    · next hself => exact hself
    · split at hdata
      · exact absurd hdata (by decide)
      · exact absurd hdata (by decide)
  have hmanifest : ∀ data, BlobId.of data = ⟨2⟩ → data = manifest := by
    intro data hdata
    rw [of_eq] at hdata
    split at hdata
    · exact absurd hdata (by decide)
    · split at hdata
      · next hself => exact hself
      · exact absurd hdata (by decide)
  rcases hid with rfl | rfl
  · exact fun a b ha hb => (hscript a ha).trans (hscript b hb).symm
  · exact fun a b ha hb => (hmanifest a ha).trans (hmanifest b hb).symm

theorem delivered : Delivered fs none specs prepared worker labels box where
  scanned := by decide +kernel
  uploaded := ⟨net, ⟨2, 2, 3 + manifest.length⟩, by decide +kernel⟩
  resolved := ⟨readings, [⟨1⟩, ⟨2⟩], by decide +kernel⟩
  fetched := ⟨0, true, pin, by decide +kernel, by decide +kernel⟩
  placed := ⟨1, 1, by decide +kernel, by decide +kernel⟩

theorem lands : Lands fs none specs 0 (some "sub/run.sh") file "in/sub/run.sh" := by
  have hat : Node.At (.dir tree) (["sub", "run.sh"].map .utf8) (.file file) :=
    .through (List.mem_of_getElem? (i := 3) rfl) (.through (List.mem_of_getElem? (i := 0) rfl) (.here _))
  exact ⟨_, .dir tree, "in", rfl, rfl, by decide +kernel, .inside hat (by decide +kernel) (by decide +kernel),
    by decide +kernel⟩

end Sample

/-- The script arrives, and can be run. -/
theorem script_arrives : ∃ mode, Sample.box.get (segments "in/sub/run.sh") = some (.file [35, 33, 10] mode) ∧
    executableMode mode = true :=
  letI := Sample.host
  (inputs_round_trip Sample.unambiguous Sample.delivered).1 0 (some "sub/run.sh") Sample.file "in/sub/run.sh" Sample.lands

end OxideSwarm
