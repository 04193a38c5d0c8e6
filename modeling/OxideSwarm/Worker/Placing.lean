import OxideSwarm.Worker.Tasks

/-!
# What `materialize_inputs` leaves in a sandbox

`Laid box done` is a sandbox that holds exactly the files `done`, each at its own path, and the directories
above them; placing one more file keeps it so (`Laid.place`).  A thread that places inputs goes from section to
section with such a sandbox (`Filling`), whatever the other threads do to the cache meanwhile.  When it ends
well, it has placed the files that its inputs expand to, with contents that hash to their ids
(`placed_spec`).
-/

namespace OxideSwarm

/-! ## Directories -/

namespace Sandbox

theorem mem_ancestors {path dir : List String} : path ∈ ancestors dir ↔ path ≠ [] ∧ path <+: dir := by
  unfold ancestors
  cases dir with
  | nil =>
    constructor
    · exact fun h => absurd h List.not_mem_nil
    · exact fun h => absurd (List.prefix_nil.mp h.2) h.1
  | cons name rest =>
    rw [List.inits_cons, List.tail_cons, List.mem_map]
    constructor
    · rintro ⟨q, hq, rfl⟩
      exact ⟨List.cons_ne_nil _ _, (List.prefix_cons_inj name).mpr ((List.mem_inits _ _).mp hq)⟩
    rintro ⟨hne, hpre⟩
    cases path with
    | nil => exact absurd rfl hne
    | cons first q =>
      obtain ⟨rfl, hq⟩ := List.cons_prefix_cons.mp hpre
      exact ⟨q, (List.mem_inits _ _).mpr hq, rfl⟩

theorem prefix_dropLast {path p : List String} (hp : p ≠ []) : path <+: p.dropLast ↔ path <+: p ∧ path ≠ p := by
  have hlen : p.dropLast.length + 1 = p.length := by
    have := List.length_pos_of_ne_nil hp
    rw [List.length_dropLast]
    omega
  constructor
  · intro h
    refine ⟨h.trans (List.dropLast_prefix p), ?_⟩
    rintro rfl
    have := h.length_le
    omega
  rintro ⟨h, hne⟩
  have hlt : path.length < p.length := by
    rcases Nat.lt_or_ge path.length p.length with hlt | hge
    · exact hlt
    · exact absurd (h.eq_of_length_le hge) hne
  exact List.prefix_of_prefix_length_le h (List.dropLast_prefix p) (by omega)

/-- The directories that have to be there for a file at `p`. -/
theorem mem_ancestors_dropLast {path p : List String} (hp : p ≠ []) :
    path ∈ ancestors p.dropLast ↔ path ≠ [] ∧ path <+: p ∧ path ≠ p := by
  rw [mem_ancestors, prefix_dropLast hp]

theorem get_createDir (box : Sandbox) (p path : List String) :
    (box.createDir p).get path = if path = p ∧ box.get path = none then some .dir else box.get path := by
  unfold createDir
  by_cases hp : path = p
  · subst hp
    cases h : box.get path with
    | none => simp
    | some e => simp [h]
  · split
    · rw [if_neg fun h => hp h.1]
    · rw [FMap.get_set, if_neg hp, if_neg fun h => hp h.1]

theorem get_createDirs (path : List String) : ∀ (dirs : List (List String)) (box : Sandbox),
    (dirs.foldl createDir box).get path = if path ∈ dirs ∧ box.get path = none then some .dir else box.get path := by
  intro dirs
  induction dirs with
  | nil =>
    intro box
    rw [List.foldl_nil, if_neg fun h => absurd h.1 List.not_mem_nil]
  | cons p dirs ih =>
    intro box
    rw [List.foldl_cons, ih, get_createDir]
    by_cases hp : path = p
    · subst hp
      cases h : box.get path with
      | none | some => simp
    · simp [hp]

/-- **`create_dir_all`.**  None of the directories is a file, and those that were missing are there now. -/
theorem createDirAll_spec {box box' : Sandbox} {dir : List String} (h : box.createDirAll dir = .ok box') :
    (∀ p ∈ ancestors dir, box.isFile p = false) ∧
      ∀ path, box'.get path = if path ∈ ancestors dir ∧ box.get path = none then some .dir else box.get path := by
  unfold createDirAll at h
  split at h
  · cases h
  next hancestors =>
  split at h
  · cases h
  next hdir =>
  cases h
  refine ⟨fun p hp => ?_, fun path => get_createDirs path _ box⟩
  rw [mem_ancestors] at hp
  by_cases hself : p = dir
  · rw [hself]
    exact Bool.eq_false_iff.mpr hdir
  have hne : dir ≠ [] := fun hnil => hp.1 (List.prefix_nil.mp (hnil ▸ hp.2))
  have habove := (mem_ancestors_dropLast hne).mpr ⟨hp.1, hp.2, hself⟩
  rw [Bool.not_eq_true, List.any_eq_false] at hancestors
  exact Bool.eq_false_iff.mpr (hancestors p habove)

end Sandbox

/-! ## Files -/

/-- A file in the sandbox. -/
structure PlacedFile where
  rel : String
  content : Bytes
  executable : Bool
deriving DecidableEq, Repr

namespace PlacedFile

def path (f : PlacedFile) : List String := segments f.rel

def entry (f : PlacedFile) : SandboxEntry := .file f.content (placedMode f.executable)

end PlacedFile

/-- The sandbox holds the files `done`, the directories above them and nothing else. -/
structure Laid (box : Sandbox) (done : List PlacedFile) : Prop where
  files : ∀ path content mode, box.get path = some (.file content mode) ↔
    ∃ f ∈ done, f.path = path ∧ f.entry = .file content mode
  dirs : ∀ path, box.get path = some .dir ↔ path ≠ [] ∧ ∃ f ∈ done, path <+: f.path ∧ path ≠ f.path
  apart : (done.map PlacedFile.path).Nodup

theorem Laid.empty : Laid ∅ [] where
  files path content mode := by
    rw [FMap.get_empty]
    exact ⟨fun h => (nomatch h), fun ⟨f, hf, _⟩ => absurd hf List.not_mem_nil⟩
  dirs path := by
    rw [FMap.get_empty]
    exact ⟨fun h => (nomatch h), fun ⟨_, f, hf, _⟩ => absurd hf List.not_mem_nil⟩
  apart := List.nodup_nil

/-- **One more file.**  Its directories were made and nothing was at its path. -/
theorem Laid.place {box box' : Sandbox} {done : List PlacedFile} (h : Laid box done) (f : PlacedFile)
    (hdirs : box.createDirAll f.path.dropLast = .ok box') (hfree : box'.get f.path = none) :
    Laid (box'.set f.path f.entry) (done ++ [f]) := by
  obtain ⟨hnofile, hget⟩ := Sandbox.createDirAll_spec hdirs
  have hne : f.path ≠ [] := segments_ne_nil f.rel
  have hfree' : box.get f.path = none := by
    have hself := hget f.path
    rw [hfree] at hself
    split at hself
    · next hnew => exact hnew.2
    · exact hself.symm
  refine ⟨fun path content mode => ?_, fun path => ?_, ?_⟩
  · rw [FMap.get_set]
    simp only [List.mem_append, List.mem_singleton]
    by_cases hpath : path = f.path
    · subst hpath
      rw [if_pos rfl]
      constructor
      · intro heq
        exact ⟨f, Or.inr rfl, rfl, Option.some.inj heq⟩
      rintro ⟨g, hg | rfl, hgpath, hentry⟩
      · have hold := (h.files f.path content mode).mpr ⟨g, hg, hgpath, hentry⟩
        rw [hfree'] at hold
        cases hold
      · rw [hentry]
    rw [if_neg hpath, hget path]
    have hfiles : (∃ g, (g ∈ done ∨ g = f) ∧ g.path = path ∧ g.entry = .file content mode) ↔
        ∃ g ∈ done, g.path = path ∧ g.entry = .file content mode := by
      constructor
      · rintro ⟨g, hg | rfl, hgpath, hentry⟩
        · exact ⟨g, hg, hgpath, hentry⟩
        · exact absurd hgpath.symm hpath
      · rintro ⟨g, hg, hrest⟩
        exact ⟨g, Or.inl hg, hrest⟩
    rw [hfiles, ← h.files]
    split
    · next hnew =>
      rw [hnew.2]
      exact ⟨fun heq => (nomatch heq), fun heq => (nomatch heq)⟩
    · rfl
  · rw [FMap.get_set]
    simp only [List.mem_append, List.mem_singleton]
    have hsplit : (path ≠ [] ∧ ∃ g, (g ∈ done ∨ g = f) ∧ path <+: g.path ∧ path ≠ g.path) ↔
        box.get path = some .dir ∨ path ∈ Sandbox.ancestors f.path.dropLast := by
      rw [h.dirs, Sandbox.mem_ancestors_dropLast hne]
      constructor
      · rintro ⟨hpath, g, hg | rfl, hpre⟩
        · exact .inl ⟨hpath, g, hg, hpre⟩
        · exact .inr ⟨hpath, hpre⟩
      · rintro (⟨hpath, g, hg, hpre⟩ | ⟨hpath, hpre⟩)
        · exact ⟨hpath, g, Or.inl hg, hpre⟩
        · exact ⟨hpath, f, Or.inr rfl, hpre⟩
    rw [hsplit]
    by_cases hpath : path = f.path
    · subst hpath
      rw [if_pos rfl, hfree', Sandbox.mem_ancestors_dropLast hne]
      constructor
      · exact fun heq => (nomatch heq)
      · rintro (heq | ⟨-, -, hself⟩)
        · cases heq
        · exact absurd rfl hself
    rw [if_neg hpath, hget path]
    by_cases habove : path ∈ Sandbox.ancestors f.path.dropLast
    · -- a directory above the file: it was no file, so it was there or has been made
      have hold := hnofile path habove
      cases hbox : box.get path with
      | none => simp [habove]
      | some e =>
        cases e with
        | dir => simp
        | file content mode =>
          rw [Sandbox.isFile, hbox] at hold
          cases hold
    · simp [habove]
  rw [List.map_append, List.map_singleton, List.nodup_append]
  refine ⟨h.apart, List.nodup_singleton _, ?_⟩
  intro path hpath path' hpath'
  rw [List.mem_singleton] at hpath'
  subst hpath'
  rintro rfl
  obtain ⟨g, hg, hgpath⟩ := List.mem_map.mp hpath
  have hold := (h.files g.path g.content (placedMode g.executable)).mpr ⟨g, hg, rfl, rfl⟩
  rw [hgpath, hfree'] at hold
  cases hold

/-! ## The thread -/

variable [Host]

/-- The files an input puts into a sandbox, given the content of its manifest. -/
inductive Expands : TaskInput → List ToPlace → Prop where
  | file (path : String) (id : BlobId) (size : Nat) (executable : Bool) :
      Expands ⟨path, .file id size executable⟩ [⟨path, id, executable⟩]
  | tree (path : String) (data : Bytes) (size : Nat) (tree : TreeManifest) (h : TreeManifest.decode data = .ok tree) :
      Expands ⟨path, .tree (BlobId.of data) size⟩
        (tree.files.map fun file => ⟨joinBlobPath path file.path, file.id, file.executable⟩)

/-- The file was placed as asked, with a content that hashes to the id. -/
structure PlacedFile.Fulfils (f : PlacedFile) (file : ToPlace) : Prop where
  rel : f.rel = file.rel
  content : BlobId.of f.content = file.id
  executable : f.executable = file.executable

/-- The inputs before `todo` are expanded, their files placed up to `files`. -/
def Placing.Filled (inputs : List TaskInput) (p : Placing) : Prop :=
  ∃ past lists taken done, inputs = past ++ p.todo ∧ List.Forall₂ Expands past lists ∧
    lists.flatten = taken ++ p.files ∧ List.Forall₂ PlacedFile.Fulfils done taken ∧ Laid p.box done

/-- The sandbox holds what `inputs` expand to. -/
def Complete (inputs : List TaskInput) (box : Sandbox) : Prop :=
  ∃ lists done, List.Forall₂ Expands inputs lists ∧ List.Forall₂ PlacedFile.Fulfils done lists.flatten ∧ Laid box done

/-- The thread stands before the manifest `id` of `input`. -/
def Placing.Reading (inputs : List TaskInput) (p : Placing) (input : TaskInput) (id : BlobId) : Prop :=
  Placing.Filled inputs { p with todo := input :: p.todo } ∧ p.files = [] ∧ ∃ size, input.source = .tree id size

/-- What a thread that places `inputs` has done when it comes to a section. -/
def CacheSection.Filling (inputs : List TaskInput) : CacheSection → Prop
  | .place p => p.Filled inputs
  | .readMeta (.place p input) id | .readData (.place p input) id => p.Reading inputs input id
  | .readTouch (.place p input) id data => p.Reading inputs input id ∧ BlobId.of data = id
  | .placeTouch p file data => Placing.Filled inputs
      { p with box := p.box.set (segments file.rel) (.file data (placedMode file.executable)) }
  | .placed (.ok _) box => Complete inputs box
  | .placed (.error _) _ | .readCorrupt (.place _ _) _ | .placeCorrupt _ _ | .placeGone _ _ _
  | .placeForget _ _ => True
  | _ => False

section Steps

variable {inputs : List TaskInput}

theorem Placing.Filled.expand {p : Placing} {input : TaskInput} {files : List ToPlace}
    (h : Placing.Filled inputs { p with todo := input :: p.todo }) (hfiles : p.files = []) (hexpand : Expands input files) :
    Placing.Filled inputs { p with files } := by
  obtain ⟨past, lists, taken, done, hinputs, hpast, hflat, hdone, hbox⟩ := h
  refine ⟨past ++ [input], lists ++ [files], taken, done, ?_, ?_, ?_, hdone, hbox⟩
  · rw [hinputs, List.append_assoc, List.singleton_append]
  · exact List.rel_append hpast (.cons hexpand .nil)
  · rw [List.flatten_append, hflat, hfiles, List.append_nil, List.flatten_singleton]

theorem Placing.Filled.next {p : Placing} {file : ToPlace} {files : List ToPlace} {data : Bytes} {box : Sandbox}
    (h : p.Filled inputs) (hfiles : p.files = file :: files) (hhash : BlobId.of data = file.id)
    (hdirs : p.box.createDirAll (segments file.rel).dropLast = .ok box) (hfree : box.get (segments file.rel) = none) :
    Placing.Filled inputs { p with
      files, box := box.set (segments file.rel) (.file data (placedMode file.executable)) } := by
  obtain ⟨past, lists, taken, done, hinputs, hpast, hflat, hdone, hbox⟩ := h
  refine ⟨past, lists, taken ++ [file], done ++ [⟨file.rel, data, file.executable⟩], hinputs, hpast, ?_, ?_, ?_⟩
  · rw [hflat, hfiles, List.append_assoc, List.singleton_append]
  · exact List.rel_append hdone (.cons ⟨rfl, hhash, rfl⟩ .nil)
  · exact hbox.place ⟨file.rel, data, file.executable⟩ hdirs hfree

theorem place_filling (s : CacheState) (c : CacheChoice) {p : Placing} (h : p.Filled inputs) :
    ∃ a, (s.place c p).code = [a] ∧ a.Filling inputs := by
  unfold CacheState.place CacheState.goOn
  split
  · next hfiles =>
    split
    · next htodo =>
      obtain ⟨past, lists, taken, done, hinputs, hpast, hflat, hdone, hbox⟩ := h
      refine ⟨_, rfl, lists, done, ?_, ?_, hbox⟩
      · rw [hinputs, htodo, List.append_nil]
        exact hpast
      · rw [hflat, hfiles, List.append_nil]
        exact hdone
    next input todo htodo =>
    have hnext : Placing.Filled inputs { p with todo := input :: todo } := by
      rw [← htodo]
      exact h
    split
    · next id size executable hsource =>
      obtain ⟨path, source⟩ := input
      cases hsource
      exact ⟨_, rfl, Placing.Filled.expand (p := { p with todo }) hnext hfiles (.file path id size executable)⟩
    · next manifest size hsource => exact ⟨_, rfl, hnext, hfiles, size, hsource⟩
  next file files hfiles =>
  split
  · exact ⟨_, rfl, trivial⟩
  split
  · exact ⟨_, rfl, trivial⟩
  next box hdirs =>
  split
  · exact ⟨_, rfl, trivial⟩
  next data hdata =>
  split
  · exact ⟨_, rfl, trivial⟩
  next hfree =>
  split
  · split
    · exact ⟨_, rfl, trivial⟩
    · exact ⟨_, rfl, trivial⟩
  split
  · exact ⟨_, rfl, trivial⟩
  next hhash =>
  refine ⟨_, rfl, ?_⟩
  have hdone := h.next hfiles (not_not.mp hhash) hdirs (Option.not_isSome_iff_eq_none.mp hfree)
  change Placing.Filled inputs ⟨p.todo, files, p.placed, (box.set _ _).set _ _⟩
  rw [FMap.set_set]
  exact hdone

theorem CacheSection.Filling.not_droppable {a : CacheSection} (h : a.Filling inputs) : a.droppable = false := by
  cases a with
  | readMeta r manifest | readData r manifest | readTouch r manifest data | readCorrupt r manifest =>
    cases r with
    | fetch f input => exact absurd h id
    | place p input => rfl
  | fetchCheck | fetchJobs | fetchNext | fetchExtend => exact absurd h id
  | _ => rfl

/-- **One section of a thread that places inputs**, in whatever state it finds the cache. -/
theorem exec_filling (s : CacheState) (c : CacheChoice) {a : CacheSection} (h : a.Filling inputs) :
    ∃ b, (s.exec c a).code = [b] ∧ b.Filling inputs := by
  rw [CacheState.exec_eq_run s c h.not_droppable]
  cases a with
  | place p =>
    exact place_filling s c h
  | placeTouch p file data =>
    unfold CacheState.run CacheState.placeTouch CacheState.goOn
    dsimp only
    split
    · exact ⟨_, rfl, trivial⟩
    · exact ⟨_, rfl, h⟩
  | placeGone p file error =>
    unfold CacheState.run CacheState.placeGone CacheState.goOn
    dsimp only
    split
    · exact ⟨_, rfl, trivial⟩
    · exact ⟨_, rfl, trivial⟩
  | placeCorrupt p file | placeForget p file => exact ⟨_, rfl, trivial⟩
  | placed result box => exact ⟨_, rfl, h⟩
  | readMeta r manifest =>
    cases r with
    | fetch f input => exact absurd h id
    | place p input =>
      unfold CacheState.run CacheState.readMeta CacheState.goOn
      dsimp only
      split
      · exact ⟨_, rfl, trivial⟩
      · exact ⟨_, rfl, trivial⟩
      · split
        · exact ⟨_, rfl, trivial⟩
        · exact ⟨_, rfl, h⟩
  | readData r manifest =>
    cases r with
    | fetch f input => exact absurd h id
    | place p input =>
      unfold CacheState.run CacheState.readData CacheState.goOn
      dsimp only
      split
      · exact ⟨_, rfl, trivial⟩
      · exact ⟨_, rfl, trivial⟩
      · split
        · exact ⟨_, rfl, trivial⟩
        · next hhash => exact ⟨_, rfl, h, not_not.mp hhash⟩
  | readTouch r manifest data =>
    cases r with
    | fetch f input => exact absurd h id
    | place p input =>
      obtain ⟨⟨hfilled, hfiles, size, hsource⟩, hhash⟩ := h
      unfold CacheState.run CacheState.goOn CacheSection.afterRead
      dsimp only
      split
      · exact ⟨_, rfl, trivial⟩
      next tree hdecode =>
      obtain ⟨path, source⟩ := input
      cases hsource
      cases hhash
      exact ⟨_, rfl, hfilled.expand hfiles (.tree path data size tree hdecode)⟩
  | readCorrupt r manifest =>
    cases r with
    | fetch f input => exact absurd h id
    | place p input => exact ⟨_, rfl, trivial⟩
  | _ => exact absurd h id

end Steps

/-! ## Runs -/

/-- Thread `i` places `inputs`. -/
def PlacesAt (inputs : List TaskInput) (i : Nat) (m : CachePool) : Prop :=
  ∃ a, m.At i a ∧ a.Filling inputs

theorem step_placesAt {inputs : List TaskInput} {i : Nat} (m : CachePool) (l : CacheLabel) (h : PlacesAt inputs i m) :
    PlacesAt inputs i (m.step l) := by
  obtain ⟨a, ha, hfilling⟩ := h
  cases l with
  | start call => exact ⟨a, Pool.spawn_get ha _ _, hfilling⟩
  | advance j c =>
    by_cases hj : j = i
    · subst hj
      obtain ⟨b, hb, hfilling'⟩ := exec_filling m.shared c hfilling
      refine ⟨b, ?_, hfilling'⟩
      have hnext : (m.step (.advance j c)).threads[j]? = some ⟨(), (cacheExec c () a m.shared).code ++ []⟩ :=
        Pool.advance_get ha c
      rw [List.append_nil, show (cacheExec c () a m.shared).code = [b] from hb] at hnext
      exact hnext
    · exact ⟨a, Pool.advance_other ha hj c, hfilling⟩

/-- **`materialize_inputs` on an empty sandbox**: however the other threads use the cache meanwhile, if it succeeds
the sandbox holds what the inputs expand to. -/
theorem placed_spec {inputs : List TaskInput} {m : CachePool} {i n : Nat} {labels : List CacheLabel} {box : Sandbox}
    (hstart : m.At i (CacheCall.materializeInputs inputs ∅).code)
    (hend : CachePool.At (runFrom CachePool.step m labels) i (.placed (.ok n) box)) : Complete inputs box := by
  have hrun : ∀ (labels : List CacheLabel) (m : CachePool), PlacesAt inputs i m →
      PlacesAt inputs i (runFrom CachePool.step m labels) := by
    intro labels
    induction labels with
    | nil => exact fun _ h => h
    | cons l labels ih => exact fun m h => ih _ (step_placesAt m l h)
  have hfirst : PlacesAt inputs i m :=
    ⟨_, hstart, [], [], [], [], rfl, .nil, rfl, .nil, Laid.empty⟩
  obtain ⟨a, ha, hfilling⟩ := hrun labels m hfirst
  cases hend.symm.trans ha
  exact hfilling

end OxideSwarm
