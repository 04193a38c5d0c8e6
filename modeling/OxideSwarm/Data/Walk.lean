import OxideSwarm.Data.Scan

/-!
# What the scan takes

`Took` is what reading some entries does to the walk: the regular files with a valid relative path join the
list, the directories with one join the stack.  Over the loop this adds up to `Walked` (`scanDirectory_spec`),
and `walked_iff` says what that is in plain terms: the regular files that a path of names leads to, passing
directories only, if the names joined make a valid path.

`Describes` is how a task input tells what it was made from, and `scanInputPaths_spec` says that the inputs of
a scan describe what the user named, one for each.
-/

namespace OxideSwarm

open Fallible

variable [Host]

/-- How a manifest lists a local file. -/
def RegularFile.blobFile (f : RegularFile) (rel : String) : BlobFile :=
  ⟨rel, BlobId.of f.content, f.content.length, executableMode f.mode⟩

/-- The files below a directory that the walk takes, by their relative paths. -/
inductive Walked : Entries → String → String → RegularFile → Prop where
  | file {entries : Entries} {relDir name : String} {f : RegularFile} (h : (.utf8 name, .file f) ∈ entries.toList)
      (hvalid : ValidPath (relPath relDir name)) : Walked entries relDir (relPath relDir name) f
  | dir {entries below : Entries} {relDir name rel : String} {f : RegularFile}
      (h : (.utf8 name, .dir below) ∈ entries.toList) (hvalid : ValidPath (relPath relDir name))
      (hwalked : Walked below (relPath relDir name) rel f) : Walked entries relDir rel f

/-! ## One directory -/

omit [Host] in
/-- Induction over the entries of one directory, blind to what lies below them. -/
@[elab_as_elim]
theorem Entries.listed {motive : Entries → Prop} (nil : motive .nil)
    (cons : ∀ name node rest, motive rest → motive (.cons name node rest)) : ∀ entries, motive entries
  | .nil => nil
  | .cons name node rest => cons name node rest (Entries.listed nil cons rest)

/-- Every file listed so far has a blob. -/
def Walk.Known (w : Walk) : Prop := ∀ file ∈ w.files, (w.prepared.blobs.get file.id).isSome

/-- The rounds that a stack asks for. -/
def rounds (stack : List Pending) : Nat := (stack.map fun q => q.entries.dirs + 1).sum

omit [Host] in
theorem rounds_cons (q : Pending) (stack : List Pending) :
    rounds (q :: stack) = q.entries.dirs + 1 + rounds stack := by
  rw [rounds, List.map_cons, List.sum_cons]
  rfl

/-- What reading `items` in `dir` does. -/
structure Took (dir : LocalPath) (relDir : String) (items : List (OsName × Node)) (w w' : Walk) : Prop where
  files : ∀ file, file ∈ w'.files ↔ file ∈ w.files ∨ ∃ name f, (.utf8 name, .file f) ∈ items ∧
    ValidPath (relPath relDir name) ∧ file = f.blobFile (relPath relDir name)
  stack : ∀ q, q ∈ w'.stack ↔ q ∈ w.stack ∨ ∃ name entries, (.utf8 name, .dir entries) ∈ items ∧
    ValidPath (relPath relDir name) ∧ q = ⟨dir.join (.utf8 name), entries, relPath relDir name⟩
  rounds : rounds w'.stack ≤ rounds w.stack + (items.map fun e => e.2.dirs).sum
  inputs : w'.prepared.inputs = w.prepared.inputs
  blobs : ∀ id, (w.prepared.blobs.get id).isSome → (w'.prepared.blobs.get id).isSome
  known : w.Known → w'.Known

variable {w w' : Walk}

section Took

variable {dir : LocalPath} {relDir : String}

theorem Took.nil (w : Walk) : Took dir relDir [] w w where
  files _ := ⟨Or.inl, fun h => h.elim id fun ⟨_, _, hmem, _⟩ => absurd hmem List.not_mem_nil⟩
  stack _ := ⟨Or.inl, fun h => h.elim id fun ⟨_, _, hmem, _⟩ => absurd hmem List.not_mem_nil⟩
  rounds := Nat.le_refl _
  inputs := rfl
  blobs _ := id
  known := id

/-- An entry that is left out: not a valid name, or neither a file nor a directory. -/
theorem Took.skip (w : Walk) (name : OsName) (node : Node) (reason : String)
    (hfile : ∀ n f, name = .utf8 n → node = .file f → ¬ValidPath (relPath relDir n))
    (hdir : ∀ n entries, name = .utf8 n → node = .dir entries → ¬ValidPath (relPath relDir n)) :
    Took dir relDir [(name, node)] w (w.skip reason) where
  files file := by
    refine ⟨Or.inl, fun h => h.elim id ?_⟩
    rintro ⟨n, f, hmem, hvalid, -⟩
    cases List.mem_singleton.mp hmem
    exact absurd hvalid (hfile n f rfl rfl)
  stack q := by
    refine ⟨Or.inl, fun h => h.elim id ?_⟩
    rintro ⟨n, entries, hmem, hvalid, -⟩
    cases List.mem_singleton.mp hmem
    exact absurd hvalid (hdir n entries rfl rfl)
  rounds := Nat.le_add_right _ _
  inputs := rfl
  blobs _ := id
  known := id

theorem Took.trans {items items' : List (OsName × Node)} {w'' : Walk} (h : Took dir relDir items w w')
    (h' : Took dir relDir items' w' w'') : Took dir relDir (items ++ items') w w'' where
  files file := by
    rw [h'.files, h.files]
    simp only [List.mem_append, or_and_right, exists_or, or_assoc]
  stack q := by
    rw [h'.stack, h.stack]
    simp only [List.mem_append, or_and_right, exists_or, or_assoc]
  rounds := by
    have := h.rounds
    have := h'.rounds
    rw [List.map_append, List.sum_append]
    omega
  inputs := h'.inputs.trans h.inputs
  blobs id hid := h'.blobs id (h.blobs id hid)
  known hknown := h'.known (h.known hknown)

end Took

omit [Host] in
theorem addBlob_self (p : PreparedInputs) (id : BlobId) (blob : LocalBlob) :
    ((p.addBlob id blob).blobs.get id).isSome := by
  unfold PreparedInputs.addBlob
  split
  · next hsome => exact hsome
  · rw [FMap.get_set, if_pos rfl]
    rfl

omit [Host] in
theorem addBlob_other (p : PreparedInputs) (id : BlobId) (blob : LocalBlob) {id' : BlobId}
    (h : (p.blobs.get id').isSome) : ((p.addBlob id blob).blobs.get id').isSome := by
  unfold PreparedInputs.addBlob
  split
  · exact h
  rw [FMap.get_set]
  split
  · rfl
  · exact h

variable {f : RegularFile} {p : PreparedInputs} {rel : String}

theorem addFile_spec {fs : LocalFs} {limits : Option InputLimits} {nofollow : Bool} {path : LocalPath} {p' : PreparedInputs} {file : BlobFile}
    (h : p.addFile fs limits nofollow path f rel = .ok (file, p')) :
    file = f.blobFile rel ∧ p'.inputs = p.inputs ∧ (p'.blobs.get file.id).isSome ∧
      ∀ id, (p.blobs.get id).isSome → (p'.blobs.get id).isSome := by
  unfold PreparedInputs.addFile at h
  split at h
  · cases h
  split at h
  · cases h
  split at h
  · cases h
  · cases h
    exact ⟨rfl, rfl, addBlob_self p _ _, fun id hid => addBlob_other p _ _ hid⟩

variable {entries : Entries} {node : Node}

section Entries

variable {fs : LocalFs} {limits : Option InputLimits} {dir : LocalPath} {relDir : String}

theorem scanEntry_took {name : OsName}
    (h : scanEntry fs limits dir relDir w name node = .ok w') : Took dir relDir [(name, node)] w w' := by
  unfold scanEntry at h
  cases name with
  | other bytes =>
    cases h
    exact Took.skip w _ _ _ (fun _ _ hname => nomatch hname) fun _ _ hname => nomatch hname
  | utf8 name =>
    dsimp only at h
    cases hpath : validateBlobPath (relPath relDir name) with
    | error e =>
      rw [hpath] at h
      cases h
      have hinvalid : ¬ValidPath (relPath relDir name) := by
        rw [← validateBlobPath_iff, hpath]
        exact nofun
      refine Took.skip w _ _ _ ?_ ?_
      · rintro n f hname -
        cases hname
        exact hinvalid
      · rintro n entries hname -
        cases hname
        exact hinvalid
    | ok u =>
      have hvalid := (validateBlobPath_iff _).mp hpath
      rw [hpath] at h
      obtain ⟨u, -, h⟩ := bind_ok.mp h
      cases node with
      | symlink | special =>
        cases h
        exact Took.skip w _ _ _ (fun _ _ _ hnode => nomatch hnode) fun _ _ _ hnode => nomatch hnode
      | dir entries =>
        cases h
        refine ⟨fun file => ?_, fun q => ?_, ?_, rfl, fun _ => id, id⟩
        · refine ⟨Or.inl, fun h => h.elim id ?_⟩
          rintro ⟨n, f, hmem, -⟩
          cases List.mem_singleton.mp hmem
        · rw [List.mem_cons, or_comm]
          refine or_congr_right ⟨fun hq => ⟨name, entries, List.mem_singleton_self _, hvalid, hq⟩, ?_⟩
          rintro ⟨n, entries', hmem, -, rfl⟩
          cases List.mem_singleton.mp hmem
          rfl
        · rw [rounds_cons, List.map_singleton, List.sum_singleton, Node.dirs]
          exact Nat.le_of_eq (Nat.add_comm _ _)
      | file f =>
        obtain ⟨⟨file, prepared⟩, hadd, h⟩ := bind_ok.mp h
        cases h
        obtain ⟨rfl, hinputs, hself, hblobs⟩ := addFile_spec hadd
        refine ⟨fun file => ?_, fun q => ?_, ?_, hinputs, hblobs, ?_⟩
        · rw [List.mem_append, List.mem_singleton]
          refine or_congr_right ⟨fun hq => ⟨name, f, List.mem_singleton_self _, hvalid, hq⟩, ?_⟩
          rintro ⟨n, f', hmem, -, rfl⟩
          cases List.mem_singleton.mp hmem
          rfl
        · refine ⟨Or.inl, fun h => h.elim id ?_⟩
          rintro ⟨n, entries, hmem, -⟩
          cases List.mem_singleton.mp hmem
        · exact Nat.le_add_right _ _
        intro hknown file hfile
        rcases List.mem_append.mp hfile with hfile | hfile
        · exact hblobs _ (hknown file hfile)
        · rw [List.mem_singleton.mp hfile]
          exact hself

theorem scanEntries_took : ∀ {w w' : Walk},
    scanEntries fs limits dir relDir w entries = .ok w' → Took dir relDir entries.toList w w' := by
  induction entries using Entries.listed with
  | nil =>
    intro w w' h
    cases h
    exact Took.nil w
  | cons name node rest ih =>
    intro w w' h
    obtain ⟨w₁, hentry, h⟩ := bind_ok.mp h
    exact (scanEntry_took hentry).trans (ih h)

end Entries

/-! ## The walk -/

omit [Host] in
theorem dirs_eq_sum (entries : Entries) : entries.dirs = (entries.toList.map fun e => e.2.dirs).sum := by
  induction entries using Entries.listed with
  | nil => rfl
  | cons name node rest ih =>
    rw [Entries.dirs, Entries.toList, List.map_cons, List.sum_cons, ih]

/-- The files a walk has listed and those it will find below its stack. -/
def Walk.Covers (w : Walk) (file : BlobFile) : Prop :=
  file ∈ w.files ∨ ∃ q ∈ w.stack, ∃ rel f, Walked q.entries q.relDir rel f ∧ file = f.blobFile rel

/-- Reading the directory on top of the stack leaves what the walk covers as it is. -/
theorem Took.covers {top : Pending} {stack : List Pending} (hstack : w.stack = top :: stack)
    (h : Took top.dir top.relDir top.entries.toList { w with stack } w') (file : BlobFile) :
    w'.Covers file ↔ w.Covers file := by
  unfold Walk.Covers
  rw [hstack]
  constructor
  · rintro (hfile | ⟨q, hq, rel, f, hwalked, rfl⟩)
    · rcases (h.files file).mp hfile with hfile | ⟨name, f, hmem, hvalid, rfl⟩
      · exact .inl hfile
      · exact .inr ⟨top, List.mem_cons_self, _, f, .file hmem hvalid, rfl⟩
    · rcases (h.stack q).mp hq with hq | ⟨name, entries, hmem, hvalid, rfl⟩
      · exact .inr ⟨q, List.mem_cons_of_mem _ hq, rel, f, hwalked, rfl⟩
      · exact .inr ⟨top, List.mem_cons_self, rel, f, .dir hmem hvalid hwalked, rfl⟩
  rintro (hfile | ⟨q, hq, rel, f, hwalked, rfl⟩)
  · exact .inl ((h.files file).mpr (Or.inl hfile))
  rcases List.mem_cons.mp hq with rfl | hq
  · cases hwalked with
    | file hmem hvalid => exact .inl ((h.files _).mpr (Or.inr ⟨_, f, hmem, hvalid, rfl⟩))
    | dir hmem hvalid hbelow =>
      exact .inr ⟨_, (h.stack _).mpr (Or.inr ⟨_, _, hmem, hvalid, rfl⟩), rel, f, hbelow, rfl⟩
  · exact .inr ⟨q, (h.stack q).mpr (Or.inl hq), rel, f, hwalked, rfl⟩

section Loop

variable {fs : LocalFs} {limits : Option InputLimits}

/-- With a round for every directory the walk ends with an empty stack, and has listed what it covered. -/
theorem scanLoop_spec (fuel : Nat) : ∀ {w w' : Walk}, rounds w.stack ≤ fuel → w.Known →
    scanLoop fs limits fuel w = .ok w' →
      (∀ file, file ∈ w'.files ↔ w.Covers file) ∧ w'.Known ∧ w'.prepared.inputs = w.prepared.inputs ∧
        ∀ id, (w.prepared.blobs.get id).isSome → (w'.prepared.blobs.get id).isSome := by
  have hdone : ∀ w : Walk, w.stack = [] → ∀ file, file ∈ w.files ↔ w.Covers file := by
    intro w hstack file
    refine ⟨Or.inl, fun h => h.elim id ?_⟩
    rintro ⟨q, hq, -⟩
    rw [hstack] at hq
    exact absurd hq List.not_mem_nil
  induction fuel with
  | zero =>
    intro w w' hfuel hknown h
    cases h
    have hstack : w.stack = [] := by
      cases hs : w.stack with
      | nil => rfl
      | cons top stack =>
        rw [hs, rounds_cons] at hfuel
        omega
    exact ⟨hdone w hstack, hknown, rfl, fun _ => id⟩
  | succ fuel ih =>
    intro w w' hfuel hknown h
    rw [scanLoop] at h
    cases hstack : w.stack with
    | nil =>
      rw [hstack] at h
      cases h
      exact ⟨hdone w hstack, hknown, rfl, fun _ => id⟩
    | cons top stack =>
      rw [hstack] at h
      obtain ⟨u, -, h⟩ := bind_ok.mp h
      obtain ⟨w₁, hentries, h⟩ := bind_ok.mp h
      have htook := scanEntries_took hentries
      have hrounds : rounds w₁.stack ≤ fuel := by
        have hpushed := htook.rounds
        rw [hstack, rounds_cons, dirs_eq_sum] at hfuel
        dsimp only at hpushed
        omega
      obtain ⟨hfiles, hknown', hinputs, hblobs⟩ := ih hrounds (htook.known hknown) h
      refine ⟨fun file => ?_, hknown', hinputs.trans htook.inputs, fun id hid => hblobs id (htook.blobs id hid)⟩
      rw [hfiles, htook.covers hstack]

/-- **What `scan_directory` lists.** -/
theorem scanDirectory_spec {root : PathBuf} (h : scanDirectory fs limits root entries p = .ok w) :
    (∀ file, file ∈ w.files ↔ ∃ rel f, Walked entries "" rel f ∧ file = f.blobFile rel) ∧ w.Known ∧
      w.prepared.inputs = p.inputs ∧ ∀ id, (p.blobs.get id).isSome → (w.prepared.blobs.get id).isSome := by
  have hfuel : rounds [(⟨⟨root, []⟩, entries, ""⟩ : Pending)] ≤ entries.dirs + 1 := Nat.le_refl _
  obtain ⟨hfiles, hrest⟩ := scanLoop_spec _ hfuel (fun _ hfile => absurd hfile List.not_mem_nil) h
  refine ⟨fun file => ?_, hrest⟩
  rw [hfiles]
  constructor
  · rintro (hfile | ⟨q, hq, hwalked⟩)
    · exact absurd hfile List.not_mem_nil
    · rw [List.mem_singleton] at hq
      rw [hq] at hwalked
      exact hwalked
  · exact fun hwalked => Or.inr ⟨_, List.mem_singleton_self _, hwalked⟩

end Loop

/-! ## Files by their relative paths -/

/-- `node` is what `names` lead to from `root`, through directories only. -/
inductive Node.At : Node → List OsName → Node → Prop where
  | here (node : Node) : Node.At node [] node
  | through {entries : Entries} {name : OsName} {child node : Node} {names : List OsName}
      (h : (name, child) ∈ entries.toList) (hat : Node.At child names node) : Node.At (.dir entries) (name :: names) node

/-- `relDir` is the path of the directory that `names` lead to. -/
def DirPath (names : List String) (relDir : String) : Prop :=
  names = [] ∧ relDir = "" ∨ names ≠ [] ∧ relDir = Text.join "/" names ∧ ValidPath relDir

section

omit [Host]

theorem DirPath.relPath_eq {names : List String} {relDir : String} (h : DirPath names relDir) (name : String) :
    relPath relDir name = Text.join "/" (names ++ [name]) := by
  unfold relPath
  rcases h with ⟨rfl, rfl⟩ | ⟨hnames, rfl, hvalid⟩
  · rw [if_pos rfl, List.nil_append, Text.join_singleton]
  · rw [if_neg hvalid.ne_empty, Text.join_append "/" hnames (List.cons_ne_nil name []), Text.join_singleton]

theorem DirPath.child {names : List String} {relDir name : String} (h : DirPath names relDir)
    (hvalid : ValidPath (relPath relDir name)) : DirPath (names ++ [name]) (relPath relDir name) :=
  Or.inr ⟨List.append_ne_nil_of_right_ne_nil names (List.cons_ne_nil name []), h.relPath_eq name, hvalid⟩

theorem walked_at {relDir : String} (h : Walked entries relDir rel f) :
    ∀ {up : List String}, DirPath up relDir → ∃ names, names ≠ [] ∧
      Node.At (.dir entries) (names.map .utf8) (.file f) ∧ rel = Text.join "/" (up ++ names) ∧ ValidPath rel := by
  induction h with
  | @file entries relDir name f hmem hvalid =>
    intro up hup
    exact ⟨[name], List.cons_ne_nil _ _, .through hmem (.here _), hup.relPath_eq name, hvalid⟩
  | @dir entries below relDir name rel f hmem hvalid _ ih =>
    intro up hup
    obtain ⟨names, -, hat, hrel, hvalid'⟩ := ih (hup.child hvalid)
    refine ⟨name :: names, List.cons_ne_nil _ _, .through hmem hat, ?_, hvalid'⟩
    rw [hrel, List.append_assoc, List.singleton_append]

theorem at_walked : ∀ (names : List String) {entries : Entries} {relDir : String} {up : List String},
    DirPath up relDir → names ≠ [] → Node.At (.dir entries) (names.map .utf8) (.file f) →
      ValidPath (Text.join "/" (up ++ names)) → Walked entries relDir (Text.join "/" (up ++ names)) f := by
  intro names
  induction names with
  | nil => exact fun _ hnames => absurd rfl hnames
  | cons name names ih =>
    intro entries relDir up hup _ hat hvalid
    cases hat with
    | through hmem hat =>
      cases names with
      | nil =>
        cases hat
        rw [← hup.relPath_eq name] at hvalid ⊢
        exact .file hmem hvalid
      | cons next names =>
        -- a name follows, so the child is a directory; its path is valid because that of the file is
        have hsplit : up ++ name :: next :: names = up ++ [name] ++ next :: names := by
          rw [List.append_assoc, List.singleton_append]
        rw [hsplit] at hvalid ⊢
        have hdir : ValidPath (relPath relDir name) := by
          rw [Text.join_append "/" (List.append_ne_nil_of_right_ne_nil up (List.cons_ne_nil name []))
            (List.cons_ne_nil next names), ← hup.relPath_eq name] at hvalid
          exact hvalid.parent
        cases hat with
        | through hmem' hat' =>
          exact .dir hmem hdir (ih (hup.child hdir) (List.cons_ne_nil _ _) (.through hmem' hat') hvalid)

/-- **The walk takes the regular files with a valid relative path**, reached without symbolic links. -/
theorem walked_iff : Walked entries "" rel f ↔ ∃ names, Node.At (.dir entries) (names.map .utf8) (.file f) ∧
      rel = Text.join "/" names ∧ ValidPath rel := by
  have hroot : DirPath [] "" := Or.inl ⟨rfl, rfl⟩
  constructor
  · intro h
    obtain ⟨names, -, hat, hrel, hvalid⟩ := walked_at h hroot
    exact ⟨names, hat, hrel, hvalid⟩
  rintro ⟨names, hat, rfl, hvalid⟩
  refine at_walked names hroot ?_ hat hvalid
  rintro rfl
  cases hat

end

/-! ## The inputs of a scan -/

/-- `source` tells what `node` holds, and every blob it needs is among `blobs`. -/
inductive Describes (blobs : FMap BlobId LocalBlob) : Node → InputSource → Prop where
  | file (f : RegularFile) (hblob : (blobs.get (BlobId.of f.content)).isSome) :
      Describes blobs (.file f) (.file (BlobId.of f.content) f.content.length (executableMode f.mode))
  | tree (entries : Entries) (m : TreeManifest) (hvalid : m.validate = .ok ())
      (hfiles : ∀ file, file ∈ m.files ↔ ∃ rel f, Walked entries "" rel f ∧ file = f.blobFile rel)
      (hblobs : ∀ file ∈ m.files, (blobs.get file.id).isSome) (hblob : (blobs.get (BlobId.of m.encode)).isSome) :
      Describes blobs (.dir entries) (.tree (BlobId.of m.encode) m.encode.length)

theorem Describes.mono {blobs blobs' : FMap BlobId LocalBlob} {source : InputSource}
    (h : Describes blobs node source) (hgrow : ∀ id, (blobs.get id).isSome → (blobs'.get id).isSome) :
    Describes blobs' node source := by
  cases h with
  | file f hblob => exact .file f (hgrow _ hblob)
  | tree entries m hvalid hfiles hblobs hblob =>
    exact .tree entries m hvalid hfiles (fun file hfile => hgrow _ (hblobs file hfile)) (hgrow _ hblob)

/-- An input made for what a spec names. -/
structure MadeFrom (fs : LocalFs) (limits : Option InputLimits) (blobs : FMap BlobId LocalBlob) (spec : InputSpec)
    (input : TaskInput) (node : Node) : Prop where
  named : fs.resolve limits.isSome spec.1 = .ok node
  dest : spec.destination node.isDir = .ok input.path
  source : Describes blobs node input.source

section Scan

variable {fs : LocalFs} {limits : Option InputLimits}

theorem scanInput_spec {p' : PreparedInputs} {spec : InputSpec} (h : scanInput fs limits p spec = .ok p') :
    (∃ input node, p'.inputs = p.inputs ++ [input] ∧ MadeFrom fs limits p'.blobs spec input node) ∧
      ∀ id, (p.blobs.get id).isSome → (p'.blobs.get id).isSome := by
  obtain ⟨node, hnode, h⟩ := bind_ok.mp h
  obtain ⟨dest, hdest, h⟩ := bind_ok.mp h
  cases node with
  | symlink | special => cases h
  | file f =>
    obtain ⟨⟨file, p₁⟩, hadd, h⟩ := bind_ok.mp h
    cases h
    obtain ⟨rfl, hinputs, hself, hblobs⟩ := addFile_spec hadd
    refine ⟨⟨⟨dest, .file (BlobId.of f.content) f.content.length (executableMode f.mode)⟩, .file f, ?_, hnode, hdest,
      .file f hself⟩, hblobs⟩
    rw [← hinputs]
    rfl
  | dir entries =>
    obtain ⟨w, hscan, h⟩ := bind_ok.mp h
    obtain ⟨m, hnew, h⟩ := bind_ok.mp h
    have hnew := mapError_ok.mp hnew
    cases h
    obtain ⟨hfiles, hknown, hinputs, hblobs⟩ := scanDirectory_spec hscan
    obtain ⟨hvalid, hperm, -⟩ := TreeManifest.new_spec hnew
    have hset : ∀ id, (w.prepared.blobs.get id).isSome → ((w.prepared.blobs.set (BlobId.of m.encode)
        ⟨m.encode.length, .bytes m.encode⟩).get id).isSome := by
      intro id hid
      rw [FMap.get_set]
      split
      · rfl
      · exact hid
    refine ⟨⟨⟨dest, .tree (BlobId.of m.encode) m.encode.length⟩, .dir entries, ?_, hnode, hdest,
      .tree entries m hvalid ?_ ?_ ?_⟩, ?_⟩
    · rw [hinputs]
    · intro file
      rw [hperm.mem_iff, hfiles]
    · intro file hfile
      exact hset _ (hknown file (hperm.mem_iff.mp hfile))
    · rw [FMap.get_set, if_pos rfl]
      rfl
    · exact fun id hid => hset id (hblobs id hid)

theorem MadeFrom.mono {blobs blobs' : FMap BlobId LocalBlob} {spec : InputSpec} {input : TaskInput}
    (h : MadeFrom fs limits blobs spec input node)
    (hgrow : ∀ id, (blobs.get id).isSome → (blobs'.get id).isSome) : MadeFrom fs limits blobs' spec input node :=
  ⟨h.named, h.dest, h.source.mono hgrow⟩

theorem scanInputs_spec : ∀ {specs : List InputSpec} {p p' : PreparedInputs}, scanInputs fs limits p specs = .ok p' →
    (∃ inputs, p'.inputs = p.inputs ++ inputs ∧
      List.Forall₂ (fun spec input => ∃ node, MadeFrom fs limits p'.blobs spec input node) specs inputs) ∧
      ∀ id, (p.blobs.get id).isSome → (p'.blobs.get id).isSome := by
  intro specs
  induction specs with
  | nil =>
    intro p p' h
    cases h
    exact ⟨⟨[], (List.append_nil _).symm, .nil⟩, fun _ => id⟩
  | cons spec specs ih =>
    intro p p' h
    obtain ⟨p₁, hscan, h⟩ := bind_ok.mp h
    obtain ⟨⟨input, node, hinput, hmade⟩, hgrow⟩ := scanInput_spec hscan
    obtain ⟨⟨inputs, hinputs, hall⟩, hgrow'⟩ := ih h
    refine ⟨⟨input :: inputs, ?_, .cons ⟨node, hmade.mono hgrow'⟩ hall⟩, fun id hid => hgrow' id (hgrow id hid)⟩
    rw [hinputs, hinput, List.append_assoc, List.singleton_append]

/-- **A scan makes one input for each spec, and the input describes what the spec names.** -/
theorem scanInputPaths_spec {specs : List InputSpec} (h : scanInputPaths fs limits specs = .ok p) :
    List.Forall₂ (fun spec input => ∃ node, MadeFrom fs limits p.blobs spec input node) specs p.inputs := by
  obtain ⟨p₁, hscan, h⟩ := bind_ok.mp h
  obtain ⟨u, -, h⟩ := bind_ok.mp h
  cases h
  obtain ⟨⟨inputs, hinputs, hall⟩, -⟩ := scanInputs_spec hscan
  rw [hinputs]
  exact hall

end Scan

end OxideSwarm
