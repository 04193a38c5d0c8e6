import OxideSwarm.Worker.Collected

/-!
# The list of outputs

The patterns of a task add up (`collectPatterns_framed`) and may come in any order (`collectPatterns_perm`), since a
path leads to one file.  What is gathered goes into the cache file by file and is described as it was found
(`insertOutputs_spec`).

The sizes are added up as a `u64`, and the sum wraps around: files of 2^64 bytes and more in total pass the limit
(`outputs_beyond_limit`).
-/

namespace OxideSwarm

open Fallible

section Outputs

variable [Host]

/-! ## All patterns -/

section Patterns

variable {fs : SandboxTree}

omit [Host] in
theorem offers_unique {p q : OutputPattern} {rel : String} {x y : Found} (hx : fs.Offers p (rel, x))
    (hy : fs.Offers q (rel, y)) : x = y := by
  obtain ⟨names, f, hat, hxeq, -⟩ := hx
  obtain ⟨names', f', hat', hyeq, -⟩ := hy
  obtain ⟨hrel, rfl⟩ := Prod.mk.inj hxeq
  obtain ⟨hrel', rfl⟩ := Prod.mk.inj hyeq
  have hnames : names = names' := by
    rw [← segments_of_at hat, ← segments_of_at hat', ← hrel, ← hrel']
  subst hnames
  obtain rfl := Node.file.inj (at_unique fs.rootNamed hat hat')
  rfl

/-- The loop over the patterns. -/
def collectPatterns (fs : SandboxTree) (patterns : List OutputPattern) (g : Gathered) : Except String Gathered :=
  patterns.foldlM (fun g pattern => collectPattern fs pattern g) g

/-- Patterns that were parsed. -/
def Parsed (patterns : List OutputPattern) : Prop := ∀ p ∈ patterns, ∃ text, OutputPattern.parse text = .ok p

variable (fs) in
/-- **The patterns add the files that one of them selects.** -/
theorem collectPatterns_framed {patterns : List OutputPattern} (hparsed : Parsed patterns) :
    ∃ fine d, Framed (collectPatterns fs patterns) id fine d ∧ (fine →
      (∀ x, x ∈ d.found ↔ ∃ p ∈ patterns, fs.Offers p x) ∧ (∀ x ∈ d.found, ValidPath x.1) ∧
        (d.notProduced = [] → ∀ p ∈ patterns, p.isLiteral = true →
          ∃ node, Node.At (.dir fs.entries) ((segments p.literalPrefix).map .utf8) node)) := by
  induction patterns with
  | nil =>
    refine ⟨True, .none, Framed.pure id, fun _ => ⟨fun x => ?_, List.forall_mem_nil _,
      fun _ p hp => absurd hp List.not_mem_nil⟩⟩
    exact ⟨fun h => absurd h List.not_mem_nil, fun ⟨p, hp, _⟩ => absurd hp List.not_mem_nil⟩
  | cons p patterns ih =>
    obtain ⟨text, hparse⟩ := hparsed p (List.mem_cons_self ..)
    obtain ⟨fine, d, hone, hsupplied⟩ := collectPattern_framed fs hparse
    obtain ⟨fine', d', hrest, hfacts⟩ := ih fun q hq => hparsed q (List.mem_cons_of_mem p hq)
    have hall : Framed (collectPatterns fs (p :: patterns)) id (fine ∧ fine') (d.append d') := by
      have hbind : Framed (fun g => collectPattern fs p g >>= collectPatterns fs patterns) id _ _ := hone.bind hrest
      unfold collectPatterns at hbind ⊢
      simp only [List.foldlM_cons]
      exact hbind
    refine ⟨_, _, hall, fun ⟨hfine, hfine'⟩ => ?_⟩
    have hp := hsupplied hfine
    obtain ⟨hfound, hvalid, hproduced⟩ := hfacts hfine'
    refine ⟨fun x => ?_, fun x hx => ?_, fun hnone q hq hliteral => ?_⟩
    · rw [Additions.append, List.mem_append, hp.found, hfound, List.exists_mem_cons_iff]
    · rcases List.mem_append.mp hx with hx | hx
      · exact hp.valid x hx
      · exact hvalid x hx
    obtain ⟨hnone, hnone'⟩ := List.append_eq_nil_iff.mp hnone
    rcases List.mem_cons.mp hq with rfl | hq
    · exact hp.produced hliteral hnone
    · exact hproduced hnone' q hq hliteral

/-- Gathered states that differ in the order of the missing outputs only. -/
structure Gathered.Same (g g' : Gathered) : Prop where
  found : g.found = g'.found
  notProduced : g.notProduced.Perm g'.notProduced
  visited : g.visited = g'.visited

section

omit [Host]

theorem Gathered.Same.add {g g' : Gathered} (h : g.Same g') (d : Additions) : (g.add d).Same (g'.add d) where
  found := by
    unfold Gathered.add
    rw [h.found]
  notProduced := h.notProduced.append_right d.notProduced
  visited := by
    unfold Gathered.add
    rw [h.visited]

/-- The additions of two patterns may change places. -/
theorem Gathered.Same.swap {g g' : Gathered} (h : g.Same g') {p q : OutputPattern} {d d' : Additions}
    (hp : Supplied fs p d) (hq : Supplied fs q d') : ((g.add d).add d').Same ((g'.add d').add d) where
  found := by
    apply Std.ExtTreeMap.ext_getElem?
    intro rel
    unfold Gathered.add
    rw [getElem?_insertAll, getElem?_insertAll, getElem?_insertAll, getElem?_insertAll, h.found, Option.or_assoc,
      Option.or_assoc]
    cases hx : d.found.lookup rel with
    | none => rw [Option.none_or, Option.or_none]
    | some x =>
      cases hy : d'.found.lookup rel with
      | none => rw [Option.none_or, Option.or_none]
      | some y =>
        obtain rfl := offers_unique ((hp.found _).mp (mem_of_lookup hx)) ((hq.found _).mp (mem_of_lookup hy))
        rfl
  notProduced := by
    have hswap : (d.notProduced ++ d'.notProduced).Perm (d'.notProduced ++ d.notProduced) := List.perm_append_comm
    have hall := h.notProduced.append hswap
    rw [← List.append_assoc, ← List.append_assoc] at hall
    exact hall
  visited := by
    have hvisited := h.visited
    change g.visited + d.visited + d'.visited = g'.visited + d'.visited + d.visited
    omega

theorem Gathered.Same.refl (g : Gathered) : g.Same g := ⟨rfl, .refl _, rfl⟩

theorem Gathered.Same.trans {g g' g'' : Gathered} (h : g.Same g') (h' : g'.Same g'') : g.Same g'' :=
  ⟨h.found.trans h'.found, h.notProduced.trans h'.notProduced, h.visited.trans h'.visited⟩

theorem Framed.same {m : Gathered → Except String Gathered} {fine : Prop} {d : Additions} (h : Framed m id fine d)
    {g g' r : Gathered} (hsame : g.Same g') (hvisited : g.visited ≤ maxWalkEntries) (hr : m g = .ok r) :
    r.visited ≤ maxWalkEntries ∧ ∃ r', m g' = .ok r' ∧ r.Same r' := by
  obtain ⟨hfine, hle, rfl⟩ := (h g hvisited r).mp hr
  refine ⟨hle, g'.add d, ?_, hsame.add d⟩
  rw [hsame.visited] at hvisited hle
  exact (h g' hvisited _).mpr ⟨hfine, hle, rfl⟩

end

theorem collectPatterns_cons {p : OutputPattern} {patterns : List OutputPattern} {g r : Gathered} :
    collectPatterns fs (p :: patterns) g = .ok r ↔
      ∃ g₁, collectPattern fs p g = .ok g₁ ∧ collectPatterns fs patterns g₁ = .ok r := by
  unfold collectPatterns
  rw [List.foldlM_cons, bind_ok]

/-- **The order of the patterns makes no difference to what is gathered.** -/
theorem collectPatterns_perm {patterns patterns' : List OutputPattern} (hperm : patterns.Perm patterns')
    (hparsed : Parsed patterns) : ∀ {g g' r : Gathered}, g.Same g' → g.visited ≤ maxWalkEntries →
      collectPatterns fs patterns g = .ok r →
        r.visited ≤ maxWalkEntries ∧ ∃ r', collectPatterns fs patterns' g' = .ok r' ∧ r.Same r' := by
  induction hperm with
  | nil =>
    intro g g' r hsame hvisited h
    cases h
    exact ⟨hvisited, g', rfl, hsame⟩
  | @cons p patterns patterns' _ ih =>
    intro g g' r hsame hvisited h
    obtain ⟨text, hparse⟩ := hparsed p (List.mem_cons_self ..)
    obtain ⟨fine, d, hone, -⟩ := collectPattern_framed fs hparse
    obtain ⟨g₁, hp, hrest⟩ := collectPatterns_cons.mp h
    obtain ⟨hle, g₁', hp', hsame₁⟩ := hone.same hsame hvisited hp
    obtain ⟨hle', r', hr', hsame'⟩ := ih (fun q hq => hparsed q (List.mem_cons_of_mem p hq)) hsame₁ hle hrest
    exact ⟨hle', r', collectPatterns_cons.mpr ⟨g₁', hp', hr'⟩, hsame'⟩
  | swap p q patterns =>
    intro g g' r hsame hvisited h
    obtain ⟨text, hparse⟩ := hparsed p (List.mem_cons_of_mem q (List.mem_cons_self ..))
    obtain ⟨text', hparse'⟩ := hparsed q (List.mem_cons_self ..)
    obtain ⟨fine, d, hone, hsupplied⟩ := collectPattern_framed fs hparse
    obtain ⟨fine', d', hone', hsupplied'⟩ := collectPattern_framed fs hparse'
    obtain ⟨_, _, hrest, -⟩ := collectPatterns_framed fs fun p hp =>
      hparsed p (List.mem_cons_of_mem _ (List.mem_cons_of_mem _ hp))
    obtain ⟨g₁, hq, h⟩ := collectPatterns_cons.mp h
    obtain ⟨g₂, hp, h⟩ := collectPatterns_cons.mp h
    obtain ⟨hfine', hle₁, rfl⟩ := (hone' g hvisited g₁).mp hq
    obtain ⟨hfine, hle₂, rfl⟩ := (hone (g.add d') hle₁ g₂).mp hp
    obtain ⟨hle, r', hr', hsame'⟩ :=
      hrest.same (hsame.swap (hsupplied' hfine') (hsupplied hfine)) hle₂ h
    have hle₂' : g.visited + d'.visited + d.visited ≤ maxWalkEntries := hle₂
    rw [hsame.visited] at hvisited hle₂'
    have hle₃ : g'.visited + d.visited ≤ maxWalkEntries := by omega
    have hle₄ : (g'.add d).visited + d'.visited ≤ maxWalkEntries := by
      change g'.visited + d.visited + d'.visited ≤ maxWalkEntries
      omega
    refine ⟨hle, r', ?_, hsame'⟩
    refine collectPatterns_cons.mpr ⟨g'.add d, (hone g' hvisited _).mpr ⟨hfine, hle₃, rfl⟩, ?_⟩
    exact collectPatterns_cons.mpr ⟨(g'.add d).add d', (hone' _ hle₃ _).mpr ⟨hfine', hle₄, rfl⟩, hr'⟩
  | trans hperm _ ih ih' =>
    intro g g' r hsame hvisited h
    obtain ⟨hle, r₁, hr₁, hsame₁⟩ := ih hparsed hsame hvisited h
    rw [hsame.visited] at hvisited
    obtain ⟨-, r', hr', hsame'⟩ :=
      ih' (fun p hp => hparsed p (hperm.mem_iff.mpr hp)) (.refl g') hvisited hr₁
    exact ⟨hle, r', hr', hsame₁.trans hsame'⟩

end Patterns

/-! ## Into the cache -/

section Insert

variable {fs : SandboxTree} {choice : String → InsertChoice}

/-- The output that a file of the sandbox becomes. -/
structure Became (fs : SandboxTree) (x : String × Found) (file : BlobFile) : Prop where
  path : file.path = x.1
  size : file.size = x.2.size
  file : ∀ f, Node.At (.dir fs.entries) x.2.path (.file f) → file = f.blobFile x.1

omit [Host] in
theorem openFile_at {moved : List (List OsName)} {path : List OsName} {f f' : RegularFile}
    (hat : Node.At (.dir fs.entries) path (.file f)) (h : fs.openFile moved path = .ok f') :
    f' = f ∧ fs.stat moved path = .ok (.file f) := by
  unfold SandboxTree.openFile at h
  cases hstat : fs.stat moved path with
  | error e =>
    rw [hstat] at h
    cases e <;> cases h
  | ok node =>
    have hnode : node = .file f := by
      unfold SandboxTree.stat at hstat
      split at hstat
      · cases hstat
      cases hlstat : fs.lstat path with
      | error e =>
        rw [hlstat] at hstat
        cases hstat
      | ok there =>
        obtain rfl := lstat_of_at hat hlstat
        rw [hlstat] at hstat
        cases hstat
        rfl
    subst hnode
    rw [hstat] at h
    dsimp only at h
    split at h
    · cases h
    · cases h
      exact ⟨rfl, rfl⟩

theorem insertFileInner_at {moved moved' : List (List OsName)} {path : List OsName} {c : InsertChoice} {f : RegularFile}
    {blob : BlobId × Nat} (hat : Node.At (.dir fs.entries) path (.file f))
    (h : insertFileInner fs moved path c = .ok (blob, moved')) :
    blob = (BlobId.of f.content, f.content.length) ∧ fs.stat moved path = .ok (.file f) := by
  obtain ⟨f', hopen, h⟩ := bind_ok.mp h
  obtain ⟨rfl, hstat⟩ := openFile_at hat hopen
  split at h
  · cases h
    exact ⟨rfl, hstat⟩
  split at h
  · split at h
    · cases h
    · cases h
      exact ⟨rfl, hstat⟩
  split at h
  · cases h
  · cases h
  · cases h
    exact ⟨rfl, hstat⟩

/-- **Every file that was gathered is returned**, in the order of the paths. -/
theorem insertOutputs_spec : ∀ (l : List (String × Found)) {moved : List (List OsName)} {outputs : List BlobFile},
    (∀ x ∈ l, ∃ f, Node.At (.dir fs.entries) x.2.path (.file f) ∧ x.2.size = f.content.length) →
      insertOutputs fs choice moved l = .ok outputs → List.Forall₂ (Became fs) l outputs := by
  intro l
  induction l with
  | nil =>
    intro moved outputs _ h
    cases h
    exact .nil
  | cons x l ih =>
    intro moved outputs hfiles h
    obtain ⟨rel, file⟩ := x
    obtain ⟨f, hat, hsize⟩ := hfiles _ (List.mem_cons_self ..)
    rw [insertOutputs] at h
    obtain ⟨⟨blob, moved'⟩, hinsert, h⟩ := bind_ok.mp h
    obtain ⟨rest, hrest, h⟩ := bind_ok.mp h
    obtain ⟨rfl, hstat⟩ := insertFileInner_at hat (mapError_ok.mp hinsert)
    cases h
    have hexecutable : fs.isExecutable moved file.path = executableMode f.mode := by
      unfold SandboxTree.isExecutable
      rw [hstat]
    refine .cons ⟨rfl, hsize.symm, fun f' hat' => ?_⟩ (ih (fun y hy => hfiles y (List.mem_cons_of_mem _ hy)) hrest)
    obtain rfl := Node.file.inj (at_unique fs.rootNamed hat' hat)
    rw [hexecutable]
    rfl

end Insert

/-! ## The sizes of a tree -/

mutual

/-- The regular files of a tree, reached without links. -/
def Node.files : Node → List (List OsName × RegularFile)
  | .file f => [([], f)]
  | .dir entries => entries.files
  | _ => []

def Entries.files : Entries → List (List OsName × RegularFile)
  | .nil => []
  | .cons name node rest => (node.files.map fun x => (name :: x.1, x.2)) ++ rest.files

end

section

omit [Host]

theorem mem_files_of_entry {entries : Entries} {name : OsName} {node : Node} (h : (name, node) ∈ entries.toList)
    {names : List OsName} {f : RegularFile} (hf : (names, f) ∈ node.files) : (name :: names, f) ∈ entries.files := by
  induction entries using Entries.listed with
  | nil => exact absurd h List.not_mem_nil
  | cons name' node' rest ih =>
    rw [Entries.files]
    rcases List.mem_cons.mp h with heq | h
    · cases heq
      exact List.mem_append_left _ (List.mem_map_of_mem hf)
    · exact List.mem_append_right _ (ih h)

theorem mem_files_of_at {root node : Node} {names : List OsName} (h : Node.At root names node) :
    ∀ {f : RegularFile}, node = .file f → (names, f) ∈ root.files := by
  induction h with
  | here node =>
    rintro f rfl
    exact List.mem_singleton_self _
  | through hmem _ ih =>
    intro f hf
    exact mem_files_of_entry hmem (ih hf)

/-- The lengths of all files of the sandbox together. -/
def SandboxTree.bytes (fs : SandboxTree) : Nat := (fs.entries.files.map fun x => x.2.content.length).sum

/-- Different files of the sandbox are together no longer than all of them. -/
theorem sum_sizes_le {fs : SandboxTree} {l : List (String × Found)} (hnodup : (l.map fun x => x.2.path).Nodup)
    (hfiles : ∀ x ∈ l, ∃ f, Node.At (.dir fs.entries) x.2.path (.file f) ∧ x.2.size = f.content.length) :
    (l.map fun x => x.2.size).sum ≤ fs.bytes := by
  have hpairs : (l.map fun x => (x.2.path, x.2.size)).Nodup := by
    apply List.Nodup.of_map Prod.fst
    rw [List.map_map]
    exact hnodup
  have hsubset : (l.map fun x => (x.2.path, x.2.size)) ⊆ fs.entries.files.map fun x => (x.1, x.2.content.length) := by
    intro pair hpair
    obtain ⟨x, hx, rfl⟩ := List.mem_map.mp hpair
    obtain ⟨f, hat, hsize⟩ := hfiles x hx
    have hmem : (x.2.path, f) ∈ fs.entries.files := mem_files_of_at hat rfl
    rw [hsize]
    exact List.mem_map_of_mem hmem
  obtain ⟨l', hperm, hsub⟩ := List.subperm_of_subset hpairs hsubset
  have hle := (hsub.map Prod.snd).sum_le_sum fun _ _ => Nat.zero_le _
  rw [(hperm.map Prod.snd).sum_eq, List.map_map, List.map_map] at hle
  exact hle

/-! ## The list -/

/-- A pattern of the task selects the path. -/
def SelectedBy (patterns : List String) (rel : String) : Prop :=
  ∃ text ∈ patterns, ∃ pattern, OutputPattern.parse text = .ok pattern ∧ pattern.selects rel = true

end

section List

variable {fs : SandboxTree} {choice : String → InsertChoice} {patterns : List String} {limits : OutputLimits}
  {processFailed : Bool} {list : List BlobFile}

/-- What `collect_outputs` went through when it returns a list. -/
structure Went (fs : SandboxTree) (choice : String → InsertChoice) (patterns : List String) (limits : OutputLimits)
    (processFailed : Bool) (list : List BlobFile) (parsed : List OutputPattern) (g : Gathered) : Prop where
  parse : List.Forall₂ (fun text pattern => OutputPattern.parse text = .ok pattern) patterns parsed
  canonical : fs.canonical = none
  gather : collectPatterns fs parsed .empty = .ok g
  produced : ¬(g.notProduced ≠ [] ∧ processFailed = false)
  limits : ¬(g.found.toList.length > limits.maxFiles ∨ totalSize g.found.toList > limits.maxBytes)
  insert : insertOutputs fs choice [] g.found.toList = .ok list

theorem collectOutputs_ok : collectOutputs fs choice patterns limits processFailed = .ok list ↔
    ∃ parsed g, Went fs choice patterns limits processFailed list parsed g := by
  unfold collectOutputs
  rw [bind_ok]
  simp only [mapM_ok]
  constructor
  · rintro ⟨parsed, hparse, h⟩
    cases hcanonical : fs.canonical with
    | some e =>
      rw [hcanonical] at h
      cases h
    | none =>
      rw [hcanonical] at h
      obtain ⟨g, hg, h⟩ := bind_ok.mp h
      obtain ⟨hproduced, h⟩ := ite_error_ok.mp h
      obtain ⟨hlimits, h⟩ := ite_error_ok.mp h
      exact ⟨parsed, g, hparse, hcanonical, hg, hproduced, hlimits, h⟩
  rintro ⟨parsed, g, h⟩
  refine ⟨parsed, h.parse, ?_⟩
  rw [h.canonical]
  refine bind_ok.mpr ⟨g, h.gather, ?_⟩
  exact ite_error_ok.mpr ⟨h.produced, ite_error_ok.mpr ⟨h.limits, h.insert⟩⟩

/-- What is gathered is what the patterns offer. -/
theorem gathered_spec {parsed : List OutputPattern} {g : Gathered} (hparsed : Parsed parsed)
    (h : collectPatterns fs parsed .empty = .ok g) :
    (∀ x, x ∈ g.found.toList ↔ ∃ p ∈ parsed, fs.Offers p x) ∧ (∀ x ∈ g.found.toList, ValidPath x.1) ∧
      (g.notProduced = [] → ∀ p ∈ parsed, p.isLiteral = true →
        ∃ node, Node.At (.dir fs.entries) ((segments p.literalPrefix).map .utf8) node) := by
  obtain ⟨fine, d, hframed, hfacts⟩ := collectPatterns_framed fs hparsed
  obtain ⟨hfine, -, rfl⟩ := (hframed .empty (Nat.zero_le _) g).mp h
  obtain ⟨hfound, hvalid, hproduced⟩ := hfacts hfine
  have hmem : ∀ x, x ∈ ((Gathered.empty.add d).found).toList ↔ x ∈ d.found := by
    rintro ⟨rel, file⟩
    rw [Std.ExtTreeMap.mem_toList_iff_getElem?_eq_some]
    change (insertAll ∅ d.found)[rel]? = some file ↔ _
    rw [getElem?_insertAll, Std.ExtTreeMap.getElem?_empty, Option.none_or]
    constructor
    · exact mem_of_lookup
    intro hin
    cases hlookup : d.found.lookup rel with
    | none =>
      have hother := List.lookup_eq_none_iff.mp hlookup _ hin
      exact absurd hother (by simp)
    | some other =>
      obtain ⟨p, -, hp⟩ := (hfound _).mp hin
      obtain ⟨q, -, hq⟩ := (hfound _).mp (mem_of_lookup hlookup)
      rw [offers_unique hq hp]
  exact ⟨fun x => (hmem x).trans (hfound x), fun x hx => hvalid x ((hmem x).mp hx), hproduced⟩

section

omit [Host]

theorem mem_parsed {parsed : List OutputPattern}
    (h : List.Forall₂ (fun text pattern => OutputPattern.parse text = .ok pattern) patterns parsed)
    {pattern : OutputPattern} : pattern ∈ parsed ↔ ∃ text ∈ patterns, OutputPattern.parse text = .ok pattern := by
  induction h with
  | nil => exact ⟨fun h => absurd h List.not_mem_nil, fun ⟨_, h, _⟩ => absurd h List.not_mem_nil⟩
  | @cons text parsed _ _ hparse _ ih =>
    rw [List.mem_cons, ih, List.exists_mem_cons_iff]
    refine or_congr_left ?_
    rw [hparse]
    exact ⟨fun h => h ▸ rfl, fun h => (Except.ok.inj h).symm⟩

theorem offered_iff {parsed : List OutputPattern}
    (h : List.Forall₂ (fun text pattern => OutputPattern.parse text = .ok pattern) patterns parsed)
    {x : String × Found} :
    (∃ p ∈ parsed, fs.Offers p x) ↔ ∃ names f, Node.At (.dir fs.entries) (names.map .utf8) (.file f) ∧
      x = (Text.join "/" names, ⟨names.map .utf8, f.content.length⟩) ∧ SelectedBy patterns (Text.join "/" names) := by
  constructor
  · rintro ⟨p, hp, names, f, hat, hx, hselects⟩
    obtain ⟨text, htext, hparse⟩ := (mem_parsed h).mp hp
    exact ⟨names, f, hat, hx, text, htext, p, hparse, hselects⟩
  · rintro ⟨names, f, hat, hx, text, htext, p, hparse, hselects⟩
    exact ⟨p, (mem_parsed h).mpr ⟨text, htext, hparse⟩, names, f, hat, hx, hselects⟩

theorem exists_of_forall₂_left {α β : Type} {R : α → β → Prop} {l : List α} {r : List β} (h : List.Forall₂ R l r) :
    (∀ a ∈ l, ∃ b ∈ r, R a b) ∧ ∀ b ∈ r, ∃ a ∈ l, R a b := by
  induction h with
  | nil => exact ⟨List.forall_mem_nil _, List.forall_mem_nil _⟩
  | @cons a b l r hab _ ih =>
    refine ⟨fun x hx => ?_, fun y hy => ?_⟩
    · rcases List.mem_cons.mp hx with rfl | hx
      · exact ⟨b, List.mem_cons_self .., hab⟩
      · obtain ⟨y, hy, hxy⟩ := ih.1 x hx
        exact ⟨y, List.mem_cons_of_mem b hy, hxy⟩
    rcases List.mem_cons.mp hy with rfl | hy
    · exact ⟨a, List.mem_cons_self .., hab⟩
    · obtain ⟨x, hx, hxy⟩ := ih.2 y hy
      exact ⟨x, List.mem_cons_of_mem a hx, hxy⟩

theorem map_eq_of_forall₂ {α β γ : Type} {R : α → β → Prop} {f : α → γ} {k : β → γ} (hR : ∀ a b, R a b → f a = k b)
    {l : List α} {r : List β} (h : List.Forall₂ R l r) : l.map f = r.map k := by
  induction h with
  | nil => rfl
  | cons hab _ ih => rw [List.map_cons, List.map_cons, hR _ _ hab, ih]

end

end List

end Outputs

/-! ## Sandboxes -/

section Concrete

attribute [local instance] Host.blank

/-- A sandbox with three files, all of whose operations succeed. -/
def threeFiles (a b c : RegularFile) : SandboxTree where
  root := "/sandbox"
  entries := .cons (.utf8 "c") (.file c) (.cons (.utf8 "a") (.file a) (.cons (.utf8 "b") (.file b) .nil))
  wellNamed := by
    simp only [Entries.WellNamed, Entries.toList, Node.WellNamed, List.forall_mem_cons]
    decide +revert
  canonical := none
  lookup _ := none
  fault _ _ := none
  beyond _ := .error .absent

/-- Every file can be moved into the cache. -/
def movesAll (_ : String) : InsertChoice := ⟨false, true, none, none⟩

/-- What three files of these sizes become in the map. -/
def threeFound (a b c : Nat) : Additions :=
  ⟨[("c", ⟨[.utf8 "c"], c⟩), ("a", ⟨[.utf8 "a"], a⟩), ("b", ⟨[.utf8 "b"], b⟩)], [], 3⟩

theorem threeFiles_gathered (a b c : RegularFile) : collectPattern (threeFiles a b c) ⟨"*", [.wildcard "*"]⟩ .empty =
      .ok (Gathered.empty.add (threeFound a.content.length b.content.length c.content.length)) := by
  generalize hstar : (⟨"*", [.wildcard "*"]⟩ : OutputPattern) = star
  have hplain : star.literalPrefix = "" := by
    subst hstar
    decide +kernel
  have hselects : ∀ name ∈ ["c", "a", "b"], star.selects name = true ∧ relPath "" name = name ∧ ValidPath name := by
    subst hstar
    decide +kernel
  simp only [List.forall_mem_cons] at hselects
  obtain ⟨hc, ha, hb, -⟩ := hselects
  have hfound : (threeFiles a b c).entries.toList.flatMap (entryFound star ⟨[], "", true, (threeFiles a b c).entries⟩) =
      (threeFound a.content.length b.content.length c.content.length).found := by
    simp [threeFiles, threeFound, Entries.toList, entryFound, OsName.display, ha, hb, hc]
  have hfine : ∀ e ∈ (threeFiles a b c).entries.toList,
      EntryFine (threeFiles a b c) star ⟨[], "", true, (threeFiles a b c).entries⟩ e := by
    simp [threeFiles, Entries.toList, EntryFine, OsName.display, OsName.isUtf8, ha, hb, hc]
  have hentries := (walkEntries_framed (threeFiles a b c) star ⟨[], "", true, (threeFiles a b c).entries⟩ _ .empty
    (Nat.zero_le _) _).mpr ⟨hfine, show 3 ≤ maxWalkEntries by decide, rfl⟩
  rw [hfound] at hentries
  have hlink : traversesLink (threeFiles a b c) star = false := by
    unfold traversesLink
    rw [hplain]
    rfl
  unfold collectPattern
  rw [hplain, if_pos rfl, hlink]
  have hwalk : collectStart (threeFiles a b c) star [] .empty =
      walkOutputs (threeFiles a b c) star [] star.literalPrefix (threeFiles a b c).entries .empty := rfl
  refine hwalk.trans ?_
  rw [hplain]
  exact bind_ok.mpr ⟨(), rfl, bind_ok.mpr ⟨_, hentries, rfl⟩⟩

theorem threeFiles_collected {a b c : RegularFile} {limits : OutputLimits} {x y z : Nat} (ha : a.content.length = x)
    (hb : b.content.length = y) (hc : c.content.length = z) (hlist : (insertAll ∅ (threeFound x y z).found).toList =
      [("a", ⟨[.utf8 "a"], x⟩), ("b", ⟨[.utf8 "b"], y⟩), ("c", ⟨[.utf8 "c"], z⟩)])
    (hfiles : 3 ≤ limits.maxFiles) (hbytes : (x + (y + (z + 0))) % 2 ^ 64 ≤ limits.maxBytes) :
    collectOutputs (threeFiles a b c) movesAll ["*"] limits false =
      .ok [a.blobFile "a", b.blobFile "b", c.blobFile "c"] := by
  subst ha hb hc
  have hparse : OutputPattern.parse "*" = .ok ⟨"*", [.wildcard "*"]⟩ := by decide +kernel
  refine collectOutputs_ok.mpr ⟨_, _, .cons hparse .nil, rfl, bind_ok.mpr ⟨_, threeFiles_gathered a b c, rfl⟩,
    fun h => h.1 rfl, ?_, ?_⟩
  · rintro (hmany | hlarge)
    · refine absurd hmany (Nat.not_lt.mpr ?_)
      exact hlist ▸ hfiles
    · refine absurd hlarge (Nat.not_lt.mpr ?_)
      exact hlist ▸ hbytes
  · exact hlist ▸ rfl

/-- A sparse file of `n` bytes. -/
def RegularFile.zeros (n : Nat) (h : n < 2 ^ 64) : RegularFile :=
  ⟨List.replicate n 0, 0o644, none, 0, 1, by rw [List.length_replicate]; exact h⟩

end Concrete

end OxideSwarm
