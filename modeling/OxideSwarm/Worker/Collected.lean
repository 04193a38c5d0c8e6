import OxideSwarm.Data.Walk
import OxideSwarm.Worker.Outputs
import OxideSwarm.Worker.Placing

/-!
# What a collection of outputs returns

Every part of the gathering adds something to what is gathered already and depends on it only through the number of
entries visited (`Framed`), so the parts can be read one by one and the patterns in any order.

A pattern adds the regular files that it selects, reached from the root without a symbolic link
(`collectPattern_framed`): a walk below its literal prefix passes all of them, and where the prefix leads through a
link, to nothing or to something else there are none.
-/

namespace OxideSwarm

open Fallible

variable [Host]

/-! ## Results of fallible steps -/

section Except

variable {α β : Type}

section

omit [Host]

theorem call_ok {fs : SandboxTree} {c : SandboxCall} {path : List OsName} {text : String → String} {u : Unit} :
    fs.call c path text = .ok u ↔ fs.fault c path = none := by
  unfold SandboxTree.call
  cases fs.fault c path with
  | none => exact ⟨fun _ => rfl, fun _ => rfl⟩
  | some e => exact ⟨fun h => (nomatch h), fun h => (nomatch h)⟩

end

theorem checkSelectedEntryPath_ok {rel : String} {entryUtf8 : Bool} {u : Unit} :
    checkSelectedEntryPath rel entryUtf8 = .ok u ↔ entryUtf8 = true ∧ ValidPath rel := by
  unfold checkSelectedEntryPath
  rw [← validateBlobPath_iff]
  cases entryUtf8 with
  | false => exact ⟨fun h => (nomatch h), fun h => (nomatch h.1)⟩
  | true =>
    cases validateBlobPath rel with
    | error e => exact ⟨fun h => (nomatch h), fun h => (nomatch h.2)⟩
    | ok u => exact ⟨fun _ => ⟨rfl, rfl⟩, fun _ => rfl⟩

end Except

/-! ## What is added -/

/-- What a part of the gathering adds. -/
structure Additions where
  found : List (String × Found)
  notProduced : List String
  visited : Nat

namespace Additions

def none : Additions := ⟨[], [], 0⟩

def append (d d' : Additions) : Additions :=
  ⟨d.found ++ d'.found, d.notProduced ++ d'.notProduced, d.visited + d'.visited⟩

end Additions

/-- The first entry of each new path joins the map. -/
def insertAll (found : Std.ExtTreeMap String Found compare) (l : List (String × Found)) :
    Std.ExtTreeMap String Found compare :=
  l.foldl (fun found x => found.insertIfNew x.1 x.2) found

namespace Gathered

def add (g : Gathered) (d : Additions) : Gathered :=
  ⟨insertAll g.found d.found, g.notProduced ++ d.notProduced, g.visited + d.visited⟩

omit [Host] in
theorem add_none (g : Gathered) : g.add .none = g := by
  unfold add Additions.none insertAll
  rw [List.append_nil]
  rfl

omit [Host] in
theorem add_append (g : Gathered) (d d' : Additions) : g.add (d.append d') = (g.add d).add d' := by
  unfold add Additions.append insertAll
  simp only [List.foldl_append, List.append_assoc, Nat.add_assoc]

end Gathered

omit [Host] in
theorem getElem?_insertAll (l : List (String × Found)) (found : Std.ExtTreeMap String Found compare) (rel : String) :
    (insertAll found l)[rel]? = found[rel]?.or (l.lookup rel) := by
  induction l generalizing found with
  | nil => rw [List.lookup_nil, Option.or_none]; rfl
  | cons x l ih =>
    have hstep : insertAll found (x :: l) = insertAll (found.insertIfNew x.1 x.2) l := rfl
    rw [hstep, ih, Std.ExtTreeMap.getElem?_insertIfNew, List.lookup_cons]
    by_cases hrel : x.1 = rel
    · subst hrel
      rw [beq_self_eq_true]
      by_cases hmem : x.1 ∈ found
      · rw [if_neg (fun h => h.2 hmem), Std.ExtTreeMap.getElem?_eq_some_getElem hmem]
        rfl
      · rw [if_pos ⟨Std.ReflCmp.compare_self, hmem⟩, Std.ExtTreeMap.getElem?_eq_none hmem]
        rfl
    · rw [if_neg (fun h => hrel (Std.LawfulEqCmp.eq_of_compare h.1)), beq_false_of_ne (Ne.symm hrel)]

/-- `m` succeeds where `fine` holds and the entries it visits are not too many, and adds `d`; `out` is its result. -/
def Framed {ρ : Type} (m : Gathered → Except String ρ) (out : Gathered → ρ) (fine : Prop) (d : Additions) : Prop :=
  ∀ g, g.visited ≤ maxWalkEntries → ∀ r,
    m g = .ok r ↔ fine ∧ g.visited + d.visited ≤ maxWalkEntries ∧ r = out (g.add d)

section Framed

variable {ρ τ : Type} {m : Gathered → Except String ρ} {out : Gathered → ρ} {out' : Gathered → τ} {fine fine' : Prop}
  {d d' : Additions}

section

omit [Host]

theorem Framed.ok {f : Gathered → ρ} (hf : ∀ g, f g = out (g.add d)) (hd : d.visited = 0) :
    Framed (fun g => .ok (f g)) out True d := by
  intro g hg r
  rw [hd, Nat.add_zero, ← hf]
  constructor
  · rintro ⟨⟩
    exact ⟨trivial, hg, rfl⟩
  · rintro ⟨-, -, rfl⟩
    rfl

theorem Framed.pure (out : Gathered → ρ) : Framed (fun g => .ok (out g)) out True .none :=
  .ok (fun g => by rw [g.add_none]) rfl

theorem Framed.fail (e : String) (out : Gathered → ρ) (d : Additions) : Framed (fun _ => .error e) out False d :=
  fun _ _ _ => ⟨fun h => (nomatch h), fun h => h.1.elim⟩

theorem Framed.orInsert (c : Bool) (rel : String) (file : Found) :
    Framed (fun g => .ok (if c then g.orInsert rel file else g)) id True ⟨if c then [(rel, file)] else [], [], 0⟩ := by
  refine .ok (fun g => ?_) rfl
  unfold Gathered.add
  rw [List.append_nil, Nat.add_zero]
  split <;> rfl

theorem Framed.bind {k : ρ → Except String τ} (h : Framed m out fine d)
    (h' : Framed (fun g => k (out g)) out' fine' d') :
    Framed (fun g => m g >>= k) out' (fine ∧ fine') (d.append d') := by
  intro g hg r
  rw [bind_ok, g.add_append]
  have hvisited : (d.append d').visited = d.visited + d'.visited := rfl
  constructor
  · rintro ⟨r₁, hm, hk⟩
    obtain ⟨hfine, hle, rfl⟩ := (h g hg r₁).mp hm
    obtain ⟨hfine', hle', hr⟩ := (h' (g.add d) hle r).mp hk
    refine ⟨⟨hfine, hfine'⟩, ?_, hr⟩
    rw [hvisited, ← Nat.add_assoc]
    exact hle'
  rintro ⟨⟨hfine, hfine'⟩, hle, hr⟩
  rw [hvisited, ← Nat.add_assoc] at hle
  have hle₁ : g.visited + d.visited ≤ maxWalkEntries := Nat.le_trans (Nat.le_add_right _ _) hle
  exact ⟨out (g.add d), (h g hg _).mpr ⟨hfine, hle₁, rfl⟩, (h' (g.add d) hle₁ r).mpr ⟨hfine', hle, hr⟩⟩

theorem Framed.after_call {fs : SandboxTree} {c : SandboxCall} {path : List OsName} {text : String → String}
    (h : Framed m out fine d) :
    Framed (fun g => fs.call c path text >>= fun _ => m g) out (fs.fault c path = .none ∧ fine) d := by
  intro g hg r
  simp only [bind_ok, call_ok, exists_and_left, exists_const]
  rw [h g hg r, and_assoc]

theorem Framed.adds (h : Framed m out fine d) (hd : d' = d) : Framed m out fine d' := hd ▸ h

theorem Framed.imp (h : Framed m out fine d) (hfine : fine' ↔ fine) : Framed m out fine' d := by
  intro g hg r
  rw [h g hg r, hfine]

end

end Framed

/-! ## The walk -/

/-- The path of what `names` lead to from a directory. -/
def relNames (relDir : String) (names : List OsName) : String :=
  names.foldl (fun rel name => relPath rel name.display) relDir

variable {f : RegularFile} {names : List OsName}

namespace OpenDir

variable (q : OpenDir)

/-- The directory `entries` named `name` in `q`. -/
def child (name : OsName) (entries : Entries) : OpenDir :=
  ⟨q.dir ++ [name], relPath q.relDir name.display, q.dirUtf8 && name.isUtf8, entries⟩

/-- `names` lead to the regular file `f` below `q`. -/
def Covers (names : List OsName) (f : RegularFile) : Prop := names ≠ [] ∧ Node.At (.dir q.entries) names (.file f)

theorem covers_iff : q.Covers names f ↔ (∃ name, names = [name] ∧ (name, .file f) ∈ q.entries.toList) ∨
      ∃ name rest entries, names = name :: rest ∧ (name, .dir entries) ∈ q.entries.toList ∧
        (q.child name entries).Covers rest f := by
  constructor
  · rintro ⟨hne, hat⟩
    cases hat with
    | @through _ name child node rest hmem hrest =>
      cases hrest with
      | here => exact .inl ⟨name, rfl, hmem⟩
      | through hmem' hrest' =>
        exact .inr ⟨name, _, _, rfl, hmem, List.cons_ne_nil _ _, .through hmem' hrest'⟩
  · rintro (⟨name, rfl, hmem⟩ | ⟨name, rest, entries, rfl, hmem, -, hat⟩)
    · exact ⟨List.cons_ne_nil _ _, .through hmem (.here _)⟩
    · exact ⟨List.cons_ne_nil _ _, .through hmem hat⟩

end OpenDir

variable {x : String × Found}

section Walk

variable (fs : SandboxTree) (pattern : OutputPattern)

/-- The file an entry adds. -/
def entryFound (q : OpenDir) (e : OsName × Node) : List (String × Found) :=
  match e.2 with
  | .file f =>
    if pattern.selects (relPath q.relDir e.1.display) then
      [(relPath q.relDir e.1.display, ⟨q.dir ++ [e.1], f.content.length⟩)]
    else []
  | _ => []

/-- The directory an entry adds to the stack. -/
def entryPushed (q : OpenDir) (e : OsName × Node) : List OpenDir :=
  match e.2 with
  | .dir entries => [q.child e.1 entries]
  | _ => []

/-- Nothing fails at an entry. -/
def EntryFine (q : OpenDir) (e : OsName × Node) : Prop :=
  fs.fault .nextEntry (q.dir ++ [e.1]) = none ∧ fs.fault .fileType (q.dir ++ [e.1]) = none ∧
    ∀ f, e.2 = .file f → pattern.selects (relPath q.relDir e.1.display) = true →
      (q.dirUtf8 && e.1.isUtf8) = true ∧ ValidPath (relPath q.relDir e.1.display) ∧
        fs.fault .metadata (q.dir ++ [e.1]) = none

theorem walkEntry_framed (q : OpenDir) (e : OsName × Node) :
    Framed (walkEntry fs pattern q e.1 e.2) (fun g => (g, entryPushed q e)) (EntryFine fs pattern q e)
      ⟨entryFound pattern q e, [], 1⟩ := by
  obtain ⟨name, node⟩ := e
  intro g hg r
  have hadd : ∀ l, g.add ⟨l, [], 1⟩ = ⟨insertAll g.found l, g.notProduced, g.visited + 1⟩ := by
    intro l
    unfold Gathered.add
    rw [List.append_nil]
  unfold walkEntry EntryFine
  simp only [bind_ok, call_ok, ite_error_ok, exists_and_left, exists_const, hadd, Nat.not_lt, gt_iff_lt]
  constructor
  · rintro ⟨hnext, hle, htype, hr⟩
    refine ⟨⟨hnext, htype, ?_⟩, hle, ?_⟩
    · rintro f rfl hselects
      simp only [hselects, if_true, bind_ok, checkSelectedEntryPath_ok, call_ok] at hr
      obtain ⟨u, ⟨hutf8, hvalid⟩, u', hmeta, -⟩ := hr
      exact ⟨hutf8, hvalid, hmeta⟩
    cases node with
    | file f =>
      unfold entryFound entryPushed
      dsimp only at hr ⊢
      by_cases hselects : pattern.selects (relPath q.relDir name.display) = true
      · simp only [if_pos hselects, bind_ok] at hr ⊢
        obtain ⟨-, -, -, -, hr⟩ := hr
        cases hr
        rfl
      · simp only [if_neg hselects] at hr ⊢
        cases hr
        rfl
    | dir | symlink | special =>
      cases hr
      rfl
  rintro ⟨⟨hnext, htype, hfile⟩, hle, rfl⟩
  refine ⟨hnext, hle, htype, ?_⟩
  cases node with
  | file f =>
    unfold entryFound entryPushed
    by_cases hselects : pattern.selects (relPath q.relDir name.display) = true
    · obtain ⟨hutf8, hvalid, hmeta⟩ := hfile f rfl hselects
      simp only [if_pos hselects, bind_ok]
      exact ⟨(), checkSelectedEntryPath_ok.mpr ⟨hutf8, hvalid⟩, (), call_ok.mpr hmeta, rfl⟩
    · simp only [if_neg hselects]
      rfl
  | dir | symlink | special => rfl

/-- What reading the entries of a directory adds to the stack. -/
def entriesPushed (q : OpenDir) : List (OsName × Node) → List OpenDir
  | [] => []
  | e :: rest => entriesPushed q rest ++ entryPushed q e

theorem walkEntries_framed (q : OpenDir) (entries : Entries) :
    Framed (walkEntries fs pattern q entries) (fun g => (g, entriesPushed q entries.toList))
      (∀ e ∈ entries.toList, EntryFine fs pattern q e)
      ⟨entries.toList.flatMap (entryFound pattern q), [], entries.toList.length⟩ := by
  induction entries using Entries.listed with
  | nil =>
    refine ((Framed.pure fun g => (g, [])).adds rfl).imp ?_
    simp only [Entries.toList, List.not_mem_nil, false_implies, implies_true]
  | cons name node rest ih =>
    have hrest : Framed (fun g => walkEntries fs pattern q rest g >>= fun r => .ok (r.1, r.2 ++ entryPushed q (name, node)))
        (fun g => (g, entriesPushed q rest.toList ++ entryPushed q (name, node))) _ _ := ih.bind (Framed.pure _)
    refine (((walkEntry_framed fs pattern q (name, node)).bind hrest).adds ?_).imp ?_
    · simp only [Additions.append, Additions.none, Entries.toList, List.flatMap_cons, List.length_cons, List.append_nil,
        Nat.add_zero, Nat.add_comm 1]
    · rw [Entries.toList, List.forall_mem_cons, and_true]

theorem mem_entriesPushed {q c : OpenDir} {items : List (OsName × Node)} :
    c ∈ entriesPushed q items ↔ ∃ name entries, (name, .dir entries) ∈ items ∧ c = q.child name entries := by
  induction items with
  | nil => exact ⟨fun h => absurd h List.not_mem_nil, fun ⟨_, _, h, _⟩ => absurd h List.not_mem_nil⟩
  | cons e items ih =>
    have hhead : c ∈ entryPushed q e ↔ ∃ name entries, (name, .dir entries) = e ∧ c = q.child name entries := by
      obtain ⟨name, node⟩ := e
      unfold entryPushed
      cases node with
      | dir entries =>
        rw [List.mem_singleton]
        constructor
        · exact fun h => ⟨name, entries, rfl, h⟩
        · rintro ⟨_, _, ⟨⟩, h⟩
          exact h
      | file | symlink | special => exact ⟨fun h => absurd h List.not_mem_nil, fun ⟨_, _, h, _⟩ => nomatch h⟩
    rw [entriesPushed, List.mem_append, ih, hhead]
    simp only [List.mem_cons, or_and_right, exists_or]
    exact or_comm

theorem mem_entriesFound {pattern : OutputPattern} {q : OpenDir} {items : List (OsName × Node)} :
    x ∈ items.flatMap (entryFound pattern q) ↔ ∃ name f, (name, .file f) ∈ items ∧
      x = (relPath q.relDir name.display, ⟨q.dir ++ [name], f.content.length⟩) ∧
        pattern.selects (relPath q.relDir name.display) = true := by
  rw [List.mem_flatMap]
  constructor
  · rintro ⟨⟨name, node⟩, hmem, hx⟩
    unfold entryFound at hx
    cases node with
    | file f =>
      dsimp only at hx
      split at hx
      · next hselects => exact ⟨name, f, hmem, List.mem_singleton.mp hx, hselects⟩
      · exact absurd hx List.not_mem_nil
    | dir | symlink | special => exact absurd hx List.not_mem_nil
  rintro ⟨name, f, hmem, hx, hselects⟩
  refine ⟨(name, .file f), hmem, ?_⟩
  unfold entryFound
  dsimp only
  rw [if_pos hselects]
  exact List.mem_singleton.mpr hx

/-- A file that the pattern selects below `q`. -/
def OpenDir.Yields (pattern : OutputPattern) (q : OpenDir) (x : String × Found) : Prop :=
  ∃ names f, q.Covers names f ∧ x = (relNames q.relDir names, ⟨q.dir ++ names, f.content.length⟩) ∧
    pattern.selects (relNames q.relDir names) = true

/-- What is selected below `q` has a name that can be returned. -/
def OpenDir.Sound (pattern : OutputPattern) (q : OpenDir) : Prop :=
  ∀ names f, q.Covers names f → pattern.selects (relNames q.relDir names) = true →
    q.dirUtf8 = true ∧ (∀ name ∈ names, name.isUtf8 = true) ∧ ValidPath (relNames q.relDir names)

/-- Reading a directory leaves what is selected below it to its files and to the directories it pushes. -/
theorem yields_iff {pattern : OutputPattern} {q : OpenDir} :
    q.Yields pattern x ↔ x ∈ q.entries.toList.flatMap (entryFound pattern q) ∨
      ∃ c ∈ entriesPushed q q.entries.toList, c.Yields pattern x := by
  rw [mem_entriesFound]
  constructor
  · rintro ⟨names, f, hcovers, hx, hselects⟩
    rcases (q.covers_iff).mp hcovers with ⟨name, rfl, hmem⟩ | ⟨name, rest, entries, rfl, hmem, hrest⟩
    · exact .inl ⟨name, f, hmem, hx, hselects⟩
    · refine .inr ⟨q.child name entries, mem_entriesPushed.mpr ⟨name, entries, hmem, rfl⟩, rest, f, hrest, ?_, hselects⟩
      rw [hx, OpenDir.child, List.append_assoc, List.singleton_append]
      rfl
  rintro (⟨name, f, hmem, hx, hselects⟩ | ⟨c, hc, rest, f, hrest, hx, hselects⟩)
  · exact ⟨[name], f, (q.covers_iff).mpr (.inl ⟨name, rfl, hmem⟩), hx, hselects⟩
  obtain ⟨name, entries, hmem, rfl⟩ := mem_entriesPushed.mp hc
  refine ⟨name :: rest, f, (q.covers_iff).mpr (.inr ⟨name, rest, entries, rfl, hmem, hrest⟩), ?_, hselects⟩
  rw [hx, OpenDir.child, List.append_assoc, List.singleton_append]
  rfl

theorem sound_of_entries {fs : SandboxTree} {pattern : OutputPattern} {q : OpenDir}
    (hentries : ∀ e ∈ q.entries.toList, EntryFine fs pattern q e)
    (hpushed : ∀ c ∈ entriesPushed q q.entries.toList, c.Sound pattern) : q.Sound pattern := by
  intro names f hcovers hselects
  rcases (q.covers_iff).mp hcovers with ⟨name, rfl, hmem⟩ | ⟨name, rest, entries, rfl, hmem, hrest⟩
  · obtain ⟨hutf8, hvalid, -⟩ := (hentries _ hmem).2.2 f rfl hselects
    rw [Bool.and_eq_true] at hutf8
    exact ⟨hutf8.1, fun n hn => List.mem_singleton.mp hn ▸ hutf8.2, hvalid⟩
  obtain ⟨hutf8, hnames, hvalid⟩ :=
    hpushed _ (mem_entriesPushed.mpr ⟨name, entries, hmem, rfl⟩) rest f hrest hselects
  have hboth : (q.dirUtf8 && name.isUtf8) = true := hutf8
  rw [Bool.and_eq_true] at hboth
  refine ⟨hboth.1, fun n hn => ?_, hvalid⟩
  rcases List.mem_cons.mp hn with rfl | hn
  · exact hboth.2
  · exact hnames n hn

/-- The rounds that a stack asks for. -/
def openRounds (stack : List OpenDir) : Nat := (stack.map fun q => q.entries.dirs + 1).sum

omit [Host] in
theorem openRounds_append (stack stack' : List OpenDir) :
    openRounds (stack ++ stack') = openRounds stack + openRounds stack' := by
  unfold openRounds
  rw [List.map_append, List.sum_append]

theorem openRounds_pushed (q : OpenDir) (items : List (OsName × Node)) :
    openRounds (entriesPushed q items) = (items.map fun e => e.2.dirs).sum := by
  induction items with
  | nil => rfl
  | cons e items ih =>
    have hhead : openRounds (entryPushed q e) = e.2.dirs := by
      obtain ⟨name, node⟩ := e
      cases node <;> rfl
    rw [entriesPushed, openRounds_append, ih, hhead, List.map_cons, List.sum_cons, Nat.add_comm]

/-- **The walk adds the files that the pattern selects below its stack.** -/
theorem walkLoop_framed (fuel : Nat) : ∀ stack : List OpenDir, openRounds stack ≤ fuel →
    ∃ fine d, Framed (walkLoop fs pattern fuel stack) id fine d ∧ d.notProduced = [] ∧
      (∀ x, x ∈ d.found ↔ ∃ q ∈ stack, q.Yields pattern x) ∧ (fine → ∀ q ∈ stack, q.Sound pattern) := by
  have hdone : ∃ fine d, Framed (fun g => .ok g) id fine d ∧ d.notProduced = [] ∧
      (∀ x, x ∈ d.found ↔ ∃ q ∈ ([] : List OpenDir), q.Yields pattern x) ∧
        (fine → ∀ q ∈ ([] : List OpenDir), q.Sound pattern) := by
    refine ⟨True, .none, Framed.pure id, rfl, fun x => ?_, fun _ q hq => absurd hq List.not_mem_nil⟩
    exact ⟨fun h => absurd h List.not_mem_nil, fun ⟨q, hq, _⟩ => absurd hq List.not_mem_nil⟩
  induction fuel with
  | zero =>
    intro stack hrounds
    cases stack with
    | nil => exact hdone
    | cons q stack =>
      rw [openRounds, List.map_cons, List.sum_cons] at hrounds
      omega
  | succ fuel ih =>
    intro stack hrounds
    cases stack with
    | nil => exact hdone
    | cons q stack =>
      have hfewer : openRounds (entriesPushed q q.entries.toList ++ stack) ≤ fuel := by
        rw [openRounds, List.map_cons, List.sum_cons, dirs_eq_sum] at hrounds
        rw [openRounds_append, openRounds_pushed]
        unfold openRounds
        omega
      obtain ⟨fine, d, hloop, hnone, hfound, hsound⟩ := ih _ hfewer
      have hread : Framed (fun g => walkEntries fs pattern q q.entries g >>= fun r =>
          walkLoop fs pattern fuel (r.2 ++ stack) r.1) id _ _ := (walkEntries_framed fs pattern q q.entries).bind hloop
      have hround : Framed (walkLoop fs pattern (fuel + 1) (q :: stack)) id
          (fs.fault .readDir q.dir = none ∧ (∀ e ∈ q.entries.toList, EntryFine fs pattern q e) ∧ fine) _ :=
        hread.after_call
      refine ⟨_, _, hround, ?_, fun x => ?_, ?_⟩
      · rw [Additions.append, hnone]
        rfl
      · rw [Additions.append, List.mem_append, hfound, List.exists_mem_cons_iff, yields_iff, or_assoc]
        simp only [List.mem_append, or_and_right, exists_or]
      rintro ⟨-, hentries, hrest⟩ c hc
      have hpushed := hsound hrest
      rcases List.mem_cons.mp hc with rfl | hc
      · exact sound_of_entries hentries fun c hc => hpushed c (List.mem_append_left _ hc)
      · exact hpushed c (List.mem_append_right _ hc)

end Walk

/-! ## Looking up a path -/

variable {entries : Entries} {node : Node}

section Lookup

section

omit [Host]

theorem wellNamed_mem (h : entries.WellNamed) {name : OsName}
    (hmem : (name, node) ∈ entries.toList) : name.Plain ∧ node.WellNamed := by
  induction entries using Entries.listed with
  | nil => exact absurd hmem List.not_mem_nil
  | cons name' node' rest ih =>
    obtain ⟨hplain, -, hnode, hrest⟩ := h
    rcases List.mem_cons.mp hmem with heq | hmem
    · cases heq
      exact ⟨hplain, hnode⟩
    · exact ih hrest hmem

theorem lookup_of_mem (h : entries.WellNamed) {name : OsName}
    (hmem : (name, node) ∈ entries.toList) : entries.toList.lookup name = some node := by
  induction entries using Entries.listed with
  | nil => exact absurd hmem List.not_mem_nil
  | cons name' node' rest ih =>
    obtain ⟨-, hother, -, hrest⟩ := h
    rw [Entries.toList, List.lookup_cons]
    rcases List.mem_cons.mp hmem with heq | hmem
    · cases heq
      rw [beq_self_eq_true]
    · rw [beq_false_of_ne (hother _ hmem)]
      exact ih hrest hmem

theorem mem_of_lookup {κ ν : Type} [BEq κ] [LawfulBEq κ] {l : List (κ × ν)} {k : κ} {v : ν} (h : l.lookup k = some v) :
    (k, v) ∈ l := by
  obtain ⟨before, after, rfl, -⟩ := List.lookup_eq_some_iff.mp h
  exact List.mem_append_right before (List.mem_cons_self ..)

end

variable {root : Node}

section

omit [Host]

theorem at_append {a b : List OsName} :
    Node.At root (a ++ b) node ↔ ∃ mid, Node.At root a mid ∧ Node.At mid b node := by
  induction a generalizing root with
  | nil =>
    constructor
    · exact fun h => ⟨root, .here root, h⟩
    · rintro ⟨mid, ⟨⟩, h⟩
      exact h
  | cons name a ih =>
    constructor
    · rintro (_ | ⟨hmem, hat⟩)
      obtain ⟨mid, hmid, hrest⟩ := ih.mp hat
      exact ⟨mid, .through hmem hmid, hrest⟩
    · rintro ⟨mid, _ | ⟨hmem, hat⟩, hrest⟩
      exact .through hmem (ih.mpr ⟨mid, hat, hrest⟩)

theorem at_unique {x y : Node} (hroot : root.WellNamed) (hx : Node.At root names x)
    (hy : Node.At root names y) : x = y := by
  induction hx with
  | here node =>
    cases hy
    rfl
  | through hmem _ ih =>
    cases hy with
    | through hmem' hat' =>
      have hsame := (lookup_of_mem hroot hmem).symm.trans (lookup_of_mem hroot hmem')
      cases hsame
      exact ih (wellNamed_mem hroot hmem).2 hat'

theorem at_plain {x : Node} (hroot : root.WellNamed) (hx : Node.At root names x) : ∀ name ∈ names, name.Plain := by
  induction hx with
  | here node => exact List.forall_mem_nil _
  | through hmem _ ih =>
    intro name hname
    rcases List.mem_cons.mp hname with rfl | hname
    · exact (wellNamed_mem hroot hmem).1
    · exact ih (wellNamed_mem hroot hmem).2 name hname

end

variable (fs : SandboxTree)

section

omit [Host]

theorem SandboxTree.rootNamed : (Node.dir fs.entries).WellNamed := fs.wellNamed

/-- What names lead to without a link is found, unless looking it up fails. -/
theorem lstatFrom_of_at {x : Node} (hroot : root.WellNamed) (hat : Node.At root names x) :
    ∀ path, fs.lstatFrom path root names = .ok x ∨ ∃ e, fs.lstatFrom path root names = .error (.other e) := by
  induction hat with
  | here node =>
    intro path
    rw [SandboxTree.lstatFrom]
    cases fs.lookup path with
    | none => exact .inl rfl
    | some e => exact .inr ⟨e, rfl⟩
  | through hmem _ ih =>
    intro path
    rw [SandboxTree.lstatFrom]
    cases fs.lookup path with
    | none =>
      rw [lookup_of_mem hroot hmem]
      exact ih (wellNamed_mem hroot hmem).2 _
    | some e => exact .inr ⟨e, rfl⟩

/-- What is found is what the names lead to, or a link is on the way to it. -/
theorem at_of_lstatFrom {x : Node} : ∀ (names path : List OsName) (root : Node),
    fs.lstatFrom path root names = .ok x →
      Node.At root names x ∨ ∃ a b, names = a ++ b ∧ b ≠ [] ∧ fs.lstatFrom path root a = .ok .symlink := by
  intro names
  induction names with
  | nil =>
    intro path root h
    rw [SandboxTree.lstatFrom] at h
    cases hlookup : fs.lookup path with
    | some e =>
      rw [hlookup] at h
      cases h
    | none =>
      rw [hlookup] at h
      cases h
      exact .inl (.here _)
  | cons name names ih =>
    intro path root h
    cases hlookup : fs.lookup path with
    | some e =>
      cases root <;> simp [SandboxTree.lstatFrom, hlookup] at h
    | none =>
      cases root with
      | file | special => simp [SandboxTree.lstatFrom, hlookup] at h
      | symlink =>
        refine .inr ⟨[], name :: names, rfl, List.cons_ne_nil _ _, ?_⟩
        rw [SandboxTree.lstatFrom, hlookup]
      | dir entries =>
        rw [SandboxTree.lstatFrom, hlookup] at h
        cases hchild : entries.toList.lookup name with
        | none =>
          rw [hchild] at h
          cases h
        | some child =>
          rw [hchild] at h
          rcases ih _ _ h with hat | ⟨a, b, rfl, hb, hlink⟩
          · exact .inl (.through (mem_of_lookup hchild) hat)
          refine .inr ⟨name :: a, b, rfl, hb, ?_⟩
          rw [SandboxTree.lstatFrom, hlookup]
          rw [hchild]
          exact hlink

end

end Lookup

/-! ## Paths of names -/

omit [Host] in
theorem join_ne_empty {names : List String} (hne : names ≠ []) (h : ∀ name ∈ names, name ≠ "") :
    Text.join "/" names ≠ "" := by
  cases names with
  | nil => exact absurd rfl hne
  | cons name rest =>
    intro hempty
    apply h name (List.mem_cons_self ..)
    cases rest with
    | nil => rwa [Text.join_singleton] at hempty
    | cons next rest =>
      rw [Text.join_cons "/" name (List.cons_ne_nil next rest), String.append_assoc] at hempty
      exact (String.append_eq_empty_iff.mp hempty).1

theorem relNames_utf8 (names : List String) : ∀ up : List String, (∀ name ∈ up ++ names, name ≠ "") →
    relNames (Text.join "/" up) (names.map .utf8) = Text.join "/" (up ++ names) := by
  induction names with
  | nil =>
    intro up _
    rw [List.append_nil]
    rfl
  | cons name names ih =>
    intro up h
    have hstep : relPath (Text.join "/" up) name = Text.join "/" (up ++ [name]) := by
      unfold relPath
      by_cases hup : up = []
      · subst hup
        have hempty : Text.join "/" [] = "" := rfl
        rw [if_pos hempty, List.nil_append, Text.join_singleton]
      · rw [if_neg (join_ne_empty hup fun n hn => h n (List.mem_append_left _ hn)),
          Text.join_append "/" hup (List.cons_ne_nil name []), Text.join_singleton]
    have hsplit : up ++ name :: names = up ++ [name] ++ names := by rw [List.append_assoc, List.singleton_append]
    rw [hsplit] at h ⊢
    rw [← ih (up ++ [name]) h, ← hstep]
    rfl

omit [Host] in
theorem exists_utf8_names (h : ∀ name ∈ names, name.isUtf8 = true) : ∃ ns : List String, names = ns.map .utf8 := by
  induction names with
  | nil => exact ⟨[], rfl⟩
  | cons name names ih =>
    obtain ⟨ns, rfl⟩ := ih fun n hn => h n (List.mem_cons_of_mem name hn)
    cases name with
    | utf8 n => exact ⟨n :: ns, rfl⟩
    | other bytes => exact absurd (h _ (List.mem_cons_self ..)) Bool.false_ne_true

/-! ## One pattern -/

/-- `x` is a regular file of the sandbox, reached without a link, whose path the pattern selects. -/
def SandboxTree.Offers (fs : SandboxTree) (pattern : OutputPattern) (x : String × Found) : Prop :=
  ∃ names f, Node.At (.dir fs.entries) (names.map .utf8) (.file f) ∧
    x = (Text.join "/" names, ⟨names.map .utf8, f.content.length⟩) ∧ pattern.selects (Text.join "/" names) = true

section Pattern

variable {fs : SandboxTree} {pattern : OutputPattern} {text : String}

section

omit [Host]

theorem at_names_plain {names : List String} (h : Node.At (.dir fs.entries) (names.map .utf8) node) :
    ∀ name ∈ names, name ≠ "" ∧ '/' ∉ name.toList :=
  fun name hname => at_plain fs.rootNamed h (.utf8 name) (List.mem_map_of_mem hname)

theorem names_ne_nil {names : List String}
    (h : Node.At (.dir fs.entries) (names.map .utf8) (.file f)) : names ≠ [] := by
  rintro rfl
  cases h

theorem segments_of_at {names : List String}
    (h : Node.At (.dir fs.entries) (names.map .utf8) (.file f)) : segments (Text.join "/" names) = names :=
  segments_join (names_ne_nil h) fun name hname => (at_names_plain h name hname).2

end

open OutputPattern

omit [Host] in
theorem offers_below (h : fs.Offers pattern x) :
    ∃ rest f mid, x = (Text.join "/" (literalNames pattern.segments ++ rest),
        ⟨(literalNames pattern.segments ++ rest).map .utf8, f.content.length⟩) ∧
      Node.At (.dir fs.entries) ((literalNames pattern.segments).map .utf8) mid ∧
        Node.At mid (rest.map .utf8) (.file f) ∧
        pattern.selects (Text.join "/" (literalNames pattern.segments ++ rest)) = true := by
  obtain ⟨names, f, hat, hx, hselects⟩ := h
  obtain ⟨rest, hnames⟩ := literalNames_of_selects hselects
  rw [segments_of_at hat] at hnames
  subst hnames
  rw [List.map_append] at hat
  obtain ⟨mid, hmid, hrest⟩ := at_append.mp hat
  exact ⟨rest, f, mid, hx, hmid, hrest, hselects⟩

theorem relNames_literal {rest : List String}
    (h : Node.At (.dir fs.entries) ((literalNames pattern.segments ++ rest).map .utf8) node) :
    relNames pattern.literalPrefix (rest.map .utf8) = Text.join "/" (literalNames pattern.segments ++ rest) :=
  relNames_utf8 rest _ fun name hname => (at_names_plain h name hname).1

/-- What a walk from the literal names yields is what is offered. -/
theorem yields_iff_offers
    (hstart : Node.At (.dir fs.entries) ((literalNames pattern.segments).map .utf8) (.dir entries))
    (hsound : OpenDir.Sound pattern
      ⟨(literalNames pattern.segments).map .utf8, pattern.literalPrefix, true, entries⟩) (x : String × Found) :
    OpenDir.Yields pattern ⟨(literalNames pattern.segments).map .utf8, pattern.literalPrefix, true, entries⟩ x ↔
      fs.Offers pattern x := by
  constructor
  · rintro ⟨below, f, hcovers, hx, hselects⟩
    obtain ⟨-, hutf8, -⟩ := hsound below f hcovers hselects
    obtain ⟨rest, rfl⟩ := exists_utf8_names hutf8
    have hat : Node.At (.dir fs.entries) ((literalNames pattern.segments ++ rest).map .utf8) (.file f) := by
      rw [List.map_append]
      exact at_append.mpr ⟨_, hstart, hcovers.2⟩
    rw [relNames_literal hat] at hx hselects
    refine ⟨literalNames pattern.segments ++ rest, f, hat, ?_, hselects⟩
    rw [hx, List.map_append]
  intro hoffers
  obtain ⟨rest, f, mid, hx, hmid, hrest, hselects⟩ := offers_below hoffers
  obtain rfl := at_unique fs.rootNamed hmid hstart
  have hat : Node.At (.dir fs.entries) ((literalNames pattern.segments ++ rest).map .utf8) (.file f) := by
    rw [List.map_append]
    exact at_append.mpr ⟨_, hstart, hrest⟩
  have hrel := relNames_literal hat
  refine ⟨rest.map .utf8, f, ⟨?_, hrest⟩, ?_, ?_⟩
  · intro hnil
    rw [hnil] at hrest
    cases hrest
  · rw [hx, hrel, List.map_append]
  · rwa [hrel]

section

omit [Host]

/-- What the literal names lead to where no link is on the way, as it is found. -/
theorem at_of_lstat {names : List String}
    (hlink : ∀ a, a ≠ [] → a <+: names → a ≠ names → fs.lstat (a.map .utf8) ≠ .ok .symlink)
    (h : fs.lstat (names.map .utf8) = .ok node) : Node.At (.dir fs.entries) (names.map .utf8) node := by
  rcases at_of_lstatFrom fs _ _ _ h with hat | ⟨a, b, hab, hb, hsymlink⟩
  · exact hat
  exfalso
  obtain ⟨a', b', rfl, rfl, rfl⟩ := List.map_eq_append_iff.mp hab
  have hb' : b' ≠ [] := fun hnil => hb (by rw [hnil]; rfl)
  by_cases ha : a' = []
  · -- the root is a directory
    subst ha
    have hroot : fs.lstatFrom [] (.dir fs.entries) [] = .ok .symlink := hsymlink
    rw [SandboxTree.lstatFrom] at hroot
    split at hroot
    · cases hroot
    · cases hroot
  · refine hlink a' ha (List.prefix_append a' b') (fun heq => hb' ?_) hsymlink
    exact List.append_cancel_left (by rw [List.append_nil]; exact heq.symm)

theorem not_absent_of_at (h : Node.At (.dir fs.entries) names node) : fs.lstat names ≠ .error .absent := by
  unfold SandboxTree.lstat
  rcases lstatFrom_of_at fs fs.rootNamed h [] with hok | ⟨e, he⟩
  · rw [hok]
    exact nofun
  · rw [he]
    exact nofun

theorem lstat_of_at {node' : Node} (h : Node.At (.dir fs.entries) names node)
    (hfound : fs.lstat names = .ok node') : node' = node := by
  unfold SandboxTree.lstat at hfound
  rcases lstatFrom_of_at fs fs.rootNamed h [] with hok | ⟨e, he⟩
  · exact Except.ok.inj (hfound.symm.trans hok)
  · rw [he] at hfound
    cases hfound

theorem literalPrefix_cases (hparse : parse text = .ok pattern) :
    (literalNames pattern.segments = [] ∧ pattern.literalPrefix = "") ∨ (literalNames pattern.segments ≠ [] ∧
      pattern.literalPrefix ≠ "" ∧ segments pattern.literalPrefix = literalNames pattern.segments) := by
  have hplain := literalNames_plain hparse
  by_cases hnil : literalNames pattern.segments = []
  · left
    rw [literalPrefix, hnil]
    exact ⟨rfl, rfl⟩
  · exact .inr ⟨hnil, join_ne_empty hnil fun name hname => (hplain name hname).1,
      segments_join hnil fun name hname => (hplain name hname).2⟩

theorem traversesLink_iff (hparse : parse text = .ok pattern) :
    traversesLink fs pattern = true ↔ ∃ a, a ≠ [] ∧ a <+: literalNames pattern.segments ∧
      a ≠ literalNames pattern.segments ∧ fs.lstat (a.map .utf8) = .ok .symlink := by
  rcases literalPrefix_cases hparse with ⟨hnil, hempty⟩ | ⟨hnil, hne, hparts⟩
  · constructor
    · intro h
      unfold traversesLink at h
      rw [hempty] at h
      exact absurd h Bool.false_ne_true
    · rintro ⟨a, ha, hle, -⟩
      rw [hnil, List.prefix_nil] at hle
      exact absurd hle ha
  replace hparts : Text.split '/' pattern.literalPrefix = literalNames pattern.segments := hparts
  unfold traversesLink
  rw [hparts, decide_eq_true hne, Bool.true_and, List.any_eq_true]
  constructor
  · rintro ⟨a, ha, hlink⟩
    obtain ⟨hane, hle, hother⟩ := (Sandbox.mem_ancestors_dropLast hnil).mp ha
    refine ⟨a, hane, hle, hother, ?_⟩
    split at hlink
    · next hlstat => exact hlstat
    · exact absurd hlink Bool.false_ne_true
  · rintro ⟨a, hane, hle, hother, hlstat⟩
    refine ⟨a, (Sandbox.mem_ancestors_dropLast hnil).mpr ⟨hane, hle, hother⟩, ?_⟩
    rw [hlstat]

/-- What a pattern that meets no error adds. -/
structure Supplied (fs : SandboxTree) (pattern : OutputPattern) (d : Additions) : Prop where
  found : ∀ x, x ∈ d.found ↔ fs.Offers pattern x
  valid : ∀ x ∈ d.found, ValidPath x.1
  produced : pattern.isLiteral = true → d.notProduced = [] →
    ∃ node, Node.At (.dir fs.entries) ((segments pattern.literalPrefix).map .utf8) node

theorem Supplied.nothing {d : Additions} (hnone : ∀ x, ¬fs.Offers pattern x) (hfound : d.found = [])
    (hproduced : pattern.isLiteral = true → d.notProduced = [] →
      ∃ node, Node.At (.dir fs.entries) ((segments pattern.literalPrefix).map .utf8) node) : Supplied fs pattern d where
  found x := by
    rw [hfound]
    exact ⟨fun h => absurd h List.not_mem_nil, fun h => absurd h (hnone x)⟩
  valid x hx := by
    rw [hfound] at hx
    exact absurd hx List.not_mem_nil
  produced := hproduced

end

/-- Where the walk of a pattern starts. -/
theorem start_spec (hparse : parse text = .ok pattern) :
    (if pattern.literalPrefix = "" then .ok [] else sandboxPath pattern.literalPrefix) =
        (.ok ((literalNames pattern.segments).map .utf8) : Except String (List OsName)) ∧
      (pattern.literalPrefix ≠ "" → ValidPath pattern.literalPrefix) ∨
    ∃ e, (if pattern.literalPrefix = "" then .ok [] else sandboxPath pattern.literalPrefix) =
      (.error e : Except String (List OsName)) := by
  rcases literalPrefix_cases hparse with ⟨hnil, hempty⟩ | ⟨-, hne, hparts⟩
  · rw [if_pos hempty, hnil]
    exact .inl ⟨rfl, fun h => absurd hempty h⟩
  replace hparts : Text.split '/' pattern.literalPrefix = literalNames pattern.segments := hparts
  rw [if_neg hne]
  unfold sandboxPath
  cases hvalid : validateBlobPath pattern.literalPrefix with
  | error e => exact .inr ⟨e, rfl⟩
  | ok u =>
    refine .inl ⟨?_, fun _ => (validateBlobPath_iff _).mp hvalid⟩
    rw [hparts]
    rfl

omit [Host] in
/-- The literal names are those of the prefix, where there is one. -/
theorem literal_at (hparse : parse text = .ok pattern) (hliteral : pattern.isLiteral = true)
    (hat : Node.At (.dir fs.entries) ((literalNames pattern.segments).map .utf8) node) :
    ∃ node, Node.At (.dir fs.entries) ((segments pattern.literalPrefix).map .utf8) node := by
  have hsegments : segments pattern.literalPrefix = literalNames pattern.segments :=
    segments_join (literalNames_ne_nil hparse hliteral) fun name hname => (literalNames_plain hparse name hname).2
  rw [hsegments]
  exact ⟨node, hat⟩

omit [Host] in
theorem not_offers_of_leaf (hat : Node.At (.dir fs.entries) ((literalNames pattern.segments).map .utf8) node)
    (hfile : ∀ f, node ≠ .file f) (hdir : node.isDir = false) (x : String × Found) : ¬fs.Offers pattern x := by
  intro hoffers
  obtain ⟨rest, f, mid, -, hmid, hrest, -⟩ := offers_below hoffers
  obtain rfl := at_unique fs.rootNamed hmid hat
  cases rest with
  | nil =>
    cases hrest
    exact hfile f rfl
  | cons name rest =>
    cases hrest
    cases hdir

/-- What a pattern adds where no link is on the way to the literal names. -/
theorem collectStart_framed (hparse : parse text = .ok pattern) (hlink : ¬traversesLink fs pattern = true)
    (hvalid : pattern.literalPrefix ≠ "" → ValidPath pattern.literalPrefix) :
    ∃ fine d, Framed (collectStart fs pattern ((literalNames pattern.segments).map .utf8)) id fine d ∧
      (fine → Supplied fs pattern d) := by
  have hat : ∀ {node : Node}, fs.lstat ((literalNames pattern.segments).map .utf8) = .ok node →
      Node.At (.dir fs.entries) ((literalNames pattern.segments).map .utf8) node :=
    fun hfound => at_of_lstat (fun a ha hle hother hsymlink =>
      hlink ((traversesLink_iff hparse).mpr ⟨a, ha, hle, hother, hsymlink⟩)) hfound
  -- the source treats links and special files alike
  have hleaf : ∀ node : Node, fs.lstat ((literalNames pattern.segments).map .utf8) = .ok node →
      (∀ f, node ≠ .file f) → node.isDir = false → ∃ fine d,
        Framed (fun g => if pattern.isLiteral then .error ("output '" ++ pattern.text ++
          "' is not a regular file or directory (symbolic links are never returned)") else .ok g) id fine d ∧
        (fine → Supplied fs pattern d) := by
    intro node hfound hfile hdir
    by_cases hliteral : pattern.isLiteral = true
    · simp only [if_pos hliteral]
      exact ⟨False, .none, Framed.fail _ id .none, False.elim⟩
    · simp only [if_neg hliteral]
      exact ⟨True, .none, Framed.pure id, fun _ =>
        .nothing (not_offers_of_leaf (hat hfound) hfile hdir) rfl fun h => absurd h hliteral⟩
  unfold collectStart
  cases hfound : fs.lstat ((literalNames pattern.segments).map .utf8) with
  | error e =>
    cases e with
    | other e => exact ⟨False, .none, Framed.fail _ id .none, False.elim⟩
    | absent =>
      have hnone : ∀ x, ¬fs.Offers pattern x := by
        intro x hoffers
        obtain ⟨rest, f, mid, -, hmid, -⟩ := offers_below hoffers
        exact not_absent_of_at hmid hfound
      by_cases hliteral : pattern.isLiteral = true
      · simp only [if_pos hliteral]
        exact ⟨True, ⟨[], [pattern.text], 0⟩, .ok (fun _ => rfl) rfl, fun _ =>
          .nothing hnone rfl fun _ h => absurd h (List.cons_ne_nil _ _)⟩
      · simp only [if_neg hliteral]
        exact ⟨True, .none, Framed.pure id, fun _ => .nothing hnone rfl fun h => absurd h hliteral⟩
  | ok node =>
    cases node with
    | symlink => exact hleaf .symlink hfound (fun _ => nofun) rfl
    | special => exact hleaf .special hfound (fun _ => nofun) rfl
    | file f =>
      have hne : pattern.literalPrefix ≠ "" := (literalPrefix_cases hparse).elim
        (fun h => absurd h.1 (names_ne_nil (hat hfound))) fun h => h.2.1
      have hoffers : ∀ x, fs.Offers pattern x ↔
          x = (pattern.literalPrefix, ⟨(literalNames pattern.segments).map .utf8, f.content.length⟩) ∧
            pattern.selects pattern.literalPrefix = true := by
        intro x
        constructor
        · intro hx
          obtain ⟨rest, f', mid, hx, hmid, hrest, hselects⟩ := offers_below hx
          obtain rfl := at_unique fs.rootNamed hmid (hat hfound)
          cases rest with
          | nil =>
            cases hrest
            rw [List.append_nil] at hx hselects
            exact ⟨hx, hselects⟩
          | cons name rest => cases hrest
        · rintro ⟨hx, hselects⟩
          exact ⟨_, f, hat hfound, hx, hselects⟩
      refine ⟨True, _, Framed.orInsert _ _ _, fun _ => ⟨fun x => ?_, fun x hx => ?_, fun hliteral _ =>
        literal_at hparse hliteral (hat hfound)⟩⟩
      · rw [hoffers]
        split
        · next hselects => rw [List.mem_singleton, and_iff_left hselects]
        · next hselects => exact ⟨fun h => absurd h List.not_mem_nil, fun h => absurd h.2 hselects⟩
      split at hx
      · rw [List.mem_singleton.mp hx]
        exact hvalid hne
      · exact absurd hx List.not_mem_nil
    | dir entries =>
      dsimp only
      have hrounds : openRounds [⟨(literalNames pattern.segments).map .utf8, pattern.literalPrefix, true, entries⟩] ≤
          entries.dirs + 1 := Nat.le_refl _
      obtain ⟨fine, d, hwalk, -, hmem, hsound⟩ := walkLoop_framed fs pattern (entries.dirs + 1) _ hrounds
      refine ⟨fine, d, hwalk, fun hfine => ⟨fun x => ?_, fun x hx => ?_, fun hliteral _ =>
        literal_at hparse hliteral (hat hfound)⟩⟩
      · rw [hmem, List.exists_mem_cons_iff,
          yields_iff_offers (hat hfound) (hsound hfine _ (List.mem_singleton_self _))]
        exact or_iff_left fun ⟨q, hq, _⟩ => absurd hq List.not_mem_nil
      · obtain ⟨q, hq, names, f, hcovers, rfl, hselects⟩ := (hmem x).mp hx
        exact (hsound hfine q hq names f hcovers hselects).2.2

variable (fs) in
/-- **A pattern adds the files it selects.** -/
theorem collectPattern_framed (hparse : parse text = .ok pattern) :
    ∃ fine d, Framed (collectPattern fs pattern) id fine d ∧ (fine → Supplied fs pattern d) := by
  unfold collectPattern
  rcases start_spec hparse with ⟨hstart, hvalid⟩ | ⟨e, hstart⟩
  · simp only [hstart]
    by_cases hlink : traversesLink fs pattern = true
    · simp only [if_pos hlink]
      by_cases hliteral : pattern.isLiteral = true
      · simp only [if_pos hliteral]
        exact ⟨False, .none, Framed.fail _ id .none, False.elim⟩
      simp only [if_neg hliteral]
      refine ⟨True, .none, Framed.pure id, fun _ => .nothing ?_ rfl fun h => absurd h hliteral⟩
      -- what lies behind a link is not offered
      intro x hoffers
      obtain ⟨rest, f, mid, -, hmid, -⟩ := offers_below hoffers
      obtain ⟨a, -, ⟨b, hab⟩, hother, hsymlink⟩ := (traversesLink_iff hparse).mp hlink
      rw [← hab, List.map_append] at hmid
      obtain ⟨there, hthere, hbelow⟩ := at_append.mp hmid
      obtain rfl := lstat_of_at hthere hsymlink
      cases b with
      | nil => exact hother (by rw [← hab, List.append_nil])
      | cons name b => cases hbelow
    · simp only [if_neg hlink]
      exact collectStart_framed hparse hlink hvalid
  · simp only [hstart]
    exact ⟨False, .none, Framed.fail _ id .none, False.elim⟩

end Pattern

end OxideSwarm
