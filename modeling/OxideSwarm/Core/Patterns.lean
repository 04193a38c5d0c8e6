import OxideSwarm.Core.Paths
import OxideSwarm.Lib.Cut

/-!
# What an output pattern selects (`core/src/blob.rs`)

`wildcard_match` reads a name against a segment with one backtracking point, and `match_segments` a path against the
segments of a pattern.  Both are the question whether a list can be cut into pieces, one for each item
(`Pieces.Cut`): the characters of a name for those of a wildcard (`Reads`), the names of a path for the segments of a
pattern's text (`Names`).

`wildcard_match` compares characters before it looks for a `*`, so a `*` in the name is taken for the `*` of the
pattern and that one no longer stands for a run (`wildcardMatch_star_in_name`).
-/

namespace OxideSwarm

open Fallible

open Pieces

/-! ## One name -/

/-- The loop of `wildcard_match`: `p` and `n` are positions in the pattern and the name, `star` those of the last `*`
and of the first character it does not stand for. -/
def wildcardLoop (pattern name : List Char) : Nat → Nat → Nat → Option (Nat × Nat) → Bool
  | 0, _, _, _ => false
  | fuel + 1, p, n, star =>
    match name[n]? with
    | none => (pattern.drop p).all fun c => c = '*'
    | some c =>
      if pattern[p]?.any fun t => t = '?' ∨ t = c then wildcardLoop pattern name fuel (p + 1) (n + 1) star
      else if pattern[p]? = some '*' then wildcardLoop pattern name fuel (p + 1) n (some (p, n))
      else star.elim false fun s => wildcardLoop pattern name fuel (s.1 + 1) (s.2 + 1) (some (s.1, s.2 + 1))

def wildcardMatch (pattern name : String) : Bool :=
  wildcardLoop pattern.toList name.toList (name.toList.length * (pattern.toList.length + 1) + pattern.toList.length + 1)
    0 0 none

def isStar (t : Char) : Bool := t = '*'

def fitsChar (t c : Char) : Bool := t = '?' ∨ t = c

/-- The loop is the scan, with positions for what is left. -/
theorem wildcardLoop_eq_scan (pattern name : List Char) : ∀ (fuel p n : Nat) (star : Option (Nat × Nat)),
    wildcardLoop pattern name fuel p n star = scan isStar fitsChar fuel (pattern.drop p) (name.drop n)
        (star.map fun s => (pattern.drop (s.1 + 1), name.drop s.2)) := by
  intro fuel
  induction fuel with
  | zero => exact fun _ _ _ => rfl
  | succ fuel ih =>
    intro p n star
    rw [wildcardLoop]
    cases hn : name[n]? with
    | none =>
      rw [List.drop_eq_nil_of_le (List.getElem?_eq_none_iff.mp hn)]
      rfl
    | some c =>
      obtain ⟨hlt, hget⟩ := List.getElem?_eq_some_iff.mp hn
      have hdrop : name.drop n = c :: name.drop (n + 1) := by rw [← hget, List.cons_getElem_drop_succ]
      have hstar : (pattern[p]?.any isStar = true) ↔ pattern[p]? = some '*' := by
        rw [Option.any_eq_true_iff_get]
        simp [isStar, Option.eq_some_iff_get_eq]
      rw [hdrop, scan_cons, List.head?_drop, List.tail_drop, ← hdrop, ih, ih]
      simp only [hstar]
      refine if_congr Iff.rfl rfl (if_congr Iff.rfl rfl ?_)
      cases star with
      | none => rfl
      | some s => simp only [Option.elim_some, Option.map_some, List.tail_drop, ih]

/-- What a character of a pattern stands for. -/
def Reads (t : Char) (u : List Char) : Prop :=
  if t = '*' then True else if t = '?' then ∃ c, u = [c] else u = [t]

theorem stands_iff_reads (t : Char) (u : List Char) : Stands isStar fitsChar t u ↔ Reads t u := by
  unfold Stands Reads isStar fitsChar
  by_cases hstar : t = '*'
  · simp [hstar]
  by_cases hany : t = '?'
  · simp [hany]
  simp only [hstar, hany, decide_false, decide_eq_true_eq, if_false, false_or, Bool.false_eq_true]
  constructor
  · rintro ⟨c, hu, rfl⟩
    exact hu
  · exact fun h => ⟨t, h, rfl⟩

/-- The fuel of `wildcard_match` is enough: more makes no difference. -/
theorem wildcardLoop_fuel (pattern name : String) (more : Nat) : wildcardLoop pattern.toList name.toList
      (name.toList.length * (pattern.toList.length + 1) + pattern.toList.length + 1 + more) 0 0 none =
    wildcardMatch pattern name := by
  induction more with
  | zero => rfl
  | succ more ih =>
    rw [← ih, wildcardLoop_eq_scan, wildcardLoop_eq_scan]
    refine scan_succ _ none _ _ (Nat.le_refl _) (Nat.le_refl _) ?_
    exact Nat.lt_of_lt_of_le (Nat.lt_succ_self _) (Nat.le_add_right _ more)

def matchSegment (segment : PatternSegment) (name : String) : Bool :=
  match segment with
  | .literal literal => literal = name
  | .wildcard wildcard => wildcardMatch wildcard name
  | .anyDepth => true

def matchSegments : List PatternSegment → List String → Bool
  | [], path => path.isEmpty
  | .anyDepth :: rest, path => (List.range (path.length + 1)).any fun skip => matchSegments rest (path.drop skip)
  | segment :: rest, path =>
    match path with
    | name :: tail => matchSegment segment name && matchSegments rest tail
    | [] => false

namespace OutputPattern

def isLiteral (pattern : OutputPattern) : Bool :=
  pattern.segments.all fun s => match s with
    | .literal _ => true
    | _ => false

/-- The names of `OutputPattern::literal_prefix`. -/
def literalNames : List PatternSegment → List String
  | .literal name :: rest => name :: literalNames rest
  | _ => []

def literalPrefix (pattern : OutputPattern) : String := Text.join "/" (literalNames pattern.segments)

def selects (pattern : OutputPattern) (path : String) : Bool :=
  let parts := Text.split '/' path
  (List.range parts.length).any fun len => matchSegments pattern.segments (parts.take (len + 1))

end OutputPattern

/-- What a parsed segment stands for. -/
def PatternSegment.Stands (segment : PatternSegment) (run : List String) : Prop :=
  match segment with
  | .anyDepth => True
  | _ => ∃ name, run = [name] ∧ matchSegment segment name = true

theorem stands_single {segment : PatternSegment} (h : segment ≠ .anyDepth) (run : List String) :
    segment.Stands run ↔ ∃ name, run = [name] ∧ matchSegment segment name = true := by
  cases segment with
  | literal | wildcard => exact Iff.rfl
  | anyDepth => exact absurd rfl h

theorem matchSegments_single_nil {segment : PatternSegment} (h : segment ≠ .anyDepth) (rest : List PatternSegment) :
    matchSegments (segment :: rest) [] = false := by
  cases segment with
  | literal | wildcard => rfl
  | anyDepth => exact absurd rfl h

theorem matchSegments_single_cons {segment : PatternSegment} (h : segment ≠ .anyDepth) (rest : List PatternSegment)
    (name : String) (tail : List String) :
    matchSegments (segment :: rest) (name :: tail) = (matchSegment segment name && matchSegments rest tail) := by
  cases segment with
  | literal | wildcard => rfl
  | anyDepth => exact absurd rfl h

/-- `match_segments` decides whether the path can be cut into one run of names for each segment. -/
theorem matchSegments_iff (segments : List PatternSegment) (path : List String) :
    matchSegments segments path = true ↔ Cut PatternSegment.Stands segments path := by
  induction segments generalizing path with
  | nil => rw [matchSegments, cut_nil, List.isEmpty_iff]
  | cons segment rest ih =>
    rw [cut_cons]
    by_cases hsegment : segment = .anyDepth
    · subst hsegment
      rw [matchSegments, List.any_eq_true]
      constructor
      · rintro ⟨skip, -, h⟩
        exact ⟨path.take skip, path.drop skip, (List.take_append_drop skip path).symm, trivial, (ih _).mp h⟩
      rintro ⟨u, v, rfl, -, h⟩
      refine ⟨u.length, List.mem_range.mpr ?_, ?_⟩
      · rw [List.length_append]
        omega
      · rw [List.drop_left]
        exact (ih v).mpr h
    simp only [stands_single hsegment]
    cases path with
    | nil =>
      rw [matchSegments_single_nil hsegment]
      constructor
      · exact fun h => absurd h Bool.false_ne_true
      · rintro ⟨_, v, huv, ⟨name, rfl, -⟩, -⟩
        exact absurd huv (List.cons_ne_nil name v).symm
    | cons name tail =>
      rw [matchSegments_single_cons hsegment, Bool.and_eq_true, ih]
      constructor
      · exact fun h => ⟨[name], tail, rfl, ⟨name, rfl, h.1⟩, h.2⟩
      · rintro ⟨_, v, huv, ⟨other, rfl, hother⟩, hv⟩
        obtain ⟨rfl, rfl⟩ := List.cons.inj huv
        exact ⟨hother, hv⟩

/-! ## The text of a pattern -/

/-- A segment that names something. -/
def isNamed (segment : String) : Bool := ¬(segment = "" ∨ segment = ".")

/-- The segments of a pattern's text; what a `\` separates is separated by a `/` for it. -/
def textSegments (text : String) : List String :=
  (Text.split '/' (Text.replace '\\' '/' (Text.trim text))).filter isNamed

/-- What a segment of the text stands for: `**` for any run of names, another for one name. -/
def Names (segment : String) (run : List String) : Prop :=
  if segment = "**" then True
  else if Text.containsChar '*' segment ∨ Text.containsChar '?' segment then
    ∃ name, run = [name] ∧ wildcardMatch segment name = true
  else run = [segment]

/-- A second `**` adds nothing to a first. -/
theorem cut_anyDepth_run {segments : List PatternSegment} (h : segments.getLast? = some .anyDepth)
    {u : List String} (run : List String) (hu : Cut PatternSegment.Stands segments u) :
    Cut PatternSegment.Stands segments (u ++ run) := by
  obtain ⟨front, rfl⟩ := List.getLast?_eq_some_iff.mp h
  obtain ⟨x, y, rfl, hx, -⟩ := cut_append.mp hu
  exact cut_append.mpr ⟨x, y ++ run, List.append_assoc x y run, hx, cut_singleton.mpr trivial⟩

/-- The segments read so far and those left of the text cut the paths that the parsed pattern cuts. -/
theorem patternSegments_cut {text : String} {raws : List String} :
    ∀ {read segments : List PatternSegment}, patternSegments text read raws = .ok segments → ∀ path,
      Cut PatternSegment.Stands segments path ↔ ∃ u v, path = u ++ v ∧ Cut PatternSegment.Stands read u ∧
          Cut Names (raws.filter isNamed) v := by
  induction raws with
  | nil =>
    intro read segments h path
    cases h
    constructor
    · exact fun hcut => ⟨path, [], (List.append_nil path).symm, hcut, .nil⟩
    rintro ⟨u, v, rfl, hu, hv⟩
    rw [List.filter_nil, cut_nil] at hv
    subst hv
    rwa [List.append_nil]
  | cons raw raws ih =>
    intro read segments h path
    have hkeep : ¬(raw = "" ∨ raw = ".") → (raw :: raws).filter isNamed = raw :: raws.filter isNamed :=
      fun hkept => List.filter_cons_of_pos (by rw [isNamed, decide_eq_true_eq]; exact hkept)
    -- a segment that is kept moves from the text to what is read
    have hpush : ∀ segment : PatternSegment, ¬(raw = "" ∨ raw = ".") → (∀ run, segment.Stands run ↔ Names raw run) →
        patternSegments text (read ++ [segment]) raws = .ok segments →
        (Cut PatternSegment.Stands segments path ↔ ∃ u v, path = u ++ v ∧ Cut PatternSegment.Stands read u ∧
          Cut Names ((raw :: raws).filter isNamed) v) := by
      intro segment hkept hsame hrest
      rw [ih hrest path, hkeep hkept]
      constructor
      · rintro ⟨u, v, rfl, hu, hv⟩
        obtain ⟨x, y, rfl, hx, hy⟩ := cut_append.mp hu
        exact ⟨x, y ++ v, List.append_assoc x y v, hx, .cons ((hsame y).mp (cut_singleton.mp hy)) hv⟩
      rintro ⟨x, w, rfl, hx, hw⟩
      obtain ⟨y, v, rfl, hy, hv⟩ := cut_cons.mp hw
      refine ⟨x ++ y, v, (List.append_assoc x y v).symm, ?_, hv⟩
      exact cut_append.mpr ⟨x, y, rfl, hx, cut_singleton.mpr ((hsame y).mpr hy)⟩
    rw [patternSegments] at h
    split at h
    · next hskip =>
      rw [ih h path, List.filter_cons_of_neg (by rw [isNamed, decide_eq_true_eq]; exact fun h => h hskip)]
    next hkept =>
    split at h
    · cases h
    split at h
    · next hdeep =>
      have hany : ∀ run, Names raw run := fun run => by rw [Names, if_pos hdeep]; trivial
      split at h
      · next hlast =>
        rw [ih h path, hkeep hkept]
        constructor
        · rintro ⟨u, v, rfl, hu, hv⟩
          exact ⟨u, v, rfl, hu, .cons (u := []) (hany []) hv⟩
        · rintro ⟨u, w, rfl, hu, hw⟩
          obtain ⟨run, v, rfl, -, hv⟩ := cut_cons.mp hw
          exact ⟨u ++ run, v, (List.append_assoc u run v).symm, cut_anyDepth_run hlast run hu, hv⟩
      · exact hpush .anyDepth hkept (fun run => iff_of_true trivial (hany run)) h
    next hdeep =>
    split at h
    · next hwild =>
      refine hpush (.wildcard raw) hkept (fun run => ?_) h
      rw [Names, if_neg hdeep, if_pos hwild]
      rfl
    next hplain =>
    refine hpush (.literal raw) hkept (fun run => ?_) h
    rw [Names, if_neg hdeep, if_neg hplain]
    constructor
    · rintro ⟨name, rfl, hname⟩
      rw [of_decide_eq_true hname]
    · exact fun hrun => ⟨raw, hrun, decide_eq_true rfl⟩

theorem patternSegments_literal {text name : String} {raws : List String} :
    ∀ {read segments : List PatternSegment}, patternSegments text read raws = .ok segments →
      .literal name ∈ segments → .literal name ∈ read ∨ name ∈ raws ∧ name ≠ "" := by
  induction raws with
  | nil =>
    intro read segments h hmem
    cases h
    exact .inl hmem
  | cons raw raws ih =>
    intro read segments h hmem
    have hother : ∀ segment : PatternSegment, segment ≠ .literal name →
        patternSegments text (read ++ [segment]) raws = .ok segments →
        .literal name ∈ read ∨ name ∈ raw :: raws ∧ name ≠ "" := by
      intro segment hne hrest
      rcases ih hrest hmem with hread | ⟨hraws, hname⟩
      · rcases List.mem_append.mp hread with hread | hlast
        · exact .inl hread
        · exact absurd (List.mem_singleton.mp hlast).symm hne
      · exact .inr ⟨List.mem_cons_of_mem raw hraws, hname⟩
    have hskip : patternSegments text read raws = .ok segments →
        .literal name ∈ read ∨ name ∈ raw :: raws ∧ name ≠ "" := fun hrest =>
      (ih hrest hmem).imp_right fun h => ⟨List.mem_cons_of_mem raw h.1, h.2⟩
    rw [patternSegments] at h
    split at h
    · exact hskip h
    next hkept =>
    split at h
    · cases h
    split at h
    · split at h
      · exact hskip h
      · exact hother .anyDepth PatternSegment.noConfusion h
    split at h
    · exact hother (.wildcard raw) PatternSegment.noConfusion h
    by_cases hraw : raw = name
    · subst hraw
      exact .inr ⟨List.mem_cons_self .., fun hempty => hkept (.inl hempty)⟩
    · exact hother (.literal raw) (fun heq => hraw (PatternSegment.literal.inj heq)) h

namespace OutputPattern

theorem parse_segments {text : String} {pattern : OutputPattern} (h : parse text = .ok pattern) :
    pattern.segments ≠ [] ∧ ∃ shown, patternSegments shown [] (Text.split '/' (Text.replace '\\' '/' (Text.trim text))) =
      .ok pattern.segments := by
  unfold parse at h
  have hlong := (guard_ok.mp h).2
  have hnul := (guard_ok.mp hlong).2
  have habsolute := (guard_ok.mp hnul).2
  have hcolon := (guard_ok.mp habsolute).2
  have hparts := (guard_ok.mp hcolon).2
  obtain ⟨segments, hsegments, hnonempty⟩ := bind_ok.mp hparts
  obtain ⟨hnil, hpattern⟩ := guard_ok.mp hnonempty
  obtain rfl := Except.ok.inj hpattern
  exact ⟨hnil, _, hsegments⟩

theorem parse_cut {text : String} {pattern : OutputPattern} (h : parse text = .ok pattern) (path : List String) :
    Cut PatternSegment.Stands pattern.segments path ↔ Cut Names (textSegments text) path := by
  obtain ⟨-, shown, hsegments⟩ := parse_segments h
  rw [patternSegments_cut hsegments path]
  constructor
  · rintro ⟨u, v, rfl, hu, hv⟩
    rw [cut_nil] at hu
    subst hu
    exact hv
  · exact fun hcut => ⟨[], path, rfl, .nil, hcut⟩

theorem selects_iff (pattern : OutputPattern) (path : String) :
    pattern.selects path = true ↔ ∃ l, 1 ≤ l ∧ l ≤ (OxideSwarm.segments path).length ∧
      Cut PatternSegment.Stands pattern.segments ((OxideSwarm.segments path).take l) := by
  unfold selects
  simp only [List.any_eq_true, List.mem_range, matchSegments_iff]
  constructor
  · rintro ⟨len, hlen, hcut⟩
    exact ⟨len + 1, Nat.le_add_left 1 len, hlen, hcut⟩
  · rintro ⟨l, hpos, hlen, hcut⟩
    obtain ⟨len, rfl⟩ := Nat.exists_eq_add_of_le' hpos
    exact ⟨len, hlen, hcut⟩

/-- **What lies below a selected path is selected.** -/
theorem selects_below {pattern : OutputPattern} {path : String} (h : pattern.selects path = true) (below : String) :
    pattern.selects (path ++ "/" ++ below) = true := by
  obtain ⟨l, hpos, hlen, hcut⟩ := (selects_iff pattern path).mp h
  refine (selects_iff pattern _).mpr ⟨l, hpos, ?_, ?_⟩
  · rw [split_append, List.length_append]
    omega
  · rwa [split_append, List.take_append_of_le_length hlen]

/-- The literal names of a pattern are the first names of what it matches. -/
theorem literalNames_of_cut {segments : List PatternSegment} {path : List String}
    (h : Cut PatternSegment.Stands segments path) : ∃ rest, path = literalNames segments ++ rest := by
  induction h with
  | nil => exact ⟨[], rfl⟩
  | @cons segment segments u v piece _ ih =>
    cases segment with
    | literal name =>
      obtain ⟨other, rfl, hother⟩ := piece
      obtain ⟨rest, rfl⟩ := ih
      exact ⟨rest, by rw [of_decide_eq_true hother]; rfl⟩
    | wildcard | anyDepth => exact ⟨u ++ v, rfl⟩

theorem literal_of_mem_literalNames {segments : List PatternSegment} {name : String}
    (h : name ∈ literalNames segments) : .literal name ∈ segments := by
  induction segments with
  | nil => exact absurd h List.not_mem_nil
  | cons segment segments ih =>
    cases segment with
    | literal other =>
      rcases List.mem_cons.mp h with rfl | h
      · exact List.mem_cons_self ..
      · exact List.mem_cons_of_mem _ (ih h)
    | wildcard | anyDepth => exact absurd h List.not_mem_nil

theorem literalNames_plain {text : String} {pattern : OutputPattern} (h : parse text = .ok pattern) :
    ∀ name ∈ literalNames pattern.segments, name ≠ "" ∧ '/' ∉ name.toList := by
  intro name hname
  obtain ⟨-, shown, hsegments⟩ := parse_segments h
  rcases patternSegments_literal hsegments (literal_of_mem_literalNames hname) with hread | ⟨hraws, hne⟩
  · exact absurd hread List.not_mem_nil
  · exact ⟨hne, Text.not_mem_of_mem_split hraws⟩

theorem literalNames_ne_nil {text : String} {pattern : OutputPattern} (h : parse text = .ok pattern)
    (hliteral : pattern.isLiteral = true) : literalNames pattern.segments ≠ [] := by
  obtain ⟨hne, -⟩ := parse_segments h
  unfold isLiteral at hliteral
  cases hsegments : pattern.segments with
  | nil => exact absurd hsegments hne
  | cons segment rest =>
    rw [hsegments, List.all_cons] at hliteral
    cases segment with
    | literal name => exact List.cons_ne_nil _ _
    | wildcard | anyDepth => exact absurd hliteral (by simp)

theorem literalNames_of_selects {pattern : OutputPattern} {path : String} (h : pattern.selects path = true) :
    ∃ rest, OxideSwarm.segments path = literalNames pattern.segments ++ rest := by
  obtain ⟨l, -, -, hcut⟩ := (selects_iff pattern path).mp h
  obtain ⟨rest, hrest⟩ := literalNames_of_cut hcut
  exact ⟨rest ++ (OxideSwarm.segments path).drop l, by rw [← List.append_assoc, ← hrest, List.take_append_drop]⟩

/-- **A selected path is the literal prefix or lies below it**, where there is one. -/
theorem selects_literalPrefix {pattern : OutputPattern} {path : String} (h : pattern.selects path = true)
    (hsome : literalNames pattern.segments ≠ []) :
    path = pattern.literalPrefix ∨ ∃ below, path = pattern.literalPrefix ++ "/" ++ below := by
  obtain ⟨rest, hnames⟩ := literalNames_of_selects h
  have hpath := join_segments path
  rw [hnames] at hpath
  by_cases hend : rest = []
  · left
    rw [hend, List.append_nil] at hpath
    exact hpath.symm
  · right
    rw [Text.join_append "/" hsome hend] at hpath
    exact ⟨_, hpath.symm⟩

end OutputPattern

/-- **An output pattern selects what its text describes**, with everything below it and nothing outside its literal
prefix. -/
theorem output_pattern_selects {text : String} {pattern : OutputPattern} (h : OutputPattern.parse text = .ok pattern) :
    (∀ path, pattern.selects path = true ↔
      ∃ l, 1 ≤ l ∧ l ≤ (segments path).length ∧ Cut Names (textSegments text) ((segments path).take l)) ∧
    (∀ path below, pattern.selects path = true → pattern.selects (path ++ "/" ++ below) = true) ∧
    ∀ path, pattern.selects path = true → pattern.literalPrefix ≠ "" →
      path = pattern.literalPrefix ∨ ∃ below, path = pattern.literalPrefix ++ "/" ++ below := by
  refine ⟨fun path => ?_, fun path below hpath => OutputPattern.selects_below hpath below, fun path hpath hne => ?_⟩
  · rw [OutputPattern.selects_iff]
    simp only [OutputPattern.parse_cut h]
  · refine OutputPattern.selects_literalPrefix hpath fun hnil => hne ?_
    rw [OutputPattern.literalPrefix, hnil]
    rfl

theorem output_pattern_selects_logs :
    ∃ pattern, OutputPattern.parse "logs/**/**/*.txt" = .ok pattern ∧ pattern.selects "logs/a/b.txt" = true ∧
      ∃ l, 1 ≤ l ∧ l ≤ (segments "logs/a/b.txt").length ∧
        Cut Names (textSegments "logs/**/**/*.txt") ((segments "logs/a/b.txt").take l) := by
  have hparse : OutputPattern.parse "logs/**/**/*.txt" =
      .ok ⟨"logs/**/**/*.txt", [.literal "logs", .anyDepth, .wildcard "*.txt"]⟩ := by decide +kernel
  have hselects : OutputPattern.selects ⟨"logs/**/**/*.txt", [.literal "logs", .anyDepth, .wildcard "*.txt"]⟩
      "logs/a/b.txt" = true := by decide +kernel
  exact ⟨_, hparse, hselects, ((output_pattern_selects hparse).1 "logs/a/b.txt").mp hselects⟩

end OxideSwarm
