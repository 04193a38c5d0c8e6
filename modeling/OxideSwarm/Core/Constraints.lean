import OxideSwarm.Core.Placement

/-!
# Placement constraints as task tags (`core/src/placement.rs`)

A task's tags are read one after the other.  What they demand together (`Demands`) does not depend on their order, and
`from_task_tags` is the sorted form of it.
-/

namespace OxideSwarm.Placement

def toTaskTags (p : Placement) : List String :=
  (p.os.map (requirePrefix ++ "os=" ++ ·)).toList ++ (p.arch.map (requirePrefix ++ "arch=" ++ ·)).toList ++
    (p.worker.map (requirePrefix ++ "worker=" ++ ·)).toList ++ p.tags.map (requirePrefix ++ "tag=" ++ ·)

/-! ## Demands -/

/-- What one constraint demands. -/
inductive Demand where
  | os (value : String)
  | arch (value : String)
  | worker (value : String)
  | tag (value : String)

/-- The demand that `key=value` stands for. -/
def Demand.read (key value : String) : Option Demand :=
  if value = "" then none
  else if key = "os" then some (.os (normalizeOs value))
  else if key = "arch" then some (.arch (normalizeArch value))
  else if key = "worker" then some (.worker value)
  else if key = "tag" ∧ (validateUserTag value).isOk then some (.tag value)
  else none

/-- What the constraints of a task demand. -/
structure Demands where
  os : Option String
  arch : Option String
  worker : Option String
  tags : Multiset String

def demands (p : Placement) : Demands := ⟨p.os, p.arch, p.worker, p.tags⟩

namespace Demands

/-- One more demand; there is at most one of each kind, tags apart. -/
def add (d : Demands) : Demand → Option Demands
  | .os v => if d.os.isSome then none else some { d with os := some v }
  | .arch v => if d.arch.isSome then none else some { d with arch := some v }
  | .worker v => if d.worker.isSome then none else some { d with worker := some v }
  | .tag v => some { d with tags := v ::ₘ d.tags }

/-- The demands after one more task tag. -/
def note (d : Option Demands) (tag : String) : Option Demands :=
  match Text.stripPrefix requirePrefix tag with
  | none => d
  | some constraint => d.bind fun d => (Text.splitOnce '=' constraint).bind fun r => (Demand.read r.1 r.2).bind d.add

theorem add_comm (d : Demands) (a b : Demand) : (d.add a).bind (·.add b) = (d.add b).bind (·.add a) := by
  cases a <;> cases b <;> simp only [add] <;> (try split_ifs) <;> simp_all [Multiset.cons_swap]

theorem note_comm (d : Option Demands) (s t : String) : note (note d s) t = note (note d t) s := by
  unfold note
  cases Text.stripPrefix requirePrefix s with
  | none => rfl
  | some a =>
    cases Text.stripPrefix requirePrefix t with
    | none => rfl
    | some b =>
      cases ha : (Text.splitOnce '=' a).bind fun r => Demand.read r.1 r.2 <;>
        cases hb : (Text.splitOnce '=' b).bind fun r => Demand.read r.1 r.2 <;> cases d <;>
          simp [← Option.bind_assoc, ha, hb, add_comm]

theorem foldl_note_none (ts : List String) : ts.foldl note none = none := by
  induction ts with
  | nil => rfl
  | cons t ts ih =>
    have hnote : note none t = none := by
      unfold note
      cases Text.stripPrefix requirePrefix t <;> rfl
    rw [List.foldl_cons, hnote, ih]

end Demands

open Demands

theorem addConstraint_demands (p : Placement) (t constraint : String) :
    (p.addConstraint t constraint).toOption.map demands =
      (Text.splitOnce '=' constraint).bind fun r => (Demand.read r.1 r.2).bind p.demands.add := by
  unfold addConstraint
  cases Text.splitOnce '=' constraint with
  | none => rfl
  | some r =>
    obtain ⟨key, value⟩ := r
    dsimp only [Option.bind_some, Demand.read]
    by_cases hempty : value = ""
    · simp [hempty, Except.toOption]
    by_cases hos : key = "os"
    · cases hp : p.os <;> simp [hempty, hos, hp, Except.toOption, add, demands]
    by_cases harch : key = "arch"
    · cases hp : p.arch <;> simp [hempty, harch, hp, Except.toOption, add, demands]
    by_cases hworker : key = "worker"
    · cases hp : p.worker <;> simp [hempty, hworker, hp, Except.toOption, add, demands]
    by_cases htag : key = "tag"
    · cases validateUserTag value <;> simp [hempty, htag, Except.toOption, Except.isOk, Except.toBool, add, demands]
    · simp [hempty, hos, harch, hworker, htag, Except.toOption]

theorem addTags_demands (p : Placement) (ts : List String) :
    (p.addTags ts).toOption.map demands = ts.foldl note (some p.demands) := by
  induction ts generalizing p with
  | nil => rfl
  | cons t ts ih =>
    unfold addTags
    rw [List.foldl_cons, note]
    cases Text.stripPrefix requirePrefix t with
    | none => exact ih p
    | some constraint =>
      have hone := addConstraint_demands p t constraint
      dsimp only [Option.bind_some]
      rw [← hone]
      cases p.addConstraint t constraint with
      | error e => exact (foldl_note_none ts).symm
      | ok q => exact ih q

/-! ## The sorted form -/

theorem mem_dedup {l : List String} {s : String} : s ∈ dedup l ↔ s ∈ l := by
  fun_induction dedup l with
  | case1 a rest ih => simp [ih]
  | case2 a b rest hne ih => simp [ih]
  | case3 l => rfl

theorem pairwise_dedup {l : List String} (h : l.Pairwise fun s t => s.toList ≤ t.toList) :
    (dedup l).Pairwise fun s t => s.toList < t.toList := by
  fun_induction dedup l with
  | case1 a rest ih => exact ih h.tail
  | case2 a b rest hne ih =>
    obtain ⟨ha, hrest⟩ := List.pairwise_cons.mp h
    refine List.pairwise_cons.mpr ⟨fun t ht => ?_, ih hrest⟩
    have hab : a.toList < b.toList := lt_of_le_of_ne (ha b (List.mem_cons_self ..)) fun heq => hne (String.toList_injective heq)
    rcases List.mem_cons.mp (mem_dedup.mp ht) with rfl | ht
    · exact hab
    · exact lt_of_lt_of_le hab ((List.pairwise_cons.mp hrest).1 t ht)
  | case3 l hshort =>
    rcases l with _ | ⟨a, _ | ⟨b, rest⟩⟩
    · exact .nil
    · exact List.pairwise_singleton _ a
    · exact absurd rfl (hshort a b rest)

/-- The sorted form shows which tags there are, and nothing else. -/
theorem dedup_sort_congr {l m : List String} (h : ∀ s, s ∈ l ↔ s ∈ m) : dedup (Text.sort l) = dedup (Text.sort m) := by
  have hsorted : ∀ l : List String, (dedup (Text.sort l)).Pairwise fun s t => s.toList < t.toList :=
    fun l => pairwise_dedup (List.pairwise_insertionSort _ l)
  have hmem : ∀ (l : List String) s, s ∈ dedup (Text.sort l) ↔ s ∈ l :=
    fun l s => mem_dedup.trans (List.perm_insertionSort _ l).mem_iff
  have hnodup : ∀ l, (dedup (Text.sort l)).Nodup := fun l => (hsorted l).imp fun hlt heq => (heq ▸ hlt).false
  have hperm : (dedup (Text.sort l)).Perm (dedup (Text.sort m)) :=
    (List.perm_ext_iff_of_nodup (hnodup l) (hnodup m)).mpr fun s => by rw [hmem, hmem, h]
  exact hperm.eq_of_pairwise (fun _ _ _ _ hst hts => absurd (hst.trans hts) (lt_irrefl _)) (hsorted l) (hsorted m)

theorem fromTaskTags_iff {ts : List String} {p : Placement} :
    fromTaskTags ts = .ok p ↔ ∃ q : Placement, ts.foldl note (some (demands {})) = some q.demands ∧
      p = { q with tags := dedup (Text.sort q.tags) } := by
  rw [← addTags_demands]
  unfold fromTaskTags
  cases addTags {} ts with
  | error e => simp [Except.toOption, Except.map]
  | ok r =>
    simp only [Except.toOption, Except.map, Option.map_some, Option.some.injEq, Except.ok.injEq]
    constructor
    · rintro rfl
      exact ⟨r, rfl, rfl⟩
    · rintro ⟨q, hq, rfl⟩
      simp only [demands, Demands.mk.injEq, Multiset.coe_eq_coe] at hq
      obtain ⟨hos, harch, hworker, htags⟩ := hq
      rw [dedup_sort_congr fun s => htags.mem_iff, hos, harch, hworker]

/-! ## Demands written as tags -/

theorem toAsciiLowercase_idem (s : String) : Text.toAsciiLowercase (Text.toAsciiLowercase s) = Text.toAsciiLowercase s := by
  simp [Text.toAsciiLowercase, Function.comp_def]

theorem toAsciiLowercase_ne {s : String} (h : s ≠ "") : Text.toAsciiLowercase s ≠ "" := by
  intro hempty
  have hlist := congrArg String.toList hempty
  simp [Text.toAsciiLowercase] at hlist
  exact h hlist

theorem normalizeOs_spec {v : String} (h : v ≠ "") : normalizeOs v ≠ "" ∧ normalizeOs (normalizeOs v) = normalizeOs v := by
  by_cases hmac : Text.toAsciiLowercase v ∈ ["mac", "darwin", "osx", "macosx"]
  · rw [show normalizeOs v = "macos" from if_pos hmac]
    decide
  by_cases hwin : Text.toAsciiLowercase v ∈ ["win", "win32", "win64"]
  · rw [show normalizeOs v = "windows" from (if_neg hmac).trans (if_pos hwin)]
    decide
  rw [show normalizeOs v = Text.toAsciiLowercase v from (if_neg hmac).trans (if_neg hwin)]
  refine ⟨toAsciiLowercase_ne h, ?_⟩
  simp only [normalizeOs, toAsciiLowercase_idem, hmac, hwin, if_false]

theorem normalizeArch_spec {v : String} (h : v ≠ "") :
    normalizeArch v ≠ "" ∧ normalizeArch (normalizeArch v) = normalizeArch v := by
  by_cases hamd : Text.toAsciiLowercase v ∈ ["amd64", "x64", "x86-64"]
  · rw [show normalizeArch v = "x86_64" from if_pos hamd]
    decide
  by_cases harm : Text.toAsciiLowercase v = "arm64"
  · rw [show normalizeArch v = "aarch64" from (if_neg hamd).trans (if_pos harm)]
    decide
  by_cases hx86 : Text.toAsciiLowercase v ∈ ["i386", "i686"]
  · rw [show normalizeArch v = "x86" from (if_neg hamd).trans ((if_neg harm).trans (if_pos hx86))]
    decide
  rw [show normalizeArch v = Text.toAsciiLowercase v from (if_neg hamd).trans ((if_neg harm).trans (if_neg hx86))]
  refine ⟨toAsciiLowercase_ne h, ?_⟩
  simp only [normalizeArch, toAsciiLowercase_idem, hamd, harm, hx86, if_false]

/-- What is demanded was read: it is not empty, it is normalized, and a tag is valid. -/
def Demands.Sound (d : Demands) : Prop :=
  (∀ v, d.os = some v → v ≠ "" ∧ normalizeOs v = v) ∧ (∀ v, d.arch = some v → v ≠ "" ∧ normalizeArch v = v) ∧
    (∀ v, d.worker = some v → v ≠ "") ∧ ∀ v ∈ d.tags, v ≠ "" ∧ (validateUserTag v).isOk

theorem Demands.Sound.add {d d' : Demands} (hd : d.Sound) {key value : String} {e : Demand}
    (he : Demand.read key value = some e) (h : d.add e = some d') : d'.Sound := by
  obtain ⟨hos, harch, hworker, htags⟩ := hd
  obtain ⟨hvalue, he⟩ := Option.ite_none_left_eq_some.mp he
  split_ifs at he with hkey hkey hkey hkey
  · cases he
    obtain ⟨-, h⟩ := Option.ite_none_left_eq_some.mp h
    cases h
    exact ⟨fun _ h => Option.some.inj h ▸ normalizeOs_spec hvalue, harch, hworker, htags⟩
  · cases he
    obtain ⟨-, h⟩ := Option.ite_none_left_eq_some.mp h
    cases h
    exact ⟨hos, fun _ h => Option.some.inj h ▸ normalizeArch_spec hvalue, hworker, htags⟩
  · cases he
    obtain ⟨-, h⟩ := Option.ite_none_left_eq_some.mp h
    cases h
    exact ⟨hos, harch, fun _ h => Option.some.inj h ▸ hvalue, htags⟩
  · cases he
    cases h
    exact ⟨hos, harch, hworker, Multiset.forall_mem_cons.mpr ⟨⟨hvalue, hkey.2⟩, htags⟩⟩

theorem Demands.Sound.foldl {ts : List String} {d d' : Demands} (hd : d.Sound)
    (h : ts.foldl Demands.note (some d) = some d') : d'.Sound := by
  induction ts generalizing d with
  | nil =>
    cases h
    exact hd
  | cons t ts ih =>
    rw [List.foldl_cons] at h
    cases hnote : note (some d) t with
    | none =>
      rw [hnote, foldl_note_none] at h
      cases h
    | some d₁ =>
      rw [hnote] at h
      refine ih ?_ h
      unfold note at hnote
      split at hnote
      · cases hnote
        exact hd
      · rw [Option.bind_some] at hnote
        obtain ⟨r, -, hnote⟩ := Option.bind_eq_some_iff.mp hnote
        obtain ⟨e, he, hadd⟩ := Option.bind_eq_some_iff.mp hnote
        exact hd.add he hadd

theorem note_written (d : Demands) (key : String) {value : String} {e : Demand} (hkey : '=' ∉ key.toList)
    (he : Demand.read key value = some e) : note (some d) (requirePrefix ++ (key ++ "=") ++ value) = d.add e := by
  have hsplit : Text.splitOnce '=' (key ++ "=" ++ value) = some (key, value) := Text.splitOnce_eq hkey (by simp)
  unfold note
  rw [String.append_assoc, Text.stripPrefix_append]
  simp [hsplit, he]

theorem foldl_toTaskTags {p : Placement} (h : p.demands.Sound) :
    p.toTaskTags.foldl note (some (demands {})) = some p.demands := by
  obtain ⟨hos, harch, hworker, htags⟩ := h
  have htags : ∀ (l : List String) (d : Demands), (∀ v ∈ l, v ≠ "" ∧ (validateUserTag v).isOk) →
      (l.map (requirePrefix ++ "tag=" ++ ·)).foldl note (some d) = some { d with tags := d.tags + l } := by
    intro l
    induction l with
    | nil => simp
    | cons v l ih =>
      intro d hl
      obtain ⟨hv, hl⟩ := List.forall_mem_cons.mp hl
      have hfirst : note (some d) (requirePrefix ++ "tag=" ++ v) = d.add (.tag v) :=
        note_written d "tag" (by simp) (by simp [Demand.read, hv])
      rw [List.map_cons, List.foldl_cons, hfirst, add, ih _ hl]
      simp [← Multiset.cons_coe]
  have hos : ∀ v, p.os = some v → ∀ d, note (some d) (requirePrefix ++ "os=" ++ v) = d.add (.os v) :=
    fun v hv d => note_written d "os" (by simp) (by simp [Demand.read, hos v hv])
  have harch : ∀ v, p.arch = some v → ∀ d, note (some d) (requirePrefix ++ "arch=" ++ v) = d.add (.arch v) :=
    fun v hv d => note_written d "arch" (by simp) (by simp [Demand.read, harch v hv])
  have hworker : ∀ v, p.worker = some v → ∀ d, note (some d) (requirePrefix ++ "worker=" ++ v) = d.add (.worker v) :=
    fun v hv d => note_written d "worker" (by simp) (by simp [Demand.read, hworker v hv])
  unfold toTaskTags
  cases ho : p.os <;> cases ha : p.arch <;> cases hw : p.worker <;> simp_all [demands, add]

theorem foldl_note_others {others : List String} (h : ∀ o ∈ others, Text.stripPrefix requirePrefix o = none)
    (d : Option Demands) : others.foldl note d = d := by
  induction others with
  | nil => rfl
  | cons o others ih =>
    obtain ⟨ho, h⟩ := List.forall_mem_cons.mp h
    rw [List.foldl_cons, note, ho]
    exact ih h

/-- **Constraints survive the tags they are written as**: what a task's tags were read as is read again from
`to_task_tags`, in any order and among other tags.  The order of the tags does not matter, on either side. -/
theorem placement_round_trip [Host] :
    (∀ ts p, fromTaskTags ts = .ok p →
      (∀ ts', ts'.Perm ts → fromTaskTags ts' = .ok p) ∧
      ∀ ts' others, (∀ o ∈ others, Text.stripPrefix requirePrefix o = none) → ts'.Perm (p.toTaskTags ++ others) →
        fromTaskTags ts' = .ok p) ∧
    ∀ (p : Placement) id name tags tags', (∀ t, t ∈ tags ↔ t ∈ tags') →
      p.matches id name tags = p.matches id name tags' := by
  have hperm : ∀ {l l' : List String}, l.Perm l' → ∀ d, l.foldl note d = l'.foldl note d :=
    fun h => h.foldl_eq' fun s _ t _ d => note_comm d s t
  refine ⟨fun ts p h => ?_, fun p id name tags tags' h => ?_⟩
  · obtain ⟨q, hq, hp⟩ := fromTaskTags_iff.mp h
    refine ⟨fun ts' hts => fromTaskTags_iff.mpr ⟨q, (hperm hts _).trans hq, hp⟩, fun ts' others hothers hts => ?_⟩
    have htags : ∀ v, v ∈ p.tags ↔ v ∈ q.tags := by
      rw [hp]
      exact fun v => mem_dedup.trans (List.perm_insertionSort _ _).mem_iff
    have hsound : p.demands.Sound := by
      obtain ⟨hos, harch, hworker, hvalid⟩ : q.demands.Sound := Demands.Sound.foldl (by simp [Sound, demands]) hq
      exact ⟨hp ▸ hos, hp ▸ harch, hp ▸ hworker, fun v hv => hvalid v ((htags v).mp hv)⟩
    have hsorted : dedup (Text.sort p.tags) = p.tags := by
      rw [dedup_sort_congr htags, hp]
    refine fromTaskTags_iff.mpr ⟨p, ?_, by rw [hsorted]⟩
    rw [hperm hts, List.foldl_append, foldl_note_others hothers, foldl_toTaskTags hsound]
  · have hvalue : ∀ pre wanted normalize, hasValue tags pre wanted normalize = hasValue tags' pre wanted normalize := by
      intro pre wanted normalize
      rw [Bool.eq_iff_iff]
      simp [hasValue, h]
    have hcontains : ∀ t, tags.contains t = tags'.contains t := by
      intro t
      rw [Bool.eq_iff_iff]
      simp [h]
    simp only [Placement.matches, hvalue, hcontains]

attribute [local instance] Host.blank in
theorem placement_round_trip_tagged :
    fromTaskTags ["require:tag=b", "gpu", "require:os=mac"] = .ok ⟨some "macos", none, none, ["b"]⟩ ∧
    fromTaskTags ["require:tag=b", "gpu", "require:os=macos"] = .ok ⟨some "macos", none, none, ["b"]⟩ := by
  have hread : fromTaskTags ["require:tag=b", "gpu", "require:os=mac"] = .ok ⟨some "macos", none, none, ["b"]⟩ := by
    decide +kernel
  exact ⟨hread, (placement_round_trip.1 _ _ hread).2 _ ["gpu"] (by decide +kernel) (by decide +kernel)⟩

end OxideSwarm.Placement
