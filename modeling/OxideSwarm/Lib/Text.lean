import Mathlib

/-!
# String functions of a UTF-8 string library

Strings are read as their lists of Unicode scalar values.  Whitespace is the Unicode property
`White_Space`, lengths are UTF-8 byte counts, and `split`, `splitOnce`, `stripPrefix`, `trim` and
`trimEndMatches` cut exactly where the library functions of the same names do.
-/

namespace Text

/-- The Unicode property `White_Space`. -/
def isWhitespace (c : Char) : Bool :=
  let n := c.toNat
  (9 ≤ n && n ≤ 13) || n == 0x20 || n == 0x85 || n == 0xA0 || n == 0x1680 ||
    (0x2000 ≤ n && n ≤ 0x200A) || n == 0x2028 || n == 0x2029 || n == 0x202F || n == 0x205F ||
    n == 0x3000

/-- The length in bytes. -/
def len (s : String) : Nat := s.utf8ByteSize

/-- Drop the longest suffix of characters with `p`. -/
def trimEndMatches (p : Char → Bool) (s : String) : String :=
  String.ofList (s.toList.reverse.dropWhile p).reverse

/-- Drop the leading and the trailing whitespace. -/
def trim (s : String) : String :=
  trimEndMatches isWhitespace (String.ofList (s.toList.dropWhile isWhitespace))

/-- The pieces between the occurrences of `c`; one empty piece for the empty string. -/
def split (c : Char) (s : String) : List String :=
  (s.toList.splitOn c).map String.ofList

/-- The texts before and after the first occurrence of `c`. -/
def splitOnce (c : Char) (s : String) : Option (String × String) :=
  match s.toList.span (· != c) with
  | (_, []) => none
  | (before, _ :: after) => some (String.ofList before, String.ofList after)

def stripPrefix (p s : String) : Option String :=
  (p.toList.isPrefixOf? s.toList).map String.ofList

theorem splitOnce_eq {c : Char} {s a b : String} (ha : c ∉ a.toList) (hs : s.toList = a.toList ++ c :: b.toList) :
    splitOnce c s = some (a, b) := by
  have hall : ∀ x ∈ a.toList, (x != c) = true := fun x hx => bne_iff_ne.mpr fun heq => ha (heq ▸ hx)
  unfold splitOnce
  rw [hs, List.span_eq_takeWhile_dropWhile, List.takeWhile_append_of_pos hall, List.dropWhile_append_of_pos hall]
  simp

theorem stripPrefix_append (p s : String) : stripPrefix p (p ++ s) = some s := by
  simp [stripPrefix]

def startsWith (p s : String) : Bool := p.toList.isPrefixOf s.toList

/-- `pat` occurs in `s`. -/
def contains (pat s : String) : Bool := decide (pat.toList <:+: s.toList)

def containsChar (c : Char) (s : String) : Bool := s.toList.contains c

/-- Lower case of the ASCII letters, the other characters unchanged. -/
def toAsciiLowercase (s : String) : String := String.ofList (s.toList.map Char.toLower)

def toAsciiUppercase (s : String) : String := String.ofList (s.toList.map Char.toUpper)

/-- Equality up to the case of the ASCII letters. -/
def eqIgnoreAsciiCase (s t : String) : Bool := toAsciiLowercase s == toAsciiLowercase t

/-- Every occurrence of `a` replaced by `b`. -/
def replace (a b : Char) (s : String) : String :=
  String.ofList (s.toList.map fun c => if c = a then b else c)

theorem not_mem_of_mem_split {c : Char} {s t : String} (h : t ∈ split c s) : c ∉ t.toList := by
  obtain ⟨piece, hpiece, rfl⟩ := List.mem_map.mp h
  rw [String.toList_ofList]
  clear h
  revert piece
  induction s.toList with
  | nil =>
    intro piece hpiece
    rw [List.splitOn_nil, List.mem_singleton] at hpiece
    rw [hpiece]
    exact List.not_mem_nil
  | cons x xs ih =>
    intro piece hpiece
    rw [List.splitOn_cons_eq_if_modifyHead] at hpiece
    split at hpiece
    · rcases List.mem_cons.mp hpiece with rfl | hrest
      · exact List.not_mem_nil
      · exact ih piece hrest
    next hx =>
    cases hsplit : xs.splitOn c with
    | nil => exact absurd hsplit (List.splitOn_ne_nil c xs)
    | cons first rest =>
      rw [hsplit] at hpiece ih
      rcases List.mem_cons.mp hpiece with rfl | hrest
      · rw [List.mem_cons, not_or]
        exact ⟨fun heq => hx (beq_iff_eq.mpr heq.symm), ih first (List.mem_cons_self ..)⟩
      · exact ih piece (List.mem_cons_of_mem first hrest)

def join (sep : String) (pieces : List String) : String :=
  String.ofList (sep.toList.intercalate (pieces.map String.toList))

theorem join_singleton (sep s : String) : join sep [s] = s := by
  rw [join, List.map_cons, List.map_nil, List.intercalate_singleton, String.ofList_toList]

theorem join_cons (sep s : String) {l : List String} (hl : l ≠ []) : join sep (s :: l) = s ++ sep ++ join sep l := by
  have hl' : l.map String.toList ≠ [] := fun h => hl (List.map_eq_nil_iff.mp h)
  unfold join
  rw [List.map_cons, List.intercalate_cons_of_ne_nil hl', String.ofList_append, String.ofList_append,
    String.ofList_toList, String.ofList_toList]

theorem join_append (sep : String) {l m : List String} (hl : l ≠ []) (hm : m ≠ []) :
    join sep (l ++ m) = join sep l ++ sep ++ join sep m := by
  induction l with
  | nil => exact absurd rfl hl
  | cons s l ih =>
    cases l with
    | nil => rw [join_singleton, List.singleton_append, join_cons sep s hm]
    | cons t l =>
      have hrest := ih (List.cons_ne_nil t l)
      rw [List.cons_append, join_cons sep s (List.append_ne_nil_of_left_ne_nil (List.cons_ne_nil t l) m), hrest,
        join_cons sep s (List.cons_ne_nil t l)]
      simp only [String.append_assoc]

/-- Ascending order by scalar values, which is also the order of the UTF-8 encodings. -/
def sort (l : List String) : List String :=
  l.insertionSort fun s t => s.toList ≤ t.toList

/-- The longest prefix of `s` of at most `n` bytes. -/
def truncate (n : Nat) (s : String) : String :=
  String.ofList (go n s.toList)
where
  go : Nat → List Char → List Char
    | _, [] => []
    | n, c :: cs => if c.utf8Size ≤ n then c :: go (n - c.utf8Size) cs else []

/-- The decimal digits of `s`, at most `bound`: the value it denotes. -/
def parseNat (bound : Nat) (s : String) : Option Nat :=
  let digits := match s.toList with
    | '+' :: rest => rest
    | all => all
  if digits ≠ [] ∧ digits.all Char.isDigit then
    let n := digits.foldl (fun n c => 10 * n + (c.toNat - '0'.toNat)) 0
    if n ≤ bound then some n else none
  else none

theorem parseNat_le {bound n : Nat} {s : String} (h : parseNat bound s = some n) : n ≤ bound := by
  obtain ⟨-, h⟩ := Option.ite_none_right_eq_some.mp h
  obtain ⟨hn, h⟩ := Option.ite_none_right_eq_some.mp h
  cases h
  exact hn

end Text
