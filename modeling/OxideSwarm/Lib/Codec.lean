import Mathlib.Algebra.Order.Ring.Nat
import Mathlib.Data.List.Basic
import Mathlib.Tactic.Ring

/-!
# Formats that are read from the front

A `Codec` writes values as bytes and reads one value off the front of a byte string, leaving the rest.
It carries the proof that what was written is read back, for the values that fit the format:

    read (encode a ++ rest) = some (a, rest)

Numbers of a fixed width (`le`, `be`), pairs, lists and byte strings behind their length (`list`,
`bytes`) and values coded as others (`via`) are built from each other, so a record format gets its
round trip from its definition.  `decode` is for a whole message: nothing may be left.

A format is `Canonical` if a value is only ever read from the bytes it is written as.
-/

structure Codec (α : Type) where
  encode : α → List UInt8
  read : List UInt8 → Option (α × List UInt8)
  /-- the values the format can carry -/
  Fits : α → Prop
  read_encode : ∀ a rest, Fits a → read (encode a ++ rest) = some (a, rest)

namespace Codec

variable {α β : Type}

/-- The value of a whole message. -/
def decode (c : Codec α) (message : List UInt8) : Option α :=
  (c.read message).bind fun r => if r.2 = [] then some r.1 else none

theorem decode_encode (c : Codec α) {a : α} (ha : c.Fits a) : c.decode (c.encode a) = some a := by
  have hread := c.read_encode a [] ha
  rw [List.append_nil] at hread
  rw [decode, hread]
  rfl

/-- What is read is what would have been written. -/
def Canonical (c : Codec α) : Prop := ∀ ⦃bytes a rest⦄, c.read bytes = some (a, rest) → c.encode a ++ rest = bytes

theorem Canonical.encode_decode {c : Codec α} (hc : c.Canonical) {message : List UInt8} {a : α}
    (h : c.decode message = some a) : c.encode a = message := by
  obtain ⟨⟨b, rest⟩, hread, h⟩ := Option.bind_eq_some_iff.mp h
  obtain ⟨hrest, h⟩ := Option.ite_none_right_eq_some.mp h
  cases h
  have hmessage := hc hread
  rw [show rest = [] from hrest, List.append_nil] at hmessage
  exact hmessage

/-! ## Numbers -/

/-- The `k` lowest bytes of `n`, lowest first. -/
def leBytes : Nat → Nat → List UInt8
  | 0, _ => []
  | k + 1, n => UInt8.ofNat n :: leBytes k (n / 256)

def readLe : Nat → List UInt8 → Option (Nat × List UInt8)
  | 0, bytes => some (0, bytes)
  | _ + 1, [] => none
  | k + 1, b :: bytes => (readLe k bytes).map fun r => (b.toNat + 256 * r.1, r.2)

@[simp] theorem leBytes_length (k n : Nat) : (leBytes k n).length = k := by
  induction k generalizing n with
  | zero => rfl
  | succ k ih => rw [leBytes, List.length_cons, ih]

theorem readLe_leBytes (k : Nat) : ∀ n rest, n < 256 ^ k → readLe k (leBytes k n ++ rest) = some (n, rest) := by
  induction k with
  | zero =>
    intro n rest hn
    rw [pow_zero, Nat.lt_one_iff] at hn
    rw [hn]
    rfl
  | succ k ih =>
    intro n rest hn
    have hhigh : n / 256 < 256 ^ k := by
      rw [pow_succ] at hn
      exact Nat.div_lt_of_lt_mul (by rw [Nat.mul_comm]; exact hn)
    have hlow : (UInt8.ofNat n).toNat = n % 256 := UInt8.toNat_ofNat'
    rw [leBytes, List.cons_append, readLe, ih _ rest hhigh, Option.map_some, hlow]
    congr 2
    omega

theorem leBytes_readLe {k : Nat} : ∀ {bytes rest : List UInt8} {n : Nat}, readLe k bytes = some (n, rest) →
    leBytes k n ++ rest = bytes ∧ n < 256 ^ k := by
  induction k with
  | zero =>
    intro bytes rest n h
    cases h
    exact ⟨rfl, Nat.one_pos⟩
  | succ k ih =>
    intro bytes rest n h
    cases bytes with
    | nil => cases h
    | cons b bytes =>
      obtain ⟨⟨high, rest'⟩, hread, h⟩ := Option.map_eq_some_iff.mp h
      cases h
      obtain ⟨hbytes, hlt⟩ := ih hread
      have hb := b.toNat_lt
      have hlow : UInt8.ofNat (b.toNat + 256 * high) = b := by
        apply UInt8.toNat.inj
        rw [UInt8.toNat_ofNat']
        omega
      have hhigh : (b.toNat + 256 * high) / 256 = high := by omega
      constructor
      · rw [leBytes, hlow, hhigh, List.cons_append, hbytes]
      · rw [pow_succ]
        omega

/-- A number of `k` bytes, lowest first. -/
def le (k : Nat) : Codec Nat where
  encode := leBytes k
  read := readLe k
  Fits n := n < 256 ^ k
  read_encode n rest hn := readLe_leBytes k n rest hn

/-- A number of `k` bytes, highest first. -/
def be (k : Nat) : Codec Nat where
  encode n := (leBytes k n).reverse
  read bytes :=
    if bytes.length < k then none
    else (readLe k (bytes.take k).reverse).map fun r => (r.1, bytes.drop k)
  Fits n := n < 256 ^ k
  read_encode n rest hn := by
    have hlen : (leBytes k n).reverse.length = k := by rw [List.length_reverse, leBytes_length]
    have hread := readLe_leBytes k n [] hn
    rw [List.append_nil] at hread
    have hlong : ¬((leBytes k n).reverse ++ rest).length < k := by
      rw [List.length_append, hlen]
      omega
    rw [if_neg hlong, List.take_left' hlen, List.drop_left' hlen, List.reverse_reverse, hread]
    rfl

theorem le_canonical (k : Nat) : (le k).Canonical := fun _ _ _ h => (leBytes_readLe h).1

theorem be_spec {k : Nat} {bytes rest : List UInt8} {n : Nat} (h : (be k).read bytes = some (n, rest)) :
    (be k).encode n ++ rest = bytes ∧ n < 256 ^ k := by
  obtain ⟨hlong, h⟩ := Option.ite_none_left_eq_some.mp h
  obtain ⟨⟨m, left⟩, hread, h⟩ := Option.map_eq_some_iff.mp h
  cases h
  obtain ⟨hbytes, hlt⟩ := leBytes_readLe hread
  have hlen := congrArg List.length hbytes
  rw [List.length_append, leBytes_length, List.length_reverse, List.length_take] at hlen
  have hleft : left = [] := List.length_eq_zero_iff.mp (by omega)
  rw [hleft, List.append_nil] at hbytes
  refine ⟨?_, hlt⟩
  show (leBytes k m).reverse ++ bytes.drop k = bytes
  rw [hbytes, List.reverse_reverse, List.take_append_drop]

/-! ## Compound values -/

def pair (c : Codec α) (d : Codec β) : Codec (α × β) where
  encode p := c.encode p.1 ++ d.encode p.2
  read bytes := (c.read bytes).bind fun r => (d.read r.2).map fun r' => ((r.1, r'.1), r'.2)
  Fits p := c.Fits p.1 ∧ d.Fits p.2
  read_encode p rest hp := by
    rw [List.append_assoc, c.read_encode _ _ hp.1, Option.bind_some, d.read_encode _ _ hp.2]
    rfl

theorem pair_canonical {c : Codec α} {d : Codec β} (hc : c.Canonical) (hd : d.Canonical) : (c.pair d).Canonical := by
  intro bytes p rest h
  obtain ⟨⟨a, rest₁⟩, hfirst, h⟩ := Option.bind_eq_some_iff.mp h
  obtain ⟨⟨b, rest₂⟩, hsecond, h⟩ := Option.map_eq_some_iff.mp h
  cases h
  show (c.encode a ++ d.encode b) ++ rest₂ = bytes
  rw [List.append_assoc, hd hsecond, hc hfirst]

/-- A `β` coded as the `α` it is told by; `back` may refuse an `α` that tells no `β`. -/
def via (c : Codec α) (told : β → α) (back : α → Option β) (hback : ∀ b, back (told b) = some b) : Codec β where
  encode b := c.encode (told b)
  read bytes := (c.read bytes).bind fun r => (back r.1).map fun b => (b, r.2)
  Fits b := c.Fits (told b)
  read_encode b rest hb := by
    rw [c.read_encode _ _ hb, Option.bind_some, hback]
    rfl

theorem via_canonical {c : Codec α} {told : β → α} {back : α → Option β} {hback : ∀ b, back (told b) = some b}
    (hc : c.Canonical) (htold : ∀ ⦃bytes a rest⦄, c.read bytes = some (a, rest) → ∀ b, back a = some b → told b = a) :
    (c.via told back hback).Canonical := by
  intro bytes b rest h
  obtain ⟨⟨a, rest₁⟩, hread, h⟩ := Option.bind_eq_some_iff.mp h
  obtain ⟨b, hb, h⟩ := Option.map_eq_some_iff.mp h
  cases h
  show c.encode (told b) ++ rest₁ = bytes
  rw [htold hread b hb, hc hread]

/-- `n` values one after the other. -/
def readMany (c : Codec α) : Nat → List UInt8 → Option (List α × List UInt8)
  | 0, bytes => some ([], bytes)
  | n + 1, bytes => (c.read bytes).bind fun r => (readMany c n r.2).map fun r' => (r.1 :: r'.1, r'.2)

theorem readMany_flatMap (c : Codec α) (rest : List UInt8) : ∀ l : List α, (∀ a ∈ l, c.Fits a) →
    readMany c l.length (l.flatMap c.encode ++ rest) = some (l, rest) := by
  intro l
  induction l with
  | nil => exact fun _ => rfl
  | cons a l ih =>
    intro hl
    have htail := ih fun b hb => hl b (List.mem_cons_of_mem _ hb)
    rw [List.length_cons, List.flatMap_cons, List.append_assoc, readMany,
      c.read_encode _ _ (hl a List.mem_cons_self), Option.bind_some, htail]
    rfl

theorem flatMap_readMany {c : Codec α} (hc : c.Canonical) {n : Nat} :
    ∀ {bytes rest : List UInt8} {l : List α}, readMany c n bytes = some (l, rest) →
      l.flatMap c.encode ++ rest = bytes ∧ l.length = n := by
  induction n with
  | zero =>
    intro bytes rest l h
    cases h
    exact ⟨rfl, rfl⟩
  | succ n ih =>
    intro bytes rest l h
    obtain ⟨⟨a, rest₁⟩, hread, h⟩ := Option.bind_eq_some_iff.mp h
    obtain ⟨⟨as, rest₂⟩, hmany, h⟩ := Option.map_eq_some_iff.mp h
    cases h
    obtain ⟨hbytes, hlen⟩ := ih hmany
    rw [List.flatMap_cons, List.append_assoc, hbytes, hc hread, List.length_cons, hlen]
    exact ⟨rfl, rfl⟩

/-- A list behind its length, a number of `k` bytes. -/
def list (k : Nat) (c : Codec α) : Codec (List α) where
  encode l := leBytes k l.length ++ l.flatMap c.encode
  read bytes := (readLe k bytes).bind fun r => readMany c r.1 r.2
  Fits l := l.length < 256 ^ k ∧ ∀ a ∈ l, c.Fits a
  read_encode l rest hl := by
    rw [List.append_assoc, readLe_leBytes k _ _ hl.1, Option.bind_some, readMany_flatMap c rest l hl.2]

theorem list_canonical {c : Codec α} (k : Nat) (hc : c.Canonical) : (c.list k).Canonical := by
  intro bytes l rest h
  obtain ⟨⟨n, rest₁⟩, hlength, h⟩ := Option.bind_eq_some_iff.mp h
  obtain ⟨hbytes, hlen⟩ := flatMap_readMany hc h
  show (leBytes k l.length ++ l.flatMap c.encode) ++ rest = bytes
  rw [List.append_assoc, hbytes, hlen, (leBytes_readLe hlength).1]

/-- A byte string behind its length, a number of `k` bytes. -/
def bytes (k : Nat) : Codec (List UInt8) where
  encode b := leBytes k b.length ++ b
  read message := (readLe k message).bind fun r =>
    if r.2.length < r.1 then none else some (r.2.take r.1, r.2.drop r.1)
  Fits b := b.length < 256 ^ k
  read_encode b rest hb := by
    have hlong : ¬(b ++ rest).length < b.length := by
      rw [List.length_append]
      omega
    rw [List.append_assoc, readLe_leBytes k _ _ hb, Option.bind_some, if_neg hlong, List.take_left, List.drop_left]

theorem bytes_canonical (k : Nat) : (bytes k).Canonical := by
  intro message b rest h
  obtain ⟨⟨n, rest₁⟩, hlength, h⟩ := Option.bind_eq_some_iff.mp h
  obtain ⟨hlong, h⟩ := Option.ite_none_left_eq_some.mp h
  cases h
  have hlen : (rest₁.take n).length = n := List.length_take_of_le (Nat.not_lt.mp hlong)
  show (leBytes k (rest₁.take n).length ++ rest₁.take n) ++ rest₁.drop n = message
  rw [hlen, List.append_assoc, List.take_append_drop, (leBytes_readLe hlength).1]

end Codec
