import Mathlib.Data.List.Infix

/-!
# Byte strings with ideal HMACs

In the symbolic model of cryptography an attacker owns the network but cannot break the primitives.  A byte
of a message is a known one, or a byte of the secret, of the nonce of a run, or of an HMAC, and HMAC is a
free constructor: two HMACs agree in a byte only if they have the same key and the same message.  An
attacker can take apart what it has seen down to single bytes and put any bytes it knows together; it knows
a byte of an HMAC if it has seen it or knows the key and the message (`knows`).
-/

/-- A byte of a message. -/
inductive SymByte where
  | byte (b : UInt8)
  | secret (i : Nat)
  | nonce (run i : Nat)
  | hmac (key message : List SymByte) (i : Nat)
deriving Repr

namespace SymByte

mutual

def decEq : (a b : SymByte) → Decidable (a = b)
  | .byte a, .byte b => decidable_of_iff (a = b) ⟨congrArg _, byte.inj⟩
  | .secret i, .secret j => decidable_of_iff (i = j) ⟨congrArg _, secret.inj⟩
  | .nonce r i, .nonce s j => decidable_of_iff (r = s ∧ i = j) ⟨fun h => by rw [h.1, h.2], nonce.inj⟩
  | .hmac k m i, .hmac l n j =>
    have := decEqList k l
    have := decEqList m n
    decidable_of_iff (k = l ∧ m = n ∧ i = j) ⟨fun h => by rw [h.1, h.2.1, h.2.2], hmac.inj⟩
  | .byte _, .secret _ | .byte _, .nonce .. | .byte _, .hmac .. => isFalse nofun
  | .secret _, .byte _ | .secret _, .nonce .. | .secret _, .hmac .. => isFalse nofun
  | .nonce .., .byte _ | .nonce .., .secret _ | .nonce .., .hmac .. => isFalse nofun
  | .hmac .., .byte _ | .hmac .., .secret _ | .hmac .., .nonce .. => isFalse nofun

def decEqList : (l m : List SymByte) → Decidable (l = m)
  | [], [] => isTrue rfl
  | a :: l, b :: m =>
    have := decEq a b
    have := decEqList l m
    decidable_of_iff (a = b ∧ l = m) ⟨fun h => by rw [h.1, h.2], List.cons.inj⟩
  | [], _ :: _ | _ :: _, [] => isFalse nofun

end

instance : DecidableEq SymByte := decEq

/-- The 32 bytes of an HMAC. -/
def hmacBytes (key message : List SymByte) : List SymByte := (List.range 32).map (hmac key message)

/-- The 32 bytes of the nonce of a run. -/
def freshBytes (run : Nat) : List SymByte := (List.range 32).map (nonce run)

/-- A byte that is neither of the secret nor of an HMAC. -/
def isOpen : SymByte → Prop
  | .byte _ | .nonce _ _ => True
  | .secret _ | .hmac _ _ _ => False

/-- A string of known bytes. -/
def plain (bytes : List UInt8) : List SymByte := bytes.map byte

@[simp] theorem length_hmacBytes (key message : List SymByte) : (hmacBytes key message).length = 32 := by
  simp [hmacBytes]

@[simp] theorem length_freshBytes (run : Nat) : (freshBytes run).length = 32 := by simp [freshBytes]

theorem mem_hmacBytes {s : SymByte} {key message : List SymByte} (h : s ∈ hmacBytes key message) :
    ∃ i, s = hmac key message i := by
  obtain ⟨i, -, rfl⟩ := List.mem_map.mp h
  exact ⟨i, rfl⟩

theorem head_mem_hmacBytes (key message : List SymByte) : hmac key message 0 ∈ hmacBytes key message :=
  List.mem_map.mpr ⟨0, by simp, rfl⟩

theorem hmacBytes_inj {key message key' message' : List SymByte}
    (h : hmacBytes key message = hmacBytes key' message') : key = key' ∧ message = message' := by
  have hmem := head_mem_hmacBytes key message
  rw [h] at hmem
  obtain ⟨i, hi⟩ := mem_hmacBytes hmem
  injection hi with hkey hmessage
  exact ⟨hkey, hmessage⟩

theorem freshBytes_inj {r s : Nat} (h : freshBytes r = freshBytes s) : r = s := by
  have hmem : nonce r 0 ∈ freshBytes s := by
    rw [← h]
    exact List.mem_map.mpr ⟨0, by simp, rfl⟩
  obtain ⟨i, -, hi⟩ := List.mem_map.mp hmem
  injection hi with hrun
  exact hrun.symm

theorem plain_injective : Function.Injective plain :=
  List.map_injective_iff.mpr fun _ _ h => byte.inj h

/-! ## What an attacker knows -/

section

variable (net : List (List SymByte))

/-- The byte `s` occurs in a frame of the network. -/
def seen (s : SymByte) : Bool := net.any fun frame => decide (s ∈ frame)

mutual

/-- The attacker has the byte `s`. -/
def knows : SymByte → Bool
  | .byte _ => true
  | .secret i => seen net (.secret i)
  | .nonce r i => seen net (.nonce r i)
  | .hmac key message i => seen net (.hmac key message i) || knowsAll key && knowsAll message

/-- The attacker can put the string together. -/
def knowsAll : List SymByte → Bool
  | [] => true
  | s :: rest => knows s && knowsAll rest

end

variable {net}

theorem seen_iff {s : SymByte} : seen net s = true ↔ ∃ frame ∈ net, s ∈ frame := by
  unfold seen
  simp

theorem knowsAll_iff {l : List SymByte} : knowsAll net l = true ↔ ∀ s ∈ l, knows net s = true := by
  induction l with
  | nil => simp [knowsAll]
  | cons s rest ih => simp [knowsAll, ih]

/-- An HMAC under a key that is not known was seen, if it is known. -/
theorem seen_of_knows_hmac {key message : List SymByte} {i : Nat} (hkey : knowsAll net key = false)
    (h : knows net (hmac key message i) = true) : seen net (hmac key message i) = true := by
  unfold knows at h
  rw [hkey, Bool.false_and, Bool.or_false] at h
  exact h

end

end SymByte
