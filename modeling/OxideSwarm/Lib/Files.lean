import OxideSwarm.Lib.FMap
import Mathlib.Logic.Function.Basic

/-!
# A directory tree as paths, inodes and contents

A path points at an inode, an inode has a content, and two paths never point at one inode (nothing
here makes hard links).  An open file is its inode: `unlink` and `rename` move paths and leave the
content of an open file alone, `create` on an existing path truncates the inode that is there.
-/

/-- Files named by `π`. -/
structure FileSystem (π : Type) [DecidableEq π] where
  names : FMap π Nat
  contents : Nat → List UInt8
  /-- the first inode never used -/
  next : Nat
  names_lt : ∀ p n, names.get p = some n → n < next
  names_inj : ∀ p p' n, names.get p = some n → names.get p' = some n → p = p'

namespace FileSystem

variable {π : Type} [DecidableEq π]

def empty : FileSystem π where
  names := ∅
  contents _ := []
  next := 0
  names_lt := by simp
  names_inj := by simp

instance : Inhabited (FileSystem π) := ⟨empty⟩

/-- The content of the file at a path. -/
def read (fs : FileSystem π) (p : π) : Option (List UInt8) := (fs.names.get p).map fs.contents

/-- Links the new, empty inode `fs.next` at a path without a file. -/
def link (fs : FileSystem π) (p : π) : FileSystem π where
  names := fs.names.set p fs.next
  contents := Function.update fs.contents fs.next []
  next := fs.next + 1
  names_lt q n h := by
    rw [FMap.get_set] at h
    split at h
    · cases h
      omega
    · have := fs.names_lt q n h
      omega
  names_inj q q' n h h' := by
    rw [FMap.get_set] at h h'
    split at h
    · next hq =>
      split at h'
      · next hq' => rw [hq, hq']
      · cases h
        exact absurd (fs.names_lt q' fs.next h') (Nat.lt_irrefl _)
    split at h'
    · cases h'
      exact absurd (fs.names_lt q fs.next h) (Nat.lt_irrefl _)
    · exact fs.names_inj q q' n h h'

/-- Replaces the content of an open file. -/
def put (fs : FileSystem π) (n : Nat) (data : List UInt8) : FileSystem π :=
  { fs with contents := Function.update fs.contents n data }

/-- `File::create`: the open file, and the files with it empty. -/
def create (fs : FileSystem π) (p : π) : Nat × FileSystem π :=
  match fs.names.get p with
  | some n => (n, fs.put n [])
  | none => (fs.next, fs.link p)

/-- `write_all` at the end of an open file. -/
def append (fs : FileSystem π) (n : Nat) (data : List UInt8) : FileSystem π :=
  fs.put n (fs.contents n ++ data)

/-- `remove_file`. -/
def unlink (fs : FileSystem π) (p : π) : FileSystem π where
  names := fs.names.del p
  contents := fs.contents
  next := fs.next
  names_lt q n h := by
    rw [FMap.get_del] at h
    split at h
    · cases h
    · exact fs.names_lt q n h
  names_inj q q' n h h' := by
    rw [FMap.get_del] at h h'
    split at h
    · cases h
    · split at h'
      · cases h'
      · exact fs.names_inj q q' n h h'

/-- Points `q` at the inode of `p` and takes `p` away. -/
def move (fs : FileSystem π) (p q : π) (n : Nat) (hn : fs.names.get p = some n) : FileSystem π where
  names := (fs.names.del p).set q n
  contents := fs.contents
  next := fs.next
  names_lt r m h := by
    rw [FMap.get_set] at h
    split at h
    · cases h
      exact fs.names_lt p n hn
    · exact (fs.unlink p).names_lt r m h
  names_inj r r' m h h' := by
    rw [FMap.get_set] at h h'
    have key : ∀ x, (fs.names.del p).get x = some n → False := by
      intro x hx
      rw [FMap.get_del] at hx
      split at hx
      · cases hx
      · next hne => exact hne (fs.names_inj x p n hx hn)
    split at h
    · next hr =>
      split at h'
      · next hr' => rw [hr, hr']
      · cases h
        exact (key r' h').elim
    split at h'
    · cases h'
      exact (key r h).elim
    · exact (fs.unlink p).names_inj r r' m h h'

/-- `rename`, with its own failure when there is nothing at `p`. -/
def rename (fs : FileSystem π) (p q : π) : Option (FileSystem π) :=
  match h : fs.names.get p with
  | some n => some (fs.move p q n h)
  | none => none

/-! ## What the operations do to paths and contents -/

section Lemmas

variable (fs : FileSystem π) (p q : π) (n : Nat) (data : List UInt8)

@[simp] theorem names_put : (fs.put n data).names = fs.names := rfl
@[simp] theorem next_put : (fs.put n data).next = fs.next := rfl
@[simp] theorem names_unlink : (fs.unlink p).names = fs.names.del p := rfl
@[simp] theorem contents_unlink : (fs.unlink p).contents = fs.contents := rfl
@[simp] theorem next_unlink : (fs.unlink p).next = fs.next := rfl
@[simp] theorem names_append : (fs.append n data).names = fs.names := rfl
@[simp] theorem next_append : (fs.append n data).next = fs.next := rfl

theorem contents_put_ne {m : Nat} (h : m ≠ n) : (fs.put n data).contents m = fs.contents m :=
  Function.update_of_ne h _ _

theorem contents_put_self : (fs.put n data).contents n = data := Function.update_self _ _ _

theorem contents_append_self : (fs.append n data).contents n = fs.contents n ++ data :=
  fs.contents_put_self n _

theorem contents_append_ne {m : Nat} (h : m ≠ n) : (fs.append n data).contents m = fs.contents m :=
  fs.contents_put_ne n _ h

/-- What `create` does: the file it opens is the only one that changes, no path other than `p`
moves, and an inode that was already in use is the one `p` pointed at. -/
structure Creates (fs : FileSystem π) (p : π) (n : Nat) (fs' : FileSystem π) : Prop where
  here : fs'.names.get p = some n
  others : ∀ q, q ≠ p → fs'.names.get q = fs.names.get q
  blank : fs'.contents n = []
  kept : ∀ m, m ≠ n → fs'.contents m = fs.contents m
  lt : n < fs'.next
  grows : fs.next ≤ fs'.next
  old : n < fs.next → fs.names.get p = some n

theorem create_creates : Creates fs p (fs.create p).1 (fs.create p).2 := by
  unfold create
  split
  · next n hn =>
    exact ⟨hn, fun _ _ => rfl, fs.contents_put_self n _, fun m hm => fs.contents_put_ne n _ hm,
      fs.names_lt p n hn, Nat.le_refl _, fun _ => hn⟩
  refine ⟨?_, ?_, Function.update_self _ _ _, fun m hm => Function.update_of_ne hm _ _,
    Nat.lt_succ_self _, Nat.le_succ _, fun h => absurd h (Nat.lt_irrefl _)⟩
  · show (fs.names.set p fs.next).get p = some fs.next
    simp
  · intro q hq
    show (fs.names.set p fs.next).get q = fs.names.get q
    simp [hq]

theorem rename_eq_some {fs : FileSystem π} {p q : π} {fs' : FileSystem π} (h : fs.rename p q = some fs') :
    ∃ n, fs.names.get p = some n ∧ fs'.names = (fs.names.del p).set q n ∧
      fs'.contents = fs.contents ∧ fs'.next = fs.next := by
  unfold rename at h
  split at h
  · next n hn =>
    cases h
    exact ⟨n, hn, rfl, rfl, rfl⟩
  · cases h

end Lemmas

end FileSystem
