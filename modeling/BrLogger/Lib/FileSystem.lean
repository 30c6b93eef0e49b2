import Mathlib.Logic.Function.Basic
import Mathlib.Tactic.Common

/-!
# A file system

Names bound to files, and files by their numbers: a `Descriptor` goes on
referring to its file when the name is moved or removed.  No file has two
names, and a number is used for one file only.

`write` is told by its outcome how much the call transfers.  The lemmas say
what each operation does to what is read under a name.
-/

/-- Names of type `ν` bound to files of elements of type `β`. -/
structure FileSystem (ν β : Type) where
  inode : ν → Option Nat
  contents : Nat → List β
  next : Nat
  lt_next : ∀ p i, inode p = some i → i < next
  injective : ∀ p q i, inode p = some i → inode q = some i → p = q

/-- An open file, with the name it was opened by. -/
structure Descriptor (ν : Type) where
  name : ν
  inode : Nat
  deriving DecidableEq

namespace FileSystem

variable {ν β : Type}

def empty : FileSystem ν β where
  inode _ := none
  contents _ := []
  next := 0
  lt_next _ _ h := by cases h
  injective _ _ _ h := by cases h

/-- What is read under a name. -/
def read (fs : FileSystem ν β) (p : ν) : Option (List β) := (fs.inode p).map fs.contents

/-- Bytes at the end of a file. -/
def append (fs : FileSystem ν β) (i : Nat) (bytes : List β) : FileSystem ν β :=
  { fs with contents := Function.update fs.contents i (fs.contents i ++ bytes) }

/-- A file emptied. -/
def truncate (fs : FileSystem ν β) (i : Nat) : FileSystem ν β :=
  { fs with contents := Function.update fs.contents i [] }

/-- `write(fd, bytes, bytes.size())`: `none` is a failure, `some n` a call that
transfers at most `n` elements.  The result is their number, or `-1`. -/
def write (fs : FileSystem ν β) (fd : Descriptor ν) (bytes : List β) : Option Nat → FileSystem ν β × Int
  | none => (fs, -1)
  | some n => (fs.append fd.inode (bytes.take n), (bytes.take n).length)

/-- What a call of `write` transfers. -/
def sent (bytes : List β) : Option Nat → List β
  | none => []
  | some n => bytes.take n

theorem length_sent_le (bytes : List β) (o : Option Nat) : (sent bytes o).length ≤ bytes.length := by
  cases o with
  | none => exact Nat.zero_le _
  | some n => exact List.length_take_le' _ _

variable [DecidableEq ν]

theorem lt_next_update {inode : ν → Option Nat} {next i : Nat} (h : ∀ p i, inode p = some i → i < next)
    (hi : i < next) (p : ν) : ∀ q j, Function.update inode p (some i) q = some j → j < next := by
  intro q j hj
  by_cases hqp : q = p
  · subst hqp
    rw [Function.update_self] at hj
    cases hj
    exact hi
  · rw [Function.update_of_ne hqp] at hj
    exact h q j hj

theorem injective_update {inode : ν → Option Nat} {i : Nat}
    (h : ∀ p q i, inode p = some i → inode q = some i → p = q) (p : ν)
    (hi : ∀ q, q ≠ p → inode q ≠ some i) :
    ∀ q r j, Function.update inode p (some i) q = some j → Function.update inode p (some i) r = some j →
      q = r := by
  intro q r j hq hr
  by_cases hqp : q = p <;> by_cases hrp : r = p
  · rw [hqp, hrp]
  · subst hqp
    rw [Function.update_self] at hq
    rw [Function.update_of_ne hrp] at hr
    cases hq
    exact absurd hr (hi r hrp)
  · subst hrp
    rw [Function.update_self] at hr
    rw [Function.update_of_ne hqp] at hq
    cases hr
    exact absurd hq (hi q hqp)
  · rw [Function.update_of_ne hqp] at hq
    rw [Function.update_of_ne hrp] at hr
    exact h q r j hq hr

theorem inode_of_update_none {inode : ν → Option Nat} {p q : ν} {i : Nat}
    (h : Function.update inode p none q = some i) : q ≠ p ∧ inode q = some i := by
  by_cases hqp : q = p
  · subst hqp
    rw [Function.update_self] at h
    cases h
  · rw [Function.update_of_ne hqp] at h
    exact ⟨hqp, h⟩

/-- A new, empty file. -/
def create (fs : FileSystem ν β) (p : ν) : FileSystem ν β where
  inode := Function.update fs.inode p (some fs.next)
  contents := Function.update fs.contents fs.next []
  next := fs.next + 1
  lt_next := lt_next_update (fun q i hq => Nat.lt_succ_of_lt (fs.lt_next q i hq)) (Nat.lt_succ_self _) p
  injective := injective_update fs.injective p fun q _ hq => Nat.lt_irrefl _ (fs.lt_next q _ hq)

/-- `open(p, O_WRONLY | O_CREAT | O_APPEND)`, when it succeeds. -/
def openAppend (fs : FileSystem ν β) (p : ν) : FileSystem ν β × Descriptor ν :=
  match fs.inode p with
  | some i => (fs, ⟨p, i⟩)
  | none => (fs.create p, ⟨p, fs.next⟩)

/-- `open(p, O_WRONLY | O_CREAT | O_TRUNC)`, when it succeeds. -/
def openTruncate (fs : FileSystem ν β) (p : ν) : FileSystem ν β × Descriptor ν :=
  match fs.inode p with
  | some i => (fs.truncate i, ⟨p, i⟩)
  | none => (fs.create p, ⟨p, fs.next⟩)

/-- `remove(p)`, without effect when there is no such file. -/
def remove (fs : FileSystem ν β) (p : ν) : FileSystem ν β where
  inode := Function.update fs.inode p none
  contents := fs.contents
  next := fs.next
  lt_next q i hq := fs.lt_next q i (inode_of_update_none hq).2
  injective q r i hq hr := fs.injective q r i (inode_of_update_none hq).2 (inode_of_update_none hr).2

/-- Binds the name `dst` to the file `i`, whose only name was `src`. -/
def move (fs : FileSystem ν β) (src dst : ν) (i : Nat) (h : fs.inode src = some i) : FileSystem ν β where
  inode := Function.update (Function.update fs.inode src none) dst (some i)
  contents := fs.contents
  next := fs.next
  lt_next := lt_next_update (fs.remove src).lt_next (fs.lt_next src i h) dst
  injective := injective_update (fs.remove src).injective dst fun q _ hq =>
    (inode_of_update_none hq).1 (fs.injective q src i (inode_of_update_none hq).2 h)

/-- `rename(src, dst)`, which replaces `dst` and fails when there is no `src`. -/
def rename (fs : FileSystem ν β) (src dst : ν) : FileSystem ν β :=
  match h : fs.inode src with
  | some i => fs.move src dst i h
  | none => fs

/-! ### The operations, field by field -/

section
variable (fs : FileSystem ν β) (p : ν) (i : Nat) (bytes : List β)

omit [DecidableEq ν] in
@[simp] theorem append_contents_self : (fs.append i bytes).contents i = fs.contents i ++ bytes :=
  Function.update_self _ _ _

omit [DecidableEq ν] in
theorem append_contents_of_ne {j : Nat} (h : j ≠ i) : (fs.append i bytes).contents j = fs.contents j :=
  Function.update_of_ne h _ _

omit [DecidableEq ν] in
theorem append_append (more : List β) : (fs.append i bytes).append i more = fs.append i (bytes ++ more) := by
  simp only [append, Function.update_idem, Function.update_self, List.append_assoc]

omit [DecidableEq ν] in
/-- A call that transfers all it is given. -/
theorem write_full (fd : Descriptor ν) {n : Nat} (h : bytes.length ≤ n) :
    fs.write fd bytes (some n) = (fs.append fd.inode bytes, (bytes.length : Int)) := by
  rw [write, List.take_of_length_le h]

omit [DecidableEq ν] in
@[simp] theorem write_inode (fd : Descriptor ν) (o : Option Nat) : (fs.write fd bytes o).1.inode = fs.inode := by
  cases o with
  | none => rfl
  | some n => rfl

omit [DecidableEq ν] in
theorem write_contents_self (fd : Descriptor ν) (o : Option Nat) :
    (fs.write fd bytes o).1.contents fd.inode = fs.contents fd.inode ++ sent bytes o := by
  cases o with
  | none => exact (List.append_nil _).symm
  | some n => exact append_contents_self fs fd.inode (bytes.take n)

omit [DecidableEq ν] in
/-- The result counts what was transferred. -/
theorem toNat_write_result (fd : Descriptor ν) (o : Option Nat) :
    (fs.write fd bytes o).2.toNat = (sent bytes o).length := by
  cases o with
  | none => rfl
  | some n => exact Int.toNat_natCast _

omit [DecidableEq ν] in
theorem write_contents_of_ne (fd : Descriptor ν) (o : Option Nat) {j : Nat} (h : j ≠ fd.inode) :
    (fs.write fd bytes o).1.contents j = fs.contents j := by
  cases o with
  | none => rfl
  | some n => exact append_contents_of_ne fs fd.inode (bytes.take n) h

@[simp] theorem create_inode_self : (fs.create p).inode p = some fs.next := Function.update_self _ _ _

theorem create_inode_of_ne {q : ν} (h : q ≠ p) : (fs.create p).inode q = fs.inode q :=
  Function.update_of_ne h _ _

@[simp] theorem create_contents_self : (fs.create p).contents fs.next = [] := Function.update_self _ _ _

theorem create_contents_of_ne {j : Nat} (h : j ≠ fs.next) : (fs.create p).contents j = fs.contents j :=
  Function.update_of_ne h _ _

@[simp] theorem remove_inode_self : (fs.remove p).inode p = none := Function.update_self _ _ _

theorem remove_inode_of_ne {q : ν} (h : q ≠ p) : (fs.remove p).inode q = fs.inode q :=
  Function.update_of_ne h _ _

end

/-! ### What is read afterwards -/

section
variable {fs : FileSystem ν β} {p q : ν} {i : Nat} {bytes : List β}

omit [DecidableEq ν] in
theorem read_of_inode (h : fs.inode p = some i) : fs.read p = some (fs.contents i) := by rw [read, h]; rfl

omit [DecidableEq ν] in
theorem read_eq_none_iff : fs.read p = none ↔ fs.inode p = none := by rw [read, Option.map_eq_none_iff]

omit [DecidableEq ν] in
theorem read_append_self (h : fs.inode p = some i) :
    (fs.append i bytes).read p = some (fs.contents i ++ bytes) := by
  rw [read_of_inode (show (fs.append i bytes).inode p = some i from h), append_contents_self]

omit [DecidableEq ν] in
/-- Only the file's own name shows the appended bytes. -/
theorem read_append_of_ne (h : fs.inode p ≠ some i) : (fs.append i bytes).read p = fs.read p := by
  cases hp : fs.inode p with
  | none => rw [read_eq_none_iff.mpr hp, read_eq_none_iff.mpr (show (fs.append i bytes).inode p = none from hp)]
  | some j =>
    have hji : j ≠ i := by
      intro he
      rw [hp, he] at h
      exact h rfl
    rw [read_of_inode hp, read_of_inode (show (fs.append i bytes).inode p = some j from hp),
      append_contents_of_ne _ _ _ hji]

omit [DecidableEq ν] in
theorem inode_ne_of_ne (h : fs.inode p = some i) (hne : q ≠ p) : fs.inode q ≠ some i :=
  fun hq => hne (fs.injective q p i hq h)

theorem read_create_self (fs : FileSystem ν β) (p : ν) : (fs.create p).read p = some [] := by
  rw [read_of_inode (create_inode_self fs p), create_contents_self]

theorem read_create_of_ne (h : q ≠ p) : (fs.create p).read q = fs.read q := by
  have hinode := create_inode_of_ne fs p h
  cases hq : fs.inode q with
  | none => rw [read_eq_none_iff.mpr hq, read_eq_none_iff.mpr (hinode.trans hq)]
  | some j =>
    have hj := fs.lt_next q j hq
    rw [read_of_inode hq, read_of_inode (hinode.trans hq), create_contents_of_ne _ _ (Nat.ne_of_lt hj)]

/-- Opening a file that is there changes nothing. -/
theorem openAppend_of_inode (h : fs.inode p = some i) : fs.openAppend p = (fs, ⟨p, i⟩) := by
  rw [openAppend]
  split
  · rename_i j hj
    cases h.symm.trans hj
    rfl
  · rename_i hnone
    cases h.symm.trans hnone

theorem openAppend_name (fs : FileSystem ν β) (p : ν) : (fs.openAppend p).2.name = p := by
  rw [openAppend]
  split <;> rfl

theorem openAppend_inode (fs : FileSystem ν β) (p : ν) :
    (fs.openAppend p).1.inode p = some (fs.openAppend p).2.inode := by
  rw [openAppend]
  split
  · assumption
  · exact create_inode_self fs p

/-- **An opened file holds what was read under its name, or nothing.** -/
theorem read_openAppend_self (fs : FileSystem ν β) (p : ν) :
    (fs.openAppend p).1.read p = some ((fs.read p).getD []) := by
  rw [openAppend]
  split
  · rw [read_of_inode ‹_›]
    rfl
  · rw [read_create_self, read_eq_none_iff.mpr ‹_›]
    rfl

theorem read_openAppend_of_ne (h : q ≠ p) : (fs.openAppend p).1.read q = fs.read q := by
  rw [openAppend]
  split
  · rfl
  · exact read_create_of_ne h

theorem contents_openAppend (fs : FileSystem ν β) (p : ν) :
    (fs.openAppend p).1.contents (fs.openAppend p).2.inode = (fs.read p).getD [] := by
  have hread := read_openAppend_self fs p
  rw [read_of_inode (openAppend_inode fs p)] at hread
  exact Option.some.inj hread

/-- **Bytes appended to an opened file** are read behind what its name showed. -/
theorem read_append_openAppend (fs : FileSystem ν β) (p q : ν) (bytes : List β) :
    ((fs.openAppend p).1.append (fs.openAppend p).2.inode bytes).read q =
      if q = p then some ((fs.read q).getD [] ++ bytes) else fs.read q := by
  have hinode := openAppend_inode fs p
  by_cases hq : q = p
  · rw [if_pos hq, hq, read_append_self hinode, contents_openAppend]
  · rw [if_neg hq, read_append_of_ne (inode_ne_of_ne hinode hq), read_openAppend_of_ne hq]

theorem openTruncate_inode (fs : FileSystem ν β) (p : ν) :
    (fs.openTruncate p).1.inode p = some (fs.openTruncate p).2.inode := by
  rw [openTruncate]
  split
  · assumption
  · exact create_inode_self fs p

omit [DecidableEq ν] in
theorem read_truncate_self (h : fs.inode p = some i) : (fs.truncate i).read p = some [] := by
  rw [read_of_inode (show (fs.truncate i).inode p = some i from h)]
  exact congrArg some (Function.update_self ..)

omit [DecidableEq ν] in
theorem read_truncate_of_ne (h : fs.inode q ≠ some i) : (fs.truncate i).read q = fs.read q := by
  cases hq : fs.inode q with
  | none => rw [read_eq_none_iff.mpr hq, read_eq_none_iff.mpr (show (fs.truncate i).inode q = none from hq)]
  | some j =>
    have hne : j ≠ i := fun he => h (he ▸ hq)
    rw [read_of_inode hq, read_of_inode (show (fs.truncate i).inode q = some j from hq)]
    exact congrArg some (Function.update_of_ne hne _ _)

/-- **A truncated file is empty**, and the others are as they were. -/
theorem read_openTruncate (fs : FileSystem ν β) (p q : ν) :
    (fs.openTruncate p).1.read q = if q = p then some [] else fs.read q := by
  rw [openTruncate]
  split
  · rename_i i hi
    by_cases hq : q = p
    · rw [if_pos hq, hq, read_truncate_self hi]
    · rw [if_neg hq, read_truncate_of_ne (inode_ne_of_ne hi hq)]
  · by_cases hq : q = p
    · rw [if_pos hq, hq, read_create_self]
    · rw [if_neg hq, read_create_of_ne hq]

/-- What holds of every file and of an empty one holds after an opening. -/
theorem forall_contents_openAppend {P : List β → Prop} (hnil : P []) (h : ∀ i, P (fs.contents i)) (p : ν) (i : Nat) :
    P ((fs.openAppend p).1.contents i) := by
  rw [openAppend]
  split
  · exact h i
  · by_cases hi : i = fs.next
    · rw [hi, create_contents_self]
      exact hnil
    · rw [create_contents_of_ne _ _ hi]
      exact h i

theorem rename_contents (fs : FileSystem ν β) (src dst : ν) : (fs.rename src dst).contents = fs.contents := by
  unfold rename
  split <;> rfl

theorem read_remove (fs : FileSystem ν β) (p q : ν) :
    (fs.remove p).read q = if q = p then none else fs.read q := by
  by_cases h : q = p
  · rw [if_pos h, h, read_eq_none_iff]
    exact remove_inode_self fs p
  · rw [if_neg h, read, remove_inode_of_ne _ _ h]
    rfl

theorem rename_of_none {src dst : ν} (h : fs.read src = none) : fs.rename src dst = fs := by
  unfold rename
  split
  · rename_i i hi
    rw [read_eq_none_iff.mp h] at hi
    cases hi
  · rfl

theorem rename_of_inode {src dst : ν} (h : fs.inode src = some i) : fs.rename src dst = fs.move src dst i h := by
  unfold rename
  split
  · rename_i j hj
    cases h.symm.trans hj
    rfl
  · rename_i hnone
    cases h.symm.trans hnone

/-- **A renamed file is read under its new name only.** -/
theorem read_rename {src dst : ν} (h : fs.read src ≠ none) (q : ν) :
    (fs.rename src dst).read q = if q = dst then fs.read src else if q = src then none else fs.read q := by
  obtain ⟨i, hi⟩ := Option.ne_none_iff_exists'.mp (mt read_eq_none_iff.mpr h)
  rw [rename_of_inode hi]
  by_cases hdst : q = dst
  · have hinode : (fs.move src dst i hi).inode q = some i := by
      rw [hdst]
      exact Function.update_self _ _ _
    rw [if_pos hdst, read_of_inode hi, read_of_inode hinode]
    rfl
  · have hinode : (fs.move src dst i hi).inode q = (fs.remove src).inode q := Function.update_of_ne hdst _ _
    rw [if_neg hdst, ← read_remove, read, hinode]
    rfl

end

end FileSystem
