import BrLogger.Lib.FileSystem

/-!
# Changes confined to some of the names

Several programs use one file system, each under names of its own.  What one of
them does is `Confined` to its names when it leaves every other name bound as it
was, and the file behind it as it was, and lets no file go except to itself.
It may hold a file open that has lost its name: such a file is `Private`, and the
others keep it so.  Confined changes only let files grow.
-/

namespace FileSystem

variable {ν β : Type} {own : ν → Prop}

structure Confined (own : ν → Prop) (fs fs' : FileSystem ν β) : Prop where
  inode : ∀ p, ¬ own p → fs'.inode p = fs.inode p
  contents : ∀ p i, ¬ own p → fs.inode p = some i → fs'.contents i = fs.contents i
  origin : ∀ p i, own p → fs'.inode p = some i → fs.next ≤ i ∨ ∃ q, own q ∧ fs.inode q = some i
  next : fs.next ≤ fs'.next
  grows : ∀ i < fs.next, fs.contents i <+: fs'.contents i

/-- A file that nobody else has a name for. -/
def Private (own : ν → Prop) (fs : FileSystem ν β) (i : Nat) : Prop :=
  i < fs.next ∧ ∀ p, ¬ own p → fs.inode p ≠ some i

variable {fs fs' fs'' : FileSystem ν β} {p q : ν} {i : Nat}

namespace Confined

theorem refl (fs : FileSystem ν β) : Confined own fs fs :=
  ⟨fun _ _ => rfl, fun _ _ _ _ => rfl, fun p _ hp hi => Or.inr ⟨p, hp, hi⟩, Nat.le_refl _, fun _ _ => List.prefix_rfl⟩

theorem trans (h : Confined own fs fs') (h' : Confined own fs' fs'') : Confined own fs fs'' := by
  refine ⟨fun p hp => (h'.inode p hp).trans (h.inode p hp), ?_, ?_, Nat.le_trans h.next h'.next, ?_⟩
  · intro p i hp hi
    exact (h'.contents p i hp ((h.inode p hp).trans hi)).trans (h.contents p i hp hi)
  · intro p i hp hi
    rcases h'.origin p i hp hi with hle | ⟨q, hq, hqi⟩
    · exact Or.inl (Nat.le_trans h.next hle)
    · exact h.origin q i hq hqi
  · intro i hi
    exact (h.grows i hi).trans (h'.grows i (Nat.lt_of_lt_of_le hi h.next))

/-- What is read under another name. -/
theorem read_eq (h : Confined own fs fs') (hp : ¬ own p) : fs'.read p = fs.read p := by
  rw [read, read, h.inode p hp]
  cases hi : fs.inode p with
  | none => rfl
  | some i => exact congrArg some (h.contents p i hp hi)

/-- **A private file of one program stays private** whatever another one does. -/
theorem keeps_private {other : ν → Prop} (h : Confined other fs fs') (hdisjoint : ∀ p, other p → ¬ own p)
    (hi : fs.Private own i) : fs'.Private own i := by
  refine ⟨Nat.lt_of_lt_of_le hi.1 h.next, fun p hp hpi => ?_⟩
  by_cases hother : other p
  · rcases h.origin p i hother hpi with hle | ⟨q, hq, hqi⟩
    · exact Nat.not_lt_of_le hle hi.1
    · exact hi.2 q (hdisjoint q hq) hqi
  · rw [h.inode p hother] at hpi
    exact hi.2 p hp hpi

/-- A file of one's own stays private. -/
theorem private_self (h : Confined own fs fs') (hi : fs.Private own i) : fs'.Private own i := by
  refine ⟨Nat.lt_of_lt_of_le hi.1 h.next, fun p hp hpi => ?_⟩
  rw [h.inode p hp] at hpi
  exact hi.2 p hp hpi

end Confined

/-! ### The operations -/

/-- Bytes behind a private file. -/
theorem confined_append (hi : fs.Private own i) (bytes : List β) : Confined own fs (fs.append i bytes) := by
  refine ⟨fun _ _ => rfl, ?_, fun p _ hp hj => Or.inr ⟨p, hp, hj⟩, Nat.le_refl _, ?_⟩
  · intro p j hp hj
    exact append_contents_of_ne fs i bytes (by rintro rfl; exact hi.2 p hp hj)
  · intro j _
    by_cases hj : j = i
    · rw [hj, append_contents_self]
      exact List.prefix_append _ _
    · exact (append_contents_of_ne fs i bytes hj).symm ▸ List.prefix_rfl

theorem confined_write (fd : Descriptor ν) (hi : fs.Private own fd.inode) (bytes : List β) (o : Option Nat) :
    Confined own fs (fs.write fd bytes o).1 := by
  cases o with
  | none => exact .refl fs
  | some n => exact confined_append hi _

theorem private_of_inode (hp : own p) (hi : fs.inode p = some i) : fs.Private own i :=
  ⟨fs.lt_next p i hi, fun q hq => inode_ne_of_ne hi (by rintro rfl; exact hq hp)⟩

variable [DecidableEq ν]

theorem confined_create (hp : own p) : Confined own fs (fs.create p) := by
  have hne : ∀ q, ¬ own q → q ≠ p := by
    rintro q hq rfl
    exact hq hp
  refine ⟨fun q hq => create_inode_of_ne fs p (hne q hq), ?_, ?_, Nat.le_succ _, ?_⟩
  · intro q i _ hi
    exact create_contents_of_ne fs p (Nat.ne_of_lt (fs.lt_next q i hi))
  · intro q i hq hi
    by_cases hqp : q = p
    · have hself : (fs.create p).inode p = some fs.next := Function.update_self _ _ _
      rw [hqp, hself] at hi
      exact Or.inl (Nat.le_of_eq (Option.some.inj hi))
    · rw [create_inode_of_ne fs p hqp] at hi
      exact Or.inr ⟨q, hq, hi⟩
  · intro i hi
    exact (create_contents_of_ne fs p (Nat.ne_of_lt hi)).symm ▸ List.prefix_rfl

theorem confined_openAppend (fs : FileSystem ν β) (hp : own p) :
    Confined own fs (fs.openAppend p).1 ∧ (fs.openAppend p).1.Private own (fs.openAppend p).2.inode := by
  refine ⟨?_, private_of_inode hp (openAppend_inode fs p)⟩
  rw [openAppend]
  split
  · exact .refl fs
  · exact confined_create hp

theorem confined_remove (hp : own p) : Confined own fs (fs.remove p) := by
  refine ⟨fun q hq => remove_inode_of_ne fs p (by rintro rfl; exact hq hp), fun _ _ _ _ => rfl, ?_, Nat.le_refl _,
    fun _ _ => List.prefix_rfl⟩
  intro q i hq hi
  exact Or.inr ⟨q, hq, (inode_of_update_none hi).2⟩

theorem confined_rename (hp : own p) (hq : own q) : Confined own fs (fs.rename p q) := by
  cases hi : fs.inode p with
  | none =>
    rw [rename_of_none (read_eq_none_iff.mpr hi)]
    exact .refl fs
  | some i =>
    rw [rename_of_inode hi]
    refine ⟨?_, fun _ _ _ _ => rfl, ?_, Nat.le_refl _, fun _ _ => List.prefix_rfl⟩
    · intro r hr
      have hrp : r ≠ p := by rintro rfl; exact hr hp
      have hrq : r ≠ q := by rintro rfl; exact hr hq
      exact (Function.update_of_ne hrq _ _).trans (Function.update_of_ne hrp _ _)
    · intro r j hr hj
      by_cases hrq : r = q
      · have hself : (fs.move p q i hi).inode q = some i := Function.update_self _ _ _
        rw [hrq, hself] at hj
        cases hj
        exact Or.inr ⟨p, hp, hi⟩
      · have hother : (fs.move p q i hi).inode r = Function.update fs.inode p none r := Function.update_of_ne hrq _ _
        rw [hother] at hj
        exact Or.inr ⟨r, hr, (inode_of_update_none hj).2⟩

end FileSystem
