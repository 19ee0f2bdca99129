import Mathlib.Data.Nat.Notation
import Mathlib.Logic.Function.Basic

/-!
# Locked files

Files that are opened by their names and locked by their inodes.  A name can be
unlinked and created again while clients still have the old inode open; an inode
has at most one client that holds its exclusive lock.
-/

namespace FileBelt.Support

open Function (update update_of_ne update_self)

/-- The inode of each name and the client that holds the lock of each inode. -/
structure LockFiles (ν κ : Type) where
  link : ν → Option ℕ
  next : ℕ
  holder : ℕ → Option κ
  link_lt : ∀ x i, link x = some i → i < next

namespace LockFiles

variable {ν κ : Type} [DecidableEq ν] [DecidableEq κ]

/-- `open` with `O_CREAT`: the inode of a name, which is created if it is missing. -/
def openCreate (files : LockFiles ν κ) (x : ν) : ℕ × LockFiles ν κ :=
  match files.link x with
  | some i => (i, files)
  | none => (files.next, {
      link := update files.link x (some files.next)
      next := files.next + 1
      holder := files.holder
      link_lt := by
        intro y i hy
        by_cases hx : y = x
        · rw [hx, update_self] at hy
          exact Option.some.inj hy ▸ Nat.lt_succ_self _
        · rw [update_of_ne hx] at hy
          exact Nat.lt_succ_of_lt (files.link_lt y i hy) })

def unlink (files : LockFiles ν κ) (x : ν) : LockFiles ν κ where
  link := update files.link x none
  next := files.next
  holder := files.holder
  link_lt y i hy := by
    by_cases hx : y = x
    · rw [hx, update_self] at hy
      cases hy
    · rw [update_of_ne hx] at hy
      exact files.link_lt y i hy

/-- `flock`, which waits while another client holds the lock. -/
def lock (files : LockFiles ν κ) (client : κ) (i : ℕ) : Option (LockFiles ν κ) :=
  match files.holder i with
  | some _ => none
  | none => some { files with holder := update files.holder i (some client) }

/-- Closing an open file releases the lock that was taken through it. -/
def close (files : LockFiles ν κ) (client : κ) (i : ℕ) : LockFiles ν κ :=
  if files.holder i = some client then
    { files with holder := update files.holder i none }
  else files

section

variable {files files' : LockFiles ν κ} {x y : ν} {i j : ℕ} {client other : κ}

omit [DecidableEq κ] in
@[simp]
theorem holder_openCreate (files : LockFiles ν κ) (x : ν) :
    (files.openCreate x).2.holder = files.holder := by
  unfold openCreate
  split <;> rfl

omit [DecidableEq κ] in
theorem link_openCreate_self (files : LockFiles ν κ) (x : ν) :
    (files.openCreate x).2.link x = some (files.openCreate x).1 := by
  unfold openCreate
  split
  · next hlink => exact hlink
  · exact update_self _ _ _

omit [DecidableEq κ] in
theorem link_openCreate (x : ν) (h : files.link y = some i) :
    (files.openCreate x).2.link y = some i := by
  unfold openCreate
  split
  · exact h
  · next hnone =>
    have hne : y ≠ x := by
      rintro rfl
      rw [h] at hnone
      cases hnone
    exact (update_of_ne hne _ _).trans h

omit [DecidableEq κ] in
theorem link_unlink_of_ne (files : LockFiles ν κ) (h : y ≠ x) :
    (files.unlink x).link y = files.link y :=
  update_of_ne h _ _

omit [DecidableEq ν] [DecidableEq κ] in
theorem lock_eq_some (h : files.lock client i = some files') :
    files.holder i = none ∧ files'.link = files.link ∧
      files'.holder = update files.holder i (some client) := by
  unfold lock at h
  split at h
  · cases h
  · next hnone =>
    obtain rfl := Option.some.inj h
    exact ⟨hnone, rfl, rfl⟩

omit [DecidableEq ν] [DecidableEq κ] in
theorem holder_lock (h : files.lock client i = some files')
    (hj : files.holder j = some other) : files'.holder j = some other := by
  obtain ⟨hnone, -, hholder⟩ := lock_eq_some h
  have hne : j ≠ i := by
    rintro rfl
    rw [hj] at hnone
    cases hnone
  rw [hholder, update_of_ne hne]
  exact hj

omit [DecidableEq ν] [DecidableEq κ] in
theorem holder_lock_self (h : files.lock client i = some files') :
    files'.holder i = some client := by
  rw [(lock_eq_some h).2.2]
  exact update_self _ _ _

omit [DecidableEq ν] in
@[simp]
theorem link_close (files : LockFiles ν κ) (client : κ) (i : ℕ) :
    (files.close client i).link = files.link := by
  unfold close
  split <;> rfl

omit [DecidableEq ν] in
theorem holder_close (hj : files.holder j = some other)
    (hne : other ≠ client ∨ j ≠ i) : (files.close client i).holder j = some other := by
  unfold close
  split
  · next hheld =>
    have hji : j ≠ i := by
      rintro rfl
      rcases hne with hother | hinode
      · exact hother (Option.some.inj (hj.symm.trans hheld))
      · exact hinode rfl
    exact (update_of_ne hji _ _).trans hj
  · exact hj

end

end LockFiles

end FileBelt.Support
