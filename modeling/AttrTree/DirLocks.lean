import AttrTree.Object.Key

/-!
This module contains the locks on directories. A directory is locked while it is scanned. The table
holds the locked directories; a guard stands for the right to unlock one.
-/

namespace AttrTree

structure DirLocks where
  held : List ObjectId
  deriving DecidableEq, Repr

namespace DirLocks

def empty : DirLocks where
  held := []

def isLocked (locks : DirLocks) (dir : ObjectId) : Bool :=
  locks.held.contains dir

def lock? (locks : DirLocks) (dir : ObjectId) : Option DirLocks :=
  if locks.isLocked dir then none else some { held := dir :: locks.held }

def unlock (locks : DirLocks) (dir : ObjectId) : DirLocks where
  held := locks.held.filter (· != dir)

theorem unlock_of_lock? {locks locks' : DirLocks} {dir : ObjectId}
    (h : locks.lock? dir = some locks') : locks'.unlock dir = locks := by
  unfold lock? at h
  split at h
  . simp at h
  . rename_i hfree
    injection h with h
    subst h
    simp only [isLocked, List.contains_eq_mem, decide_eq_true_eq] at hfree
    cases locks
    simp only [unlock, bne_self_eq_false, Bool.false_eq_true, not_false_eq_true,
      List.filter_cons_of_neg, mk.injEq, List.filter_eq_self]
    intro a ha
    simp only [bne_iff_ne, ne_eq]
    intro h
    exact hfree (h ▸ ha)

end DirLocks

structure GuardedLocks where
  locks : DirLocks
  guards : List (String × ObjectId)
  deriving DecidableEq, Repr

namespace GuardedLocks

def empty : GuardedLocks where
  locks := .empty
  guards := []

def guard? (table : GuardedLocks) (holder : String) : Option ObjectId :=
  table.guards.lookup holder

def release (table : GuardedLocks) (holder : String) : GuardedLocks :=
  match table.guard? holder with
  | none => table
  | some dir => {
      locks := table.locks.unlock dir
      guards := table.guards.filter (·.1 != holder)
    }

/-- Lock `dir` for `holder`. The guard that the holder had is dropped once the new one is taken, so a holder
cannot take the same directory again. -/
def acquire? (table : GuardedLocks) (dir : ObjectId) (holder : String) : Option GuardedLocks := do
  let locks ← table.locks.lock? dir
  let rest := { table with locks }.release holder
  return { rest with guards := (holder, dir) :: rest.guards }

end GuardedLocks

end AttrTree
