import AttrTree.Proofs.Run
import AttrTree.Proofs.Visits
import AttrTree.Store.Scripted

/-!
This module contains why locks on directories are exclusive and none is left behind. Whatever guards are
taken and dropped, a directory is locked as long as one guard is for it, and no two are. A scan holds its
directory as long as it goes on: the calls in `Watched`, which look at the lock at every visit, are those
that scan. However a call that scans ends, the locks are those from before.
-/

namespace AttrTree

namespace DirLocks

variable {locks locks' : DirLocks} {dir x : ObjectId}

theorem isLocked_unlock :
    (locks.unlock dir).isLocked x = true ↔ locks.isLocked x = true ∧ x ≠ dir := by
  simp [isLocked, unlock]

theorem lock?_eq_some_iff : locks.lock? dir = some locks' ↔
    ¬ locks.isLocked dir = true ∧ { held := dir :: locks.held } = locks' := by
  simp [lock?]

end DirLocks

namespace GuardedLocks

inductive Op where
  | acquire (dir : ObjectId) (holder : String)
  | release (holder : String)
  deriving DecidableEq, Repr

def Op.perform (table : GuardedLocks) : Op → GuardedLocks
  | acquire dir holder => (table.acquire? dir holder).getD table
  | release holder => table.release holder

def run (ops : List Op) (table : GuardedLocks) : GuardedLocks :=
  ops.foldl Op.perform table

variable {table table' : GuardedLocks} {dir x : ObjectId} {holder : String}

theorem lookup_filter (guards : List (String × ObjectId)) (holder h : String) :
    (guards.filter (·.1 != holder)).lookup h = if h = holder then none else guards.lookup h := by
  induction guards with
  | nil => simp
  | cons guard guards ih =>
    obtain ⟨name, dir⟩ := guard
    rw [List.filter_cons, List.lookup_cons]
    by_cases hname : name = holder
    . rw [if_neg (by simpa using hname), ih]
      split
      . rfl
      . next hh => rw [beq_eq_false_iff_ne.mpr (hname ▸ hh)]
    . rw [if_pos (by simpa using hname), List.lookup_cons, ih]
      by_cases hh : h = name
      . simp [hh, hname]
      . rw [beq_eq_false_iff_ne.mpr hh]

theorem guard?_release (table : GuardedLocks) (holder h : String) :
    (table.release holder).guard? h = if h = holder then none else table.guard? h := by
  unfold release
  split
  . next hnone =>
    split
    . next heq => rw [heq, hnone]
    . rfl
  . exact lookup_filter table.guards holder h

theorem isLocked_release : (table.release holder).locks.isLocked x = true ↔
    table.locks.isLocked x = true ∧ table.guard? holder ≠ some x := by
  unfold release
  split
  . next hnone => simp [hnone]
  . next dir hsome => rw [DirLocks.isLocked_unlock, hsome, ne_comm, Ne, Ne, Option.some_inj]

def locked (table : GuardedLocks) (dir : ObjectId) : GuardedLocks :=
  { table with locks := { held := dir :: table.locks.held } }

theorem isLocked_locked :
    (table.locked dir).locks.isLocked x = true ↔ x = dir ∨ table.locks.isLocked x = true := by
  simp [locked, DirLocks.isLocked]

theorem acquire?_eq_some_iff : table.acquire? dir holder = some table' ↔
    ¬ table.locks.isLocked dir = true ∧
      { (table.locked dir).release holder with
        guards := (holder, dir) :: ((table.locked dir).release holder).guards } = table' := by
  simp only [acquire?, Option.bind_eq_bind, Option.bind_eq_some_iff, DirLocks.lock?_eq_some_iff]
  constructor
  . rintro ⟨locks, ⟨hfree, rfl⟩, htable⟩
    exact ⟨hfree, Option.some_inj.mp htable⟩
  . rintro ⟨hfree, rfl⟩
    exact ⟨_, ⟨hfree, rfl⟩, rfl⟩

theorem guard?_acquire (h : table.acquire? dir holder = some table') (name : String) :
    table'.guard? name = if name = holder then some dir else table.guard? name := by
  obtain ⟨_, rfl⟩ := acquire?_eq_some_iff.mp h
  have hrest := guard?_release (table.locked dir) holder name
  unfold guard? at hrest ⊢
  rw [List.lookup_cons]
  by_cases hname : name = holder
  . simp [hname]
  . rw [beq_eq_false_iff_ne.mpr hname, if_neg hname]
    rw [if_neg hname] at hrest
    exact hrest

theorem isLocked_acquire (h : table.acquire? dir holder = some table') :
    table'.locks.isLocked x = true ↔
      (x = dir ∨ table.locks.isLocked x = true) ∧ table.guard? holder ≠ some x := by
  obtain ⟨_, rfl⟩ := acquire?_eq_some_iff.mp h
  exact isLocked_release.trans (and_congr_left' isLocked_locked)

structure IsExclusive (table : GuardedLocks) : Prop where
  locked_iff : ∀ dir, table.locks.isLocked dir = true ↔ ∃ holder, table.guard? holder = some dir
  holder_unique : ∀ ⦃dir holder holder'⦄, table.guard? holder = some dir →
    table.guard? holder' = some dir → holder = holder'

namespace IsExclusive

theorem release (h : table.IsExclusive) (holder : String) : (table.release holder).IsExclusive where
  locked_iff dir := by
    simp only [isLocked_release, guard?_release, h.locked_iff]
    constructor
    . rintro ⟨⟨name, hname⟩, hold⟩
      exact ⟨name, (if_neg fun heq : name = holder => hold (heq ▸ hname)).trans hname⟩
    . rintro ⟨name, hname⟩
      split at hname
      . cases hname
      . next hne => exact ⟨⟨name, hname⟩, fun hold => hne (h.holder_unique hname hold)⟩
  holder_unique dir name name' hname hname' := by
    rw [guard?_release] at hname hname'
    split at hname
    . cases hname
    . split at hname'
      . cases hname'
      . exact h.holder_unique hname hname'

theorem acquire (h : table.IsExclusive) (hacquire : table.acquire? dir holder = some table') :
    table'.IsExclusive := by
  have hfree : ¬ ∃ name, table.guard? name = some dir := by
    rw [← h.locked_iff]
    exact (acquire?_eq_some_iff.mp hacquire).1
  constructor
  . intro x
    simp only [isLocked_acquire hacquire, guard?_acquire hacquire, h.locked_iff]
    constructor
    . rintro ⟨rfl | ⟨name, hname⟩, hold⟩
      . exact ⟨holder, if_pos rfl⟩
      . exact ⟨name, (if_neg fun heq : name = holder => hold (heq ▸ hname)).trans hname⟩
    . rintro ⟨name, hname⟩
      split at hname
      . cases hname
        exact ⟨.inl rfl, fun hold => hfree ⟨_, hold⟩⟩
      . next hne => exact ⟨.inr ⟨name, hname⟩, fun hold => hne (h.holder_unique hname hold)⟩
  . intro x name name' hname hname'
    rw [guard?_acquire hacquire] at hname hname'
    split at hname
    . split at hname'
      . next heq heq' => rw [heq, heq']
      . cases hname
        exact absurd ⟨_, hname'⟩ hfree
    . split at hname'
      . cases hname'
        exact absurd ⟨_, hname⟩ hfree
      . exact h.holder_unique hname hname'

theorem perform (h : table.IsExclusive) (op : Op) : (op.perform table).IsExclusive := by
  cases op with
  | acquire dir holder =>
    cases hacquire : table.acquire? dir holder with
    | none => simpa [Op.perform, hacquire] using h
    | some table' => simpa [Op.perform, hacquire] using h.acquire hacquire
  | release holder => exact h.release holder

theorem run (h : table.IsExclusive) (ops : List Op) : (run ops table).IsExclusive := by
  induction ops generalizing table with
  | nil => exact h
  | cons op ops ih => exact ih (h.perform op)

end IsExclusive

end GuardedLocks

namespace Volume

open Action

variable {σ β : Type} [ObjectStore σ]
  {visit : ScanItem → Action (Volume σ × β) Unit}

def KeepsLocks (visit : ScanItem → Action (Volume σ × β) Unit) : Prop :=
  ∀ item s, ((visit item).after s).1.locks = s.1.locks

theorem isLocked_of_lock? {locks held : DirLocks} {dir : ObjectId} (h : locks.lock? dir = some held) :
    held.isLocked dir = true := by
  obtain ⟨_, rfl⟩ := DirLocks.lock?_eq_some_iff.mp h
  simp [DirLocks.isLocked]

omit [ObjectStore σ] in
theorem keepsLocks_onStore (act : ScanItem → Action σ Unit) :
    KeepsLocks (β := β) fun item => onFirst (onStore (act item)) :=
  fun item s => (Keeps.onFirst ((isAside_locks s.1.locks).onStore (act item))).holds s rfl

-- The calls that scan, where a visit fails unless its directory is locked.
namespace Watched

def notLocked : Error := ⟨.io, "directory is not locked"⟩

def whileLocked (dir : ObjectId) (visit : ScanItem → Action (Volume σ × β) Unit) (item : ScanItem) :
    Action (Volume σ × β) Unit := do
  if !(← get).1.locks.isLocked dir then
    throw notLocked
  visit item

def forEachEntry (dir : ObjectId) (visit : ScanItem → Action (Volume σ × β) Unit) :
    Action (Volume σ × β) Unit :=
  Volume.forEachEntry dir (whileLocked dir visit)

def listDirectory (registry : Registry) (dir : ObjectId) : Action (Volume σ × Listing) Nat := do
  forEachEntry dir fun item =>
    modify fun (volume, listing) => (volume, listEntry registry volume item.name listing)
  let listing := (← get).2
  if listing.overflows then
    throw listTooSmall
  return listing.length

def listAttributes (registry : Registry) (obj : ObjectId) : Action (Volume σ × Buffer) Nat := do
  match ← onFirst (listedDirectory? obj) with
  | none => return 0
  | some dir =>
    (listDirectory registry dir).focus (fun (volume, buffer) => (volume, { buffer, length := 0 }))
      fun (volume, listing) _ => (volume, listing.buffer)

def visitEntries (dir : ObjectId) (visit : String → Action σ Unit) : Action (Volume σ) Unit :=
  (forEachEntry dir fun item => onFirst (onStore (visit item.name))).withSecond ()

def deleteAttributes (obj : ObjectId) : Action (Volume σ) Unit := do
  let stat ← onStore (ObjectStore.stat obj)
  match ← bulkDirectory? stat with
  | none => return
  | some dir =>
    let removed ← (visitEntries dir (removeEntry dir)).attempt
    let pruned ← (prune stat dir).attempt
    Action.ofExcept removed
    Action.ofExcept pruned

def chownAttributes (obj : ObjectId) (change : AttrChange) : Action (Volume σ) Unit := do
  let stat ← onStore (ObjectStore.stat obj)
  match ← bulkDirectory? stat with
  | none => return
  | some dir =>
    let change := change.restricted .ownership
    visitEntries dir (chownEntry dir change)
    onStore (ObjectStore.setAttr dir change)

def scanDirectory (dir : ObjectId) (position limit : Nat) :
    Action (Volume σ) (List (Except Error (Option ScanItem) × Nat) × Scan) :=
  withLock dir fun volume =>
    if volume.locks.isLocked dir then
      let (items, scan, volume) := collectItems limit 2 (volume.scanAt dir position) volume
      .ok (items, scan) volume
    else
      .error notLocked volume

omit [ObjectStore σ] in
theorem whileLocked_eq {dir : ObjectId} {s : Volume σ × β} (h : s.1.locks.isLocked dir = true)
    (item : ScanItem) : whileLocked dir visit item s = visit item s := by
  simp only [whileLocked, bind_apply, get_apply, h, Bool.not_true, Bool.false_eq_true, if_false]

theorem visitItems_eq (hvisit : KeepsLocks visit) {dir : ObjectId} {held : DirLocks}
    (hheld : held.isLocked dir = true) (fuel : Nat) (scan : Scan) {s : Volume σ × β}
    (hs : s.1.locks = held) :
    visitItems (whileLocked dir visit) fuel scan s = visitItems visit fuel scan s := by
  induction fuel generalizing scan s with
  | zero => rfl
  | succ fuel ih =>
    have hnext := (follows_nextItem (P := fun rest : Volume σ => rest.locks = held) (f := id)
      (isAside_locks held).followedByParts.looking scan).keeps.holds s hs
    rw [visitItems, visitItems, bind_apply, bind_apply]
    cases hfound : nextItem scan s with
    | error e s' => rfl
    | ok found s' =>
      rw [after_of_ok hfound] at hnext
      obtain ⟨_ | item, scan'⟩ := found
      . rfl
      . have hlocked : s'.1.locks.isLocked dir = true := by rw [hnext, hheld]
        simp only [bind_apply, whileLocked_eq hlocked]
        have hafter := (hvisit item s').trans hnext
        cases hrun : visit item s' with
        | error e s'' => rfl
        | ok _ s'' =>
          rw [after_of_ok hrun] at hafter
          exact ih scan' hafter

theorem forEachEntry_eq (hvisit : KeepsLocks visit) (dir : ObjectId) :
    forEachEntry dir visit = Volume.forEachEntry dir visit := by
  funext ⟨volume, b⟩
  unfold forEachEntry
  cases hlock : volume.locks.lock? dir with
  | none => rw [forEachEntry_of_locked b hlock, forEachEntry_of_locked b hlock]
  | some held =>
    rw [Volume.forEachEntry_eq b hlock, Volume.forEachEntry_eq b hlock, thenAlways, thenAlways,
      visitItems_eq hvisit (isLocked_of_lock? hlock) _ _ rfl]

theorem visitEntries_eq (dir : ObjectId) (visit : String → Action σ Unit) :
    visitEntries dir visit = Volume.visitEntries dir visit := by
  unfold visitEntries Volume.visitEntries
  rw [forEachEntry_eq (keepsLocks_onStore fun item => visit item.name)]

theorem deleteAttributes_eq (obj : ObjectId) :
    deleteAttributes (σ := σ) obj = Volume.deleteAttributes obj := by
  simp only [deleteAttributes, visitEntries_eq]
  rfl

theorem chownAttributes_eq (obj : ObjectId) (change : AttrChange) :
    chownAttributes (σ := σ) obj change = Volume.chownAttributes obj change := by
  simp only [chownAttributes, visitEntries_eq]
  rfl

end Watched

end Volume

end AttrTree
