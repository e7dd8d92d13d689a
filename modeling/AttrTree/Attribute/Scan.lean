import AttrTree.Volume.Basic

/-!
This module contains the scan of a directory. It goes through the entries from the last to the
first. Between two entries it keeps nothing but a position, so the directory may change meanwhile:
an entry that is removed behind the scan or in front of it does no harm.
-/

namespace AttrTree

structure ScanItem where
  name : String
  slot : DirSlot
  deriving DecidableEq, Repr, Inhabited

structure Scan where
  dir : ObjectId
  /-- The largest offset that an entry still to come may have. -/
  position : Nat
  atRoot : Bool
  /-- The private root, which a scan of the root passes over. -/
  privateRoot : Option ObjectId
  finished : Bool
  deriving DecidableEq, Repr, Inhabited

inductive ScanStep where
  | done
  /-- The entry has moved before it could be read; it is looked for again. -/
  | moved
  | pass (offset : Nat)
  | item (item : ScanItem)
  deriving DecidableEq, Repr, Inhabited

namespace Scan

def directoryLocked : Error := ⟨.io, "directory is locked"⟩
def entriesKeepMoving : Error := ⟨.io, "directory entries keep moving"⟩

def hides (scan : Scan) (name : String) (slot : DirSlot) : Bool :=
  EntryName.maxSize < EntryName.size name
    || (scan.atRoot && (scan.privateRoot == some slot.target || name == Volume.privateRootName))

variable {σ : Type} [ObjectStore σ]

def look (scan : Scan) : Action σ ScanStep := do
  match ← ObjectStore.locateEntry scan.dir scan.position with
  | none => return .done
  | some slot =>
    if slot.offset ≤ Directory.parentOffset then
      return .done
    if !slot.visible then
      return .pass slot.offset
    match ← ObjectStore.entryName scan.dir slot with
    | none => return .moved
    | some name =>
      return if scan.hides name slot then .pass slot.offset else .item { name, slot }

def moveBefore (offset : Nat) (scan : Scan) : Scan :=
  { scan with position := offset - 1 }

def advance : (fuel : Nat) → Action (σ × Scan) (Option ScanItem)
  | 0 => throw entriesKeepMoving
  | fuel + 1 => do
    match ← Action.onFirst (look (← get).2) with
    | .done => return none
    | .moved => advance fuel
    | .pass offset =>
      modify fun (store, scan) => (store, scan.moveBefore offset)
      advance fuel
    | .item item =>
      modify fun (store, scan) => (store, scan.moveBefore item.slot.offset)
      return some item

/-- Enough for `advance` to pass every position and to meet every planned answer. -/
def fuel (store : σ) (scan : Scan) : Nat :=
  scan.position + ObjectStore.plannedAnswers store + 1

def next : Action (σ × Scan) (Option ScanItem) := fun (store, scan) =>
  if scan.finished then
    .ok none (store, scan)
  else
    match advance (scan.fuel store) (store, scan) with
    | .ok (some item) s => .ok (some item) s
    | .ok none (store, scan) => .ok none (store, { scan with finished := true })
    | .error e (store, scan) => .error e (store, { scan with finished := true })

end Scan

namespace Volume

variable {σ β α : Type} [ObjectStore σ]

def scanAt (volume : Volume σ) (dir : ObjectId) (position : Nat) : Scan where
  dir := dir
  position := position
  atRoot := dir == ObjectStore.root volume.store
  privateRoot := volume.privateRoot
  finished := false

def lockDirectory (dir : ObjectId) : Action (Volume σ) Unit := do
  let locks ← Action.ofOption Scan.directoryLocked ((← get).locks.lock? dir)
  modify fun volume => { volume with locks }

def unlockDirectory (dir : ObjectId) (volume : Volume σ) : Volume σ :=
  { volume with locks := volume.locks.unlock dir }

def withLock (dir : ObjectId) (act : Action (Volume σ) α) : Action (Volume σ) α := do
  lockDirectory dir
  act.thenAlways (unlockDirectory dir)

def withLockAnd (dir : ObjectId) (act : Action (Volume σ × β) α) : Action (Volume σ × β) α := do
  Action.onFirst (lockDirectory dir)
  act.thenAlways fun (volume, b) => (volume.unlockDirectory dir, b)

def nextItem (scan : Scan) : Action (Volume σ × β) (Option ScanItem × Scan) := fun (volume, b) =>
  match Scan.next (volume.store, scan) with
  | .ok item (store, scan) => .ok (item, scan) ({ volume with store }, b)
  | .error e (store, _) => .error e ({ volume with store }, b)

/-- Visit the items of a scan. Every item lowers `position`, so `Directory.lastOffset + 1` is enough fuel. -/
def visitItems (visit : ScanItem → Action (Volume σ × β) Unit) :
    (fuel : Nat) → Scan → Action (Volume σ × β) Unit
  | 0, _ => throw Scan.entriesKeepMoving
  | fuel + 1, scan => do
    match ← nextItem scan with
    | (none, _) => return
    | (some item, scan) =>
      visit item
      visitItems visit fuel scan

def forEachEntry (dir : ObjectId) (visit : ScanItem → Action (Volume σ × β) Unit) :
    Action (Volume σ × β) Unit :=
  withLockAnd dir do
    let scan := (← get).1.scanAt dir Directory.lastOffset
    visitItems visit (scan.position + 1) scan

/-- Ask a scan at most `limit` times, and no more once it has been at its end `ends` times. -/
def collectItems : (limit ends : Nat) → Scan →
    Volume σ → List (Except Error (Option ScanItem) × Nat) × Scan × Volume σ
  | 0, _, scan, volume => ([], scan, volume)
  | _, 0, scan, volume => ([], scan, volume)
  | limit + 1, ends + 1, scan, volume =>
    match Scan.next (volume.store, scan) with
    | .ok none (store, scan) =>
      let (items, last) := collectItems limit ends scan { volume with store }
      ((.ok none, scan.position) :: items, last)
    | .ok (some item) (store, scan) =>
      let (items, last) := collectItems limit (ends + 1) scan { volume with store }
      ((.ok (some item), scan.position) :: items, last)
    | .error e (store, scan) =>
      let (items, last) := collectItems limit (ends + 1) scan { volume with store }
      ((.error e, scan.position) :: items, last)

def scanDirectory (dir : ObjectId) (position limit : Nat) :
    Action (Volume σ) (List (Except Error (Option ScanItem) × Nat) × Scan) :=
  withLock dir fun volume =>
    let (items, scan, volume) := collectItems limit 2 (volume.scanAt dir position) volume
    .ok (items, scan) volume

end Volume

end AttrTree
