import AttrTree.Proofs.Following
import AttrTree.Proofs.Operation

/-!
This module contains the calls of a volume as data, and runs of them. A run starts with a new store
that is not mounted yet, and goes on whether its calls succeed or fail.
-/

namespace AttrTree

open Action

namespace MemStore

def performAll : List Op → Action MemStore Unit
  | [] => pure ()
  | op :: ops => do
    op.perform
    performAll ops

theorem keeps_performAll {P : MemStore → Prop} {ops : List Op}
    (h : ∀ op ∈ ops, Keeps P op.perform) : Keeps P (performAll ops) := by
  induction ops with
  | nil => exact .pure ()
  | cons op ops ih =>
    exact .bind (h op (by simp)) fun _ => ih fun op hop => h op (List.mem_cons_of_mem _ hop)

theorem keptByAdding {P : MemStore → Prop} (hP : KeptByGains P) :
    KeptByAdding fun store : MemStore => store.Linked ∧ P store where
  lookup _ _ := .query _
  mkdir _ _ _ := hP.transact fun _ _ _ hok => gain_mkdir hok
  create _ _ _ := hP.transact fun _ _ _ hok => gain_create hok
  stat _ := .query _
  setAttr _ _ := hP.update fun _ _ h hok => gain_setAttr h hok
  readPage _ _ _ := .query _
  writePage := hP.writePageFaulty
  markPrivate _ := hP.update fun _ _ h hok => gain_markPrivate h hok
  locateEntry _ _ := .query _
  entryName := hP.entryNameMoving

theorem keptByCalls {P : MemStore → Prop} (hgains : KeptByGains P) (hlosses : KeptByLosses P) :
    KeptByCalls fun store : MemStore => store.Linked ∧ P store where
  toKeptByAdding := keptByAdding hgains
  unlink _ _ := hlosses.unlink
  rmdir _ _ hname := keeps_rmdirFaulty (fun store => hgains.of_objects_eq store rfl rfl)
    (hlosses.rmdir (.inl hname))

end MemStore

namespace Volume

/-- A call of a volume, an operation on the store behind its back, or a new volume over the same store. -/
inductive Op where
  | store (op : MemStore.Op)
  | renew (options : MountOptions) (cacheCapacity : Nat)
  | setOptions (options : MountOptions)
  | mount (flags : MountFlags)
  | getAttribute (registry : Registry) (obj : ObjectId) (name : String) (buffer : Buffer)
  | setAttribute (registry : Registry) (obj : ObjectId) (name : String) (value : Bytes)
      (flags : SetFlags)
  | removeAttribute (registry : Registry) (obj : ObjectId) (name : String)
  | listAttributes (registry : Registry) (obj : ObjectId) (buffer : Buffer)
  | readValue (obj : ObjectId) (name : String) (buffer : Buffer)
  | writeValue (obj : ObjectId) (name : String) (value : Bytes) (flags : SetFlags)
  | removeValue (obj : ObjectId) (name : String)
  | getHandled (handler : Handler) (obj : ObjectId) (name : String) (buffer : Buffer)
  | setHandled (handler : Handler) (obj : ObjectId) (name : String) (value : Option Bytes)
      (flags : SetFlags)
  | deleteAttributes (obj : ObjectId)
  | chownAttributes (obj : ObjectId) (change : AttrChange)
  | scan (dir : ObjectId) (position limit : Nat)
  | forEachEntry (dir : ObjectId) (visit : ScanItem → List MemStore.Op)

namespace Op

def perform : Op → Action (Volume MemStore) Unit
  | store op => onStore op.perform
  | renew options cacheCapacity => modify fun volume =>
    unmounted volume.store options cacheCapacity
  | setOptions options => modify (·.setOptions options)
  | mount flags => Volume.mount flags
  | getAttribute registry obj name buffer =>
    discard ((Volume.getAttribute registry obj name).withSecond buffer)
  | setAttribute registry obj name value flags => Volume.setAttribute registry obj name value flags
  | removeAttribute registry obj name => Volume.removeAttribute registry obj name
  | listAttributes registry obj buffer =>
    discard ((Volume.listAttributes registry obj).withSecond buffer)
  | readValue obj name buffer => discard ((Volume.readValue obj name).withSecond buffer)
  | writeValue obj name value flags => Volume.writeValue obj name value flags
  | removeValue obj name => Volume.removeValue obj name
  | getHandled handler obj name buffer => discard ((handler.getValue obj name).withSecond buffer)
  | setHandled handler obj name value flags => handler.setValue obj name value flags
  | deleteAttributes obj => Volume.deleteAttributes obj
  | chownAttributes obj change => Volume.chownAttributes obj change
  | scan dir position limit => discard (scanDirectory dir position limit)
  | forEachEntry dir visit =>
    (Volume.forEachEntry dir fun item =>
      Action.onFirst (onStore (MemStore.performAll (visit item)))).withSecond ()

def All (Q : MemStore.Op → Prop) : Op → Prop
  | store op => Q op
  | forEachEntry _ visit => ∀ item, ∀ op ∈ visit item, Q op
  | _ => True

def isCall : Op → Bool
  | store _ | renew .. | forEachEntry .. => false
  | _ => true

theorem follows_perform {f : DirCache → DirCache} {P : Volume MemStore → Prop}
    (hP : FollowedByManaging f P)
    (hwrite : ∀ obj name value flags, Follows (recached f) P (Volume.writeValue obj name value flags))
    (hdelete : ∀ obj, Follows (recached f) P (Volume.deleteAttributes obj)) {op : Op}
    (hcall : op.isCall = true) : Follows (recached f) P op.perform := by
  have hremoving := hP.toFollowedByRemoving
  have hreading := hP.toFollowedByReading
  cases op with
  | store op => cases hcall
  | renew options cacheCapacity => cases hcall
  | setOptions options =>
    exact .modify (fun _ _ => rfl) fun volume hs => hP.options volume options volume.aclFlag hs
  | mount flags => exact follows_mount hP flags
  | getAttribute registry obj name buffer =>
    exact (Follows.withSecond buffer (follows_getAttribute hreading registry obj name)).discard
  | setAttribute registry obj name value flags => exact follows_setAttribute hremoving hwrite ..
  | removeAttribute registry obj name => exact follows_removeAttribute hremoving ..
  | listAttributes registry obj buffer =>
    exact (Follows.withSecond buffer (follows_listAttributes hreading registry obj)).discard
  | readValue obj name buffer =>
    exact (Follows.withSecond buffer (follows_readValue hreading obj name)).discard
  | writeValue obj name value flags => exact hwrite ..
  | removeValue obj name => exact follows_removeValue hremoving ..
  | getHandled handler obj name buffer =>
    exact (Follows.withSecond buffer (follows_getValue hreading handler obj name)).discard
  | setHandled handler obj name value flags => exact follows_setValue hremoving hwrite ..
  | deleteAttributes obj => exact hdelete obj
  | chownAttributes obj change => exact follows_chownAttributes hP obj change
  | scan dir position limit =>
    exact (follows_scanDirectory hP.looking dir position limit).discard
  | forEachEntry dir visit => cases hcall

theorem keeps_perform {P : MemStore → Prop} {Q : MemStore.Op → Prop} (hP : KeptByCalls P)
    (hQ : ∀ op, Q op → Keeps P op.perform) {op : Op} (hop : op.All Q) :
    Keeps (fun volume => P volume.store) op.perform := by
  have hparts := followedByParts_store hP
  by_cases hcall : op.isCall = true
  . have hdelete := follows_deleteAttributes hparts.toFollowedByRemoving fun _ => hP.unlink
    exact (follows_perform hparts.managing (follows_writeValue hparts) hdelete hcall).keeps
  . cases op with
    | store op => exact .onStore (hQ op hop)
    | renew options cacheCapacity => exact .modify fun _ hs => hs
    | forEachEntry dir visit =>
      have hvisit (item : ScanItem) : Keeps P (MemStore.performAll (visit item)) :=
        MemStore.keeps_performAll fun op hmem => hQ op (hop item op hmem)
      have hscan := @follows_forEachEntry _ Unit id (fun volume => P volume.store) _ hparts.looking
        dir (fun item => onFirst (onStore (MemStore.performAll (visit item)))) fun _ _ item => .onFirst
          (follows_onStore fun _ => ⟨fun store hs => ⟨hs.1, (hvisit item).holds store hs.2⟩⟩)
      exact .withSecond () hscan.keeps
    | _ => exact absurd rfl hcall

end Op

def run (ops : List Op) (volume : Volume MemStore) : Volume MemStore :=
  ops.foldl (fun volume op => op.perform.after volume) volume

theorem headerSize_lt_sixtyFour : Record.headerSize < 64 := by
  decide

def initial (pageSize : Nat) (format : ObjectFormat) (h : Record.headerSize < pageSize)
    (options : MountOptions) (cacheCapacity : Nat) : Volume MemStore :=
  unmounted (.empty pageSize format h) options cacheCapacity

theorem run_append (ops ops' : List Op) (volume : Volume MemStore) :
    run (ops ++ ops') volume = run ops' (run ops volume) :=
  List.foldl_append

theorem run_of_keeps {P : Volume MemStore → Prop} {ops : List Op} {volume : Volume MemStore}
    (hops : ∀ op ∈ ops, Keeps P op.perform) (h : P volume) : P (run ops volume) := by
  induction ops generalizing volume with
  | nil => exact h
  | cons op ops ih =>
    exact ih (fun op' hop' => hops op' (List.mem_cons_of_mem _ hop')) ((hops op (by simp)).holds _ h)

theorem keeps_run {P : MemStore → Prop} (hgains : MemStore.KeptByGains P)
    (hlosses : MemStore.KeptByLosses P) (hErase : MemStore.KeptByErasure P) (ops : List Op)
    {volume : Volume MemStore} (hlinked : volume.store.Linked) (h : P volume.store) :
    (run ops volume).store.Linked ∧ P (run ops volume).store := by
  have hops : ∀ op ∈ ops, Keeps (fun volume => volume.store.Linked ∧ P volume.store) op.perform := by
    intro op _
    have hall : op.All fun _ => True := by
      cases op <;> simp [Op.All]
    refine Op.keeps_perform (MemStore.keptByCalls hgains hlosses) (fun op _ => ?_) hall
    exact op.keeps_of_keptByGains hgains (fun _ _ _ => hlosses.unlink) fun _ _ _ =>
      hlosses.rmdir (.inr hErase)
  exact run_of_keeps hops ⟨hlinked, h⟩

theorem linked_run (ops : List Op) {volume : Volume MemStore} (hlinked : volume.store.Linked) :
    (run ops volume).store.Linked :=
  (@keeps_run (fun _ => True) (fun _ _ _ _ h => h) (fun _ _ _ _ _ _ _ _ h => h)
    (fun _ _ _ _ h => h) ops _ hlinked trivial).1

theorem nextId_le_run (ops : List Op) {volume : Volume MemStore} (hlinked : volume.store.Linked) :
    volume.store.nextId ≤ (run ops volume).store.nextId := by
  have hP : MemStore.KeptBySteps (volume.store.nextId ≤ ·.nextId) := by
    intro store store' _ hstep hs
    exact Nat.le_trans hs hstep.nextId_le
  exact (keeps_run hP.gains hP.losses (fun _ _ _ _ hs => hs) ops hlinked (Nat.le_refl _)).2

section Aside

variable {σ : Type} [ObjectStore σ]

structure IsAside {σ : Type} (P : Volume σ → Prop) : Prop where
  store : ∀ ⦃volume⦄ store, P volume → P { volume with store }
  attrRoot : ∀ ⦃volume⦄ attrRoot, P volume → P { volume with attrRoot }
  cache : ∀ ⦃volume⦄ cache, P volume → P { volume with cache }
  options : ∀ ⦃volume⦄ options aclFlag, P volume → P { volume with options, aclFlag }
  privateRoot : ∀ ⦃volume⦄ id, volume.privateRoot = none → P volume → P { volume with privateRoot := some id }

namespace IsAside

variable {P : Volume σ → Prop} (hP : IsAside P)
include hP

omit [ObjectStore σ] in
theorem keeps {α : Type} (act : Action σ α) (volume : Volume σ) :
    Keeps (fun store => P { volume with store }) act :=
  ⟨fun store hs => @IsAside.store _ _ hP { volume with store } _ hs⟩

omit [ObjectStore σ] in
theorem onStore {α : Type} (act : Action σ α) : Keeps P (onStore act) :=
  keeps_onStore (hP.keeps act)

theorem keptByOpening (mayCreate : Bool) : KeptByOpening mayCreate P fun _ _ => True where
  known _ _ _ _ := trivial
  find volume _ _ _ _ := .mono (.of_keeps (hP.keeps _ volume) fun _ hs => hs) (fun _ hs => hs.1)
    fun _ _ hs => ⟨hs, trivial⟩
  attrRoot _ _ hs _ := hP.attrRoot _ hs
  cache _ _ hs _ := hP.cache _ hs

theorem openDirectory (stat : ObjectStat) (flags : SetFlags) : Keeps P (openDirectory stat flags) :=
  ((hP.keptByOpening _).openDirectory rfl).keeps fun _ _ hs => hs.1

theorem followedByParts : FollowedByParts id P where
  looking volume := by constructor <;> intros <;> exact hP.keeps _ volume
  findDirectory stat := .of_keeps (hP.openDirectory stat .looking)
  adding volume := by
    constructor
    . constructor <;> intros <;> exact hP.keeps _ volume
    all_goals intros; exact hP.keeps _ volume
  options _ _ _ hs := hP.options _ _ hs
  privateRoot volume _ id store hnone _ _ hs := @IsAside.privateRoot _ _ hP { volume with store } id hnone hs
  openDirectory stat flags := .of_keeps (hP.openDirectory stat flags)
  removeRecord stat name := .of_keeps (.bind (.ofExcept _) fun _ =>
    .bind (hP.openDirectory stat .looking) fun _ => hP.onStore _)
  prune stat dir := .of_keeps (.bind (hP.onStore _) fun _ => .ite (.pure ())
    (.bind (((hP.keptByOpening _).openAttrRoot).keeps fun _ _ hs => hs.1) fun _ =>
      .bind (.modify fun _ hs => hP.cache _ hs) fun _ => hP.onStore _))

end IsAside

theorem IsAside.perform {P : Volume MemStore → Prop} (hP : IsAside P) {op : Op}
    (hcall : op.isCall = true) : Keeps P op.perform := by
  have hparts := hP.followedByParts
  have hdelete := follows_deleteAttributes hparts.toFollowedByRemoving fun volume _ _ => hP.keeps _ volume
  exact (Op.follows_perform hparts.managing (follows_writeValue hparts) hdelete hcall).keeps

omit [ObjectStore σ] in
theorem isAside_privateRoot (priv : ObjectId) :
    IsAside fun volume : Volume σ => volume.privateRoot = some priv where
  store _ _ hs := hs
  attrRoot _ _ hs := hs
  cache _ _ hs := hs
  options _ _ _ hs := hs
  privateRoot _ _ hnone hs := by
    rw [hnone] at hs
    cases hs

def IsUnlocked (volume : Volume MemStore) : Prop :=
  volume.locks = .empty

omit [ObjectStore σ] in
theorem isAside_locks (locks : DirLocks) : IsAside fun volume : Volume σ => volume.locks = locks where
  store _ _ hs := hs
  attrRoot _ _ hs := hs
  cache _ _ hs := hs
  options _ _ _ hs := hs
  privateRoot _ _ _ hs := hs

theorem isAside_isUnlocked : IsAside IsUnlocked :=
  isAside_locks .empty

theorem Op.keeps_isUnlocked (op : Op) : Keeps IsUnlocked op.perform := by
  by_cases hcall : op.isCall = true
  . exact isAside_isUnlocked.perform hcall
  . cases op with
    | store op => exact isAside_isUnlocked.onStore _
    | renew options cacheCapacity => exact .modify fun _ _ => rfl
    | forEachEntry dir visit =>
      have hscan := @Volume.follows_forEachEntry _ Unit id IsUnlocked _ isAside_isUnlocked.followedByParts.looking dir
        (fun item => onFirst (Volume.onStore (MemStore.performAll (visit item)))) fun _ _ item => .onFirst
          (follows_onStore fun _ => ⟨fun _ hs => hs⟩)
      exact .withSecond () hscan.keeps
    | _ => exact absurd rfl hcall

theorem isUnlocked_run (ops : List Op) (h : volume.IsUnlocked) : (run ops volume).IsUnlocked :=
  run_of_keeps (fun op _ => op.keeps_isUnlocked) h

end Aside

end Volume

end AttrTree
