import AttrTree.Proofs.Gain

/-!
This module contains the operations of the store in memory as data, so that one can speak of all their
runs, and the rule for what the calls through the store interface keep.
-/

namespace AttrTree

namespace MemStore

/-- An operation of `MemStore`, those that only look left out. -/
inductive Op where
  | create (parent : ObjectId) (name : String) (mode : UInt32)
  | mkdir (parent : ObjectId) (name : String) (mode : UInt32)
  | link (target parent : ObjectId) (name : String)
  | unlink (parent : ObjectId) (name : String)
  | rmdir (parent : ObjectId) (name : String)
  | setAttr (id : ObjectId) (change : AttrChange)
  | writePage (id : ObjectId) (index offset : Nat) (data : Bytes)
  | markPrivate (id : ObjectId)
  | setFormat (id : ObjectId) (format : ObjectFormat)
  | setVisible (parent : ObjectId) (name : String) (visible : Bool)
  | entryName (parent : ObjectId) (slot : DirSlot)
  | planMoves (count : Nat)
  | planWriteFault (count : Nat)
  | planRmdirFault
  deriving DecidableEq, Repr

namespace Op

def perform : Op → Action MemStore Unit
  | create parent name mode => discard (.transact (·.create parent name mode))
  | mkdir parent name mode => discard (.transact (·.mkdir parent name mode))
  | link target parent name => .update (·.link target parent name)
  | unlink parent name => .update (·.unlink parent name)
  | rmdir parent name => rmdirFaulty parent name
  | setAttr id change => .update (·.setAttr id change)
  | writePage id index offset data => writePageFaulty id index offset data
  | markPrivate id => .update (·.markPrivate id)
  | setFormat id format => .update (·.setFormat id format)
  | setVisible parent name visible => .update (·.setVisible parent name visible)
  | entryName parent slot => discard (entryNameMoving parent slot)
  | planMoves count => modify (·.planMoves count)
  | planWriteFault count => modify (·.planWriteFault count)
  | planRmdirFault => modify (·.planRmdirFault)

def SparesLinks : Op → Prop
  | rmdir _ name => EntryName.isDots name = false
  | _ => True

end Op

variable {P : MemStore → Prop}

def KeptBySteps (P : MemStore → Prop) : Prop :=
  ∀ {store store' : MemStore}, store.Linked → store.Step store' → P store → P store'

def KeptByGains (P : MemStore → Prop) : Prop :=
  ∀ ⦃store store' : MemStore⦄, store.Linked → store.Gain store' → P store → P store'

def KeptByLosses (P : MemStore → Prop) : Prop :=
  ∀ ⦃store : MemStore⦄ ⦃parent : ObjectId⦄ ⦃owner target : MemObject⦄ ⦃dir : Directory⦄
    ⦃e : DirEntry⦄, store.Linked → store.IsLeaf parent owner dir e target → P store →
    P (store.detach parent e target)

def KeptByErasure (P : MemStore → Prop) : Prop :=
  ∀ {store : MemStore} {parent : ObjectId} {owner : MemObject} {dir : Directory}, store.Linked →
    store.object? parent = some owner → owner.body = .directory dir → dir.ordinary = [] →
    P store → P (store.eraseObject parent)

theorem KeptBySteps.gains (hP : KeptBySteps P) : KeptByGains P :=
  fun _ _ hlinked hgain => hP hlinked hgain.step

theorem KeptBySteps.losses (hP : KeptBySteps P) : KeptByLosses P :=
  fun _ _ _ _ _ _ hlinked hleaf => hP hlinked (.detach hleaf)

section Faults

open Action

theorem keeps_rmdirFaulty {parent : ObjectId} {name : String}
    (hplan : ∀ store : MemStore, P store → P { store with rmdirFault := false })
    (hrmdir : Keeps P (Action.update (·.rmdir parent name))) :
    Keeps P (rmdirFaulty parent name) := by
  refine ⟨fun store hs => ?_⟩
  by_cases hfault : store.rmdirFault = true
  . have hrun : MemStore.rmdirFaulty parent name store =
        .error injectedRmdirFault { store with rmdirFault := false } := by
      simp [MemStore.rmdirFaulty, hfault]
    rw [after_of_error hrun]
    exact hplan store hs
  . have hrun : MemStore.rmdirFaulty parent name store =
        Action.update (·.rmdir parent name) store := by
      simp [MemStore.rmdirFaulty, hfault]
    rw [after_congr hrun]
    exact hrmdir.holds store hs

theorem keeps_writePageFaulty {id : ObjectId} {index offset : Nat} {data : Bytes}
    (hplan : ∀ (store : MemStore) fault, P store → P { store with writeFault := fault })
    (hwrite : Keeps P (Action.update (·.writePage id index offset data))) :
    Keeps P (writePageFaulty id index offset data) := by
  refine ⟨fun store hs => ?_⟩
  by_cases hpage : store.pageSize < offset + data.length
  . have hrun : MemStore.writePageFaulty id index offset data store =
        .error pageBoundary store := by
      simp [MemStore.writePageFaulty, hpage]
    rw [after_of_error hrun]
    exact hs
  . cases hfault : store.writeFault with
    | none =>
      have hrun : MemStore.writePageFaulty id index offset data store =
          Action.update (·.writePage id index offset data) store := by
        simp [MemStore.writePageFaulty, hpage, hfault]
      rw [after_congr hrun]
      exact hwrite.holds store hs
    | some count =>
      cases count with
      | zero =>
        have hrun : MemStore.writePageFaulty id index offset data store =
            .error injectedWriteFault { store with writeFault := none } := by
          simp [MemStore.writePageFaulty, hpage, hfault]
        rw [after_of_error hrun]
        exact hplan store none hs
      | succ count =>
        have hrun : MemStore.writePageFaulty id index offset data store =
            Action.update (·.writePage id index offset data)
              { store with writeFault := some count } := by
          simp [MemStore.writePageFaulty, hpage, hfault]
        rw [after_congr hrun]
        exact hwrite.holds _ (hplan store (some count) hs)

theorem keeps_entryNameMoving
    (hplan : ∀ (store : MemStore) moves, P store → P { store with pendingMoves := moves })
    (parent : ObjectId) (slot : DirSlot) : Keeps P (entryNameMoving parent slot) := by
  refine ⟨fun store hs => ?_⟩
  cases hmoves : store.pendingMoves with
  | zero =>
    have hrun : MemStore.entryNameMoving parent slot store =
        Action.query (·.entryName parent slot) store := by
      simp [MemStore.entryNameMoving, hmoves]
    rw [after_congr hrun]
    have hquery : Keeps P (Action.query (·.entryName parent slot)) := .query _
    exact hquery.holds store hs
  | succ moves =>
    have hrun : MemStore.entryNameMoving parent slot store =
        .ok none { store with pendingMoves := moves } := by
      simp [MemStore.entryNameMoving, hmoves]
    rw [after_of_ok hrun]
    exact hplan store moves hs

end Faults

section Gains

open Action

variable (hP : KeptByGains P)
include hP

theorem KeptByGains.update {change : MemStore → Except Error MemStore}
    (hgain : ∀ store store' : MemStore, store.Linked → change store = .ok store' →
      store.Gain store') : Keeps (fun store => store.Linked ∧ P store) (Action.update change) := by
  apply Keeps.update
  rintro store store' hok ⟨h, hs⟩
  have hgain := hgain store store' h hok
  exact ⟨h.step hgain.step, hP h hgain hs⟩

theorem KeptByGains.transact {α : Type} {change : MemStore → Except Error (α × MemStore)}
    (hgain : ∀ (store : MemStore) a store', change store = .ok (a, store') → store.Gain store') :
    Keeps (fun store => store.Linked ∧ P store) (Action.transact change) := by
  apply Keeps.transact
  rintro store a store' hok ⟨h, hs⟩
  have hgain := hgain store a store' hok
  exact ⟨h.step hgain.step, hP h hgain hs⟩

theorem KeptByGains.of_objects_eq (store : MemStore) {store' : MemStore}
    (hobjects : store'.objects = store.objects) (hnext : store'.nextId = store.nextId)
    (h : store.Linked ∧ P store) : store'.Linked ∧ P store' :=
  ⟨h.1.of_sameLinks (.of_objects_eq hobjects hnext), hP h.1 (.of_objects_eq hobjects hnext) h.2⟩

theorem KeptByGains.writePageFaulty (id : ObjectId) (index offset : Nat) (data : Bytes) :
    Keeps (fun store => store.Linked ∧ P store) (writePageFaulty id index offset data) :=
  keeps_writePageFaulty (fun store _ hs => hP.of_objects_eq store rfl rfl hs)
    (hP.update fun _ _ h hok => gain_writePage h hok)

theorem KeptByGains.entryNameMoving (parent : ObjectId) (slot : DirSlot) :
    Keeps (fun store => store.Linked ∧ P store) (entryNameMoving parent slot) :=
  keeps_entryNameMoving (fun store _ hs => by exact hP.of_objects_eq store rfl rfl hs) parent slot

end Gains

section Losses

open Action

variable {parent : ObjectId} {name : String}

theorem KeptByLosses.unlink (hP : KeptByLosses P) :
    Keeps (fun store => store.Linked ∧ P store) (Action.update (·.unlink parent name)) := by
  apply Keeps.update
  rintro store store' hok ⟨h, hs⟩
  obtain ⟨owner, dir, e, target, hleaf, _, _, rfl⟩ := h.unlink_cases hok
  exact ⟨h.detach hleaf, hP h hleaf hs⟩

theorem KeptByLosses.rmdir (hP : KeptByLosses P)
    (hname : EntryName.isDots name = false ∨ KeptByErasure P) :
    Keeps (fun store => store.Linked ∧ P store) (Action.update (·.rmdir parent name)) := by
  apply Keeps.update
  rintro store store' hok ⟨h, hs⟩
  rcases h.rmdir_cases hok with
    ⟨hdots, owner, dir, howner, hbody, hempty, rfl⟩ | ⟨_, owner, dir, e, target, hleaf, _, _, rfl⟩
  . refine ⟨h.eraseObject howner hbody hempty, ?_⟩
    obtain hname | hErase := hname
    . rw [hname] at hdots
      cases hdots
    . exact hErase h howner hbody hempty hs
  . exact ⟨h.detach hleaf, hP h hleaf hs⟩

end Losses

open Action in
theorem Op.keeps_of_keptByGains (hP : KeptByGains P) {op : Op}
    (hunlink : ∀ parent name, op = .unlink parent name →
      Keeps (fun store => store.Linked ∧ P store) (Action.update (·.unlink parent name)))
    (hrmdir : ∀ parent name, op = .rmdir parent name →
      Keeps (fun store => store.Linked ∧ P store) (Action.update (·.rmdir parent name))) :
    Keeps (fun store => store.Linked ∧ P store) op.perform := by
  have hplan {store store' : MemStore} (hobjects : store'.objects = store.objects)
      (hnext : store'.nextId = store.nextId) (hs : store.Linked ∧ P store) :
      store'.Linked ∧ P store' :=
    hP.of_objects_eq store hobjects hnext hs
  cases op with
  | create parent name mode =>
    exact .bind (hP.transact fun _ _ _ hok => gain_create hok) fun _ => .pure _
  | mkdir parent name mode =>
    exact .bind (hP.transact fun _ _ _ hok => gain_mkdir hok) fun _ => .pure _
  | link target parent name => exact hP.update fun _ _ _ hok => gain_link hok
  | unlink parent name => exact hunlink parent name rfl
  | rmdir parent name => exact keeps_rmdirFaulty (fun _ => hplan rfl rfl) (hrmdir parent name rfl)
  | setAttr id change => exact hP.update fun _ _ h hok => gain_setAttr h hok
  | writePage id index offset data => exact hP.writePageFaulty id index offset data
  | markPrivate id => exact hP.update fun _ _ h hok => gain_markPrivate h hok
  | setFormat id format => exact hP.update fun _ _ h hok => gain_setFormat h hok
  | setVisible parent name visible => exact hP.update fun _ _ h hok => gain_setVisible h hok
  | entryName parent slot => exact .bind (hP.entryNameMoving parent slot) fun _ => .pure _
  | planMoves count => exact .modify fun _ => hplan rfl rfl
  | planWriteFault count => exact .modify fun _ => hplan rfl rfl
  | planRmdirFault => exact .modify fun _ => hplan rfl rfl

theorem Op.keeps_of_keptBySteps (hP : KeptBySteps P) {op : Op}
    (hop : op.SparesLinks ∨ KeptByErasure P) :
    Action.Keeps (fun store => store.Linked ∧ P store) op.perform := by
  have hlosses : KeptByLosses P := hP.losses
  refine op.keeps_of_keptByGains hP.gains (fun _ _ _ => hlosses.unlink) fun parent name heq => ?_
  subst heq
  exact hlosses.rmdir hop

end MemStore

end AttrTree
