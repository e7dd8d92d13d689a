import AttrTree.Proofs.Bulk
import AttrTree.Proofs.Run

/-!
This module contains the operations on the store that have nothing to do with the private tree. They
leave the tree as it is, whatever they do to the rest, so a volume in order does not notice them.
-/

namespace AttrTree

def Body.child? (body : Body) (n : String) : Option ObjectId :=
  body.directory?.bind fun d => (d.find? n).map (·.target)

theorem Directory.find?_setVisible (d : Directory) (offset : Nat) (visible : Bool) (n : String) :
    ((d.setVisible offset visible).find? n).map (·.target) = (d.find? n).map (·.target) := by
  unfold find? setVisible
  induction d.entries with
  | nil => rfl
  | cons e entries ih =>
    by_cases hoffset : e.offset = offset
    . by_cases hname : e.name = n
      . simp [hoffset, hname]
      . simpa [hoffset, hname] using ih
    . by_cases hname : e.name = n
      . simp [hoffset, hname]
      . simpa [hoffset, hname] using ih

namespace MemObject

theorem child?_apply (change : AttrChange) (object : MemObject) (n : String) :
    (object.apply change).body.child? n = object.body.child? n := by
  simp only [apply]
  split
  . cases object.body <;> rfl
  . rfl

theorem child?_write (start : Nat) (data : Bytes) (body : Body) (n : String) :
    (body.write start data).child? n = body.child? n := by
  cases body <;> rfl

theorem child?_setVisible (offset : Nat) (visible : Bool) (object : MemObject) (n : String) :
    (object.mapDirectory (·.setVisible offset visible)).body.child? n = object.body.child? n := by
  unfold mapDirectory
  split
  . rfl
  . next d hbody => simp [hbody, Body.child?, Body.directory?, Directory.find?_setVisible]

end MemObject

namespace MemStore

variable {store store' : MemStore} {priv id parent target : ObjectId} {name n : String}
  {owner object : MemObject} {d : Directory} {e : DirEntry}

def Op.Spares (store : MemStore) (priv : ObjectId) : Op → Prop
  | create parent _ _ => ¬ store.InTree priv parent
  | mkdir parent _ _ => ¬ store.InTree priv parent
  | link target parent _ => ¬ store.InTree priv target ∧ ¬ store.InTree priv parent
  | unlink parent name =>
    ¬ store.InTree priv parent ∧ ¬ (parent = rootId ∧ name = Volume.privateRootName)
  | rmdir parent name =>
    ¬ store.InTree priv parent ∧ ¬ (parent = rootId ∧ name = Volume.privateRootName)
  | setAttr id _ => ¬ store.InTree priv id
  | writePage id _ _ _ => ¬ store.InTree priv id
  | markPrivate id => ¬ store.InTree priv id
  | setFormat id _ => ¬ store.InTree priv id
  | setVisible parent _ _ => ¬ store.InTree priv parent
  | entryName parent _ => ¬ store.InTree priv parent
  | planMoves _ => True
  | planWriteFault _ => False
  | planRmdirFault => False

structure Spared (store store' : MemStore) (priv : ObjectId) : Prop where
  kept : store.KeepsTree store' priv
  tidy : store'.Tidy priv
  keys : store.KeepsKeys store'

theorem child?_eq (store : MemStore) (id : ObjectId) (n : String) :
    store.child? id n = (store.object? id).bind (·.body.child? n) := by
  simp [MemStore.child?, MemStore.directory?, Body.child?, Option.bind_assoc]

theorem child?_mapObject_setVisible (store : MemStore) (id : ObjectId) (offset : Nat) (visible : Bool) (x : ObjectId)
    (n : String) :
    (store.mapObject id (·.mapDirectory (·.setVisible offset visible))).child? x n = store.child? x n := by
  rw [child?_eq, object?_mapObject _ _ (MemObject.id_mapDirectory _), child?_eq]
  split
  . simp only [Option.bind_map, Function.comp_def, MemObject.child?_setVisible]
  . rfl

theorem child?_addLink (htarget : store.object? target = some object)
    (hkind : object.body.isDirectory = false) (howner : store.object? parent = some owner)
    (hbody : owner.body = .directory d) (hfree : d.contains name = false) (x : ObjectId) :
    (store.addLink target parent name).child? x n =
      if x = parent ∧ n = name then some target else store.child? x n := by
  have hdirectory := directory?_addLink htarget hkind howner hbody name x
  by_cases hparent : x = parent
  . rw [if_pos hparent] at hdirectory
    have hold : store.directory? x = some d := hparent ▸ directory?_of_object? howner hbody
    rw [child?_of_directory? hdirectory, child?_of_directory? hold, Directory.find?_insert _ hfree]
    by_cases hn : n = name
    . simp [hparent, hn]
    . simp [hn]
  . rw [if_neg hparent] at hdirectory
    rw [child?_congr hdirectory, if_neg (fun hplace => hparent hplace.1)]

def Quiet (store : MemStore) : Prop :=
  store.writeFault = none ∧ store.rmdirFault = false

structure KeepsQuiet (store store' : MemStore) : Prop where
  writeFault_eq : store.writeFault = none → store'.writeFault = none
  rmdirFault_eq : store.rmdirFault = false → store'.rmdirFault = false

namespace KeepsQuiet

theorem refl (store : MemStore) : store.KeepsQuiet store :=
  ⟨id, id⟩

theorem trans {store'' : MemStore} (h : store.KeepsQuiet store') (h' : store'.KeepsQuiet store'') :
    store.KeepsQuiet store'' :=
  ⟨h'.writeFault_eq ∘ h.writeFault_eq, h'.rmdirFault_eq ∘ h.rmdirFault_eq⟩

theorem quiet (h : store.KeepsQuiet store') (hquiet : store.Quiet) : store'.Quiet :=
  ⟨h.writeFault_eq hquiet.1, h.rmdirFault_eq hquiet.2⟩

theorem detach (store : MemStore) (parent : ObjectId) (e : DirEntry) (target : MemObject) :
    store.KeepsQuiet (store.detach parent e target) :=
  ⟨(writeFault_detach ..).trans, (rmdirFault_detach ..).trans⟩

end KeepsQuiet

structure SameObjects (store store' : MemStore) : Prop where
  objects_eq : store'.objects = store.objects
  nextId_eq : store'.nextId = store.nextId
  format_eq : store'.format = store.format

theorem SameObjects.refl (store : MemStore) : store.SameObjects store :=
  ⟨rfl, rfl, rfl⟩

theorem SameObjects.linked (hsame : store.SameObjects store') (h : store.Linked) : store'.Linked :=
  h.of_sameLinks (.of_objects_eq hsame.objects_eq hsame.nextId_eq)

section OpEffect

/-- What `op` does to the objects. If `op.Spares store priv`, no object in the tree of `priv` is concerned. -/
inductive OpEffect (store : MemStore) (op : Op) : MemStore → Prop
  | idle : OpEffect store op store
  | changed {id : ObjectId} {f : MemObject → MemObject}
    (hspares : ∀ ⦃priv⦄, op.Spares store priv → ¬ store.InTree priv id)
    (hlinked : (store.mapObject id f).Linked)
    (hkey : ∀ object, (f object).stat.key = object.stat.key)
    (hchild : ∀ object n, (f object).body.child? n = object.body.child? n) :
    OpEffect store op (store.mapObject id f)
  | attach {parent : ObjectId} {name : String} {made : ObjectId → UInt32 → MemObject} {extra : Nat}
    {owner : MemObject} {d : Directory}
    (hspares : ∀ ⦃priv⦄, op.Spares store priv → ¬ store.InTree priv parent)
    (hnew : store.IsNew parent extra (made store.nextId store.nextGeneration))
    (howner : store.object? parent = some owner) (hbody : owner.body = .directory d)
    (hvalid : isValidName name = true) (hfree : d.contains name = false) :
    OpEffect store op (store.attach made parent name extra)
  | addLink {target parent : ObjectId} {name : String} {object owner : MemObject} {d : Directory}
    (hspares : ∀ ⦃priv⦄, op.Spares store priv →
      ¬ store.InTree priv target ∧ ¬ store.InTree priv parent)
    (htarget : store.object? target = some object) (hkind : object.body.isDirectory = false)
    (howner : store.object? parent = some owner) (hbody : owner.body = .directory d)
    (hvalid : isValidName name = true) (hfree : d.contains name = false) :
    OpEffect store op (store.addLink target parent name)
  | detach {parent : ObjectId} {owner object : MemObject} {d : Directory} {e : DirEntry}
    (hspares : ∀ ⦃priv⦄, op.Spares store priv →
      ¬ store.InTree priv parent ∧ ¬ (parent = rootId ∧ e.name = Volume.privateRootName))
    (hleaf : store.IsLeaf parent owner d e object) : OpEffect store op (store.detach parent e object)
  | erase {parent : ObjectId} {owner : MemObject} {d : Directory}
    (hspares : ∀ ⦃priv⦄, op.Spares store priv → ¬ store.InTree priv parent)
    (howner : store.object? parent = some owner) (hbody : owner.body = .directory d)
    (hempty : d.ordinary = []) : OpEffect store op (store.eraseObject parent)

theorem OpEffect.quiet {op : Op} (heffect : store.OpEffect op store') : store.KeepsQuiet store' := by
  cases heffect with
  | detach => exact .detach ..
  | _ => exact ⟨id, id⟩

theorem OpEffect.linked {op : Op} (heffect : store.OpEffect op store') (h : store.Linked) : store'.Linked := by
  cases heffect with
  | idle => exact h
  | changed _ hlinked => exact hlinked
  | attach _ hnew howner hbody hvalid hfree => exact h.attach hnew howner hbody hvalid hfree
  | addLink _ htarget hkind howner hbody hvalid hfree =>
    exact h.addLink htarget hkind howner hbody hvalid hfree
  | detach _ hleaf => exact h.detach hleaf
  | erase _ howner hbody hempty => exact h.eraseObject howner hbody hempty

def Op.plansFault : Op → Bool
  | planWriteFault _ | planRmdirFault => true
  | _ => false

structure OpOutcome (store : MemStore) (op : Op) (after : MemStore) : Prop where
  effect : ∃ middle, store.OpEffect op middle ∧ middle.SameObjects after
  quiet : op.plansFault = false → store.KeepsQuiet after

namespace OpOutcome

variable {op : Op}

theorem of_opEffect (heffect : store.OpEffect op store') : store.OpOutcome op store' :=
  ⟨⟨store', heffect, .refl store'⟩, fun _ => heffect.quiet⟩

theorem of_same (hsame : store.SameObjects store')
    (hquiet : op.plansFault = false → store.KeepsQuiet store') : store.OpOutcome op store' :=
  ⟨⟨store, .idle, hsame⟩, hquiet⟩

theorem update {change : MemStore → Except Error MemStore}
    (hok : ∀ store', change store = .ok store' → store.OpEffect op store') :
    store.OpOutcome op ((Action.update change).after store) := by
  unfold Action.after Action.update
  cases hchange : change store with
  | ok store' => exact .of_opEffect (hok store' hchange)
  | error err => exact .of_opEffect .idle

theorem transact {change : MemStore → Except Error (ObjectId × MemStore)}
    (hok : ∀ id store', change store = .ok (id, store') → store.OpEffect op store') :
    store.OpOutcome op ((discard (Action.transact change)).after store) := by
  rw [Action.after_discard]
  unfold Action.after Action.transact
  cases hchange : change store with
  | ok made => exact .of_opEffect (hok made.1 made.2 hchange)
  | error err => exact .of_opEffect .idle

end OpOutcome

open Action

theorem opEffect_writePage {index offset : Nat} {data : Bytes} (h : store.Linked)
    (hok : store.writePage id index offset data = .ok store') :
    store.OpEffect (.writePage id index offset data) store' := by
  have hlinked := h.of_sameLinks (sameLinks_writePage h hok)
  obtain ⟨_, _, _, _, rfl⟩ := writePage_eq_ok_iff.mp hok
  exact .changed (fun _ hop => hop) hlinked (fun _ => rfl) fun object =>
    MemObject.child?_write _ _ object.body

theorem store_of_update_error {change : MemStore → Except Error MemStore} {err : Error}
    (h : Action.update change store = .error err store') : store' = store := by
  unfold Action.update at h
  split at h
  . cases h
  . injection h with _ h
    exact h.symm

theorem opOutcome_writePage (h : store.Linked) (id : ObjectId) (index offset : Nat) (data : Bytes) :
    store.OpOutcome (.writePage id index offset data)
      ((Op.perform (.writePage id index offset data)).after store) := by
  by_cases hpage : store.pageSize < offset + data.length
  . have hrun : Op.perform (.writePage id index offset data) store = .error pageBoundary store := by
      simp [Op.perform, writePageFaulty, hpage]
    rw [after_of_error hrun]
    exact .of_opEffect .idle
  . cases hfault : store.writeFault with
    | none =>
      have hrun : Op.perform (.writePage id index offset data) store =
          Action.update (·.writePage id index offset data) store := by
        simp [Op.perform, writePageFaulty, hpage, hfault]
      rw [after_congr hrun]
      exact .update fun store' hok => opEffect_writePage h hok
    | some count =>
      have hplanned : store.writeFault ≠ none := by
        rw [hfault]
        exact Option.some_ne_none count
      cases count with
      | zero =>
        have hrun : Op.perform (.writePage id index offset data) store =
            .error injectedWriteFault { store with writeFault := none } := by
          simp [Op.perform, writePageFaulty, hpage, hfault]
        rw [after_of_error hrun]
        exact .of_same ⟨rfl, rfl, rfl⟩ fun _ => ⟨fun _ => rfl, fun h => h⟩
      | succ count =>
        have hrun : Op.perform (.writePage id index offset data) store =
            Action.update (·.writePage id index offset data)
              { store with writeFault := some count } := by
          simp [Op.perform, writePageFaulty, hpage, hfault]
        rw [after_congr hrun]
        have hcounted : ({ store with writeFault := some count } : MemStore).Linked :=
          (show store.SameObjects { store with writeFault := some count } from ⟨rfl, rfl, rfl⟩).linked h
        cases hwritten : Action.update (·.writePage id index offset data)
            { store with writeFault := some count } with
        | error err store' =>
          obtain rfl := store_of_update_error hwritten
          rw [after_of_error hwritten]
          exact ⟨⟨store, .idle, rfl, rfl, rfl⟩, fun _ => ⟨fun hnone => absurd hnone hplanned, fun h => h⟩⟩
        | ok _ store' =>
          rw [after_of_ok hwritten]
          have hok := update_eq_ok_iff.mp hwritten
          have hlinked := hcounted.of_sameLinks (sameLinks_writePage hcounted hok)
          obtain ⟨_, _, _, _, rfl⟩ := writePage_eq_ok_iff.mp hok
          refine ⟨⟨store.mapObject id fun o =>
              { o with body := o.body.write (index * store.pageSize + offset) data },
            .changed (fun _ hop => hop) ?_ (fun _ => rfl) fun object => MemObject.child?_write _ _ object.body,
            rfl, rfl, rfl⟩, fun _ => ⟨fun hnone => absurd hnone hplanned, fun h => h⟩⟩
          exact hlinked.of_sameLinks (.of_objects_eq rfl rfl)

theorem opOutcome_rmdir (h : store.Linked) (parent : ObjectId) (name : String) :
    store.OpOutcome (.rmdir parent name) ((Op.perform (.rmdir parent name)).after store) := by
  cases hfault : store.rmdirFault with
  | true =>
    have hrun : Op.perform (.rmdir parent name) store =
        .error injectedRmdirFault { store with rmdirFault := false } := by
      simp [Op.perform, rmdirFaulty, hfault]
    rw [after_of_error hrun]
    exact .of_same ⟨rfl, rfl, rfl⟩ fun _ => ⟨id, fun _ => rfl⟩
  | false =>
    have hrun : Op.perform (.rmdir parent name) store =
        Action.update (·.rmdir parent name) store := by
      simp [Op.perform, rmdirFaulty, hfault]
    rw [after_congr hrun]
    refine .update fun store' hok => ?_
    rcases h.rmdir_cases hok with
      ⟨_, owner, d, howner, hbody, hempty, rfl⟩ | ⟨_, owner, d, e, object, hleaf, rfl, _, rfl⟩
    . exact .erase (fun _ hop => hop.1) howner hbody hempty
    . exact .detach (fun _ hop => hop) hleaf

theorem Linked.opOutcome (h : store.Linked) (op : Op) : store.OpOutcome op (op.perform.after store) := by
  cases op with
  | create parent name mode =>
    refine .transact fun id store' hok => ?_
    obtain ⟨hvalid, owner, d, howner, hbody, hfree, heq⟩ := create_eq_ok_iff.mp hok
    injection heq with _ heq
    exact heq ▸ .attach (fun _ hop => hop) (isNew_file ..) howner hbody hvalid hfree
  | mkdir parent name mode =>
    refine .transact fun id store' hok => ?_
    obtain ⟨hvalid, owner, d, howner, hbody, hfree, heq⟩ := mkdir_eq_ok_iff.mp hok
    injection heq with _ heq
    exact heq ▸ .attach (fun _ hop => hop) (isNew_directory ..) howner hbody hvalid hfree
  | link target parent name =>
    refine .update fun store' hok => ?_
    obtain ⟨hvalid, object, owner, d, htarget, hkind, howner, hbody, hfree, rfl⟩ :=
      link_eq_ok_iff.mp hok
    exact .addLink (fun _ hop => hop) htarget hkind howner hbody hvalid hfree
  | unlink parent name =>
    refine .update fun store' hok => ?_
    obtain ⟨owner, d, e, object, hleaf, rfl, _, rfl⟩ := h.unlink_cases hok
    exact .detach (fun _ hop => hop) hleaf
  | rmdir parent name => exact opOutcome_rmdir h parent name
  | setAttr id change =>
    refine .update fun store' hok => ?_
    have hlinked := h.of_sameLinks (sameLinks_setAttr h hok)
    obtain ⟨_, _, _, rfl⟩ := setAttr_eq_ok_iff.mp hok
    exact .changed (fun _ hop => hop) hlinked (fun _ => rfl) (MemObject.child?_apply change)
  | writePage id index offset data => exact opOutcome_writePage h id index offset data
  | markPrivate id =>
    refine .update fun store' hok => ?_
    have hlinked := h.of_sameLinks (sameLinks_markPrivate h hok)
    simp only [MemStore.markPrivate, exceptBind_eq_ok_iff, exceptPure_eq_ok_iff] at hok
    obtain ⟨_, _, rfl⟩ := hok
    exact .changed (fun _ hop => hop) hlinked (fun _ => rfl) fun _ _ => rfl
  | setFormat id format =>
    refine .update fun store' hok => ?_
    have hlinked := h.of_sameLinks (sameLinks_setFormat h hok)
    simp only [MemStore.setFormat, exceptBind_eq_ok_iff, exceptPure_eq_ok_iff] at hok
    obtain ⟨_, _, rfl⟩ := hok
    exact .changed (fun _ hop => hop) hlinked (fun _ => rfl) fun _ _ => rfl
  | setVisible parent name visible =>
    refine .update fun store' hok => ?_
    have hlinked := h.of_sameLinks (sameLinks_setVisible h hok)
    simp only [MemStore.setVisible, exceptBind_eq_ok_iff, exceptPure_eq_ok_iff] at hok
    obtain ⟨e, _, rfl⟩ := hok
    exact .changed (fun _ hop => hop) hlinked (KeepsKeys.key_mapDirectory _)
      (MemObject.child?_setVisible e.offset visible)
  | entryName parent slot =>
    rw [Op.perform, after_discard]
    unfold Action.after MemStore.entryNameMoving
    cases hmoves : store.pendingMoves with
    | zero =>
      simp only [query]
      cases store.entryName parent slot with
      | ok name => exact .of_opEffect .idle
      | error err => exact .of_opEffect .idle
    | succ moves => exact .of_same ⟨rfl, rfl, rfl⟩ fun _ => ⟨id, id⟩
  | planMoves count => exact .of_same ⟨rfl, rfl, rfl⟩ fun _ => ⟨id, id⟩
  | planWriteFault count =>
    exact .of_same ⟨rfl, rfl, rfl⟩ fun hplans => absurd hplans Bool.true_eq_false_eq_False
  | planRmdirFault =>
    exact .of_same ⟨rfl, rfl, rfl⟩ fun hplans => absurd hplans Bool.true_eq_false_eq_False

end OpEffect

section ClosedTree

/-- All objects in the tree of `priv` are there, and only the entry of `priv` leads into it from outside. -/
structure ClosedTree (store : MemStore) (priv : ObjectId) : Prop where
  linked : store.Linked
  root : store.child? rootId Volume.privateRootName = some priv
  live : ∀ ⦃id⦄, store.InTree priv id → ∃ object, store.object? id = some object
  border : ∀ ⦃id parent n⦄, store.InTree priv id → EntryName.isDots n = false →
    store.child? parent n = some id →
    store.InTree priv parent ∨ (parent = rootId ∧ n = Volume.privateRootName)

structure Untouched (store store' : MemStore) (priv : ObjectId) : Prop where
  linked : store'.Linked
  objects : ∀ ⦃id⦄, store.InTree priv id → store'.object? id = store.object? id
  root_eq : store'.child? rootId Volume.privateRootName =
    store.child? rootId Volume.privateRootName
  keys : store.KeepsKeys store'

theorem Untouched.trans_same (h : store.Untouched store' priv) {store'' : MemStore}
    (hsame : store'.SameObjects store'') : store.Untouched store'' priv where
  linked := hsame.linked h.linked
  objects id hid := (object?_congr hsame.objects_eq id).trans (h.objects hid)
  root_eq := (child?_of_objects_eq hsame.objects_eq ..).trans h.root_eq
  keys := h.keys.trans (.of_objects_eq hsame.objects_eq hsame.nextId_eq hsame.format_eq)

variable (h : store.ClosedTree priv)
include h

theorem ClosedTree.contains_of_root (hdir : store.directory? rootId = some d) :
    d.contains Volume.privateRootName = true := by
  have hroot := h.root
  rw [child?_of_directory? hdir, Option.map_eq_some_iff] at hroot
  obtain ⟨e, hfind, _⟩ := hroot
  simp [Directory.contains, hfind]

theorem ClosedTree.untouched {op : Op} (hop : op.Spares store priv) (heffect : store.OpEffect op store') :
    store.Untouched store' priv := by
  have hlinked := heffect.linked h.linked
  cases heffect with
  | idle => exact ⟨hlinked, fun _ _ => rfl, rfl, .refl store⟩
  | @changed id f hspares _ hkey hchild =>
    have hf (object : MemObject) : (f object).id = object.id := congrArg ObjectKey.id (hkey object)
    refine ⟨hlinked, fun x hx => ?_, ?_, .mapObject store id hkey⟩
    . rw [object?_mapObject _ _ hf, if_neg]
      rintro rfl
      exact hspares hop hx
    . rw [child?_eq, child?_eq, object?_mapObject _ _ hf]
      split
      . rw [Option.bind_map]
        congr
        funext object
        exact hchild object _
      . rfl
  | @attach parent name made extra owner d hspares hnew howner hbody _ hfree =>
    have hfree' : d.find? name = none := Directory.find?_of_contains hfree
    refine ⟨hlinked, fun x hx => ?_, ?_, .attach store hnew.id_eq parent name extra⟩
    . obtain ⟨object, hobject⟩ := h.live hx
      rw [object?_attach h.linked hnew.id_eq howner, if_neg (h.linked.ne_nextId hobject), if_neg]
      rintro rfl
      exact hspares hop hx
    . rw [child?_attach h.linked hnew howner hbody hfree' (by decide), if_neg]
      rintro ⟨rfl, rfl⟩
      rw [h.contains_of_root (directory?_of_object? howner hbody)] at hfree
      cases hfree
  | @addLink target parent name object owner d hspares htarget hkind howner hbody _ hfree =>
    refine ⟨hlinked, fun x hx => ?_, ?_, .addLink store target parent name⟩
    . rw [object?_addLink htarget hkind howner hbody, if_neg, if_neg]
      . rintro rfl
        exact (hspares hop).2 hx
      . rintro rfl
        exact (hspares hop).1 hx
    . rw [child?_addLink htarget hkind howner hbody hfree, if_neg]
      rintro ⟨rfl, rfl⟩
      rw [h.contains_of_root (directory?_of_object? howner hbody)] at hfree
      cases hfree
  | @detach parent owner object d e hspares hleaf =>
    obtain ⟨hparent, hname⟩ := hspares hop
    obtain ⟨_, hwf⟩ := hleaf.wellFormed h.linked
    have hdots := hwf.isDots_of_mem hleaf.mem
    have hchild : store.child? parent e.name = some e.target :=
      (h.linked.child?_eq_some_iff hdots).mpr ⟨d, e, hleaf.directory?, hleaf.mem, rfl, rfl⟩
    refine ⟨hlinked, fun x hx => ?_, ?_, .detach store parent e object⟩
    . rw [hleaf.object?_detach, if_neg, if_neg]
      . rintro rfl
        exact hparent hx
      . rintro rfl
        exact (h.border hx hdots hchild).elim hparent hname
    . rw [child?_detach h.linked hleaf (by decide), if_neg]
      rintro ⟨rfl, heq⟩
      exact hname ⟨rfl, heq.symm⟩
  | @erase parent owner d hspares howner hbody hempty =>
    -- The root is never empty.
    have hne : rootId ≠ parent := by
      rintro rfl
      obtain ⟨d', e', hdirectory, hmem, _⟩ := (h.linked.child?_eq_some_iff (by decide)).mp h.root
      rw [directory?_of_object? howner hbody] at hdirectory
      injection hdirectory with hdirectory
      rw [← hdirectory, hempty] at hmem
      cases hmem
    refine ⟨hlinked, fun x hx => ?_, ?_, .eraseObject store parent⟩
    . rw [object?_eraseObject, if_neg]
      rintro rfl
      exact hspares hop hx
    . rw [child?_eq, child?_eq, object?_eraseObject, if_neg hne]

theorem ClosedTree.perform {op : Op} (hop : op.Spares store priv) :
    store.Untouched (op.perform.after store) priv ∧ (store.Quiet → (op.perform.after store).Quiet) := by
  obtain ⟨⟨middle, heffect, hsame⟩, hquiet⟩ := h.linked.opOutcome op
  refine ⟨(h.untouched hop heffect).trans_same hsame, (hquiet ?_).quiet⟩
  cases op with
  | planWriteFault count => exact hop.elim
  | planRmdirFault => exact hop.elim
  | _ => rfl

end ClosedTree

namespace Tidy

variable (h : store.Tidy priv)
include h

theorem quiet : store.Quiet :=
  ⟨h.writeFault_eq, h.rmdirFault_eq⟩

theorem closedTree : store.ClosedTree priv := by
  refine ⟨h.linked, h.root, fun id hid => hid.live h, fun id parent n hid hn hchild => ?_⟩
  cases hid with
  | privateRoot => exact .inr (h.place_unique h.privateRoot (by decide) hn h.root hchild)
  | attrRoot hroot =>
    obtain ⟨rfl, _⟩ := h.place_unique (h.attrRoot hroot) (by decide) hn hroot hchild
    exact .inl .privateRoot
  | @attrDir key _ hdir =>
    obtain ⟨root, hroot, hplace⟩ := attrDir?_eq_some_iff.mp hdir
    obtain ⟨rfl, _⟩ := h.place_unique (h.attrDir hdir).2.isPrivateDirectory key.isDots_text hn hplace
      hchild
    exact .inl (.attrRoot hroot)
  | record hname hrecord =>
    obtain ⟨dir, hdir, hplace⟩ := attrRecord?_eq_some_iff.mp hrecord
    obtain ⟨file, hfile, _, hnlink, value, hbody⟩ := h.record hname hrecord
    have hcount := h.linked.linkCount_le_of_nlink hfile (by rw [hbody]; rfl) (Nat.le_of_eq hnlink)
    obtain ⟨rfl, _⟩ := h.linked.place_unique hcount hname hn hplace hchild
    exact .inl (.attrDir hdir)

theorem spared (hlinked : store'.Linked) (hquiet : store'.Quiet)
    (hobjects : ∀ ⦃id⦄, store.InTree priv id → store'.object? id = store.object? id)
    (hroot : store'.child? rootId Volume.privateRootName =
      store.child? rootId Volume.privateRootName)
    (hkeys : store.KeepsKeys store') : store.Spared store' priv := by
  have hkept : store.KeepsTree store' priv := by
    intro id object hid hobject
    exact ⟨object, (hobjects hid).trans hobject, .refl object⟩
  exact ⟨hkept, h.of_keepsTree hkept hlinked hquiet.1 hquiet.2 (hroot.trans h.root) hkeys.nextId_le,
    hkeys⟩

theorem spared_perform {op : Op} (hop : op.Spares store priv) :
    store.Spared (op.perform.after store) priv := by
  obtain ⟨huntouched, hquiet⟩ := h.closedTree.perform hop
  exact h.spared huntouched.linked (hquiet h.quiet) huntouched.objects huntouched.root_eq
    huntouched.keys

end Tidy

end MemStore

namespace Volume

open MemStore

variable {volume : Volume MemStore} {priv : ObjectId}

theorem Settled.ofSpared (h : volume.Settled priv) {store : MemStore}
    (hspared : volume.store.Spared store priv) :
    volume.Becomes { volume with store } priv (volume.store.attrValue? priv) :=
  h.ofKeepsTree hspared.kept hspared.tidy hspared.keys

theorem Settled.storeOp (h : volume.Settled priv) {op : MemStore.Op}
    (hop : op.Spares volume.store priv) :
    volume.Becomes ((onStore op.perform).after volume) priv (volume.store.attrValue? priv) := by
  rw [after_onStore]
  exact h.ofSpared (h.tidy.spared_perform hop)

end Volume

end AttrTree
