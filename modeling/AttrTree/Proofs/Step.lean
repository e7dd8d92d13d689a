import AttrTree.Proofs.Detach
import AttrTree.Store.Memory

/-!
This module contains what one operation of the store in memory can do to the links of its objects.
There are four kinds of steps, and all of them keep the accounts.
-/

namespace AttrTree

namespace MemStore

variable {store store' : MemStore} {id parent : ObjectId} {name : String}

section Results

open Action

theorem getContent_eq_ok_iff {e : Error} {content : Bytes} :
    store.getContent id e = .ok content ↔
      ∃ object, store.object? id = some object ∧ object.body = .file content := by
  simp only [getContent, exceptBind_eq_ok_iff, getObject_eq_ok_iff]
  apply exists_congr
  intro object
  cases object.body <;> simp

theorem setAttr_eq_ok_iff {change : AttrChange} :
    store.setAttr id change = .ok store' ↔ ∃ object, store.object? id = some object
      ∧ ¬ (change.fields.has .size && object.body.isDirectory) = true
      ∧ store' = store.mapObject id (·.apply change) := by
  simp only [setAttr, exceptBind_eq_ok_iff, throwIf_eq_ok_iff, exceptPure_eq_ok_iff, getObject_eq_ok_iff]

theorem writePage_eq_ok_iff {index offset : Nat} {data : Bytes} :
    store.writePage id index offset data = .ok store' ↔ ∃ object content, store.object? id = some object
      ∧ object.body = .file content ∧ store' = store.mapObject id fun o =>
        { o with body := o.body.write (index * store.pageSize + offset) data } := by
  simp only [writePage, exceptBind_eq_ok_iff, exceptPure_eq_ok_iff, getContent_eq_ok_iff]
  constructor
  . rintro ⟨content, ⟨object, hobject, hbody⟩, heq⟩
    exact ⟨object, content, hobject, hbody, heq⟩
  . rintro ⟨object, content, hobject, hbody, heq⟩
    exact ⟨content, ⟨object, hobject, hbody⟩, heq⟩

end Results

section SameLinks

open Action

theorem sameLinks_markPrivate (h : store.Linked) (hok : store.markPrivate id = .ok store') :
    store.SameLinks store' := by
  simp only [markPrivate, exceptBind_eq_ok_iff, exceptPure_eq_ok_iff] at hok
  obtain ⟨_, _, rfl⟩ := hok
  exact .mapObject h.ids_distinct (fun _ => rfl) fun _ _ => .of_body_eq rfl rfl rfl rfl

theorem sameLinks_setFormat {format : ObjectFormat} (h : store.Linked)
    (hok : store.setFormat id format = .ok store') : store.SameLinks store' := by
  simp only [setFormat, exceptBind_eq_ok_iff, exceptPure_eq_ok_iff] at hok
  obtain ⟨_, _, rfl⟩ := hok
  exact .mapObject h.ids_distinct (fun _ => rfl) fun _ _ => .of_body_eq rfl rfl rfl rfl

theorem sameLinks_apply (change : AttrChange) (object : MemObject) :
    object.SameLinks (object.apply change) where
  id_eq := rfl
  nlink_eq := rfl
  type_eq := by
    have htype : Mode.typeMask &&& (object.mode &&& Mode.typeMask) = object.mode &&& Mode.typeMask := by
      rw [UInt32.and_comm, UInt32.and_assoc, UInt32.and_self]
    simp only [MemObject.apply]
    split
    . rw [Mode.type_withType]
      rw [Mode.type, UInt32.and_assoc, UInt32.and_self]
    . rfl
  kind_eq := by
    simp only [MemObject.apply]
    split
    . cases object.body <;> rfl
    . rfl
  targets_eq := by
    simp only [MemObject.apply]
    split
    . cases object.body <;> rfl
    . rfl
  wellFormed := by
    intro dir dir' id parent hbody hbody' hwf
    have heq : (object.apply change).body = .directory dir := by
      simp only [MemObject.apply, hbody]
      split <;> rfl
    rw [heq] at hbody'
    injection hbody' with hbody'
    exact hbody' ▸ hwf

theorem sameLinks_setAttr {change : AttrChange} (h : store.Linked)
    (hok : store.setAttr id change = .ok store') : store.SameLinks store' := by
  obtain ⟨_, _, _, rfl⟩ := setAttr_eq_ok_iff.mp hok
  exact .mapObject h.ids_distinct (fun _ => rfl) fun object _ => sameLinks_apply change object

theorem sameLinks_writePage {index offset : Nat} {data : Bytes} (h : store.Linked)
    (hok : store.writePage id index offset data = .ok store') : store.SameLinks store' := by
  obtain ⟨object, content, hobject, hbody, rfl⟩ := writePage_eq_ok_iff.mp hok
  refine .mapObject h.ids_distinct (fun _ => rfl) fun object' hobject' => ?_
  rw [hobject] at hobject'
  injection hobject' with hobject'
  subst hobject'
  constructor
  . rfl
  . rfl
  . rfl
  . simp [hbody, Body.write, Body.isDirectory]
  . simp [hbody, Body.write, Body.ordinary]
  . intro dir dir' id parent hdir
    rw [hbody] at hdir
    simp at hdir

theorem sameLinks_setVisible {visible : Bool} (h : store.Linked)
    (hok : store.setVisible parent name visible = .ok store') : store.SameLinks store' := by
  simp only [setVisible, exceptBind_eq_ok_iff, exceptPure_eq_ok_iff] at hok
  obtain ⟨e, _, rfl⟩ := hok
  have hsame (object : MemObject) :
      object.SameLinks (object.mapDirectory (·.setVisible e.offset visible)) := by
    unfold MemObject.mapDirectory
    split
    . exact .refl object
    . next dir hbody =>
      constructor
      . rfl
      . rfl
      . rfl
      . simp [hbody, Body.isDirectory]
      . simp only [hbody, Body.ordinary, Directory.ordinary_setVisible, List.map_map]
        apply List.map_congr_left
        intro e' _
        simp only [Function.comp_apply]
        split <;> rfl
      . intro dir₀ dir' id parent hdir hdir' hwf
        rw [hbody] at hdir
        injection hdir with hdir
        injection hdir' with hdir'
        rw [← hdir', hdir]
        exact hwf.setVisible e.offset visible
  exact .mapObject h.ids_distinct (MemObject.id_mapDirectory _) fun object _ => hsame object

end SameLinks

inductive Step (store : MemStore) : MemStore → Prop
  | same {store' : MemStore} (h : store.SameLinks store') : Step store store'
  | attach {object : ObjectId → UInt32 → MemObject} {parent : ObjectId} {owner : MemObject}
      {dir : Directory} {name : String} {extra : Nat}
      (hnew : store.IsNew parent extra (object store.nextId store.nextGeneration))
      (howner : store.object? parent = some owner) (hbody : owner.body = .directory dir)
      (hvalid : isValidName name = true) (hfree : dir.contains name = false) :
      Step store (store.attach object parent name extra)
  | addLink {target parent : ObjectId} {object owner : MemObject} {dir : Directory} {name : String}
      (htarget : store.object? target = some object) (hkind : object.body.isDirectory = false)
      (howner : store.object? parent = some owner) (hbody : owner.body = .directory dir)
      (hvalid : isValidName name = true) (hfree : dir.contains name = false) :
      Step store (store.addLink target parent name)
  | detach {parent : ObjectId} {owner target : MemObject} {dir : Directory} {e : DirEntry}
      (hleaf : store.IsLeaf parent owner dir e target) : Step store (store.detach parent e target)

theorem Linked.step (h : store.Linked) (hstep : store.Step store') : store'.Linked := by
  cases hstep with
  | same hsame => exact h.of_sameLinks hsame
  | attach hnew howner hbody hvalid hfree => exact h.attach hnew howner hbody hvalid hfree
  | addLink htarget hkind howner hbody hvalid hfree =>
    exact h.addLink htarget hkind howner hbody hvalid hfree
  | detach hleaf => exact h.detach hleaf

theorem Step.nextId_le (hstep : store.Step store') : store.nextId ≤ store'.nextId := by
  cases hstep with
  | same hsame => exact Nat.le_of_eq hsame.nextId_eq.symm
  | attach => exact Nat.le_succ _
  | addLink => exact Nat.le_refl _
  | detach => exact Nat.le_of_eq (IsLeaf.nextId_detach ..).symm

end MemStore

end AttrTree
