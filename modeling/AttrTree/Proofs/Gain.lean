import AttrTree.Proofs.Step

/-!
This module contains what the operations of the store in memory that remove nothing can do to its
directories: leave them as they are, show or hide an entry, or add one.
-/

namespace AttrTree

namespace MemObject

theorem directory?_apply (change : AttrChange) (object : MemObject) :
    (object.apply change).body.directory? = object.body.directory? := by
  simp only [apply]
  split
  . cases object.body <;> rfl
  . rfl

theorem directory?_write (start : Nat) (data : Bytes) (body : Body) :
    (body.write start data).directory? = body.directory? := by
  cases body <;> rfl

end MemObject

namespace MemStore

variable {store store' : MemStore} {id parent : ObjectId} {name : String}

theorem directory?_mapObject {f : MemObject → MemObject} (hf : ∀ object, (f object).id = object.id)
    (hdirectory : ∀ object, (f object).body.directory? = object.body.directory?) (x : ObjectId) :
    (store.mapObject id f).directory? x = store.directory? x := by
  unfold directory?
  rw [object?_mapObject _ _ hf]
  split
  . rw [Option.bind_map]
    congr
    funext object
    exact hdirectory object
  . rfl

theorem directory?_setVisible (offset : Nat) (visible : Bool) (x : ObjectId) :
    (store.mapObject id (·.mapDirectory (·.setVisible offset visible))).directory? x =
      if x = id then (store.directory? x).map (·.setVisible offset visible)
      else store.directory? x := by
  unfold directory?
  rw [object?_mapObject _ _ (MemObject.id_mapDirectory _)]
  split
  . cases store.object? x with
    | none => rfl
    | some object =>
      cases hbody : object.body <;> simp [MemObject.mapDirectory, hbody, Body.directory?]
  . rfl

inductive Gain (store : MemStore) : MemStore → Prop
  | same {store' : MemStore} (hsame : store.SameLinks store')
      (hdirectory : ∀ x, store'.directory? x = store.directory? x) : Gain store store'
  | shown {id : ObjectId} {offset : Nat} {visible : Bool}
      (hsame : store.SameLinks
        (store.mapObject id (·.mapDirectory (·.setVisible offset visible)))) :
      Gain store (store.mapObject id (·.mapDirectory (·.setVisible offset visible)))
  | attach {object : ObjectId → UInt32 → MemObject} {parent : ObjectId} {owner : MemObject}
      {dir : Directory} {name : String} {extra : Nat}
      (hnew : store.IsNew parent extra (object store.nextId store.nextGeneration))
      (howner : store.object? parent = some owner) (hbody : owner.body = .directory dir)
      (hvalid : isValidName name = true) (hfree : dir.contains name = false) :
      Gain store (store.attach object parent name extra)
  | addLink {target parent : ObjectId} {object owner : MemObject} {dir : Directory} {name : String}
      (htarget : store.object? target = some object) (hkind : object.body.isDirectory = false)
      (howner : store.object? parent = some owner) (hbody : owner.body = .directory dir)
      (hvalid : isValidName name = true) (hfree : dir.contains name = false) :
      Gain store (store.addLink target parent name)

theorem Gain.step (h : store.Gain store') : store.Step store' := by
  cases h with
  | same hsame => exact .same hsame
  | shown hsame => exact .same hsame
  | attach hnew howner hbody hvalid hfree => exact .attach hnew howner hbody hvalid hfree
  | addLink htarget hkind howner hbody hvalid hfree =>
    exact .addLink htarget hkind howner hbody hvalid hfree

theorem Gain.of_objects_eq (hobjects : store'.objects = store.objects)
    (hnext : store'.nextId = store.nextId) : store.Gain store' :=
  .same (.of_objects_eq hobjects hnext) fun x => by simp [directory?, object?, hobjects]

section Operations

open Action

theorem gain_create {mode : UInt32} {made : ObjectId}
    (hok : store.create parent name mode = .ok (made, store')) : store.Gain store' := by
  obtain ⟨hvalid, owner, dir, howner, hbody, hfree, heq⟩ := create_eq_ok_iff.mp hok
  injection heq with _ heq
  exact heq ▸ .attach (isNew_file ..) howner hbody hvalid hfree

theorem gain_mkdir {mode : UInt32} {made : ObjectId}
    (hok : store.mkdir parent name mode = .ok (made, store')) : store.Gain store' := by
  obtain ⟨hvalid, owner, dir, howner, hbody, hfree, heq⟩ := mkdir_eq_ok_iff.mp hok
  injection heq with _ heq
  exact heq ▸ .attach (isNew_directory ..) howner hbody hvalid hfree

theorem gain_link {target : ObjectId} (hok : store.link target parent name = .ok store') :
    store.Gain store' := by
  obtain ⟨hvalid, object, owner, dir, htarget, hkind, howner, hbody, hfree, rfl⟩ :=
    link_eq_ok_iff.mp hok
  exact .addLink htarget hkind howner hbody hvalid hfree

theorem directory?_setAttr {change : AttrChange} (hok : store.setAttr id change = .ok store') :
    ∀ x, store'.directory? x = store.directory? x := by
  obtain ⟨_, _, _, rfl⟩ := setAttr_eq_ok_iff.mp hok
  exact directory?_mapObject (fun _ => rfl) (MemObject.directory?_apply change)

theorem directory?_writePage {index offset : Nat} {data : Bytes}
    (hok : store.writePage id index offset data = .ok store') :
    ∀ x, store'.directory? x = store.directory? x := by
  obtain ⟨_, _, _, _, rfl⟩ := writePage_eq_ok_iff.mp hok
  exact directory?_mapObject (fun _ => rfl) fun object => MemObject.directory?_write _ _ object.body

theorem directory?_markPrivate (hok : store.markPrivate id = .ok store') :
    ∀ x, store'.directory? x = store.directory? x := by
  simp only [markPrivate, exceptBind_eq_ok_iff, exceptPure_eq_ok_iff] at hok
  obtain ⟨_, _, rfl⟩ := hok
  exact directory?_mapObject (fun _ => rfl) fun _ => rfl

theorem directory?_setFormat {format : ObjectFormat} (hok : store.setFormat id format = .ok store') :
    ∀ x, store'.directory? x = store.directory? x := by
  simp only [setFormat, exceptBind_eq_ok_iff, exceptPure_eq_ok_iff] at hok
  obtain ⟨_, _, rfl⟩ := hok
  exact directory?_mapObject (fun _ => rfl) fun _ => rfl

variable (h : store.Linked)
include h

theorem gain_setAttr {change : AttrChange} (hok : store.setAttr id change = .ok store') :
    store.Gain store' :=
  .same (sameLinks_setAttr h hok) (directory?_setAttr hok)

theorem gain_writePage {index offset : Nat} {data : Bytes}
    (hok : store.writePage id index offset data = .ok store') : store.Gain store' :=
  .same (sameLinks_writePage h hok) (directory?_writePage hok)

theorem gain_markPrivate (hok : store.markPrivate id = .ok store') : store.Gain store' :=
  .same (sameLinks_markPrivate h hok) (directory?_markPrivate hok)

theorem gain_setFormat {format : ObjectFormat} (hok : store.setFormat id format = .ok store') :
    store.Gain store' :=
  .same (sameLinks_setFormat h hok) (directory?_setFormat hok)

theorem gain_setVisible {visible : Bool} (hok : store.setVisible parent name visible = .ok store') :
    store.Gain store' := by
  have hsame := sameLinks_setVisible h hok
  simp only [setVisible, exceptBind_eq_ok_iff, exceptPure_eq_ok_iff] at hok
  obtain ⟨e, _, rfl⟩ := hok
  exact .shown hsame

end Operations

end MemStore

end AttrTree
