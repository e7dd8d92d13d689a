import AttrTree.Proofs.Outside
import AttrTree.Proofs.Tree
import AttrTree.Volume.Mount

/-!
This module contains the mounting of a volume with all classes of attributes. On a new store the private
root is made, later it is found, and the volume is in order either way.
-/

namespace AttrTree

def MemObject.marked (object : MemObject) : MemObject :=
  { object with isPrivate := true }

namespace MemStore

variable {store : MemStore} {priv : ObjectId}

def marked (store : MemStore) (id : ObjectId) : MemStore :=
  store.mapObject id MemObject.marked

theorem object?_marked (store : MemStore) (id x : ObjectId) :
    (store.marked id).object? x =
      if x = id then (store.object? x).map MemObject.marked else store.object? x :=
  object?_mapObject store id (f := MemObject.marked) (fun _ => rfl) x

theorem directory?_marked (store : MemStore) (id x : ObjectId) :
    (store.marked id).directory? x = store.directory? x := by
  rw [directory?, directory?, object?_marked]
  split
  . rw [Option.bind_map]
    rfl
  . rfl

theorem child?_marked (store : MemStore) (id x : ObjectId) (n : String) :
    (store.marked id).child? x n = store.child? x n :=
  child?_congr (store.directory?_marked id x) n

theorem Linked.marked (h : store.Linked) (id : ObjectId) : (store.marked id).Linked :=
  h.of_sameLinks (.mapObject h.ids_distinct (fun _ => rfl) fun _ _ => .of_body_eq rfl rfl rfl rfl)

theorem markPrivate_eq {id : ObjectId} {object : MemObject} (h : store.object? id = some object) :
    ObjectStore.markPrivate id store = .ok () (store.marked id) := by
  have hget := getObject_eq_ok_iff.mpr h
  simp only [ObjectStore.markPrivate, Action.update, MemStore.markPrivate, hget, bind, Except.bind,
    pure, Except.pure]
  rfl

theorem Tidy.spared_marked (h : store.Tidy priv) : store.Spared (store.marked priv) priv := by
  -- The private root is private already.
  refine h.spared (h.linked.marked priv) h.quiet (fun x _ => ?_) (child?_marked ..)
    (.mapObject store priv fun _ => rfl)
  rw [object?_marked]
  split
  . next heq =>
    obtain ⟨object, hobject, hprivate, _⟩ := h.privateRoot
    rw [heq, hobject, Option.map_some, MemObject.marked, ← hprivate]
  . rfl

def withPrivateRoot (pageSize : Nat) (h : Record.headerSize < pageSize) : MemStore :=
  ((empty pageSize .current h).madeDirectory rootId Volume.privateRootName).marked (rootId + 1)

theorem tidy_withPrivateRoot (pageSize : Nat) (h : Record.headerSize < pageSize) :
    (withPrivateRoot pageSize h).Tidy (rootId + 1)
      ∧ (withPrivateRoot pageSize h).attrRoot? (rootId + 1) = none := by
  have hlinked := linked_empty pageSize .current h
  have hdir : (empty pageSize .current h).directory? rootId = some (.fresh rootId rootId) := rfl
  have hfree : (Directory.fresh rootId rootId).find? Volume.privateRootName = none :=
    Directory.find?_fresh (by decide) rootId rootId
  have hchild {n : String} (hn : EntryName.isDots n = false) (x : ObjectId) :
      (withPrivateRoot pageSize h).child? x n =
        if x = rootId ∧ n = Volume.privateRootName then some (rootId + 1)
        else (empty pageSize .current h).child? x n := by
    rw [withPrivateRoot, child?_marked, child?_madeDirectory hlinked hdir hfree hn]
    rfl
  have hnone : (withPrivateRoot pageSize h).attrRoot? (rootId + 1) = none := by
    rw [attrRoot?, hchild (by decide), if_neg (by decide)]
    exact child?_of_none rfl _
  refine ⟨⟨?_, rfl, rfl, ?_, ⟨_, rfl, rfl, rfl⟩, ?_, ?_, ?_⟩, hnone⟩
  . exact (hlinked.madeDirectory rfl rfl (by decide) hfree).marked _
  . rw [hchild (by decide), if_pos ⟨rfl, rfl⟩]
  . intro root hroot
    rw [hnone] at hroot
    cases hroot
  . intro key dir hdir
    rw [attrDir?, hnone] at hdir
    cases hdir
  . intro key name record _ hrecord
    rw [attrRecord?, attrDir?, hnone] at hrecord
    cases hrecord

theorem findPrivateRoot_found (h : store.Tidy priv) :
    Volume.findPrivateRoot ⟨false⟩ store = .ok priv (store.marked priv) := by
  obtain ⟨d, e, hdir, hfind, rfl⟩ := child?_eq_some_iff.mp h.root
  obtain ⟨object, hobject, _⟩ := h.privateRoot
  simp [Volume.findPrivateRoot, ObjectStore.root, findDirectory_found hdir hfind,
    markPrivate_eq hobject]

theorem findPrivateRoot_made (pageSize : Nat) (h : Record.headerSize < pageSize) :
    Volume.findPrivateRoot ⟨false⟩ (empty pageSize .current h) =
      .ok (rootId + 1) (withPrivateRoot pageSize h) := by
  have hdir : (empty pageSize .current h).directory? rootId = some (.fresh rootId rootId) := rfl
  have hfree : (Directory.fresh rootId rootId).find? Volume.privateRootName = none :=
    Directory.find?_fresh (by decide) rootId rootId
  have hmade : Volume.findDirectory rootId Volume.privateRootName true Volume.privateRootNotFound
      (empty pageSize .current h) = .ok (rootId + 1)
        ((empty pageSize .current h).madeDirectory rootId Volume.privateRootName) :=
    findDirectory_made hdir hfree (by decide)
  have hmark : ObjectStore.markPrivate (rootId + 1)
      ((empty pageSize .current h).madeDirectory rootId Volume.privateRootName) =
        .ok () (withPrivateRoot pageSize h) := markPrivate_eq rfl
  simp [Volume.findPrivateRoot, ObjectStore.root, hmade, hmark]

end MemStore

namespace Volume

open Action MemStore

variable {volume : Volume MemStore} {store store' : MemStore} {priv : ObjectId}

def mounted (store : MemStore) (priv : ObjectId) (cacheCapacity : Nat) : Volume MemStore where
  store := store
  options := MountOptions.optional.settle
  aclFlag := true
  privateRoot := some priv
  attrRoot := none
  locks := .empty
  cache := .empty cacheCapacity

theorem settled_mounted (h : store.Tidy priv) (cacheCapacity : Nat) :
    (mounted store priv cacheCapacity).Settled priv where
  tidy := h
  privateRoot_eq := rfl
  attributes_eq := rfl
  user_eq := rfl
  acl_eq := rfl
  attrRoot := fun _ hroot => by cases hroot
  cache := fun _ _ hpeek => by cases hpeek

theorem mount_eq (hformat : store.format ≠ .legacy)
    (hfind : findPrivateRoot ⟨false⟩ store = .ok priv store') (cacheCapacity : Nat) :
    Volume.mount ⟨false⟩ (unmounted store .optional cacheCapacity) =
      .ok () (mounted store' priv cacheCapacity) := by
  simp [Volume.mount, unmounted, setUpPrivateRoot, ObjectStore.format, hformat, attempt, onStore, focus,
    hfind, MountOptions.settle, MountOptions.optional, MountOptions.none, adopt, mounted]

end Volume

end AttrTree
