import AttrTree.Proofs.Bulk

/-!
This module contains stores with damaged records. A write that fails leaves a record with the right size
and the wrong bytes, which nothing but a look at the bytes can tell: a store does the same with its
objects whether their bytes are mended or not.
-/

namespace AttrTree

def Record.mend (content : Bytes) : Bytes :=
  if headerSize ≤ content.length then image (content.drop headerSize) else content

theorem Record.length_mend (content : Bytes) : (mend content).length = content.length := by
  unfold mend
  split
  . rw [length_image, List.length_drop]
    omega
  . rfl

theorem Record.mend_of_le {content : Bytes} (h : headerSize ≤ content.length) :
    mend content = image (content.drop headerSize) :=
  if_pos h

theorem Record.headerSize_le_image (value : Bytes) : headerSize ≤ (image value).length := by
  rw [length_image]
  exact Nat.le_add_right ..

theorem Record.headerSize_le_of_mend {content value : Bytes} (h : mend content = image value) :
    headerSize ≤ content.length := by
  rw [← length_mend content, h]
  exact headerSize_le_image value

def Body.mended : Body → Body
  | .file content => .file (Record.mend content)
  | .directory dir => .directory dir

namespace MemObject

def mended (object : MemObject) : MemObject :=
  { object with body := object.body.mended }

variable {object : MemObject} {d : Directory}

theorem mended_body_eq_directory_iff : object.mended.body = .directory d ↔ object.body = .directory d := by
  unfold mended
  cases object.body <;> simp [Body.mended]

@[simp]
theorem directory?_mended (object : MemObject) :
    object.mended.body.directory? = object.body.directory? := by
  unfold mended
  cases object.body <;> rfl

@[simp]
theorem isDirectory_mended (object : MemObject) :
    object.mended.body.isDirectory = object.body.isDirectory := by
  rw [Body.isDirectory_eq_isSome, Body.isDirectory_eq_isSome, directory?_mended]

@[simp]
theorem ordinary_mended (object : MemObject) : object.mended.body.ordinary = object.body.ordinary := by
  unfold mended
  cases object.body <;> rfl

theorem sameLinks_mended (object : MemObject) : object.SameLinks object.mended where
  id_eq := rfl
  nlink_eq := rfl
  type_eq := rfl
  kind_eq := object.isDirectory_mended
  targets_eq := by rw [ordinary_mended]
  wellFormed := by
    intro dir dir' id parent hbody hbody' hwf
    rw [mended_body_eq_directory_iff, hbody] at hbody'
    injection hbody' with hbody'
    exact hbody' ▸ hwf

theorem mended_sameLinks (object : MemObject) : object.mended.SameLinks object where
  id_eq := rfl
  nlink_eq := rfl
  type_eq := rfl
  kind_eq := object.isDirectory_mended.symm
  targets_eq := by rw [ordinary_mended]
  wellFormed := by
    intro dir dir' id parent hbody hbody' hwf
    rw [mended_body_eq_directory_iff, hbody'] at hbody
    injection hbody with hbody
    exact hbody ▸ hwf

theorem mended_mapDirectory (f : Directory → Directory) (object : MemObject) :
    (object.mapDirectory f).mended = object.mended.mapDirectory f := by
  cases hbody : object.body <;> simp [mapDirectory, mended, hbody, Body.mended]

theorem mended_withEntry (name : String) (target : ObjectId) (extra : Nat) (object : MemObject) :
    (MemStore.withEntry name target extra object).mended =
      MemStore.withEntry name target extra object.mended := by
  rw [MemStore.withEntry, MemStore.withEntry, ← mended_mapDirectory]
  rfl

theorem mended_withoutEntry (offset lost : Nat) (object : MemObject) :
    (MemStore.withoutEntry offset lost object).mended =
      MemStore.withoutEntry offset lost object.mended := by
  rw [MemStore.withoutEntry, MemStore.withoutEntry, ← mended_mapDirectory]
  rfl

theorem mended_apply {change : AttrChange} (hsize : change.fields.has .size = false)
    (object : MemObject) : (object.apply change).mended = object.mended.apply change := by
  simp [apply, mended, hsize]

end MemObject

namespace MemStore

variable {store : MemStore} {priv id parent root dir record x : ObjectId} {key : ObjectKey}
  {name n : String} {d : Directory} {e : DirEntry} {object owner target : MemObject} {content : Bytes}
  {change : AttrChange}

/-- The store as `Tidy` wants it: every record has a header that fits its payload, and no fault is planned. -/
def mended (store : MemStore) : MemStore :=
  { store with objects := store.objects.map .mended, writeFault := none, rmdirFault := false }

section Lookups

theorem object?_mended (store : MemStore) (x : ObjectId) :
    store.mended.object? x = (store.object? x).map MemObject.mended := by
  simp [object?, mended, List.find?_map, Function.comp_def, MemObject.mended]

theorem object?_mended_of (h : store.object? x = some object) :
    store.mended.object? x = some object.mended := by
  rw [object?_mended, h, Option.map_some]

@[simp]
theorem directory?_mended (store : MemStore) (x : ObjectId) :
    store.mended.directory? x = store.directory? x := by
  rw [directory?, directory?, object?_mended, Option.bind_map]
  congr 1
  funext object
  exact object.directory?_mended

@[simp]
theorem child?_mended (store : MemStore) (x : ObjectId) (n : String) :
    store.mended.child? x n = store.child? x n :=
  child?_congr (store.directory?_mended x) n

@[simp]
theorem attrRoot?_mended (store : MemStore) (priv : ObjectId) :
    store.mended.attrRoot? priv = store.attrRoot? priv :=
  store.child?_mended ..

@[simp]
theorem attrDir?_mended (store : MemStore) (priv : ObjectId) (key : ObjectKey) :
    store.mended.attrDir? priv key = store.attrDir? priv key :=
  attrDir?_congr store.child?_mended ..

@[simp]
theorem attrRecord?_mended (store : MemStore) (priv : ObjectId) (key : ObjectKey) (name : String) :
    store.mended.attrRecord? priv key name = store.attrRecord? priv key name :=
  attrRecord?_congr store.child?_mended ..

theorem inTree_mended_iff : store.mended.InTree priv id ↔ store.InTree priv id :=
  inTree_congr store.child?_mended

theorem linkCount_mended (store : MemStore) (x : ObjectId) :
    store.mended.linkCount x = store.linkCount x := by
  simp [linkCount, mended, MemObject.linksTo, Function.comp_def]

theorem linked_mended_iff : store.mended.Linked ↔ store.Linked := by
  have hids : store.mended.objects.map (·.id) = store.objects.map (·.id) := by
    simp [mended, MemObject.mended]
  constructor
  . refine fun h => h.of_sameLinks ⟨hids.symm, rfl, fun x => ?_, fun x => (store.linkCount_mended x).symm⟩
    rw [object?_mended]
    cases store.object? x with
    | none => exact .none
    | some object => exact .some object.mended_sameLinks
  . refine fun h => h.of_sameLinks ⟨hids, rfl, fun x => ?_, store.linkCount_mended⟩
    rw [object?_mended]
    cases store.object? x with
    | none => exact .none
    | some object => exact .some object.sameLinks_mended

theorem Has.of_mended {P Q : MemObject → Prop} (h : store.mended.Has id P)
    (hPQ : ∀ object : MemObject, P object.mended → Q object) : store.Has id Q := by
  obtain ⟨object', hobject', hP⟩ := h
  rw [object?_mended, Option.map_eq_some_iff] at hobject'
  obtain ⟨object, hobject, rfl⟩ := hobject'
  exact ⟨object, hobject, hPQ object hP⟩

theorem isPrivateDirectory_of_mended (h : store.mended.Has id MemObject.IsPrivateDirectory) :
    store.Has id MemObject.IsPrivateDirectory :=
  h.of_mended fun object hkind => ⟨hkind.1, object.isDirectory_mended ▸ hkind.2⟩

theorem IsLeaf.mended (h : store.IsLeaf parent owner d e target) :
    store.mended.IsLeaf parent owner.mended d e target.mended where
  owner_eq := object?_mended_of h.owner_eq
  body_eq := MemObject.mended_body_eq_directory_iff.mpr h.body_eq
  mem := h.mem
  target_eq := object?_mended_of h.target_eq
  empty := by rw [MemObject.ordinary_mended, h.empty]

end Lookups

section Changes

theorem mended_mapObject (store : MemStore) (id : ObjectId) {f g : MemObject → MemObject}
    (h : ∀ object : MemObject, (f object).mended = g object.mended) :
    (store.mapObject id f).mended = store.mended.mapObject id g := by
  simp only [mended, mapObject, List.map_map]
  congr 1
  apply List.map_congr_left
  intro object _
  have hid : object.mended.id = object.id := rfl
  simp only [Function.comp_apply, hid]
  split
  . exact h object
  . rfl

theorem mended_attach (store : MemStore) {made : ObjectId → UInt32 → MemObject}
    (h : (made store.nextId store.nextGeneration).mended = made store.nextId store.nextGeneration)
    (parent : ObjectId) (name : String) (extra : Nat) :
    (store.attach made parent name extra).mended = store.mended.attach made parent name extra := by
  have hadd : (store.addObject made).mended = store.mended.addObject made := by
    simp [mended, addObject, h]
  rw [attach, mended_mapObject _ _ (MemObject.mended_withEntry name store.nextId extra), hadd]
  rfl

theorem any_isPrivate_mended (store : MemStore) (x : ObjectId) :
    (store.mended.object? x).any (·.isPrivate) = (store.object? x).any (·.isPrivate) := by
  rw [object?_mended]
  cases store.object? x <;> rfl

theorem mended_madeDirectory (store : MemStore) (parent : ObjectId) (name : String) :
    (store.madeDirectory parent name).mended = store.mended.madeDirectory parent name := by
  rw [madeDirectory, mended_attach store rfl, madeDirectory, any_isPrivate_mended]
  rfl

theorem mended_madeRecord (store : MemStore) (parent : ObjectId) (name : String) :
    (store.madeRecord parent name).mended = store.mended.madeRecord parent name := by
  rw [madeRecord, mended_attach store rfl, madeRecord, any_isPrivate_mended]
  rfl

theorem mended_setContent (store : MemStore) (id : ObjectId) (content : Bytes) :
    (store.setContent id content).mended = store.mended.setContent id (Record.mend content) :=
  store.mended_mapObject id fun _ => rfl

theorem mended_eraseObject (store : MemStore) (id : ObjectId) :
    (store.eraseObject id).mended = store.mended.eraseObject id := by
  simp only [mended, eraseObject, List.filter_map]
  rfl

theorem mended_detach (store : MemStore) (parent : ObjectId) (e : DirEntry) (target : MemObject) :
    (store.detach parent e target).mended = store.mended.detach parent e target.mended := by
  have hlinks : parentLinks target.mended = parentLinks target := by
    rw [parentLinks, parentLinks, MemObject.isDirectory_mended]
  have hnlink : target.mended.nlink = target.nlink := rfl
  have hrest := store.mended_mapObject parent
    (MemObject.mended_withoutEntry e.offset (parentLinks target))
  simp only [detach, MemObject.isDirectory_mended, hlinks, hnlink]
  split
  . rw [mended_eraseObject, hrest]
  . rw [← hrest]
    exact mended_mapObject _ e.target fun _ => rfl

theorem mended_changed (store : MemStore) (id : ObjectId) (hsize : change.fields.has .size = false) :
    (store.changed id change).mended = store.mended.changed id change :=
  store.mended_mapObject id (MemObject.mended_apply hsize)

end Changes

end MemStore

end AttrTree
