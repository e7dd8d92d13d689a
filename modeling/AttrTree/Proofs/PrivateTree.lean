import AttrTree.Proofs.Children
import AttrTree.Proofs.Key

/-!
This module contains the private tree as the calls on attributes keep it: the private root, in it the
attribute root, in that a directory for every object with attributes, and a record for every attribute.
-/

namespace AttrTree

namespace ObjectKey

theorem text_ne {name : String} (hname : ∃ c ∈ name.toList, c ∉ keyAlphabet) (key : ObjectKey) :
    key.text ≠ name := by
  obtain ⟨c, hc, hforeign⟩ := hname
  intro heq
  exact hforeign (@mem_text key c (by rwa [heq]))

theorem text_ne_attrRootName (key : ObjectKey) : key.text ≠ Volume.attrRootName :=
  key.text_ne ⟨'x', by decide, by decide⟩

theorem text_ne_privateRootName (key : ObjectKey) : key.text ≠ Volume.privateRootName :=
  key.text_ne ⟨'x', by decide, by decide⟩

end ObjectKey

def Body.payload? : Body → Option Bytes
  | .file content => some (content.drop Record.headerSize)
  | .directory _ => none

namespace MemObject

variable {object object' : MemObject} {bound bound' : Nat}

def IsPrivateDirectory (object : MemObject) : Prop :=
  object.isPrivate = true ∧ object.body.isDirectory = true

def IsAttrDirectory (bound : Nat) (object : MemObject) : Prop :=
  object.isPrivate = true ∧ ∃ d, object.body = .directory d ∧ d.nextOffset ≤ bound
    ∧ ∀ e ∈ d.ordinary, e.visible = true

def IsRecord (object : MemObject) : Prop :=
  object.isPrivate = true ∧ object.nlink = 1
    ∧ ∃ value, object.body = .file (Record.image value)

structure Alike (object object' : MemObject) : Prop where
  isPrivate_eq : object'.isPrivate = object.isPrivate
  nlink_eq : object'.nlink = object.nlink
  body_eq : object'.body = object.body

theorem Alike.refl (object : MemObject) : object.Alike object :=
  ⟨rfl, rfl, rfl⟩

theorem IsPrivateDirectory.of_alike (h : object.IsPrivateDirectory) (halike : object.Alike object') :
    object'.IsPrivateDirectory := by
  rw [IsPrivateDirectory, halike.isPrivate_eq, halike.body_eq]
  exact h

theorem IsAttrDirectory.of_alike (h : object.IsAttrDirectory bound) (halike : object.Alike object')
    (hle : bound ≤ bound') : object'.IsAttrDirectory bound' := by
  obtain ⟨hprivate, d, hbody, hnext, hvisible⟩ := h
  exact ⟨halike.isPrivate_eq.trans hprivate, d, halike.body_eq.trans hbody,
    Nat.le_trans hnext hle, hvisible⟩

theorem IsRecord.of_alike (h : object.IsRecord) (halike : object.Alike object') :
    object'.IsRecord := by
  rw [IsRecord, halike.isPrivate_eq, halike.nlink_eq, halike.body_eq]
  exact h

end MemObject

namespace MemStore

variable {store store' : MemStore} {priv id root dir record x : ObjectId} {key key' : ObjectKey}
  {name n : String} {object : MemObject}

def Has (store : MemStore) (id : ObjectId) (P : MemObject → Prop) : Prop :=
  ∃ object, store.object? id = some object ∧ P object

theorem Has.of_object?_eq {P : MemObject → Prop} (h : store.Has id P)
    (heq : store'.object? id = store.object? id) : store'.Has id P := by
  obtain ⟨object, hobject, hP⟩ := h
  exact ⟨object, heq.trans hobject, hP⟩

theorem Has.mono {P Q : MemObject → Prop} (h : store.Has id P) (hPQ : ∀ object, P object → Q object) :
    store.Has id Q := by
  obtain ⟨object, hobject, hP⟩ := h
  exact ⟨object, hobject, hPQ object hP⟩

theorem Has.directory? (h : store.Has id MemObject.IsPrivateDirectory) :
    ∃ owner d, store.object? id = some owner ∧ owner.isPrivate = true ∧ owner.body = .directory d
      ∧ store.directory? id = some d := by
  obtain ⟨owner, howner, hprivate, hkind⟩ := h
  cases hbody : owner.body with
  | file content => simp [hbody, Body.isDirectory] at hkind
  | directory d => exact ⟨owner, d, howner, hprivate, hbody, directory?_of_object? howner hbody⟩

theorem Has.isPrivateDirectory {bound : Nat} (h : store.Has id (MemObject.IsAttrDirectory bound)) :
    store.Has id MemObject.IsPrivateDirectory := by
  refine h.mono fun object hobject => ?_
  obtain ⟨hprivate, d, hbody, _⟩ := hobject
  exact ⟨hprivate, by rw [hbody]; rfl⟩

section Levels

def attrRoot? (store : MemStore) (priv : ObjectId) : Option ObjectId :=
  store.child? priv Volume.attrRootName

def attrDir? (store : MemStore) (priv : ObjectId) (key : ObjectKey) : Option ObjectId :=
  (store.attrRoot? priv).bind fun root => store.child? root key.text

def attrRecord? (store : MemStore) (priv : ObjectId) (key : ObjectKey) (name : String) :
    Option ObjectId :=
  (store.attrDir? priv key).bind fun dir => store.child? dir name

def payload? (store : MemStore) (id : ObjectId) : Option Bytes :=
  (store.object? id).bind (·.body.payload?)

def attrValue? (store : MemStore) (priv : ObjectId) (key : ObjectKey) (name : String) :
    Option Bytes :=
  (store.attrRecord? priv key name).bind store.payload?

theorem attrDir?_eq_some_iff :
    store.attrDir? priv key = some dir ↔
      ∃ root, store.attrRoot? priv = some root ∧ store.child? root key.text = some dir := by
  simp [attrDir?, Option.bind_eq_some_iff]

theorem attrRecord?_eq_some_iff :
    store.attrRecord? priv key name = some record ↔
      ∃ dir, store.attrDir? priv key = some dir ∧ store.child? dir name = some record := by
  simp [attrRecord?, Option.bind_eq_some_iff]

theorem attrRecord?_of_attrDir? (h : store.attrDir? priv key = some dir) (name : String) :
    store.attrRecord? priv key name = store.child? dir name := by
  simp [attrRecord?, h]

theorem payload?_of_image {value : Bytes} (hobject : store.object? id = some object)
    (hbody : object.body = .file (Record.image value)) : store.payload? id = some value := by
  simp [payload?, hobject, hbody, Body.payload?]

theorem payload?_of_body_eq {object' : MemObject} (hobject : store.object? id = some object)
    (hobject' : store'.object? id = some object') (hbody : object'.body = object.body) :
    store'.payload? id = store.payload? id := by
  simp [payload?, hobject, hobject', hbody]

end Levels

/-- The private tree can be found, holds directories and records with fitting headers only, and no fault stands
in the way of changing it. -/
structure Tidy (store : MemStore) (priv : ObjectId) : Prop where
  linked : store.Linked
  writeFault_eq : store.writeFault = none
  rmdirFault_eq : store.rmdirFault = false
  root : store.child? rootId Volume.privateRootName = some priv
  privateRoot : store.Has priv MemObject.IsPrivateDirectory
  attrRoot : ∀ ⦃root⦄, store.attrRoot? priv = some root →
    store.Has root MemObject.IsPrivateDirectory
  attrDir : ∀ ⦃key dir⦄, store.attrDir? priv key = some dir →
    key.id < store.nextId ∧ store.Has dir (MemObject.IsAttrDirectory store.nextId)
  record : ∀ ⦃key name record⦄, EntryName.isDots name = false →
    store.attrRecord? priv key name = some record → store.Has record MemObject.IsRecord

namespace Tidy

section Places

theorem place_unique (h : store.Tidy priv) (hid : store.Has id MemObject.IsPrivateDirectory)
    (hname : EntryName.isDots name = false) (hn : EntryName.isDots n = false)
    (hchild : store.child? dir name = some id) (hchild' : store.child? x n = some id) :
    x = dir ∧ n = name := by
  obtain ⟨_, d, _, _, _, hdir⟩ := hid.directory?
  exact h.linked.place_unique (h.linked.linkCount_le_of_directory? hdir) hname hn hchild hchild'

theorem privateRoot_ne_attrRoot (h : store.Tidy priv) (hroot : store.attrRoot? priv = some root) :
    priv ≠ root := by
  rintro rfl
  have hplace := h.place_unique h.privateRoot (by decide) (by decide) h.root hroot
  exact absurd hplace.2 (by decide)

theorem privateRoot_ne_attrDir (h : store.Tidy priv) (hdir : store.attrDir? priv key = some dir) :
    priv ≠ dir := by
  rintro rfl
  obtain ⟨root, _, hchild⟩ := attrDir?_eq_some_iff.mp hdir
  have hplace := h.place_unique h.privateRoot (by decide) key.isDots_text h.root hchild
  exact key.text_ne_privateRootName hplace.2

theorem attrRoot_ne_attrDir (h : store.Tidy priv) (hroot : store.attrRoot? priv = some root)
    (hdir : store.attrDir? priv key = some dir) : root ≠ dir := by
  rintro rfl
  obtain ⟨root', _, hchild⟩ := attrDir?_eq_some_iff.mp hdir
  have hplace := h.place_unique (h.attrRoot hroot) (by decide) key.isDots_text hroot hchild
  exact key.text_ne_attrRootName hplace.2

theorem attrDir_unique (h : store.Tidy priv) (hdir : store.attrDir? priv key = some dir)
    (hdir' : store.attrDir? priv key' = some dir) : key' = key := by
  obtain ⟨root, _, hchild⟩ := attrDir?_eq_some_iff.mp hdir
  obtain ⟨root', _, hchild'⟩ := attrDir?_eq_some_iff.mp hdir'
  have hplace := h.place_unique (h.attrDir hdir).2.isPrivateDirectory key.isDots_text
    key'.isDots_text hchild hchild'
  exact ObjectKey.text_injective hplace.2

theorem record_unique (h : store.Tidy priv) (hname : EntryName.isDots name = false)
    (hn : EntryName.isDots n = false) (hrecord : store.attrRecord? priv key name = some record)
    (hrecord' : store.attrRecord? priv key' n = some record) : key' = key ∧ n = name := by
  obtain ⟨dir, hdir, hchild⟩ := attrRecord?_eq_some_iff.mp hrecord
  obtain ⟨dir', hdir', hchild'⟩ := attrRecord?_eq_some_iff.mp hrecord'
  obtain ⟨object, hobject, _, hnlink, value, hbody⟩ := h.record hname hrecord
  have hcount := h.linked.linkCount_le_of_nlink hobject (by rw [hbody]; rfl) (Nat.le_of_eq hnlink)
  obtain ⟨rfl, rfl⟩ := h.linked.place_unique hcount hname hn hchild hchild'
  exact ⟨h.attrDir_unique hdir hdir', rfl⟩

theorem record_ne (h : store.Tidy priv) (hname : EntryName.isDots name = false)
    (hrecord : store.attrRecord? priv key name = some record)
    (hid : store.Has id MemObject.IsPrivateDirectory) : record ≠ id := by
  rintro rfl
  obtain ⟨object, hobject, _, _, value, hbody⟩ := h.record hname hrecord
  obtain ⟨object', hobject', _, hkind⟩ := hid
  rw [hobject] at hobject'
  injection hobject' with hobject'
  subst hobject'
  rw [hbody] at hkind
  cases hkind

end Places

end Tidy

inductive InTree (store : MemStore) (priv : ObjectId) : ObjectId → Prop
  | privateRoot : InTree store priv priv
  | attrRoot {root : ObjectId} (h : store.attrRoot? priv = some root) : InTree store priv root
  | attrDir {key : ObjectKey} {dir : ObjectId} (h : store.attrDir? priv key = some dir) :
    InTree store priv dir
  | record {key : ObjectKey} {name : String} {record : ObjectId}
    (hname : EntryName.isDots name = false) (h : store.attrRecord? priv key name = some record) :
    InTree store priv record

section SameNames

variable (h : ∀ id n, store'.child? id n = store.child? id n)
include h

theorem attrDir?_congr (priv : ObjectId) (key : ObjectKey) :
    store'.attrDir? priv key = store.attrDir? priv key := by
  simp only [attrDir?, attrRoot?, h]

theorem attrRecord?_congr (priv : ObjectId) (key : ObjectKey) (name : String) :
    store'.attrRecord? priv key name = store.attrRecord? priv key name := by
  simp only [attrRecord?, attrDir?_congr h, h]

theorem inTree_congr : store'.InTree priv id ↔ store.InTree priv id := by
  constructor
  . intro hid
    cases hid with
    | privateRoot => exact .privateRoot
    | attrRoot hroot => exact .attrRoot ((h ..).symm.trans hroot)
    | attrDir hdir => exact .attrDir ((attrDir?_congr h ..).symm.trans hdir)
    | record hname hrecord => exact .record hname ((attrRecord?_congr h ..).symm.trans hrecord)
  . intro hid
    cases hid with
    | privateRoot => exact .privateRoot
    | attrRoot hroot => exact .attrRoot ((h ..).trans hroot)
    | attrDir hdir => exact .attrDir ((attrDir?_congr h ..).trans hdir)
    | record hname hrecord => exact .record hname ((attrRecord?_congr h ..).trans hrecord)

end SameNames

theorem InTree.isPrivate (hid : store.InTree priv id) (h : store.Tidy priv) :
    store.Has id (·.isPrivate = true) := by
  cases hid with
  | privateRoot => exact h.privateRoot.mono fun _ hobject => hobject.1
  | attrRoot hroot => exact (h.attrRoot hroot).mono fun _ hobject => hobject.1
  | attrDir hdir => exact (h.attrDir hdir).2.mono fun _ hobject => hobject.1
  | record hname hrecord => exact (h.record hname hrecord).mono fun _ hobject => hobject.1

theorem InTree.live (hid : store.InTree priv id) (h : store.Tidy priv) :
    ∃ object, store.object? id = some object := by
  obtain ⟨object, hobject, _⟩ := hid.isPrivate h
  exact ⟨object, hobject⟩

def KeepsTree (store store' : MemStore) (priv : ObjectId) : Prop :=
  ∀ ⦃id object⦄, store.InTree priv id → store.object? id = some object →
    ∃ object', store'.object? id = some object' ∧ object.Alike object'

theorem KeepsTree.has (hkept : store.KeepsTree store' priv) {P : MemObject → Prop}
    (hid : store.InTree priv id) (h : store.Has id P)
    (hP : ∀ ⦃object object'⦄, P object → object.Alike object' → P object') : store'.Has id P := by
  obtain ⟨object, hobject, hobjectP⟩ := h
  obtain ⟨object', hobject', halike⟩ := hkept hid hobject
  exact ⟨object', hobject', hP hobjectP halike⟩

structure SameTree (store store' : MemStore) (priv : ObjectId) : Prop where
  attrRoot_eq : store'.attrRoot? priv = store.attrRoot? priv
  attrDir_eq : ∀ key, store'.attrDir? priv key = store.attrDir? priv key
  attrRecord_eq : ∀ key name, store'.attrRecord? priv key name = store.attrRecord? priv key name
  attrValue_eq : ∀ key {name}, EntryName.isDots name = false →
    store'.attrValue? priv key name = store.attrValue? priv key name

namespace Tidy

section KeepsTree

variable (h : store.Tidy priv) (hkept : store.KeepsTree store' priv)
include h hkept

theorem child?_of_keepsTree (hid : store.InTree priv id) (n : String) :
    store'.child? id n = store.child? id n := by
  obtain ⟨object, hobject⟩ := hid.live h
  obtain ⟨object', hobject', halike⟩ := hkept hid hobject
  apply child?_congr
  simp [directory?, hobject, hobject', halike.body_eq]

theorem sameTree : store.SameTree store' priv := by
  have hroot : store'.attrRoot? priv = store.attrRoot? priv :=
    h.child?_of_keepsTree hkept .privateRoot _
  have hdir (key : ObjectKey) : store'.attrDir? priv key = store.attrDir? priv key := by
    rw [attrDir?, hroot, attrDir?]
    cases heq : store.attrRoot? priv with
    | none => rfl
    | some root => exact h.child?_of_keepsTree hkept (.attrRoot heq) _
  have hrecord (key : ObjectKey) (name : String) :
      store'.attrRecord? priv key name = store.attrRecord? priv key name := by
    rw [attrRecord?, hdir, attrRecord?]
    cases heq : store.attrDir? priv key with
    | none => rfl
    | some dir => exact h.child?_of_keepsTree hkept (.attrDir heq) _
  refine ⟨hroot, hdir, hrecord, fun key name hname => ?_⟩
  rw [attrValue?, hrecord, attrValue?]
  cases heq : store.attrRecord? priv key name with
  | none => rfl
  | some record =>
    obtain ⟨object, hobject⟩ := (InTree.record hname heq).live h
    obtain ⟨object', hobject', halike⟩ := hkept (.record hname heq) hobject
    exact payload?_of_body_eq hobject hobject' halike.body_eq

theorem of_keepsTree (hlinked : store'.Linked) (hwrite : store'.writeFault = none)
    (hrmdir : store'.rmdirFault = false)
    (hroot : store'.child? rootId Volume.privateRootName = some priv)
    (hnext : store.nextId ≤ store'.nextId) : store'.Tidy priv := by
  have hsame := h.sameTree hkept
  constructor
  . exact hlinked
  . exact hwrite
  . exact hrmdir
  . exact hroot
  . exact hkept.has .privateRoot h.privateRoot fun _ _ => .of_alike
  . intro root heq
    rw [hsame.attrRoot_eq] at heq
    exact hkept.has (.attrRoot heq) (h.attrRoot heq) fun _ _ => .of_alike
  . intro key dir heq
    rw [hsame.attrDir_eq] at heq
    obtain ⟨hid, object, hobject, hdir⟩ := h.attrDir heq
    obtain ⟨object', hobject', halike⟩ := hkept (.attrDir heq) hobject
    exact ⟨Nat.lt_of_lt_of_le hid hnext, object', hobject', hdir.of_alike halike hnext⟩
  . intro key name record hname heq
    rw [hsame.attrRecord_eq] at heq
    exact hkept.has (.record hname heq) (h.record hname heq) fun _ _ => .of_alike

end KeepsTree

end Tidy

end MemStore

end AttrTree
