import AttrTree.Proofs.PrivateTree

/-!
This module contains the steps that the calls on attributes change the private tree by. Each of them
keeps it in order and changes one place: the attribute root or the directory of an object is made, a
record is written or removed, an empty directory is removed.
-/

namespace AttrTree

namespace MemObject

open MemStore

variable {object : MemObject} {bound : Nat} {name : String} {target : ObjectId} {extra lost : Nat}

theorem isPrivate_mapDirectory (f : Directory → Directory) (object : MemObject) :
    (object.mapDirectory f).isPrivate = object.isPrivate := by
  unfold mapDirectory
  split <;> rfl

theorem isDirectory_mapDirectory (f : Directory → Directory) (object : MemObject) :
    (object.mapDirectory f).body.isDirectory = object.body.isDirectory := by
  unfold mapDirectory
  split
  . rfl
  . next hbody =>
    rw [hbody]
    rfl

theorem IsPrivateDirectory.withEntry (h : object.IsPrivateDirectory) :
    (MemStore.withEntry name target extra object).IsPrivateDirectory :=
  ⟨(isPrivate_mapDirectory ..).trans h.1, (isDirectory_mapDirectory ..).trans h.2⟩

theorem IsPrivateDirectory.withoutEntry {offset : Nat} (h : object.IsPrivateDirectory) :
    (MemStore.withoutEntry offset lost object).IsPrivateDirectory :=
  ⟨(isPrivate_mapDirectory ..).trans h.1, (isDirectory_mapDirectory ..).trans h.2⟩

theorem IsAttrDirectory.withEntry {id parent : ObjectId} {d : Directory}
    (h : object.IsAttrDirectory bound) (hbody : object.body = .directory d)
    (hwf : d.WellFormed id parent) :
    (MemStore.withEntry name target extra object).IsAttrDirectory (bound + 1) := by
  obtain ⟨hprivate, d', hbody', hnext, hvisible⟩ := h
  rw [hbody] at hbody'
  injection hbody' with hbody'
  subst hbody'
  refine ⟨(isPrivate_mapDirectory ..).trans hprivate, _, body_withEntry hbody .., ?_, ?_⟩
  . exact Nat.succ_le_succ hnext
  . intro e he
    rw [Directory.ordinary_insert hwf.first_le, List.mem_append, List.mem_singleton] at he
    obtain he | rfl := he
    . exact hvisible e he
    . rfl

theorem IsAttrDirectory.withoutEntry {offset : Nat} (h : object.IsAttrDirectory bound) :
    (MemStore.withoutEntry offset lost object).IsAttrDirectory bound := by
  obtain ⟨hprivate, d, hbody, hnext, hvisible⟩ := h
  refine ⟨(isPrivate_mapDirectory ..).trans hprivate, _, body_withoutEntry hbody .., hnext, ?_⟩
  intro e he
  rw [Directory.ordinary_remove] at he
  exact hvisible e (List.mem_of_mem_filter he)

end MemObject

namespace MemStore

variable {store store' : MemStore} {priv id parent root dir record x : ObjectId}
  {key key' : ObjectKey} {name n : String} {d : Directory} {e : DirEntry}
  {object owner target : MemObject} {child : Option ObjectId} {value : Bytes}

section Has

variable {P : MemObject → Prop}

theorem Has.attach {made : ObjectId → UInt32 → MemObject} (h : store.Has id P)
    (hlinked : store.Linked) (hid : (made store.nextId store.nextGeneration).id = store.nextId)
    (howner : store.object? parent = some owner) (hne : id ≠ parent) (name : String) (extra : Nat) :
    (store.attach made parent name extra).Has id P := by
  obtain ⟨object, hobject, hP⟩ := h
  refine ⟨object, ?_, hP⟩
  rw [object?_attach hlinked hid howner, if_neg (hlinked.ne_nextId hobject), if_neg hne, hobject]

theorem Has.detach (h : store.Has id P) (hleaf : store.IsLeaf parent owner d e target)
    (hparent : id ≠ parent) (htarget : id ≠ e.target) :
    (store.detach parent e target).Has id P := by
  apply h.of_object?_eq
  rw [hleaf.object?_detach, if_neg htarget, if_neg hparent]

theorem Has.setContent (h : store.Has id P) (hobject : store.object? record = some object)
    (hne : id ≠ record) (content : Bytes) : (store.setContent record content).Has id P := by
  apply h.of_object?_eq
  rw [object?_setContent hobject, if_neg hne]

end Has

section PlaceChanged

def PlaceChanged (store store' : MemStore) (parent : ObjectId) (name : String)
    (child : Option ObjectId) : Prop :=
  ∀ ⦃n⦄, EntryName.isDots n = false → ∀ x,
    store'.child? x n = if x = parent ∧ n = name then child else store.child? x n

theorem PlaceChanged.of_ne (h : store.PlaceChanged store' parent name child)
    (hn : EntryName.isDots n = false) (hne : ¬ (x = parent ∧ n = name)) :
    store'.child? x n = store.child? x n := by
  rw [h hn, if_neg hne]

namespace Tidy

section AttrRoot

variable (ht : store.Tidy priv) (hroot : store.attrRoot? priv = some root)
  (h : store.PlaceChanged store' root key.text child)

include h in
theorem attrRoot?_of_key (priv : ObjectId) : store'.attrRoot? priv = store.attrRoot? priv :=
  h.of_ne (by decide) fun hplace => key.text_ne_attrRootName hplace.2.symm

include h in
theorem root_of_key {id : ObjectId} (hchild : store.child? rootId Volume.privateRootName = some id) :
    store'.child? rootId Volume.privateRootName = some id := by
  rw [h.of_ne (by decide) fun hplace => key.text_ne_privateRootName hplace.2.symm, hchild]

include hroot h in
theorem attrDir?_of_key (key' : ObjectKey) :
    store'.attrDir? priv key' = if key' = key then child else store.attrDir? priv key' := by
  rw [attrDir?, attrRoot?_of_key h, hroot, Option.bind_some, h key'.isDots_text, attrDir?, hroot,
    Option.bind_some]
  by_cases hkey : key' = key
  . simp [hkey]
  . rw [if_neg hkey, if_neg]
    rintro ⟨_, htext⟩
    exact hkey (ObjectKey.text_injective htext)

include ht hroot h in
theorem attrRecord?_of_key (hn : EntryName.isDots n = false) (hne : key' ≠ key) :
    store'.attrRecord? priv key' n = store.attrRecord? priv key' n := by
  rw [attrRecord?, attrDir?_of_key hroot h, if_neg hne, attrRecord?]
  cases hdir : store.attrDir? priv key' with
  | none => rfl
  | some dir => exact h.of_ne hn fun hplace => ht.attrRoot_ne_attrDir hroot hdir hplace.1.symm

end AttrRoot

section AttrDir

variable (ht : store.Tidy priv) (hdir : store.attrDir? priv key = some dir)
  (h : store.PlaceChanged store' dir name child)
include ht hdir

theorem rootId_ne_attrDir : rootId ≠ dir := by
  rintro rfl
  obtain ⟨root, _, hchild⟩ := attrDir?_eq_some_iff.mp hdir
  obtain ⟨d, _, hroot, _⟩ := child?_eq_some_iff.mp ht.root
  exact ht.linked.child?_ne_root hroot key.isDots_text hchild

include h

theorem root_of_name : store'.child? rootId Volume.privateRootName = some priv := by
  rw [h.of_ne (by decide) fun hplace => ht.rootId_ne_attrDir hdir hplace.1, ht.root]

theorem attrRoot?_of_name : store'.attrRoot? priv = store.attrRoot? priv :=
  h.of_ne (by decide) fun hplace => ht.privateRoot_ne_attrDir hdir hplace.1

theorem attrDir?_of_name (key' : ObjectKey) :
    store'.attrDir? priv key' = store.attrDir? priv key' := by
  rw [attrDir?, ht.attrRoot?_of_name hdir h, attrDir?]
  cases hroot : store.attrRoot? priv with
  | none => rfl
  | some root =>
    exact h.of_ne key'.isDots_text fun hplace => ht.attrRoot_ne_attrDir hroot hdir hplace.1

theorem attrRecord?_of_name (hn : EntryName.isDots n = false) (key' : ObjectKey) :
    store'.attrRecord? priv key' n =
      if key' = key ∧ n = name then child else store.attrRecord? priv key' n := by
  by_cases hkey : key' = key
  . subst hkey
    have hdir' : store'.attrDir? priv key' = some dir := by
      rw [ht.attrDir?_of_name hdir h, hdir]
    rw [attrRecord?_of_attrDir? hdir', attrRecord?_of_attrDir? hdir, h hn]
    simp
  . rw [if_neg fun hplace => hkey hplace.1, attrRecord?, ht.attrDir?_of_name hdir h, attrRecord?]
    cases hdir' : store.attrDir? priv key' with
    | none => rfl
    | some dir' =>
      refine h.of_ne hn fun hplace => hkey ?_
      exact ht.attrDir_unique hdir (hplace.1 ▸ hdir')

end AttrDir

end Tidy

end PlaceChanged

theorem payload?_of_has (hobject : store.object? id = some object)
    (h : store'.Has id fun object' => object' = object) :
    store'.payload? id = store.payload? id := by
  obtain ⟨object', hobject', rfl⟩ := h
  exact payload?_of_body_eq hobject hobject' rfl

theorem find?_eq_none_of_child? (hdir : store.directory? dir = some d)
    (hfree : store.child? dir name = none) : d.find? name = none := by
  simpa [child?_of_directory? hdir] using hfree

section DirectoryMade

structure DirectoryMade (store store' : MemStore) (parent : ObjectId) (name : String) : Prop where
  linked : store'.Linked
  place : store.PlaceChanged store' parent name (some store.nextId)
  nextId_eq : store'.nextId = store.nextId + 1
  writeFault_eq : store'.writeFault = store.writeFault
  rmdirFault_eq : store'.rmdirFault = store.rmdirFault
  made : store'.Has store.nextId (MemObject.IsAttrDirectory store'.nextId)
  empty : ∀ ⦃n⦄, EntryName.isDots n = false → store'.child? store.nextId n = none
  owner : store'.Has parent MemObject.IsPrivateDirectory
  others : ∀ ⦃id P⦄, store.Has id P → id ≠ parent → store'.Has id P

theorem directoryMade (hlinked : store.Linked) (hparent : store.Has parent MemObject.IsPrivateDirectory)
    (hfree : store.child? parent name = none) (hvalid : isValidName name = true) :
    store.DirectoryMade (store.madeDirectory parent name) parent name := by
  have hkind := hparent
  obtain ⟨owner, d, howner, hprivate, hbody, hdir⟩ := hparent.directory?
  have hfind := find?_eq_none_of_child? hdir hfree
  have hobject := object?_madeDirectory hlinked howner name
  constructor
  . exact hlinked.madeDirectory howner hbody hvalid hfind
  . exact fun n hn x => child?_madeDirectory hlinked hdir hfind hn x
  . rfl
  . rfl
  . rfl
  . refine ⟨store.newDirectory parent owner.isPrivate, ?_, hprivate, .fresh store.nextId parent, rfl,
      ?_, ?_⟩
    . rw [hobject, if_pos rfl]
    . exact Nat.succ_le_succ hlinked.root_lt
    . intro e he
      rw [Directory.ordinary_fresh] at he
      cases he
  . intro n hn
    have hmade : (store.madeDirectory parent name).directory? store.nextId =
        some (.fresh store.nextId parent) := by
      rw [directory?_madeDirectory hlinked howner hbody, if_pos rfl]
    exact child?_fresh hmade hn
  . have howner' : owner.IsPrivateDirectory := by
      rw [MemObject.IsPrivateDirectory, hprivate, hbody]
      exact ⟨rfl, rfl⟩
    refine ⟨withEntry name store.nextId 1 owner, ?_, howner'.withEntry⟩
    rw [hobject, if_neg (hlinked.ne_nextId howner), if_pos rfl]
  . intro id P hid hne
    exact hid.attach hlinked rfl howner hne name 1

end DirectoryMade

namespace Tidy

theorem madeAttrRoot (h : store.Tidy priv) (hfree : store.attrRoot? priv = none) :
    let store' := store.madeDirectory priv Volume.attrRootName
    store'.Tidy priv ∧ store'.attrRoot? priv = some store.nextId
      ∧ ∀ key, store'.attrDir? priv key = none := by
  intro store'
  have hvalid : isValidName Volume.attrRootName = true := by decide
  have hmade : store.DirectoryMade store' priv Volume.attrRootName :=
    directoryMade h.linked h.privateRoot hfree hvalid
  have hroot : store'.attrRoot? priv = some store.nextId := by
    rw [attrRoot?, hmade.place (by decide), if_pos ⟨rfl, rfl⟩]
  have hdir (key : ObjectKey) : store'.attrDir? priv key = none := by
    rw [attrDir?, hroot, Option.bind_some, hmade.empty key.isDots_text]
  refine ⟨?_, hroot, hdir⟩
  constructor
  . exact hmade.linked
  . exact hmade.writeFault_eq.trans h.writeFault_eq
  . exact hmade.rmdirFault_eq.trans h.rmdirFault_eq
  . rw [hmade.place.of_ne (by decide) (by simp [Volume.privateRootName, Volume.attrRootName]), h.root]
  . exact hmade.owner
  . intro root heq
    rw [hroot] at heq
    injection heq with heq
    exact heq ▸ hmade.made.isPrivateDirectory
  . intro key dir heq
    rw [hdir] at heq
    cases heq
  . intro key name record _ heq
    obtain ⟨dir, heq, _⟩ := attrRecord?_eq_some_iff.mp heq
    rw [hdir] at heq
    cases heq

section MadeAttrDir

variable (h : store.Tidy priv) (hroot : store.attrRoot? priv = some root)
  (hfree : store.attrDir? priv key = none) (hvalid : isValidName key.text = true)
include h hroot hfree hvalid

theorem directoryMade_attrDir :
    store.DirectoryMade (store.madeDirectory root key.text) root key.text := by
  refine directoryMade h.linked (h.attrRoot hroot) ?_ hvalid
  simpa [attrDir?, hroot] using hfree

theorem attrDir?_madeAttrDir (key' : ObjectKey) :
    (store.madeDirectory root key.text).attrDir? priv key' =
      if key' = key then some store.nextId else store.attrDir? priv key' :=
  attrDir?_of_key hroot (h.directoryMade_attrDir hroot hfree hvalid).place key'

theorem attrRecord?_madeAttrDir (hn : EntryName.isDots n = false) (key' : ObjectKey) :
    (store.madeDirectory root key.text).attrRecord? priv key' n =
      store.attrRecord? priv key' n := by
  have hmade := h.directoryMade_attrDir hroot hfree hvalid
  by_cases hkey : key' = key
  . rw [attrRecord?, h.attrDir?_madeAttrDir hroot hfree hvalid, if_pos hkey, Option.bind_some,
      hmade.empty hn, attrRecord?, hkey, hfree]
    rfl
  . exact h.attrRecord?_of_key hroot hmade.place hn hkey

theorem madeAttrDir (hid : key.id < store.nextId) :
    (store.madeDirectory root key.text).Tidy priv := by
  have hmade := h.directoryMade_attrDir hroot hfree hvalid
  have hroot' := attrRoot?_of_key hmade.place priv
  constructor
  . exact hmade.linked
  . exact hmade.writeFault_eq.trans h.writeFault_eq
  . exact hmade.rmdirFault_eq.trans h.rmdirFault_eq
  . exact root_of_key hmade.place h.root
  . exact hmade.others h.privateRoot (h.privateRoot_ne_attrRoot hroot)
  . intro root' heq
    rw [hroot', hroot] at heq
    injection heq with heq
    exact heq ▸ hmade.owner
  . intro key' dir heq
    rw [h.attrDir?_madeAttrDir hroot hfree hvalid] at heq
    split at heq
    . next hkey =>
      injection heq with heq
      rw [hkey]
      exact ⟨Nat.lt_succ_of_lt hid, heq ▸ hmade.made⟩
    . obtain ⟨hid', hdir⟩ := h.attrDir heq
      refine ⟨Nat.lt_succ_of_lt hid', ?_⟩
      refine (hmade.others hdir (h.attrRoot_ne_attrDir hroot heq).symm).mono fun object hobject => ?_
      exact hobject.of_alike (.refl object) (Nat.le_succ _)
  . intro key' name record hname heq
    rw [h.attrRecord?_madeAttrDir hroot hfree hvalid hname] at heq
    exact hmade.others (h.record hname heq) (h.record_ne hname heq (h.attrRoot hroot))

theorem attrValue?_madeAttrDir (hn : EntryName.isDots n = false) (key' : ObjectKey) :
    (store.madeDirectory root key.text).attrValue? priv key' n = store.attrValue? priv key' n := by
  have hmade := h.directoryMade_attrDir hroot hfree hvalid
  rw [attrValue?, h.attrRecord?_madeAttrDir hroot hfree hvalid hn, attrValue?]
  cases heq : store.attrRecord? priv key' n with
  | none => rfl
  | some record =>
    obtain ⟨object, hobject, _⟩ := h.record hn heq
    exact payload?_of_has hobject
      (hmade.others ⟨object, hobject, rfl⟩ (h.record_ne hn heq (h.attrRoot hroot)))

end MadeAttrDir

end Tidy

end MemStore

end AttrTree
