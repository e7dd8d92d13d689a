import AttrTree.Proofs.Outcome

/-!
This module contains what the operations on the private tree do to the directories and objects of the
store in memory, to those that they are about and to all others.
-/

namespace AttrTree

namespace MemStore

variable {store : MemStore} {id dir parent x : ObjectId} {name : String} {d : Directory}
  {object owner : MemObject}

def newDirectory (store : MemStore) (parent : ObjectId) (isPrivate : Bool) : MemObject :=
  store.child isPrivate (Mode.withType Mode.directoryType Volume.privateMode) 2
    (fun self => .directory (.fresh self parent)) store.nextId store.nextGeneration

def newRecord (store : MemStore) (isPrivate : Bool) : MemObject :=
  store.child isPrivate (Mode.withType Mode.fileType (Mode.withType Mode.fileType Volume.privateMode))
    1 (fun _ => .file []) store.nextId store.nextGeneration

@[simp]
theorem writeFault_detach (store : MemStore) (parent : ObjectId) (e : DirEntry)
    (target : MemObject) : (store.detach parent e target).writeFault = store.writeFault := by
  unfold detach
  split <;> rfl

@[simp]
theorem rmdirFault_detach (store : MemStore) (parent : ObjectId) (e : DirEntry)
    (target : MemObject) : (store.detach parent e target).rmdirFault = store.rmdirFault := by
  unfold detach
  split <;> rfl

theorem unlinked?_of_shared {target : MemObject} (hkind : target.body.isDirectory = false)
    (hshared : 1 < target.nlink) : unlinked? target = some (withNlink (· - 1) target) := by
  simp [unlinked?, hkind, Nat.not_le.mpr hshared]

section Made

variable (h : store.Linked) (howner : store.object? parent = some owner)
  (hbody : owner.body = .directory d)
include h howner

theorem object?_madeDirectory (name : String) (x : ObjectId) :
    (store.madeDirectory parent name).object? x =
      if x = store.nextId then some (store.newDirectory parent owner.isPrivate)
      else if x = parent then some (withEntry name store.nextId 1 owner)
      else store.object? x := by
  rw [madeDirectory, object?_attach h rfl howner, howner]
  rfl

theorem object?_madeRecord (name : String) (x : ObjectId) :
    (store.madeRecord parent name).object? x =
      if x = store.nextId then some (store.newRecord owner.isPrivate)
      else if x = parent then some (withEntry name store.nextId 0 owner)
      else store.object? x := by
  rw [madeRecord, object?_attach h rfl howner, howner]
  rfl

include hbody

theorem directory?_madeDirectory (name : String) (x : ObjectId) :
    (store.madeDirectory parent name).directory? x =
      if x = store.nextId then some (.fresh store.nextId parent)
      else if x = parent then some (d.insert name store.nextId)
      else store.directory? x := by
  rw [madeDirectory, directory?_attach h rfl howner hbody]
  rfl

theorem directory?_madeRecord (name : String) (x : ObjectId) :
    (store.madeRecord parent name).directory? x =
      if x = store.nextId then none
      else if x = parent then some (d.insert name store.nextId)
      else store.directory? x := by
  rw [madeRecord, directory?_attach h rfl howner hbody]
  rfl

theorem Linked.madeDirectory (hvalid : isValidName name = true) (hfree : d.find? name = none) :
    (store.madeDirectory parent name).Linked :=
  h.attach (isNew_directory ..) howner hbody hvalid (by simp [Directory.contains, hfree])

theorem Linked.madeRecord (hvalid : isValidName name = true) (hfree : d.find? name = none) :
    (store.madeRecord parent name).Linked :=
  h.attach (isNew_file ..) howner hbody hvalid (by simp [Directory.contains, hfree])

end Made

def KeepsOthers (store store' : MemStore) (dir : ObjectId) (name : String) : Prop :=
  ∀ ⦃x n id⦄, ¬ (x = dir ∧ n = name) → store.child? x n = some id →
    store'.child? x n = some id ∧ store'.readAll id = store.readAll id

def KeepsIdentities (store store' : MemStore) : Prop :=
  ∀ ⦃x object⦄, store.object? x = some object → ∃ object', store'.object? x = some object'
    ∧ object'.stat.key = object.stat.key ∧ object'.format = object.format

section Keeps

variable {store' store'' : MemStore} {target : MemObject} {e : DirEntry}

theorem KeepsOthers.refl (store : MemStore) (dir : ObjectId) (name : String) :
    store.KeepsOthers store dir name :=
  fun _ _ _ _ h => ⟨h, rfl⟩

theorem KeepsOthers.trans (h : store.KeepsOthers store' dir name)
    (h' : store'.KeepsOthers store'' dir name) : store.KeepsOthers store'' dir name := by
  intro x n id hne hchild
  obtain ⟨hmid, hdata⟩ := h hne hchild
  obtain ⟨hend, hdata'⟩ := h' hne hmid
  exact ⟨hend, hdata'.trans hdata⟩

theorem KeepsIdentities.refl (store : MemStore) : store.KeepsIdentities store :=
  fun _ _ h => ⟨_, h, rfl, rfl⟩

theorem KeepsIdentities.trans (h : store.KeepsIdentities store')
    (h' : store'.KeepsIdentities store'') : store.KeepsIdentities store'' := by
  intro x object hobject
  obtain ⟨object', hobject', hkey, hformat⟩ := h hobject
  obtain ⟨object'', hobject'', hkey', hformat'⟩ := h' hobject'
  exact ⟨object'', hobject'', hkey'.trans hkey, hformat'.trans hformat⟩

theorem readAll_congr (h : store'.object? id = store.object? id) :
    store'.readAll id = store.readAll id := by
  unfold readAll getContent getObject
  rw [h]

theorem readAll_of_directory? (h : store.directory? id = some d) :
    store.readAll id = .error contentOfDirectory := by
  obtain ⟨object, hobject, hbody⟩ := directory?_eq_some_iff.mp h
  simp [readAll, getContent, getObject, hobject, hbody, bind, Except.bind]

theorem readAll_of_file {content : Bytes} (h : store.object? id = some object)
    (hbody : object.body = .file content) : store.readAll id = .ok content := by
  simp [readAll, getContent, getObject, h, hbody, bind, Except.bind]

theorem keepsOthers_attach (h : store.Linked) {made : ObjectId → UInt32 → MemObject}
    (hid : (made store.nextId store.nextGeneration).id = store.nextId)
    (howner : store.object? parent = some owner) (hbody : owner.body = .directory d)
    (hfree : d.find? name = none) (extra : Nat) (dir : ObjectId) (n : String) :
    store.KeepsOthers (store.attach made parent name extra) dir n := by
  intro x n id _ hchild
  obtain ⟨d', e, hdir, hfind, rfl⟩ := child?_eq_some_iff.mp hchild
  have hparent := directory?_of_object? howner hbody
  have hx : x ≠ store.nextId := by
    obtain ⟨object, hobject, _⟩ := directory?_eq_some_iff.mp hdir
    exact h.ne_nextId hobject
  have htarget : e.target ≠ store.nextId := Nat.ne_of_lt (h.target_lt_of_find? hdir hfind)
  constructor
  . rw [child?_eq_some_iff]
    rw [directory?_attach h hid howner hbody, if_neg hx]
    split
    . next heq =>
      rw [heq, hparent] at hdir
      injection hdir with hdir
      subst hdir
      refine ⟨_, e, rfl, ?_, rfl⟩
      rw [Directory.find?_insert _ (by simp [Directory.contains, hfree]), if_neg, hfind]
      rintro rfl
      rw [hfree] at hfind
      cases hfind
    . exact ⟨d', e, hdir, hfind, rfl⟩
  . by_cases heq : e.target = parent
    . have hafter := directory?_attach h hid howner hbody name extra e.target
      rw [if_neg htarget, if_pos heq] at hafter
      rw [readAll_of_directory? hafter, heq, readAll_of_directory? hparent]
    . apply readAll_congr
      rw [object?_attach h hid howner, if_neg htarget, if_neg heq]

theorem keepsIdentities_attach (h : store.Linked) {made : ObjectId → UInt32 → MemObject}
    (hid : (made store.nextId store.nextGeneration).id = store.nextId)
    (howner : store.object? parent = some owner) (name : String) (extra : Nat) :
    store.KeepsIdentities (store.attach made parent name extra) := by
  intro x object hobject
  rw [object?_attach h hid howner, if_neg (h.ne_nextId hobject)]
  split
  . next heq =>
    rw [heq, howner] at hobject
    injection hobject with hobject
    refine ⟨_, rfl, ?_, ?_⟩
    . rw [← hobject]
      unfold withEntry MemObject.mapDirectory
      split <;> rfl
    . rw [← hobject]
      unfold withEntry MemObject.mapDirectory
      split <;> rfl
  . exact ⟨object, hobject, rfl, rfl⟩

theorem Linked.isValidName_of_child? (h : store.Linked) (hchild : store.child? dir name = some id)
    (hobject : store.object? id = some object) (hkind : object.body.isDirectory = false) :
    isValidName name = true := by
  -- Only names that files can have lead to files.
  obtain ⟨d, e, hdir, hfind, rfl⟩ := child?_eq_some_iff.mp hchild
  obtain ⟨_, hwf, _⟩ := h.placed hdir
  obtain ⟨_, hleaf⟩ := h.isLeaf hdir hfind hobject hkind
  have hname : e.name = name := by
    simpa using List.find?_some hfind
  exact hname ▸ hwf.names_valid e hleaf.mem

theorem Linked.child?_unique (h : store.Linked) (hobject : store.object? id = some object)
    (hkind : object.body.isDirectory = false) (hnlink : object.nlink ≤ 1) {n : String}
    (hchild : store.child? dir name = some id) (hchild' : store.child? x n = some id) :
    x = dir ∧ n = name := by
  obtain ⟨d, e, hdir, hfind, rfl⟩ := child?_eq_some_iff.mp hchild
  obtain ⟨d', e', hdir', hfind', htarget⟩ := child?_eq_some_iff.mp hchild'
  obtain ⟨_, hleaf⟩ := h.isLeaf hdir hfind hobject hkind
  obtain ⟨_, hleaf'⟩ := h.isLeaf hdir' hfind' (htarget ▸ hobject) hkind
  have hcount : store.linkCount e.target ≤ 1 := by
    rw [← (h.file_nlink hobject hkind).1]
    exact hnlink
  obtain ⟨hx, he⟩ := h.eq_of_target hcount hdir hleaf.mem rfl hdir' hleaf'.mem htarget
  have hname : e.name = name := by
    simpa using List.find?_some hfind
  have hname' : e'.name = n := by
    simpa using List.find?_some hfind'
  exact ⟨hx, by rw [← hname, ← hname', he]⟩

theorem keepsOthers_detach (h : store.Linked) (hdir : store.directory? dir = some d)
    (hfind : d.find? name = some e) (htarget : store.object? e.target = some target)
    (hkind : target.body.isDirectory = false) :
    store.KeepsOthers (store.detach dir e target) dir name := by
  intro x n id hne hchild
  obtain ⟨owner, hleaf⟩ := h.isLeaf hdir hfind htarget hkind
  obtain ⟨_, hwf⟩ := hleaf.wellFormed h
  have hname : e.name = name := by
    simpa using List.find?_some hfind
  constructor
  . obtain ⟨d', e', hdir', hfind', rfl⟩ := child?_eq_some_iff.mp hchild
    have hx : x ≠ e.target := by
      rintro rfl
      have := isFile_of_directory? hdir'
      simp [isFile_of_object? htarget, hkind] at this
    rw [child?_eq_some_iff, hleaf.directory?_detach, if_neg hx]
    split
    . next heq =>
      rw [heq, hdir] at hdir'
      injection hdir' with hdir'
      subst hdir'
      refine ⟨_, e', rfl, ?_, rfl⟩
      rw [hwf.find?_remove (Directory.mem_entries_of_mem_ordinary hleaf.mem), hname, if_neg, hfind']
      intro hn
      exact hne ⟨heq, hn⟩
    . exact ⟨d', e', hdir', hfind', rfl⟩
  . by_cases heq : id = e.target
    . subst heq
      have hmore : 1 < target.nlink := by
        by_contra hone
        have hself : store.child? dir name = some e.target :=
          child?_eq_some_iff.mpr ⟨d, e, hdir, hfind, rfl⟩
        exact hne (h.child?_unique htarget hkind (Nat.le_of_not_lt hone) hself hchild)
      have hafter : (store.detach dir e target).object? e.target =
          some (withNlink (· - 1) target) := by
        rw [hleaf.object?_detach, if_pos rfl, unlinked?_of_shared hkind hmore]
      cases hbody : target.body with
      | directory d' => simp [hbody, Body.isDirectory] at hkind
      | file content =>
        have hbody' : (withNlink (· - 1) target).body = .file content := hbody
        rw [readAll_of_file hafter hbody', readAll_of_file htarget hbody]
    . by_cases hparent : id = dir
      . have hafter := hleaf.directory?_detach id
        rw [if_neg heq, if_pos hparent] at hafter
        rw [readAll_of_directory? hafter, hparent, readAll_of_directory? hdir]
      . apply readAll_congr
        rw [hleaf.object?_detach, if_neg heq, if_neg hparent]

theorem identity_detach {owner : MemObject} (hleaf : store.IsLeaf dir owner d e target)
    (hne : x ≠ e.target) (hobject : store.object? x = some object) :
    ∃ object', (store.detach dir e target).object? x = some object'
      ∧ object'.stat.key = object.stat.key ∧ object'.format = object.format := by
  rw [hleaf.object?_detach, if_neg hne]
  split
  . next heq =>
    rw [heq, hleaf.owner_eq] at hobject
    injection hobject with hobject
    subst hobject
    refine ⟨_, rfl, ?_, ?_⟩
    . unfold withoutEntry MemObject.mapDirectory
      split <;> rfl
    . unfold withoutEntry MemObject.mapDirectory
      split <;> rfl
  . exact ⟨object, hobject, rfl, rfl⟩

theorem keepsIdentities_detach {owner : MemObject} (hleaf : store.IsLeaf dir owner d e target)
    (hkind : target.body.isDirectory = false) (hshared : 1 < target.nlink) :
    store.KeepsIdentities (store.detach dir e target) := by
  -- A file with other links goes on with one link less.
  intro x object hobject
  by_cases heq : x = e.target
  . rw [heq, hleaf.target_eq] at hobject
    injection hobject with hobject
    subst hobject
    have hafter := hleaf.object?_detach x
    rw [if_pos heq, unlinked?_of_shared hkind hshared] at hafter
    exact ⟨_, hafter, rfl, rfl⟩
  . exact identity_detach hleaf heq hobject

theorem directory?_setContent (hobject : store.object? id = some object)
    (hkind : object.body.isDirectory = false) (content : Bytes) (x : ObjectId) :
    (store.setContent id content).directory? x = store.directory? x := by
  unfold directory?
  rw [object?_setContent hobject]
  split
  . next heq =>
    rw [heq, hobject]
    cases hbody : object.body with
    | file old => simp [withContent, Body.directory?, hbody]
    | directory d => simp [hbody, Body.isDirectory] at hkind
  . rfl

theorem child?_setContent (hobject : store.object? id = some object)
    (hkind : object.body.isDirectory = false) (content : Bytes) (x : ObjectId) (n : String) :
    (store.setContent id content).child? x n = store.child? x n := by
  unfold child?
  rw [directory?_setContent hobject hkind]

theorem keepsOthers_setContent (h : store.Linked) (hobject : store.object? id = some object)
    (hkind : object.body.isDirectory = false) (hnlink : object.nlink ≤ 1)
    (hchild : store.child? dir name = some id) (content : Bytes) :
    store.KeepsOthers (store.setContent id content) dir name := by
  intro x n y hne hchild'
  have hy : y ≠ id := by
    rintro rfl
    exact hne (h.child?_unique hobject hkind hnlink hchild hchild')
  refine ⟨?_, readAll_congr (by rw [object?_setContent hobject, if_neg hy])⟩
  rw [child?_setContent hobject hkind]
  exact hchild'

theorem keepsIdentities_setContent (hobject : store.object? id = some object) (content : Bytes) :
    store.KeepsIdentities (store.setContent id content) := by
  intro x object' hobject'
  rw [object?_setContent hobject]
  split
  . next heq =>
    rw [heq, hobject] at hobject'
    injection hobject' with hobject'
    exact ⟨_, rfl, hobject' ▸ rfl, hobject' ▸ rfl⟩
  . exact ⟨object', hobject', rfl, rfl⟩

end Keeps

structure KeepsKeys (store store' : MemStore) : Prop where
  format_eq : store'.format = store.format
  nextId_le : store.nextId ≤ store'.nextId
  key_eq : ∀ ⦃x object'⦄, store'.object? x = some object' →
    store.nextId ≤ x ∨ ∃ object, store.object? x = some object ∧ object'.stat.key = object.stat.key

namespace KeepsKeys

variable {store' store'' : MemStore}

theorem refl (store : MemStore) : store.KeepsKeys store :=
  ⟨rfl, Nat.le_refl _, fun _ object hobject => .inr ⟨object, hobject, rfl⟩⟩

theorem trans (h : store.KeepsKeys store') (h' : store'.KeepsKeys store'') :
    store.KeepsKeys store'' := by
  refine ⟨h'.format_eq.trans h.format_eq, Nat.le_trans h.nextId_le h'.nextId_le,
    fun x object'' hobject'' => ?_⟩
  obtain hnew | ⟨object', hobject', hkey'⟩ := h'.key_eq hobject''
  . exact .inl (Nat.le_trans h.nextId_le hnew)
  . obtain hnew | ⟨object, hobject, hkey⟩ := h.key_eq hobject'
    . exact .inl hnew
    . exact .inr ⟨object, hobject, hkey'.trans hkey⟩

theorem of_objects_eq (hobjects : store'.objects = store.objects)
    (hnext : store'.nextId = store.nextId) (hformat : store'.format = store.format) :
    store.KeepsKeys store' := by
  refine ⟨hformat, Nat.le_of_eq hnext.symm, fun x object hobject => ?_⟩
  rw [object?_congr hobjects] at hobject
  exact .inr ⟨object, hobject, rfl⟩

theorem mapObject (store : MemStore) (id : ObjectId) {f : MemObject → MemObject}
    (hf : ∀ object, (f object).stat.key = object.stat.key) :
    store.KeepsKeys (store.mapObject id f) := by
  have hid (object : MemObject) : (f object).id = object.id := congrArg ObjectKey.id (hf object)
  refine ⟨rfl, Nat.le_refl _, fun x object' hobject' => ?_⟩
  obtain ⟨object, hobject, rfl⟩ := (object?_mapObject_eq_some_iff hid).mp hobject'
  refine .inr ⟨object, hobject, ?_⟩
  split
  . exact hf object
  . rfl

theorem eraseObject (store : MemStore) (id : ObjectId) :
    store.KeepsKeys (store.eraseObject id) := by
  refine ⟨rfl, Nat.le_refl _, fun x object hobject => ?_⟩
  rw [object?_eraseObject] at hobject
  split at hobject
  . cases hobject
  . exact .inr ⟨object, hobject, rfl⟩

theorem addObject (store : MemStore) {made : ObjectId → UInt32 → MemObject}
    (hid : (made store.nextId store.nextGeneration).id = store.nextId) :
    store.KeepsKeys (store.addObject made) := by
  refine ⟨rfl, Nat.le_succ _, fun x object hobject => ?_⟩
  rw [object?_addObject, Option.or_eq_some_iff] at hobject
  obtain hold | ⟨_, hnew⟩ := hobject
  . exact .inr ⟨object, hold, rfl⟩
  . split at hnew
    . next heq =>
      rw [hid] at heq
      exact .inl (Nat.le_of_eq heq)
    . cases hnew

theorem key_mapDirectory (f : Directory → Directory) (object : MemObject) :
    (object.mapDirectory f).stat.key = object.stat.key := by
  unfold MemObject.mapDirectory
  split <;> rfl

theorem key_withEntry (name : String) (target : ObjectId) (extra : Nat) (object : MemObject) :
    (withEntry name target extra object).stat.key = object.stat.key :=
  key_mapDirectory (·.insert name target) object

theorem key_withoutEntry (offset lost : Nat) (object : MemObject) :
    (withoutEntry offset lost object).stat.key = object.stat.key :=
  key_mapDirectory (·.remove offset) object

theorem attach (store : MemStore) {made : ObjectId → UInt32 → MemObject}
    (hid : (made store.nextId store.nextGeneration).id = store.nextId) (parent : ObjectId)
    (name : String) (extra : Nat) : store.KeepsKeys (store.attach made parent name extra) :=
  (addObject store hid).trans (mapObject _ parent (key_withEntry name store.nextId extra))

theorem addLink (store : MemStore) (target parent : ObjectId) (name : String) :
    store.KeepsKeys (store.addLink target parent name) :=
  (mapObject store parent (key_withEntry name target 0)).trans
    (mapObject (f := withNlink (· + 1)) _ target fun _ => rfl)

theorem detach (store : MemStore) (parent : ObjectId) (e : DirEntry) (target : MemObject) :
    store.KeepsKeys (store.detach parent e target) := by
  have hentry := mapObject store parent (key_withoutEntry e.offset (parentLinks target))
  unfold MemStore.detach
  split
  . exact hentry.trans (eraseObject _ e.target)
  . exact hentry.trans (mapObject (f := withNlink (· - 1)) _ e.target fun _ => rfl)

theorem setContent (store : MemStore) (id : ObjectId) (content : Bytes) :
    store.KeepsKeys (store.setContent id content) :=
  mapObject store id fun _ => rfl

end KeepsKeys

end MemStore

end AttrTree
