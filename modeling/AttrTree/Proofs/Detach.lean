import AttrTree.Proofs.Attach

/-!
This module contains the operations that add a link to a file and that take a link or a directory
away: what they change, and that the accounts of links stay right.
-/

namespace AttrTree

namespace MemStore

variable {store store' : MemStore} {parent x : ObjectId} {name : String}

def withNlink (f : Nat → Nat) (object : MemObject) : MemObject :=
  { object with nlink := f object.nlink }

theorem id_withNlink (f : Nat → Nat) (object : MemObject) : (withNlink f object).id = object.id :=
  rfl

theorem mode_withNlink (f : Nat → Nat) (object : MemObject) :
    (withNlink f object).mode = object.mode :=
  rfl

theorem nlink_withNlink (f : Nat → Nat) (object : MemObject) :
    (withNlink f object).nlink = f object.nlink :=
  rfl

theorem body_withNlink (f : Nat → Nat) (object : MemObject) :
    (withNlink f object).body = object.body :=
  rfl

def withoutEntry (offset lost : Nat) (object : MemObject) : MemObject :=
  { object.mapDirectory (·.remove offset) with nlink := object.nlink - lost }

def parentLinks (target : MemObject) : Nat :=
  if target.body.isDirectory then 1 else 0

def unlinked? (target : MemObject) : Option MemObject :=
  if target.body.isDirectory || target.nlink ≤ 1 then none else some (withNlink (· - 1) target)

def addLink (store : MemStore) (target parent : ObjectId) (name : String) : MemStore :=
  (store.mapObject parent (withEntry name target 0)).mapObject target (withNlink (· + 1))

def detach (store : MemStore) (parent : ObjectId) (e : DirEntry) (target : MemObject) : MemStore :=
  let rest := store.mapObject parent (withoutEntry e.offset (parentLinks target))
  if target.body.isDirectory || target.nlink ≤ 1 then
    rest.eraseObject e.target
  else
    rest.mapObject e.target (withNlink (· - 1))

theorem id_withoutEntry (offset lost : Nat) (object : MemObject) :
    (withoutEntry offset lost object).id = object.id := by
  simp [withoutEntry]

theorem body_withoutEntry {object : MemObject} {dir : Directory} (h : object.body = .directory dir)
    (offset lost : Nat) :
    (withoutEntry offset lost object).body = .directory (dir.remove offset) := by
  simp [withoutEntry, MemObject.mapDirectory_of_directory h]

theorem mode_withoutEntry (offset lost : Nat) (object : MemObject) :
    (withoutEntry offset lost object).mode = object.mode := by
  unfold withoutEntry MemObject.mapDirectory
  split <;> rfl

theorem nlink_withoutEntry (offset lost : Nat) (object : MemObject) :
    (withoutEntry offset lost object).nlink = object.nlink - lost :=
  rfl

theorem withoutEntry_zero (offset : Nat) :
    withoutEntry offset 0 = MemObject.mapDirectory (·.remove offset) := by
  funext object
  unfold withoutEntry MemObject.mapDirectory
  split <;> rfl

theorem unlinked?_eq_some_iff {target left : MemObject} :
    unlinked? target = some left ↔
      target.body.isDirectory = false ∧ 1 < target.nlink ∧ left = withNlink (· - 1) target := by
  simp only [unlinked?, Bool.or_eq_true, decide_eq_true_eq, Option.ite_none_left_eq_some, not_or,
    Bool.not_eq_true, Nat.not_le, Option.some.injEq, and_assoc, eq_comm (a := left)]

theorem unlinked?_eq_none_iff {target : MemObject} :
    unlinked? target = none ↔ target.body.isDirectory = true ∨ target.nlink ≤ 1 := by
  unfold unlinked?
  split
  . next hgone => simpa using hgone
  . next hmore => simpa using hmore

theorem eraseObject_mapObject (store : MemStore) (id : ObjectId) {f : MemObject → MemObject}
    (hf : ∀ o, (f o).id = o.id) : (store.mapObject id f).eraseObject id = store.eraseObject id := by
  simp only [mapObject, eraseObject, List.filter_map]
  congr 1
  conv_rhs => rw [← List.map_id (store.objects.filter (·.id != id))]
  have hfilter : store.objects.filter ((·.id != id) ∘ fun o => if o.id = id then f o else o)
      = store.objects.filter (·.id != id) := by
    apply List.filter_congr
    intro o _
    simp only [Function.comp_apply]
    split <;> simp [hf]
  rw [hfilter]
  apply List.map_congr_left
  intro o ho
  have hne : o.id ≠ id := by simpa using (List.mem_filter.mp ho).2
  simp [hne]

section Results

open Action

theorem link_eq_ok_iff {target : ObjectId} :
    store.link target parent name = .ok store' ↔
      isValidName name = true ∧ ∃ object owner dir, store.object? target = some object
        ∧ object.body.isDirectory = false ∧ store.object? parent = some owner
        ∧ owner.body = .directory dir ∧ dir.contains name = false
        ∧ store' = store.addLink target parent name := by
  have hresult : (store.mapDirectory parent (·.insert name target)).mapObject target
      (fun o => { o with nlink := o.nlink + 1 }) = store.addLink target parent name := by
    simp only [addLink, withEntry_zero]
    rfl
  simp only [link, exceptBind_eq_ok_iff, checkName_eq_ok_iff, getObject_eq_ok_iff,
    getDirectory_eq_ok_iff, throwIf_eq_ok_iff, exceptPure_eq_ok_iff, directory?_eq_some_iff,
    hresult, exists_const, Bool.not_eq_true]
  constructor
  . rintro ⟨hvalid, object, hobject, hkind, dir, ⟨owner, howner, hbody⟩, hfree, rfl⟩
    exact ⟨hvalid, object, owner, dir, hobject, hkind, howner, hbody, hfree, rfl⟩
  . rintro ⟨hvalid, object, owner, dir, hobject, hkind, howner, hbody, hfree, rfl⟩
    exact ⟨hvalid, object, hobject, hkind, dir, ⟨owner, howner, hbody⟩, hfree, rfl⟩

theorem unlink_eq_ok_iff :
    store.unlink parent name = .ok store' ↔
      ∃ owner dir e target, store.object? parent = some owner ∧ owner.body = .directory dir
        ∧ dir.find? name = some e ∧ store.object? e.target = some target
        ∧ target.body.isDirectory = false ∧ store' = store.detach parent e target := by
  have hresult (e : DirEntry) {target : MemObject} (htarget : store.object? e.target = some target)
      (hkind : target.body.isDirectory = false) :
      (store.mapDirectory parent (·.remove e.offset)).dropLink target
        = store.detach parent e target := by
    simp only [detach, parentLinks, dropLink, hkind, Bool.false_or, decide_eq_true_eq,
      Bool.false_eq_true, if_false, withoutEntry_zero, id_of_object? htarget]
    rfl
  simp only [unlink, exceptBind_eq_ok_iff, getEntry_eq_ok_iff, getObject_eq_ok_iff,
    throwIf_eq_ok_iff, exceptPure_eq_ok_iff, directory?_eq_some_iff, Bool.not_eq_true]
  constructor
  . rintro ⟨e, ⟨dir, ⟨owner, howner, hbody⟩, hfind⟩, target, htarget, hkind, rfl⟩
    exact ⟨owner, dir, e, target, howner, hbody, hfind, htarget, hkind, hresult e htarget hkind⟩
  . rintro ⟨owner, dir, e, target, howner, hbody, hfind, htarget, hkind, rfl⟩
    exact ⟨e, ⟨dir, ⟨owner, howner, hbody⟩, hfind⟩, target, htarget, hkind,
      (hresult e htarget hkind).symm⟩

theorem rmdir_eq_ok_iff :
    store.rmdir parent name = .ok store' ↔
      ∃ owner dir e target dir', store.object? parent = some owner ∧ owner.body = .directory dir
        ∧ dir.find? name = some e ∧ store.object? e.target = some target
        ∧ target.body = .directory dir' ∧ dir'.ordinary = []
        ∧ store' = store.detach parent e target := by
  have hresult (e : DirEntry) {target : MemObject} {dir' : Directory}
      (hbody : target.body = .directory dir') :
      ((store.mapDirectory parent (·.remove e.offset)).mapObject parent
        fun o => { o with nlink := o.nlink - 1 }).eraseObject e.target
        = store.detach parent e target := by
    have hmap := mapObject_mapObject store parent
      (f := MemObject.mapDirectory (·.remove e.offset)) (g := withNlink (· - 1)) fun o => by simp
    have hobject : (fun o => withNlink (· - 1) (MemObject.mapDirectory (·.remove e.offset) o))
        = withoutEntry e.offset 1 := by
      funext o
      unfold withNlink withoutEntry MemObject.mapDirectory
      split <;> rfl
    rw [hobject] at hmap
    simp only [detach, parentLinks, hbody, Body.isDirectory, Bool.true_or, if_true, ← hmap]
    rfl
  simp only [rmdir, exceptBind_eq_ok_iff, getEntry_eq_ok_iff, getDirectory_eq_ok_iff,
    throwUnless_eq_ok_iff, exceptPure_eq_ok_iff, directory?_eq_some_iff, Directory.isEmpty,
    List.isEmpty_iff]
  constructor
  . rintro ⟨e, ⟨dir, ⟨owner, howner, hbody⟩, hfind⟩, dir', ⟨target, htarget, hbody'⟩, hempty, rfl⟩
    exact ⟨owner, dir, e, target, dir', howner, hbody, hfind, htarget, hbody', hempty,
      hresult e hbody'⟩
  . rintro ⟨owner, dir, e, target, dir', howner, hbody, hfind, htarget, hbody', hempty, rfl⟩
    exact ⟨e, ⟨dir, ⟨owner, howner, hbody⟩, hfind⟩, dir', ⟨target, htarget, hbody'⟩, hempty,
      (hresult e hbody').symm⟩

end Results

section AddLink

variable {target : ObjectId} {object owner : MemObject} {dir : Directory}

theorem ne_of_kinds (htarget : store.object? target = some object)
    (hkind : object.body.isDirectory = false) (howner : store.object? parent = some owner)
    (hbody : owner.body = .directory dir) : target ≠ parent := by
  rintro rfl
  rw [htarget] at howner
  injection howner with howner
  rw [howner, hbody] at hkind
  simp [Body.isDirectory] at hkind

theorem object?_addLink (htarget : store.object? target = some object)
    (hkind : object.body.isDirectory = false) (howner : store.object? parent = some owner)
    (hbody : owner.body = .directory dir) (name : String) (x : ObjectId) :
    (store.addLink target parent name).object? x =
      if x = target then some (withNlink (· + 1) object)
      else if x = parent then some (withEntry name target 0 owner)
      else store.object? x := by
  have hne := ne_of_kinds htarget hkind howner hbody
  rw [addLink, object?_mapObject _ _ (id_withNlink _), object?_mapObject _ _ (id_withEntry _ _ _)]
  by_cases htx : x = target
  . simp [htx, hne, htarget]
  . by_cases hpx : x = parent
    . simp [hpx, Ne.symm hne, howner]
    . simp [htx, hpx]

theorem exists_object?_addLink (htarget : store.object? target = some object)
    (hkind : object.body.isDirectory = false) (howner : store.object? parent = some owner)
    (hbody : owner.body = .directory dir) (name : String) {o : MemObject}
    (hx : store.object? x = some o) :
    ∃ o', (store.addLink target parent name).object? x = some o' := by
  rw [object?_addLink htarget hkind howner hbody]
  split
  . exact ⟨_, rfl⟩
  . split
    . exact ⟨_, rfl⟩
    . exact ⟨o, hx⟩

theorem linkCount_addLink (h : store.Linked) (htarget : store.object? target = some object)
    (hkind : object.body.isDirectory = false) (howner : store.object? parent = some owner)
    (hbody : owner.body = .directory dir) (name : String) (x : ObjectId) :
    (store.addLink target parent name).linkCount x =
      store.linkCount x + if x = target then 1 else 0 := by
  have hne := ne_of_kinds htarget hkind howner hbody
  obtain ⟨_, hwf, _⟩ := h.placed (directory?_of_object? howner hbody)
  have hgrown : (withEntry name target 0 owner).linksTo x =
      owner.linksTo x + if x = target then 1 else 0 := by
    simp only [MemObject.linksTo, body_withEntry hbody, hbody, Body.ordinary,
      Directory.ordinary_insert hwf.first_le, List.countP_append, List.countP_singleton, beq_iff_eq]
    congr 1
    simp only [eq_comm]
  have hentry := linkCount_mapObject h.ids_distinct howner (withEntry name target 0) x
  have hids := hasDistinctIds_mapObject h.ids_distinct parent (id_withEntry name target 0)
  have hmid : (store.mapObject parent (withEntry name target 0)).object? target = some object := by
    rw [object?_mapObject _ _ (id_withEntry _ _ _), if_neg hne, htarget]
  have hcount := linkCount_mapObject hids hmid (withNlink (· + 1)) x
  have hsame : (withNlink (· + 1) object).linksTo x = object.linksTo x := by
    rfl
  rw [hgrown] at hentry
  rw [hsame] at hcount
  rw [addLink]
  omega

theorem directory?_addLink (htarget : store.object? target = some object)
    (hkind : object.body.isDirectory = false) (howner : store.object? parent = some owner)
    (hbody : owner.body = .directory dir) (name : String) (x : ObjectId) :
    (store.addLink target parent name).directory? x =
      if x = parent then some (dir.insert name target) else store.directory? x := by
  have hne := ne_of_kinds htarget hkind howner hbody
  unfold directory?
  rw [object?_addLink htarget hkind howner hbody]
  by_cases htx : x = target
  . subst htx
    simp [hne, htarget, withNlink]
  . by_cases hpx : x = parent
    . simp [hpx, Ne.symm hne, body_withEntry hbody, Body.directory?]
    . simp [htx, hpx]

theorem mem_ordinary_addLink (h : store.Linked) (htarget : store.object? target = some object)
    (hkind : object.body.isDirectory = false) (howner : store.object? parent = some owner)
    (hbody : owner.body = .directory dir) {d : Directory} {e : DirEntry}
    (hd : (store.addLink target parent name).directory? x = some d) (he : e ∈ d.ordinary) :
    (∃ d', store.directory? x = some d' ∧ e ∈ d'.ordinary) ∨ e.target = target := by
  have hdir := directory?_of_object? howner hbody
  obtain ⟨_, hwf, _⟩ := h.placed hdir
  rw [directory?_addLink htarget hkind howner hbody] at hd
  split at hd
  . next hparent =>
    injection hd with hd
    rw [← hd, Directory.ordinary_insert hwf.first_le, List.mem_append, List.mem_singleton] at he
    rcases he with he | rfl
    . exact .inl ⟨dir, hparent ▸ hdir, he⟩
    . exact .inr rfl
  . exact .inl ⟨d, hd, he⟩

theorem exists_entry_addLink (h : store.Linked) (htarget : store.object? target = some object)
    (hkind : object.body.isDirectory = false) (howner : store.object? parent = some owner)
    (hbody : owner.body = .directory dir) (name : String) {d : Directory} {e : DirEntry}
    (hd : store.directory? x = some d) (he : e ∈ d.ordinary) :
    ∃ d', (store.addLink target parent name).directory? x = some d' ∧ e ∈ d'.ordinary := by
  have hdir := directory?_of_object? howner hbody
  obtain ⟨_, hwf, _⟩ := h.placed hdir
  rw [directory?_addLink htarget hkind howner hbody]
  split
  . next hpx =>
    rw [hpx, hdir] at hd
    injection hd with hd
    subst hd
    refine ⟨_, rfl, ?_⟩
    rw [Directory.ordinary_insert hwf.first_le]
    exact List.mem_append_left _ he
  . exact ⟨d, hd, he⟩

theorem isFile_addLink (htarget : store.object? target = some object)
    (hkind : object.body.isDirectory = false) (howner : store.object? parent = some owner)
    (hbody : owner.body = .directory dir) (name : String) (x : ObjectId) :
    (store.addLink target parent name).isFile x = store.isFile x := by
  have hne := ne_of_kinds htarget hkind howner hbody
  unfold isFile
  rw [object?_addLink htarget hkind howner hbody]
  by_cases htx : x = target
  . subst htx
    simp [htarget, withNlink]
  . by_cases hpx : x = parent
    . simp [hpx, Ne.symm hne, howner, body_withEntry hbody, hbody, Body.isDirectory]
    . simp [htx, hpx]

theorem directoryLinks_addLink (htarget : store.object? target = some object)
    (hkind : object.body.isDirectory = false) (howner : store.object? parent = some owner)
    (hbody : owner.body = .directory dir) (name : String) (d : Directory) :
    (store.addLink target parent name).directoryLinks d = store.directoryLinks d := by
  simp only [directoryLinks, isFile_addLink htarget hkind howner hbody]

section Kept

variable (h : store.Linked) (htarget : store.object? target = some object)
  (hkind : object.body.isDirectory = false) (howner : store.object? parent = some owner)
  (hbody : owner.body = .directory dir)

include h htarget hkind howner hbody

theorem Linked.id_lt_addLink {o : MemObject}
    (hx : (store.addLink target parent name).object? x = some o) : x < store.nextId := by
  rw [object?_addLink htarget hkind howner hbody] at hx
  split at hx
  . next heq =>
    rw [heq]
    exact h.id_lt htarget
  . split at hx
    . next heq =>
      rw [heq]
      exact h.id_lt howner
    . exact h.id_lt hx

theorem Linked.target_lt_addLink {d : Directory} {e : DirEntry}
    (hx : (store.addLink target parent name).directory? x = some d) (he : e ∈ d.ordinary) :
    e.target < store.nextId := by
  rcases mem_ordinary_addLink h htarget hkind howner hbody hx he with ⟨d', hd', he'⟩ | heq
  . exact h.target_lt hd' e he'
  . exact heq ▸ h.id_lt htarget

theorem Linked.mode_type_addLink {o : MemObject}
    (hx : (store.addLink target parent name).object? x = some o) :
    Mode.type o.mode = o.body.type := by
  rw [object?_addLink htarget hkind howner hbody] at hx
  split at hx
  . injection hx with hx
    rw [← hx, mode_withNlink, body_withNlink, h.mode_type htarget]
  . split at hx
    . injection hx with hx
      rw [← hx, mode_withEntry, body_withEntry hbody, h.mode_type howner, hbody]
      rfl
    . exact h.mode_type hx

theorem Linked.file_nlink_addLink {o : MemObject}
    (hx : (store.addLink target parent name).object? x = some o)
    (hfile : o.body.isDirectory = false) :
    o.nlink = (store.addLink target parent name).linkCount x ∧ 0 < o.nlink := by
  rw [linkCount_addLink h htarget hkind howner hbody]
  rw [object?_addLink htarget hkind howner hbody] at hx
  split at hx
  . next heq =>
    injection hx with hx
    rw [← hx, nlink_withNlink, if_pos heq, heq, (h.file_nlink htarget hkind).1]
    exact ⟨rfl, Nat.succ_pos _⟩
  . next hne =>
    split at hx
    . injection hx with hx
      rw [← hx, body_withEntry hbody] at hfile
      simp [Body.isDirectory] at hfile
    . rw [if_neg hne]
      exact h.file_nlink hx hfile

theorem Linked.directory_nlink_addLink {o : MemObject} {d : Directory}
    (hx : (store.addLink target parent name).object? x = some o) (hd : o.body = .directory d) :
    o.nlink = 2 + (store.addLink target parent name).directoryLinks d := by
  rw [directoryLinks_addLink htarget hkind howner hbody]
  rw [object?_addLink htarget hkind howner hbody] at hx
  split at hx
  . injection hx with hx
    rw [← hx, body_withNlink] at hd
    rw [hd] at hkind
    simp [Body.isDirectory] at hkind
  . split at hx
    . injection hx with hx
      obtain ⟨_, hwf, _⟩ := h.placed (directory?_of_object? howner hbody)
      have hfile : store.isFile target = true := by
        simp [isFile_of_object? htarget, hkind]
      have hlinks : store.directoryLinks (dir.insert name target) = store.directoryLinks dir := by
        rw [directoryLinks, Directory.ordinary_insert hwf.first_le, List.countP_append,
          List.countP_singleton]
        simp [hfile, directoryLinks]
      rw [← hx, body_withEntry hbody] at hd
      injection hd with hd
      rw [← hx, nlink_withEntry, Nat.add_zero, h.directory_nlink howner hbody, ← hd, hlinks]
    . exact h.directory_nlink hx hd

theorem Linked.isPlaced_addLink {id parent' : ObjectId} {d : Directory}
    (hd : store.directory? id = some d) (hp : store.IsPlaced id parent') :
    (store.addLink target parent name).IsPlaced id parent' := by
  -- The number of links to a directory is the same, as the new entry names a file.
  have hne : id ≠ target := by
    rintro rfl
    have hfile := isFile_of_directory? hd
    simp [isFile_of_object? htarget, hkind] at hfile
  apply hp.of_entries
  . rw [linkCount_addLink h htarget hkind howner hbody, if_neg hne, Nat.add_zero]
  . intro d' e hd' he hetarget
    obtain ⟨d'', hd'', hmem⟩ := exists_entry_addLink h htarget hkind howner hbody name hd' he
    exact ⟨d'', hd'', e, hmem, hetarget⟩

theorem Linked.placed_addLink (hvalid : isValidName name = true)
    (hfree : dir.contains name = false) {d : Directory}
    (hx : (store.addLink target parent name).directory? x = some d) :
    ∃ parent', d.WellFormed x parent'
      ∧ (store.addLink target parent name).IsPlaced x parent' := by
  rw [directory?_addLink htarget hkind howner hbody] at hx
  split at hx
  . next heq =>
    subst heq
    injection hx with hx
    have hdir := directory?_of_object? howner hbody
    obtain ⟨parent', hwf, hp⟩ := h.placed hdir
    exact ⟨parent', hx ▸ hwf.insert hvalid hfree _,
      h.isPlaced_addLink htarget hkind howner hbody hdir hp⟩
  . obtain ⟨parent', hwf, hp⟩ := h.placed hx
    exact ⟨parent', hwf, h.isPlaced_addLink htarget hkind howner hbody hx hp⟩

theorem Linked.addLink (hvalid : isValidName name = true) (hfree : dir.contains name = false) :
    (store.addLink target parent name).Linked where
  ids_distinct :=
    hasDistinctIds_mapObject
      (hasDistinctIds_mapObject h.ids_distinct parent (id_withEntry name target 0)) target
      (id_withNlink _)
  root_lt := h.root_lt
  id_lt := h.id_lt_addLink htarget hkind howner hbody
  target_lt := fun hx _ he => h.target_lt_addLink htarget hkind howner hbody hx he
  mode_type := h.mode_type_addLink htarget hkind howner hbody
  file_nlink := h.file_nlink_addLink htarget hkind howner hbody
  directory_nlink := h.directory_nlink_addLink htarget hkind howner hbody
  placed := h.placed_addLink htarget hkind howner hbody hvalid hfree

end Kept

end AddLink

section Detach

variable {owner target : MemObject} {dir : Directory} {e : DirEntry}

structure IsLeaf (store : MemStore) (parent : ObjectId) (owner : MemObject) (dir : Directory)
    (e : DirEntry) (target : MemObject) : Prop where
  owner_eq : store.object? parent = some owner
  body_eq : owner.body = .directory dir
  mem : e ∈ dir.ordinary
  target_eq : store.object? e.target = some target
  empty : target.body.ordinary = []

namespace IsLeaf

theorem ne (h : store.IsLeaf parent owner dir e target) : e.target ≠ parent := by
  intro heq
  have htarget := h.target_eq
  rw [heq, h.owner_eq] at htarget
  injection htarget with htarget
  have hempty := h.empty
  rw [← htarget, h.body_eq] at hempty
  have hmem := h.mem
  rw [show dir.ordinary = [] from hempty] at hmem
  simp at hmem

theorem directory? (h : store.IsLeaf parent owner dir e target) :
    store.directory? parent = some dir :=
  directory?_of_object? h.owner_eq h.body_eq

theorem wellFormed (h : store.IsLeaf parent owner dir e target) (hlinked : store.Linked) :
    ∃ grandparent, dir.WellFormed parent grandparent := by
  obtain ⟨grandparent, hwf, _⟩ := hlinked.placed h.directory?
  exact ⟨grandparent, hwf⟩

theorem linkCount (h : store.IsLeaf parent owner dir e target) :
    0 < store.linkCount e.target :=
  linkCount_pos h.directory? h.mem

theorem object?_detach (h : store.IsLeaf parent owner dir e target) (x : ObjectId) :
    (store.detach parent e target).object? x =
      if x = e.target then unlinked? target
      else if x = parent then
        some (withoutEntry e.offset (parentLinks target) owner)
      else store.object? x := by
  have hne := h.ne
  unfold detach unlinked?
  by_cases hgone : (target.body.isDirectory || decide (target.nlink ≤ 1)) = true
  . simp only [hgone, if_true]
    rw [object?_eraseObject, object?_mapObject _ _ (id_withoutEntry _ _)]
    by_cases htx : x = e.target
    . simp [htx]
    . by_cases hpx : x = parent
      . simp [hpx, Ne.symm hne, h.owner_eq]
      . simp [htx, hpx]
  . simp only [hgone, Bool.false_eq_true, if_false]
    rw [object?_mapObject _ _ (id_withNlink _), object?_mapObject _ _ (id_withoutEntry _ _)]
    by_cases htx : x = e.target
    . simp [htx, hne, h.target_eq]
    . by_cases hpx : x = parent
      . simp [hpx, Ne.symm hne, h.owner_eq]
      . simp [htx, hpx]

theorem object?_detach_file (h : store.IsLeaf parent owner dir e target)
    (hkind : target.body.isDirectory = false) (x : ObjectId) :
    (store.detach parent e target).object? x =
      if x = e.target then unlinked? target
      else if x = parent then some (owner.mapDirectory (·.remove e.offset))
      else store.object? x := by
  have hlinks : parentLinks target = 0 := by
    simp [parentLinks, hkind]
  rw [h.object?_detach, hlinks, withoutEntry_zero]

theorem object?_detach_directory (h : store.IsLeaf parent owner dir e target)
    (hkind : target.body.isDirectory = true) (x : ObjectId) :
    (store.detach parent e target).object? x =
      if x = e.target then none
      else if x = parent then some (withoutEntry e.offset 1 owner)
      else store.object? x := by
  have hlinks : parentLinks target = 1 := by
    simp [parentLinks, hkind]
  have hgone : unlinked? target = none := by
    simp [unlinked?, hkind]
  rw [h.object?_detach, hlinks, hgone]

theorem linkCount_detach (h : store.IsLeaf parent owner dir e target) (hlinked : store.Linked)
    (x : ObjectId) :
    (store.detach parent e target).linkCount x + (if x = e.target then 1 else 0) =
      store.linkCount x := by
  have hne := h.ne
  obtain ⟨_, hwf⟩ := h.wellFormed hlinked
  have hshrunk : (withoutEntry e.offset (parentLinks target) owner).linksTo x
      + (if x = e.target then 1 else 0) = owner.linksTo x := by
    have hcount := hwf.countP_remove h.mem (·.target == x)
    simp only [beq_iff_eq, eq_comm (a := e.target)] at hcount
    simpa only [MemObject.linksTo, body_withoutEntry h.body_eq, h.body_eq, Body.ordinary]
      using hcount
  have hentry := linkCount_mapObject hlinked.ids_distinct h.owner_eq
    (withoutEntry e.offset (parentLinks target)) x
  have hids := hasDistinctIds_mapObject hlinked.ids_distinct parent
    (id_withoutEntry e.offset (parentLinks target))
  have hmid : (store.mapObject parent (withoutEntry e.offset (parentLinks target))).object? e.target
      = some target := by
    rw [object?_mapObject _ _ (id_withoutEntry _ _), if_neg hne, h.target_eq]
  have hnone : target.linksTo x = 0 := by
    simp [MemObject.linksTo, h.empty]
  have hnone' : (withNlink (· - 1) target).linksTo x = 0 := hnone
  by_cases hgone : (target.body.isDirectory || decide (target.nlink ≤ 1)) = true
  . have heq : store.detach parent e target =
        (store.mapObject parent (withoutEntry e.offset (parentLinks target))).eraseObject
          e.target := by
      simp only [detach, hgone, if_true]
    have herase := linkCount_eraseObject hids hmid x
    rw [hnone] at herase
    rw [heq]
    omega
  . have heq : store.detach parent e target =
        (store.mapObject parent (withoutEntry e.offset (parentLinks target))).mapObject e.target
          (withNlink (· - 1)) := by
      simp only [detach, hgone, Bool.false_eq_true, if_false]
    have hmap := linkCount_mapObject hids hmid (withNlink (· - 1)) x
    rw [hnone, hnone'] at hmap
    rw [heq]
    omega

theorem directory?_detach (h : store.IsLeaf parent owner dir e target) (x : ObjectId) :
    (store.detach parent e target).directory? x =
      if x = e.target then none
      else if x = parent then some (dir.remove e.offset)
      else store.directory? x := by
  unfold MemStore.directory?
  rw [h.object?_detach]
  split
  . cases hleft : unlinked? target with
    | none => rfl
    | some left =>
      obtain ⟨hkind, _, rfl⟩ := unlinked?_eq_some_iff.mp hleft
      rw [Option.bind_some, body_withNlink]
      simpa [Body.isDirectory_eq_isSome] using hkind
  . split
    . simp [body_withoutEntry h.body_eq, Body.directory?]
    . rfl

theorem mem_ordinary_detach (h : store.IsLeaf parent owner dir e target)
    (hlinked : store.Linked) {d : Directory} {e' : DirEntry}
    (hd : (store.detach parent e target).directory? x = some d) (he' : e' ∈ d.ordinary) :
    ∃ d', store.directory? x = some d' ∧ e' ∈ d'.ordinary := by
  obtain ⟨_, hwf⟩ := h.wellFormed hlinked
  rw [h.directory?_detach] at hd
  split at hd
  . simp at hd
  . split at hd
    . next hparent =>
      injection hd with hd
      rw [← hd, hwf.mem_ordinary_remove h.mem] at he'
      exact ⟨dir, hparent ▸ h.directory?, he'.1⟩
    . exact ⟨d, hd, he'⟩

theorem linkCount_of_gone (h : store.IsLeaf parent owner dir e target) (hlinked : store.Linked)
    (hgone : unlinked? target = none) : store.linkCount e.target = 1 := by
  -- An object goes with its last entry only.
  have hpos := h.linkCount
  cases hbody : target.body with
  | file content =>
    have hkind : target.body.isDirectory = false := by
      rw [hbody]
      rfl
    have hnlink := (hlinked.file_nlink h.target_eq hkind).1
    have hone : target.nlink ≤ 1 := by
      simpa [hkind] using unlinked?_eq_none_iff.mp hgone
    omega
  | directory d =>
    obtain ⟨_, _, hp⟩ := hlinked.placed (directory?_of_object? h.target_eq hbody)
    obtain ⟨_, _, hone, _⟩ := hp.of_linkCount_pos hpos
    exact hone

theorem exists_object?_detach (h : store.IsLeaf parent owner dir e target)
    (hlinked : store.Linked) {o : MemObject} (hx : store.object? x = some o)
    (hnamed : 0 < (store.detach parent e target).linkCount x) :
    ∃ o', (store.detach parent e target).object? x = some o' := by
  have hcount := h.linkCount_detach hlinked x
  rw [h.object?_detach]
  split
  . next heq =>
    cases hleft : unlinked? target with
    | none =>
      have hone := h.linkCount_of_gone hlinked hleft
      rw [if_pos heq, heq] at hcount
      rw [heq] at hnamed
      omega
    | some left => exact ⟨left, rfl⟩
  . split
    . exact ⟨_, rfl⟩
    . exact ⟨o, hx⟩

theorem isFile_detach (h : store.IsLeaf parent owner dir e target) (hlinked : store.Linked)
    (hx : 0 < (store.detach parent e target).linkCount x) :
    (store.detach parent e target).isFile x = store.isFile x := by
  have hcount := h.linkCount_detach hlinked x
  unfold isFile
  rw [h.object?_detach]
  split
  . next heq =>
    subst heq
    rw [h.target_eq]
    cases hleft : unlinked? target with
    | none =>
      have hone := h.linkCount_of_gone hlinked hleft
      rw [if_pos rfl] at hcount
      omega
    | some left =>
      obtain ⟨_, _, rfl⟩ := unlinked?_eq_some_iff.mp hleft
      rfl
  . split
    . next heq => simp [heq, h.owner_eq, body_withoutEntry h.body_eq, h.body_eq, Body.isDirectory]
    . rfl

theorem nextId_detach (store : MemStore) (parent : ObjectId) (e : DirEntry) (target : MemObject) :
    (store.detach parent e target).nextId = store.nextId := by
  unfold detach
  split <;> rfl

theorem hasDistinctIds_detach (h : store.HasDistinctIds) (parent : ObjectId) (e : DirEntry)
    (target : MemObject) : (store.detach parent e target).HasDistinctIds := by
  have hmid := hasDistinctIds_mapObject h parent
    (id_withoutEntry e.offset (parentLinks target))
  unfold detach
  split
  . exact hasDistinctIds_eraseObject hmid _
  . exact hasDistinctIds_mapObject hmid _ (id_withNlink _)

theorem directoryLinks_detach (h : store.IsLeaf parent owner dir e target)
    (hlinked : store.Linked) {d : Directory}
    (hx : (store.detach parent e target).directory? x = some d) :
    (store.detach parent e target).directoryLinks d = store.directoryLinks d := by
  apply List.countP_congr
  intro e' he'
  rw [h.isFile_detach hlinked (linkCount_pos hx he')]

theorem exists_entry_detach (h : store.IsLeaf parent owner dir e target) (hlinked : store.Linked)
    {d : Directory} {e' : DirEntry} (hd : store.directory? x = some d) (he' : e' ∈ d.ordinary)
    (hne : e'.target ≠ e.target) :
    ∃ d', (store.detach parent e target).directory? x = some d' ∧ e' ∈ d'.ordinary := by
  obtain ⟨_, hwf⟩ := h.wellFormed hlinked
  rw [h.directory?_detach]
  split
  . next heq =>
    obtain ⟨object, hobject, hbody⟩ := directory?_eq_some_iff.mp hd
    rw [heq, h.target_eq] at hobject
    injection hobject with hobject
    have hempty := h.empty
    rw [hobject, hbody] at hempty
    rw [show d.ordinary = [] from hempty] at he'
    simp at he'
  . split
    . next hpx =>
      rw [hpx, h.directory?] at hd
      injection hd with hd
      subst hd
      refine ⟨_, rfl, (hwf.mem_ordinary_remove h.mem).mpr ⟨he', ?_⟩⟩
      rintro rfl
      exact hne rfl
    . exact ⟨d, hd, he'⟩

theorem isPlaced_detach (h : store.IsLeaf parent owner dir e target) (hlinked : store.Linked)
    {id parent' : ObjectId} (hne : id ≠ e.target) (hp : store.IsPlaced id parent') :
    (store.detach parent e target).IsPlaced id parent' := by
  have hcount := h.linkCount_detach hlinked id
  rw [if_neg hne, Nat.add_zero] at hcount
  apply hp.of_entries hcount
  intro d e' hd he' htarget'
  obtain ⟨d', hd', hmem⟩ := h.exists_entry_detach hlinked hd he' (htarget' ▸ hne)
  exact ⟨d', hd', e', hmem, htarget'⟩

section Kept

variable (hleaf : store.IsLeaf parent owner dir e target) (h : store.Linked)

include hleaf h

theorem id_lt_detach {o : MemObject} (hx : (store.detach parent e target).object? x = some o) :
    x < store.nextId := by
  rw [hleaf.object?_detach] at hx
  split at hx
  . next heq =>
    rw [heq]
    exact h.id_lt hleaf.target_eq
  . split at hx
    . next heq =>
      rw [heq]
      exact h.id_lt hleaf.owner_eq
    . exact h.id_lt hx

theorem target_lt_detach {d : Directory} {e' : DirEntry}
    (hx : (store.detach parent e target).directory? x = some d) (he' : e' ∈ d.ordinary) :
    e'.target < store.nextId := by
  obtain ⟨d', hd', hmem⟩ := hleaf.mem_ordinary_detach h hx he'
  exact h.target_lt hd' e' hmem

theorem mode_type_detach {o : MemObject}
    (hx : (store.detach parent e target).object? x = some o) :
    Mode.type o.mode = o.body.type := by
  rw [hleaf.object?_detach] at hx
  split at hx
  . obtain ⟨_, _, rfl⟩ := unlinked?_eq_some_iff.mp hx
    rw [mode_withNlink, body_withNlink, h.mode_type hleaf.target_eq]
  . split at hx
    . injection hx with hx
      rw [← hx, mode_withoutEntry, body_withoutEntry hleaf.body_eq, h.mode_type hleaf.owner_eq,
        hleaf.body_eq]
      rfl
    . exact h.mode_type hx

theorem file_nlink_detach {o : MemObject}
    (hx : (store.detach parent e target).object? x = some o)
    (hfile : o.body.isDirectory = false) :
    o.nlink = (store.detach parent e target).linkCount x ∧ 0 < o.nlink := by
  have hcount := hleaf.linkCount_detach h x
  rw [hleaf.object?_detach] at hx
  split at hx
  . next heq =>
    obtain ⟨hkind, hmore, rfl⟩ := unlinked?_eq_some_iff.mp hx
    have hold := (h.file_nlink hleaf.target_eq hkind).1
    rw [if_pos heq, heq] at hcount
    rw [nlink_withNlink, heq]
    omega
  . next hne =>
    rw [if_neg hne, Nat.add_zero] at hcount
    split at hx
    . injection hx with hx
      rw [← hx, body_withoutEntry hleaf.body_eq] at hfile
      simp [Body.isDirectory] at hfile
    . rw [hcount]
      exact h.file_nlink hx hfile

theorem directoryLinks_remove :
    store.directoryLinks (dir.remove e.offset) + parentLinks target = store.directoryLinks dir := by
  obtain ⟨_, hwf⟩ := hleaf.wellFormed h
  have hremoved := hwf.countP_remove hleaf.mem fun e => !store.isFile e.target
  rw [isFile_of_object? hleaf.target_eq, Bool.not_not] at hremoved
  exact hremoved

theorem directory_nlink_detach {o : MemObject} {d : Directory}
    (hx : (store.detach parent e target).object? x = some o) (hd : o.body = .directory d) :
    o.nlink = 2 + (store.detach parent e target).directoryLinks d := by
  rw [hleaf.directoryLinks_detach h (directory?_of_object? hx hd)]
  rw [hleaf.object?_detach] at hx
  split at hx
  . obtain ⟨hkind, _, rfl⟩ := unlinked?_eq_some_iff.mp hx
    rw [body_withNlink] at hd
    rw [hd] at hkind
    simp [Body.isDirectory] at hkind
  . split at hx
    . injection hx with hx
      rw [← hx, body_withoutEntry hleaf.body_eq] at hd
      injection hd with hd
      have hlinks := hleaf.directoryLinks_remove h
      rw [← hx, nlink_withoutEntry, h.directory_nlink hleaf.owner_eq hleaf.body_eq, ← hd]
      omega
    . exact h.directory_nlink hx hd

theorem placed_detach {d : Directory}
    (hx : (store.detach parent e target).directory? x = some d) :
    ∃ parent', d.WellFormed x parent' ∧ (store.detach parent e target).IsPlaced x parent' := by
  rw [hleaf.directory?_detach] at hx
  split at hx
  . simp at hx
  . next hne =>
    split at hx
    . next heq =>
      subst heq
      injection hx with hx
      obtain ⟨parent', hwf, hp⟩ := h.placed hleaf.directory?
      have hfirst := Directory.first_le_of_mem_ordinary hleaf.mem
      exact ⟨parent', hx ▸ hwf.remove hfirst, hleaf.isPlaced_detach h hne hp⟩
    . obtain ⟨parent', hwf, hp⟩ := h.placed hx
      exact ⟨parent', hwf, hleaf.isPlaced_detach h hne hp⟩

end Kept

end IsLeaf

theorem Linked.detach (h : store.Linked) (hleaf : store.IsLeaf parent owner dir e target) :
    (store.detach parent e target).Linked where
  ids_distinct := IsLeaf.hasDistinctIds_detach h.ids_distinct parent e target
  root_lt := IsLeaf.nextId_detach store parent e target ▸ h.root_lt
  id_lt := fun hx => IsLeaf.nextId_detach store parent e target ▸ hleaf.id_lt_detach h hx
  target_lt := fun hx _ he =>
    IsLeaf.nextId_detach store parent e target ▸ hleaf.target_lt_detach h hx he
  mode_type := hleaf.mode_type_detach h
  file_nlink := hleaf.file_nlink_detach h
  directory_nlink := hleaf.directory_nlink_detach h
  placed := hleaf.placed_detach h

end Detach

section Erase

variable {owner : MemObject} {dir : Directory}

theorem Linked.eraseObject (h : store.Linked) (howner : store.object? parent = some owner)
    (hbody : owner.body = .directory dir) (hempty : dir.ordinary = []) :
    (store.eraseObject parent).Linked := by
  have hobject := object?_eraseObject store parent
  have hdirectory := directory?_eraseObject store parent
  have hcount (x : ObjectId) : (store.eraseObject parent).linkCount x = store.linkCount x := by
    have hsum := linkCount_eraseObject h.ids_distinct howner x
    simpa [MemObject.linksTo, hbody, Body.ordinary, hempty] using hsum
  have hfile (x : ObjectId) : (store.eraseObject parent).isFile x = store.isFile x := by
    unfold isFile
    rw [hobject]
    split
    . next heq => simp [heq, howner, hbody, Body.isDirectory]
    . rfl
  have hsome {x : ObjectId} {o : MemObject} (hx : (store.eraseObject parent).object? x = some o) :
      store.object? x = some o := by
    rw [hobject] at hx
    split at hx
    . simp at hx
    . exact hx
  have hdir {x : ObjectId} {d : Directory}
      (hx : (store.eraseObject parent).directory? x = some d) : store.directory? x = some d := by
    rw [hdirectory] at hx
    split at hx
    . simp at hx
    . exact hx
  constructor
  . exact hasDistinctIds_eraseObject h.ids_distinct parent
  . exact h.root_lt
  . intro x o hx
    exact h.id_lt (hsome hx)
  . intro x d hx
    exact h.target_lt (hdir hx)
  . intro x o hx
    exact h.mode_type (hsome hx)
  . intro x o hx hkind
    rw [hcount]
    exact h.file_nlink (hsome hx) hkind
  . intro x o d hx hd
    simp only [directoryLinks, hfile]
    exact h.directory_nlink (hsome hx) hd
  . intro x d hx
    obtain ⟨parent', hwf, hp⟩ := h.placed (hdir hx)
    refine ⟨parent', hwf, hp.of_entries (hcount x) ?_⟩
    intro d' e hd' he htarget
    refine ⟨d', ?_, e, he, htarget⟩
    rw [hdirectory, if_neg, hd']
    rintro rfl
    rw [directory?_of_object? howner hbody] at hd'
    injection hd' with hd'
    rw [← hd', hempty] at he
    simp at he

end Erase

section Removal

theorem Linked.isLeaf (h : store.Linked) {dir : Directory} {e : DirEntry} {target : MemObject}
    (hdir : store.directory? parent = some dir) (hfind : dir.find? name = some e)
    (htarget : store.object? e.target = some target)
    (hkind : target.body.isDirectory = false) :
    ∃ owner, store.IsLeaf parent owner dir e target := by
  obtain ⟨owner, howner, hbody⟩ := directory?_eq_some_iff.mp hdir
  have hempty : target.body.ordinary = [] := by
    cases hcontent : target.body with
    | file content => rfl
    | directory d => simp [hcontent, Body.isDirectory] at hkind
  have hnone : store.directory? e.target = none := by
    rw [MemStore.directory?, htarget]
    cases hcontent : target.body with
    | file content => simp [hcontent, Body.directory?]
    | directory d => simp [hcontent, Body.isDirectory] at hkind
  exact ⟨owner, howner, hbody, h.mem_ordinary_of_find? hdir hfind hnone, htarget, hempty⟩

theorem Linked.unlink_cases (h : store.Linked) (hok : store.unlink parent name = .ok store') :
    ∃ owner dir e target, store.IsLeaf parent owner dir e target ∧ e.name = name
      ∧ target.body.isDirectory = false ∧ store' = store.detach parent e target := by
  obtain ⟨owner, dir, e, target, howner, hbody, hfind, htarget, hkind, rfl⟩ :=
    unlink_eq_ok_iff.mp hok
  obtain ⟨owner', hleaf⟩ := h.isLeaf (directory?_of_object? howner hbody) hfind htarget hkind
  have hname : e.name = name := by
    simpa using List.find?_some hfind
  exact ⟨owner', dir, e, target, hleaf, hname, hkind, rfl⟩

/-- Only the root is its own parent, and any other parent has an entry. -/
theorem Linked.rmdir_cases (h : store.Linked) (hok : store.rmdir parent name = .ok store') :
    (EntryName.isDots name = true ∧ ∃ owner dir, store.object? parent = some owner
        ∧ owner.body = .directory dir ∧ dir.ordinary = [] ∧ store' = store.eraseObject parent)
      ∨ (EntryName.isDots name = false ∧ ∃ owner dir e target,
        store.IsLeaf parent owner dir e target ∧ e.name = name
        ∧ target.body.isDirectory = true ∧ store' = store.detach parent e target) := by
  obtain ⟨owner, dir, e, target, dir', howner, hbody, hfind, htarget, hbody', hempty, rfl⟩ :=
    rmdir_eq_ok_iff.mp hok
  have hdir := directory?_of_object? howner hbody
  obtain ⟨grandparent, hwf, hp⟩ := h.placed hdir
  have hname : e.name = name := by
    simpa using List.find?_some hfind
  have hkind : target.body.isDirectory = true := by
    rw [hbody']
    rfl
  have hself (heq : e.target = parent) :
      dir.ordinary = [] ∧ store.detach parent e target = store.eraseObject parent := by
    rw [heq, howner] at htarget
    injection htarget with htarget
    rw [htarget, hbody'] at hbody
    injection hbody with hbody
    refine ⟨hbody ▸ hempty, ?_⟩
    simp only [MemStore.detach, hkind, Bool.true_or, if_true, heq]
    exact eraseObject_mapObject store parent (id_withoutEntry _ _)
  rcases hwf.mem_entries_iff.mp (List.mem_of_find?_eq_some hfind) with
    ⟨v, rfl, _⟩ | ⟨v, rfl, _⟩ | hmem
  . obtain ⟨hnil, heq⟩ := hself rfl
    exact .inl ⟨hname ▸ rfl, owner, dir, howner, hbody, hnil, heq⟩
  . have hroot : grandparent = parent := by
      unfold IsPlaced at hp
      split at hp
      . next hroot => rw [hp.1, hroot]
      . obtain ⟨_, _, d, hd, e', he', _⟩ := hp
        have hd' := directory?_of_object? htarget hbody'
        rw [show (Directory.parentLink grandparent v).target = grandparent from rfl, hd] at hd'
        injection hd' with hd'
        rw [hd', hempty] at he'
        simp at he'
    obtain ⟨hnil, heq⟩ := hself hroot
    exact .inl ⟨hname ▸ rfl, owner, dir, howner, hbody, hnil, heq⟩
  . have hdots := hwf.isDots_of_mem hmem
    rw [hname] at hdots
    have hleaf : store.IsLeaf parent owner dir e target := by
      refine ⟨howner, hbody, hmem, htarget, ?_⟩
      rw [hbody']
      exact hempty
    exact .inr ⟨hdots, owner, dir, e, target, hleaf, hname, hkind, rfl⟩

end Removal

end MemStore

end AttrTree
