import AttrTree.Proofs.Directory
import AttrTree.Proofs.Objects

/-!
This module contains the accounts that the store in memory keeps of its links. They hold after every
run of the store's operations, even one that leaves an entry behind whose object is gone: numbers of
links are numbers of entries, and a directory has one place that its link to the parent tells.
-/

namespace AttrTree

def Body.type : Body → UInt32
  | .file _ => Mode.fileType
  | .directory _ => Mode.directoryType

namespace MemStore

def isFile (store : MemStore) (id : ObjectId) : Bool :=
  (store.object? id).any fun object => !object.body.isDirectory

/-- Count the entries that name no file: subdirectories, and what is left of subdirectories that are gone. -/
def directoryLinks (store : MemStore) (dir : Directory) : Nat :=
  dir.ordinary.countP fun e => !store.isFile e.target

/-- The directory `id` has its only entry in `parent`, which is older. -/
def IsPlaced (store : MemStore) (id parent : ObjectId) : Prop :=
  if id = rootId then
    parent = rootId ∧ store.linkCount id = 0
  else
    parent < id ∧ store.linkCount id = 1
      ∧ ∃ dir, store.directory? parent = some dir ∧ ∃ e ∈ dir.ordinary, e.target = id

structure Linked (store : MemStore) : Prop where
  ids_distinct : store.HasDistinctIds
  root_lt : rootId < store.nextId
  id_lt : ∀ {id object}, store.object? id = some object → id < store.nextId
  target_lt : ∀ {id dir}, store.directory? id = some dir →
    ∀ e ∈ dir.ordinary, e.target < store.nextId
  mode_type : ∀ {id object}, store.object? id = some object →
    Mode.type object.mode = object.body.type
  file_nlink : ∀ {id object}, store.object? id = some object → object.body.isDirectory = false →
    object.nlink = store.linkCount id ∧ 0 < object.nlink
  directory_nlink : ∀ {id object dir}, store.object? id = some object →
    object.body = .directory dir → object.nlink = 2 + store.directoryLinks dir
  placed : ∀ {id dir}, store.directory? id = some dir →
    ∃ parent, dir.WellFormed id parent ∧ store.IsPlaced id parent

section Objects

variable {store : MemStore} {id x : ObjectId} {object : MemObject}

theorem directory?_of_object? {dir : Directory} (h : store.object? id = some object)
    (hbody : object.body = .directory dir) : store.directory? id = some dir :=
  directory?_eq_some_iff.mpr ⟨object, h, hbody⟩

theorem isFile_of_object? (h : store.object? id = some object) :
    store.isFile id = !object.body.isDirectory := by
  simp [isFile, h]

theorem isFile_of_directory? {dir : Directory} (h : store.directory? id = some dir) :
    store.isFile id = false := by
  obtain ⟨object, hobject, hbody⟩ := directory?_eq_some_iff.mp h
  simp [isFile_of_object? hobject, hbody, Body.isDirectory]

theorem linkCount_pos {dir : Directory} {e : DirEntry} (hdir : store.directory? id = some dir)
    (he : e ∈ dir.ordinary) : 0 < store.linkCount e.target := by
  obtain ⟨object, hobject, hbody⟩ := directory?_eq_some_iff.mp hdir
  have hlinks : 0 < object.linksTo e.target := by
    rw [linksTo_pos_iff, hbody]
    exact ⟨e, he, rfl⟩
  exact Nat.lt_of_lt_of_le hlinks (linksTo_le_linkCount hobject e.target)

theorem object?_mapObject_eq_some_iff {f : MemObject → MemObject} (hf : ∀ o, (f o).id = o.id)
    {object' : MemObject} :
    (store.mapObject id f).object? x = some object' ↔
      ∃ object, store.object? x = some object ∧ object' = if x = id then f object else object := by
  rw [object?_mapObject store id hf]
  split
  . rw [Option.map_eq_some_iff]
    constructor
    . rintro ⟨object, hobject, rfl⟩
      exact ⟨object, hobject, rfl⟩
    . rintro ⟨object, hobject, rfl⟩
      exact ⟨object, hobject, rfl⟩
  . simp

theorem map_id_mapObject (store : MemStore) (id : ObjectId) {f : MemObject → MemObject}
    (hf : ∀ o, (f o).id = o.id) :
    (store.mapObject id f).objects.map (·.id) = store.objects.map (·.id) := by
  simp only [mapObject, List.map_map]
  apply List.map_congr_left
  intro o _
  simp only [Function.comp_apply]
  split
  . exact hf o
  . rfl

theorem hasDistinctIds_mapObject (h : store.HasDistinctIds) (id : ObjectId)
    {f : MemObject → MemObject} (hf : ∀ o, (f o).id = o.id) :
    (store.mapObject id f).HasDistinctIds := by
  rw [HasDistinctIds, map_id_mapObject store id hf]
  exact h

theorem hasDistinctIds_eraseObject (h : store.HasDistinctIds) (id : ObjectId) :
    (store.eraseObject id).HasDistinctIds :=
  h.sublist (List.filter_sublist.map _)

theorem IsPlaced.of_entries {store' : MemStore} {parent : ObjectId} (h : store.IsPlaced id parent)
    (hcount : store'.linkCount id = store.linkCount id)
    (hentry : ∀ {dir e}, store.directory? parent = some dir → e ∈ dir.ordinary → e.target = id →
      ∃ dir', store'.directory? parent = some dir' ∧ ∃ e' ∈ dir'.ordinary, e'.target = id) :
    store'.IsPlaced id parent := by
  unfold IsPlaced at h ⊢
  rw [hcount]
  split
  . next hroot => simpa [hroot] using h
  . next hroot =>
    rw [if_neg hroot] at h
    obtain ⟨hlt, hone, dir, hdir, e, he, htarget⟩ := h
    exact ⟨hlt, hone, hentry hdir he htarget⟩

theorem IsPlaced.linkCount_le {parent : ObjectId} (h : store.IsPlaced id parent) :
    store.linkCount id ≤ 1 := by
  unfold IsPlaced at h
  split at h
  . omega
  . omega

theorem IsPlaced.of_linkCount_pos {parent : ObjectId} (h : store.IsPlaced id parent)
    (hpos : 0 < store.linkCount id) :
    id ≠ rootId ∧ parent < id ∧ store.linkCount id = 1
      ∧ ∃ dir, store.directory? parent = some dir ∧ ∃ e ∈ dir.ordinary, e.target = id := by
  unfold IsPlaced at h
  split at h
  . omega
  . next hroot => exact ⟨hroot, h⟩

theorem IsPlaced.exists_directory {parent : ObjectId} (h : store.IsPlaced id parent)
    {dir : Directory} (hdir : store.directory? id = some dir) :
    ∃ parentDir, store.directory? parent = some parentDir := by
  unfold IsPlaced at h
  split at h
  . next hroot => exact ⟨dir, by rw [h.1, ← hroot, hdir]⟩
  . obtain ⟨_, _, parentDir, hparent, _⟩ := h
    exact ⟨parentDir, hparent⟩

theorem directory?_eraseObject (store : MemStore) (id x : ObjectId) :
    (store.eraseObject id).directory? x = if x = id then none else store.directory? x := by
  unfold directory?
  rw [object?_eraseObject]
  split <;> rfl

end Objects

end MemStore

structure MemObject.SameLinks (object object' : MemObject) : Prop where
  id_eq : object'.id = object.id
  nlink_eq : object'.nlink = object.nlink
  type_eq : Mode.type object'.mode = Mode.type object.mode
  kind_eq : object'.body.isDirectory = object.body.isDirectory
  targets_eq : object'.body.ordinary.map (·.target) = object.body.ordinary.map (·.target)
  wellFormed : ∀ {dir dir' id parent}, object.body = .directory dir →
    object'.body = .directory dir' → dir.WellFormed id parent → dir'.WellFormed id parent

namespace MemObject.SameLinks

variable {object object' : MemObject}

theorem linksTo_eq (h : object.SameLinks object') (x : ObjectId) :
    object'.linksTo x = object.linksTo x := by
  have heq (o : MemObject) :
      o.linksTo x = (o.body.ordinary.map (·.target)).countP (· == x) := by
    simp [linksTo, List.countP_map, Function.comp_def]
  rw [heq, heq, h.targets_eq]

theorem of_body_eq (hid : object'.id = object.id) (hnlink : object'.nlink = object.nlink)
    (htype : Mode.type object'.mode = Mode.type object.mode) (hbody : object'.body = object.body) :
    object.SameLinks object' where
  id_eq := hid
  nlink_eq := hnlink
  type_eq := htype
  kind_eq := by rw [hbody]
  targets_eq := by rw [hbody]
  wellFormed := by
    intro dir dir' id parent h h' hdir
    rw [hbody, h] at h'
    injection h' with h'
    exact h' ▸ hdir

theorem refl (object : MemObject) : object.SameLinks object :=
  of_body_eq rfl rfl rfl rfl

theorem bodyType_eq (h : object.SameLinks object') : object'.body.type = object.body.type := by
  have hkind := h.kind_eq
  cases hbody : object.body <;> cases hbody' : object'.body <;>
    simp_all [Body.isDirectory, Body.type]

theorem directory (h : object.SameLinks object') {dir : Directory}
    (hbody : object.body = .directory dir) :
    ∃ dir', object'.body = .directory dir'
      ∧ dir'.ordinary.map (·.target) = dir.ordinary.map (·.target)
      ∧ ∀ {id parent}, dir.WellFormed id parent → dir'.WellFormed id parent := by
  have hkind := h.kind_eq
  have htargets := h.targets_eq
  cases hbody' : object'.body with
  | file content => simp [hbody, hbody', Body.isDirectory] at hkind
  | directory dir' =>
    rw [hbody, hbody'] at htargets
    exact ⟨dir', rfl, htargets, h.wellFormed hbody hbody'⟩

theorem directory' (h : object.SameLinks object') {dir' : Directory}
    (hbody' : object'.body = .directory dir') :
    ∃ dir, object.body = .directory dir
      ∧ dir'.ordinary.map (·.target) = dir.ordinary.map (·.target)
      ∧ ∀ {id parent}, dir.WellFormed id parent → dir'.WellFormed id parent := by
  have hkind := h.kind_eq
  cases hbody : object.body with
  | file content => simp [hbody, hbody', Body.isDirectory] at hkind
  | directory dir =>
    obtain ⟨dir'', hbody'', hrest⟩ := h.directory hbody
    rw [hbody'] at hbody''
    injection hbody'' with heq
    exact ⟨dir, rfl, heq ▸ hrest⟩

end MemObject.SameLinks

namespace MemStore

structure SameLinks (store store' : MemStore) : Prop where
  ids_eq : store'.objects.map (·.id) = store.objects.map (·.id)
  nextId_eq : store'.nextId = store.nextId
  object_rel : ∀ x, Option.Rel MemObject.SameLinks (store.object? x) (store'.object? x)
  linkCount_eq : ∀ x, store'.linkCount x = store.linkCount x

namespace SameLinks

variable {store store' : MemStore} {x : ObjectId}

theorem of_objects_eq (hobjects : store'.objects = store.objects)
    (hnext : store'.nextId = store.nextId) : store.SameLinks store' where
  ids_eq := by rw [hobjects]
  nextId_eq := hnext
  object_rel := by
    intro x
    simp only [object?, hobjects]
    cases store.objects.find? (·.id == x) with
    | none => exact .none
    | some object => exact .some (.refl object)
  linkCount_eq := by
    intro x
    simp only [linkCount, hobjects]

theorem mapObject (hids : store.HasDistinctIds) {id : ObjectId} {f : MemObject → MemObject}
    (hf : ∀ o, (f o).id = o.id)
    (hsame : ∀ object, store.object? id = some object → object.SameLinks (f object)) :
    store.SameLinks (store.mapObject id f) where
  ids_eq := map_id_mapObject store id hf
  nextId_eq := rfl
  object_rel := by
    intro x
    rw [object?_mapObject store id hf]
    cases hx : store.object? x with
    | none => split <;> exact .none
    | some object =>
      split
      . next heq => exact .some (hsame object (heq ▸ hx))
      . exact .some (.refl object)
  linkCount_eq := by
    intro x
    cases hobject : store.object? id with
    | none =>
      have heq : (store.mapObject id f).objects = store.objects := by
        apply map_eq_self_of_ne
        intro o ho hid
        exact absurd hid (by simpa using List.find?_eq_none.mp hobject o ho)
      simp [linkCount, heq]
    | some object =>
      have hsum := linkCount_mapObject hids hobject f x
      rw [(hsame object hobject).linksTo_eq] at hsum
      omega

theorem object?_of_object? (h : store.SameLinks store') {object : MemObject}
    (hx : store.object? x = some object) :
    ∃ object', store'.object? x = some object' ∧ object.SameLinks object' := by
  have hrel := h.object_rel x
  rw [hx] at hrel
  cases hrel' : store'.object? x with
  | none =>
    rw [hrel'] at hrel
    cases hrel
  | some object' =>
    rw [hrel'] at hrel
    cases hrel with
    | some hsame => exact ⟨object', rfl, hsame⟩

theorem object?_of_object?' (h : store.SameLinks store') {object' : MemObject}
    (hx : store'.object? x = some object') :
    ∃ object, store.object? x = some object ∧ object.SameLinks object' := by
  have hrel := h.object_rel x
  rw [hx] at hrel
  cases hrel' : store.object? x with
  | none =>
    rw [hrel'] at hrel
    cases hrel
  | some object =>
    rw [hrel'] at hrel
    cases hrel with
    | some hsame => exact ⟨object, rfl, hsame⟩

theorem directory?_of_directory? (h : store.SameLinks store') {dir : Directory}
    (hx : store.directory? x = some dir) :
    ∃ dir', store'.directory? x = some dir'
      ∧ dir'.ordinary.map (·.target) = dir.ordinary.map (·.target) := by
  obtain ⟨object, hobject, hbody⟩ := directory?_eq_some_iff.mp hx
  obtain ⟨object', hobject', hsame⟩ := h.object?_of_object? hobject
  obtain ⟨dir', hbody', htargets, _⟩ := hsame.directory hbody
  exact ⟨dir', directory?_of_object? hobject' hbody', htargets⟩

theorem exists_entry (h : store.SameLinks store') {dir : Directory} {e : DirEntry}
    (hx : store.directory? x = some dir) (he : e ∈ dir.ordinary) :
    ∃ dir', store'.directory? x = some dir' ∧ ∃ e' ∈ dir'.ordinary, e'.target = e.target := by
  obtain ⟨dir', hdir', htargets⟩ := h.directory?_of_directory? hx
  have hmem : e.target ∈ dir'.ordinary.map (·.target) := htargets ▸ List.mem_map_of_mem he
  exact ⟨dir', hdir', List.mem_map.mp hmem⟩

theorem exists_entry' (h : store.SameLinks store') {dir' : Directory} {e' : DirEntry}
    (hx : store'.directory? x = some dir') (he' : e' ∈ dir'.ordinary) :
    ∃ dir, store.directory? x = some dir ∧ ∃ e ∈ dir.ordinary, e.target = e'.target := by
  obtain ⟨object', hobject', hbody'⟩ := directory?_eq_some_iff.mp hx
  obtain ⟨object, hobject, hlinks⟩ := h.object?_of_object?' hobject'
  obtain ⟨dir, hbody, htargets, _⟩ := hlinks.directory' hbody'
  have hmem : e'.target ∈ dir.ordinary.map (·.target) := htargets ▸ List.mem_map_of_mem he'
  exact ⟨dir, directory?_of_object? hobject hbody, List.mem_map.mp hmem⟩

theorem isFile_eq (h : store.SameLinks store') (x : ObjectId) :
    store'.isFile x = store.isFile x := by
  unfold isFile
  cases hx : store.object? x with
  | none =>
    have hrel := h.object_rel x
    rw [hx] at hrel
    generalize store'.object? x = object' at hrel ⊢
    cases hrel
    rfl
  | some object =>
    obtain ⟨object', hobject', hsame⟩ := h.object?_of_object? hx
    simp [hobject', hsame.kind_eq]

theorem directoryLinks_eq (h : store.SameLinks store') {dir dir' : Directory}
    (htargets : dir'.ordinary.map (·.target) = dir.ordinary.map (·.target)) :
    store'.directoryLinks dir' = store.directoryLinks dir := by
  have hdef (s : MemStore) (d : Directory) :
      s.directoryLinks d = (d.ordinary.map (·.target)).countP fun t => !s.isFile t := by
    simp [directoryLinks, List.countP_map, Function.comp_def]
  simp only [hdef, htargets, h.isFile_eq]

end SameLinks

namespace Linked

variable {store store' : MemStore}

theorem of_sameLinks (h : store.Linked) (hsame : store.SameLinks store') : store'.Linked := by
  constructor
  . rw [HasDistinctIds, hsame.ids_eq]
    exact h.ids_distinct
  . exact hsame.nextId_eq ▸ h.root_lt
  . intro x object' hx
    obtain ⟨object, hobject, _⟩ := hsame.object?_of_object?' hx
    exact hsame.nextId_eq ▸ h.id_lt hobject
  . intro x dir' hx e he
    obtain ⟨dir, hdir, e', he', heq⟩ := hsame.exists_entry' hx he
    rw [hsame.nextId_eq, ← heq]
    exact h.target_lt hdir e' he'
  . intro x object' hx
    obtain ⟨object, hobject, hlinks⟩ := hsame.object?_of_object?' hx
    rw [hlinks.type_eq, h.mode_type hobject, hlinks.bodyType_eq]
  . intro x object' hx hkind
    obtain ⟨object, hobject, hlinks⟩ := hsame.object?_of_object?' hx
    rw [hsame.linkCount_eq, hlinks.nlink_eq]
    exact h.file_nlink hobject (hlinks.kind_eq ▸ hkind)
  . intro x object' dir' hx hbody'
    obtain ⟨object, hobject, hlinks⟩ := hsame.object?_of_object?' hx
    obtain ⟨dir, hbody, htargets, _⟩ := hlinks.directory' hbody'
    rw [hlinks.nlink_eq, h.directory_nlink hobject hbody, hsame.directoryLinks_eq htargets]
  . intro x dir' hx
    obtain ⟨object', hobject', hbody'⟩ := directory?_eq_some_iff.mp hx
    obtain ⟨object, hobject, hlinks⟩ := hsame.object?_of_object?' hobject'
    obtain ⟨dir, hbody, _, hwf⟩ := hlinks.directory' hbody'
    obtain ⟨parent, hparent, hplaced⟩ := h.placed (directory?_of_object? hobject hbody)
    refine ⟨parent, hwf hparent, hplaced.of_entries (hsame.linkCount_eq x) ?_⟩
    intro parentDir e hparentDir he htarget
    exact htarget ▸ hsame.exists_entry hparentDir he

theorem mem_ordinary_of_find? (h : store.Linked) {id : ObjectId} {dir : Directory} {name : String}
    {e : DirEntry} (hdir : store.directory? id = some dir) (hfind : dir.find? name = some e)
    (htarget : store.directory? e.target = none) : e ∈ dir.ordinary := by
  -- The two links of a directory lead to directories.
  obtain ⟨parent, hwf, hp⟩ := h.placed hdir
  rcases hwf.mem_entries_iff.mp (List.mem_of_find?_eq_some hfind) with
    ⟨v, rfl, _⟩ | ⟨v, rfl, _⟩ | hmem
  . rw [show (Directory.selfLink id v).target = id from rfl, hdir] at htarget
    cases htarget
  . rw [show (Directory.parentLink parent v).target = parent from rfl] at htarget
    obtain ⟨d, hd⟩ := hp.exists_directory hdir
    rw [hd] at htarget
    cases htarget
  . exact hmem

theorem eq_of_target (h : store.Linked) {x id id' : ObjectId} {dir dir' : Directory}
    {e e' : DirEntry} (hcount : store.linkCount x ≤ 1) (hdir : store.directory? id = some dir)
    (he : e ∈ dir.ordinary) (htarget : e.target = x) (hdir' : store.directory? id' = some dir')
    (he' : e' ∈ dir'.ordinary) (htarget' : e'.target = x) : id' = id ∧ e' = e := by
  obtain ⟨object, hobject, hbody⟩ := directory?_eq_some_iff.mp hdir
  obtain ⟨object', hobject', hbody'⟩ := directory?_eq_some_iff.mp hdir'
  have hlinks : 0 < object.linksTo x := by
    rw [linksTo_pos_iff, hbody]
    exact ⟨e, he, htarget⟩
  have hlinks' : 0 < object'.linksTo x := by
    rw [linksTo_pos_iff, hbody']
    exact ⟨e', he', htarget'⟩
  have hid : id' = id := by
    by_contra hne
    have hsum := linksTo_add_linksTo_le_linkCount h.ids_distinct hobject hobject' hne x
    omega
  refine ⟨hid, ?_⟩
  subst hid
  rw [hdir] at hdir'
  injection hdir' with hdir'
  subst hdir'
  obtain ⟨parent, hwf, _⟩ := h.placed hdir
  by_contra hne
  have hremoved := hwf.countP_remove he (·.target == x)
  have hleft : 0 < (dir.remove e.offset).ordinary.countP (·.target == x) := by
    rw [List.countP_pos_iff]
    exact ⟨e', (hwf.mem_ordinary_remove he).mpr ⟨he', hne⟩, by simpa using htarget'⟩
  have hone := linksTo_le_linkCount hobject x
  have hdef : object.linksTo x = dir.ordinary.countP (·.target == x) := by
    rw [MemObject.linksTo, hbody]
    rfl
  simp only [htarget, beq_self_eq_true, if_true] at hremoved
  omega

theorem ne_of_entry (h : store.Linked) {id : ObjectId} {dir dir' : Directory} {e : DirEntry}
    (hdir : store.directory? id = some dir) (he : e ∈ dir.ordinary)
    (hdir' : store.directory? e.target = some dir') : e.target ≠ id := by
  intro heq
  obtain ⟨parent, _, hp⟩ := h.placed hdir'
  obtain ⟨_, hlt, hone, parentDir, hparent, e', he', htarget'⟩ :=
    hp.of_linkCount_pos (linkCount_pos hdir he)
  obtain ⟨hid, _⟩ := h.eq_of_target (Nat.le_of_eq hone) hdir he rfl hparent he' htarget'
  rw [hid, ← heq] at hlt
  exact Nat.lt_irrefl _ hlt

theorem target_lt_of_find? (h : store.Linked) {id : ObjectId} {dir : Directory} {name : String}
    {e : DirEntry} (hdir : store.directory? id = some dir) (hfind : dir.find? name = some e) :
    e.target < store.nextId := by
  have hid : id < store.nextId := by
    obtain ⟨object, hobject, _⟩ := directory?_eq_some_iff.mp hdir
    exact h.id_lt hobject
  obtain ⟨parent, hwf, hp⟩ := h.placed hdir
  rcases hwf.mem_entries_iff.mp (List.mem_of_find?_eq_some hfind) with
    ⟨v, rfl, _⟩ | ⟨v, rfl, _⟩ | hmem
  . exact hid
  . unfold IsPlaced at hp
    split at hp
    . exact hp.1 ▸ h.root_lt
    . exact Nat.lt_trans hp.1 hid
  . exact h.target_lt hdir e hmem

end Linked

end MemStore

end AttrTree
