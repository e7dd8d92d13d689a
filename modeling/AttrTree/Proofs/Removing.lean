import AttrTree.Proofs.Tree

/-!
This module contains what goes with an entry. A file goes with its last entry and a directory with its
only one, so that no entry is left without its object, unless a directory is removed under the name of
one of its two links.
-/

namespace AttrTree

def Body.entries : Body → List DirEntry
  | .file _ => []
  | .directory dir => dir.entries

namespace MemStore

def NoDangling (store : MemStore) : Prop :=
  ∀ object ∈ store.objects, ∀ e ∈ object.body.entries, (store.object? e.target).isSome

instance (store : MemStore) : Decidable store.NoDangling :=
  inferInstanceAs (Decidable (∀ object ∈ store.objects, ∀ e ∈ object.body.entries,
    (store.object? e.target).isSome))

def HasEntry (store : MemStore) (id : ObjectId) (e : DirEntry) : Prop :=
  ∃ dir, store.directory? id = some dir ∧ e ∈ dir.ordinary

def IsOnlyEntry (store : MemStore) (parent : ObjectId) (e : DirEntry) : Prop :=
  ∀ id e', store.HasEntry id e' → e'.target = e.target → id = parent ∧ e' = e

/-- The entry `e` of `parent` goes and no other one. All objects stay, `e.target` aside. -/
structure EntryLeaves (store store' : MemStore) (parent : ObjectId) (e : DirEntry) : Prop where
  had : store.HasEntry parent e
  entries : ∀ id e', store'.HasEntry id e' ↔ store.HasEntry id e' ∧ ¬ (id = parent ∧ e' = e)
  objects : ∀ x, x ≠ e.target → (store'.object? x).isSome = (store.object? x).isSome
  live : store'.NoDangling

structure FileEntryLeaves (store store' : MemStore) (parent : ObjectId) (e : DirEntry) : Prop
    extends EntryLeaves store store' parent e where
  file : store.isFile e.target = true
  gone_iff : store'.object? e.target = none ↔ store.IsOnlyEntry parent e

structure DirectoryLeaves (store store' : MemStore) (parent : ObjectId) (e : DirEntry) : Prop
    extends EntryLeaves store store' parent e where
  empty : ∃ dir, store.directory? e.target = some dir ∧ dir.isEmpty = true
  ne_root : e.target ≠ rootId
  gone : store'.object? e.target = none
  only : store.IsOnlyEntry parent e

variable {store store' : MemStore} {id parent x : ObjectId} {name : String}

section Entries

theorem Linked.noDangling_iff (h : store.Linked) :
    store.NoDangling ↔ ∀ {id dir}, store.directory? id = some dir →
      ∀ e ∈ dir.ordinary, ∃ object, store.object? e.target = some object := by
  constructor
  . intro hlive id dir hdir e he
    obtain ⟨object, hobject, hbody⟩ := directory?_eq_some_iff.mp hdir
    apply Option.isSome_iff_exists.mp
    apply hlive object (mem_of_object? hobject)
    rw [hbody]
    exact Directory.mem_entries_of_mem_ordinary he
  . intro htarget object hobject e he
    have hid := object?_of_mem h.ids_distinct hobject
    cases hbody : object.body with
    | file content => simp [hbody, Body.entries] at he
    | directory dir =>
      rw [hbody] at he
      have hdir := directory?_of_object? hid hbody
      obtain ⟨up, hwf, hp⟩ := h.placed hdir
      rcases hwf.mem_entries_iff.mp he with ⟨v, rfl, _⟩ | ⟨v, rfl, _⟩ | hmem
      . rw [show (Directory.selfLink object.id v).target = object.id from rfl, hid]
        rfl
      . rw [show (Directory.parentLink up v).target = up from rfl]
        obtain ⟨upDir, hup⟩ := hp.exists_directory hdir
        obtain ⟨owner, howner, _⟩ := directory?_eq_some_iff.mp hup
        rw [howner]
        rfl
      . exact Option.isSome_iff_exists.mpr (htarget hdir e hmem)

theorem ReachedFrom.root (h : store.ReachedFrom rootId id) {dir : Directory}
    (hdir : store.directory? id = some dir) : ∃ dir, store.directory? rootId = some dir := by
  induction h generalizing dir with
  | top => exact ⟨dir, hdir⟩
  | entry _ hdir' _ ih => exact ih hdir'

theorem Linked.whole (h : store.Linked) (hlive : store.NoDangling) {dir : Directory}
    (hdir : store.directory? id = some dir) : store.Whole where
  root := (h.directory_reached hdir).root hdir
  target := h.noDangling_iff.mp hlive

theorem Linked.linkCount_eq_zero_iff_hasEntry (h : store.Linked) :
    store.linkCount x = 0 ↔ ∀ id e, store.HasEntry id e → e.target ≠ x := by
  rw [linkCount_eq_zero_iff]
  constructor
  . rintro hnone id e ⟨dir, hdir, he⟩
    obtain ⟨object, hobject, hbody⟩ := directory?_eq_some_iff.mp hdir
    apply hnone object (mem_of_object? hobject)
    rw [hbody]
    exact he
  . intro hnone object hobject e he
    cases hbody : object.body with
    | file content => simp [hbody, Body.ordinary] at he
    | directory dir =>
      rw [hbody] at he
      have hdir := directory?_of_object? (object?_of_mem h.ids_distinct hobject) hbody
      exact hnone object.id e ⟨dir, hdir, he⟩

end Entries

section Leaving

variable {owner target : MemObject} {dir : Directory} {e : DirEntry}

namespace IsLeaf

theorem hasEntry_detach_iff (hleaf : store.IsLeaf parent owner dir e target)
    (hlinked : store.Linked) (e' : DirEntry) :
    (store.detach parent e target).HasEntry id e' ↔
      store.HasEntry id e' ∧ ¬ (id = parent ∧ e' = e) := by
  obtain ⟨_, hwf⟩ := hleaf.wellFormed hlinked
  unfold HasEntry
  rw [hleaf.directory?_detach]
  by_cases htarget : id = e.target
  . -- The object of the entry has no entries of its own.
    have hnone : ¬ ∃ d, store.directory? e.target = some d ∧ e' ∈ d.ordinary := by
      rintro ⟨d, hd, he'⟩
      rw [MemStore.directory?, hleaf.target_eq] at hd
      rw [← Body.ordinary_of_directory? hd, hleaf.empty] at he'
      simp at he'
    simp [htarget, hnone]
  . rw [if_neg htarget]
    by_cases hparent : id = parent
    . simp [hparent, hleaf.directory?, hwf.mem_ordinary_remove hleaf.mem]
    . simp [hparent]

theorem entryLeaves (hleaf : store.IsLeaf parent owner dir e target) (hlinked : store.Linked)
    (hlive : store.NoDangling) : store.EntryLeaves (store.detach parent e target) parent e where
  had := ⟨dir, hleaf.directory?, hleaf.mem⟩
  entries id e' := hleaf.hasEntry_detach_iff hlinked e'
  objects x hx := by
    rw [hleaf.object?_detach, if_neg hx]
    split
    . next hparent =>
      rw [hparent, hleaf.owner_eq]
      rfl
    . rfl
  live := by
    have hwhole := hlinked.whole hlive hleaf.directory?
    exact (hlinked.detach hleaf).noDangling_iff.mpr (hwhole.detach hlinked hleaf).target

theorem isOnlyEntry_iff (hleaf : store.IsLeaf parent owner dir e target) (hlinked : store.Linked) :
    store.IsOnlyEntry parent e ↔ store.linkCount e.target = 1 := by
  -- What no entry names once `e` is gone was named by `e` only.
  have hcount := hleaf.linkCount_detach hlinked e.target
  rw [if_pos rfl] at hcount
  have hzero : store.linkCount e.target = 1 ↔
      (store.detach parent e target).linkCount e.target = 0 := by
    omega
  rw [hzero, (hlinked.detach hleaf).linkCount_eq_zero_iff_hasEntry]
  simp only [hleaf.hasEntry_detach_iff hlinked]
  constructor
  . rintro honly id e' ⟨hhas, hne⟩ htarget
    exact hne (honly id e' hhas htarget)
  . intro hnone id e' hhas htarget
    by_contra hne
    exact hnone id e' ⟨hhas, hne⟩ htarget

theorem fileEntryLeaves (hleaf : store.IsLeaf parent owner dir e target) (hlinked : store.Linked)
    (hlive : store.NoDangling) (hkind : target.body.isDirectory = false) :
    store.FileEntryLeaves (store.detach parent e target) parent e where
  toEntryLeaves := hleaf.entryLeaves hlinked hlive
  file := by
    rw [isFile_of_object? hleaf.target_eq, hkind]
    rfl
  gone_iff := by
    obtain ⟨hnlink, hpos⟩ := hlinked.file_nlink hleaf.target_eq hkind
    rw [hleaf.isOnlyEntry_iff hlinked, hleaf.object?_detach, if_pos rfl, unlinked?_eq_none_iff,
      hkind]
    simp only [Bool.false_eq_true, false_or]
    omega

theorem directoryLeaves (hleaf : store.IsLeaf parent owner dir e target) (hlinked : store.Linked)
    (hlive : store.NoDangling) (hkind : target.body.isDirectory = true) :
    store.DirectoryLeaves (store.detach parent e target) parent e := by
  cases hbody : target.body with
  | file content =>
    rw [hbody] at hkind
    cases hkind
  | directory dir' =>
    have hdir := directory?_of_object? hleaf.target_eq hbody
    have hempty := hleaf.empty
    rw [hbody] at hempty
    obtain ⟨up, _, hp⟩ := hlinked.placed hdir
    obtain ⟨hroot, _, hone, _⟩ := hp.of_linkCount_pos hleaf.linkCount
    refine ⟨hleaf.entryLeaves hlinked hlive, ⟨dir', hdir, ?_⟩, hroot, ?_, ?_⟩
    . exact List.isEmpty_iff.mpr hempty
    . rw [hleaf.object?_detach_directory hkind, if_pos rfl]
    . exact (hleaf.isOnlyEntry_iff hlinked).mpr hone

end IsLeaf

end Leaving

section Removal

theorem hasEntry_eraseObject_iff {e : DirEntry} :
    (store.eraseObject parent).HasEntry id e ↔ store.HasEntry id e ∧ id ≠ parent := by
  unfold HasEntry directory?
  rw [object?_eraseObject]
  by_cases hid : id = parent
  . simp [hid]
  . simp [hid]

theorem not_directoryLeaves_eraseObject {owner : MemObject} {dir : Directory}
    (howner : store.object? parent = some owner) (hbody : owner.body = .directory dir)
    (hempty : dir.ordinary = []) (id : ObjectId) (e : DirEntry) :
    ¬ store.DirectoryLeaves (store.eraseObject parent) id e := by
  intro h
  have hne : id ≠ parent := by
    rintro rfl
    obtain ⟨dir', hdir', he⟩ := h.had
    rw [directory?_of_object? howner hbody] at hdir'
    injection hdir' with hdir'
    rw [← hdir', hempty] at he
    simp at he
  have hstays : (store.eraseObject parent).HasEntry id e :=
    hasEntry_eraseObject_iff.mpr ⟨h.had, hne⟩
  exact ((h.entries id e).mp hstays).2 ⟨rfl, rfl⟩

theorem Linked.dangling_eraseObject (h : store.Linked) {owner : MemObject} {dir : Directory}
    (howner : store.object? parent = some owner) (hbody : owner.body = .directory dir)
    (hempty : dir.ordinary = []) (hroot : parent ≠ rootId) :
    ¬ (store.eraseObject parent).NoDangling := by
  intro hlive
  obtain ⟨up, _, hp⟩ := h.placed (directory?_of_object? howner hbody)
  rw [IsPlaced, if_neg hroot] at hp
  obtain ⟨hlt, _, upDir, hup, e, he, htarget⟩ := hp
  have hdir : (store.eraseObject parent).directory? up = some upDir := by
    rw [MemStore.directory?, object?_eraseObject, if_neg (Nat.ne_of_lt hlt)]
    exact hup
  obtain ⟨object, hobject⟩ :=
    (h.eraseObject howner hbody hempty).noDangling_iff.mp hlive hdir e he
  rw [htarget, object?_eraseObject, if_pos rfl] at hobject
  cases hobject

theorem rmdirFaulty_eq_ok_iff :
    rmdirFaulty parent name store = .ok () store' ↔
      store.rmdirFault = false ∧ store.rmdir parent name = .ok store' := by
  unfold rmdirFaulty
  cases store.rmdirFault with
  | true => simp
  | false => simp [Action.update_eq_ok_iff]

theorem Linked.fileEntryLeaves_of_unlink (h : store.Linked) (hlive : store.NoDangling)
    (hok : (Op.unlink parent name).perform store = .ok () store') :
    ∃ e, e.name = name ∧ store.FileEntryLeaves store' parent e := by
  have hunlink : Action.update (·.unlink parent name) store = .ok () store' := hok
  obtain ⟨owner, dir, e, target, hleaf, hname, hkind, rfl⟩ :=
    h.unlink_cases (Action.update_eq_ok_iff.mp hunlink)
  exact ⟨e, hname, hleaf.fileEntryLeaves h hlive hkind⟩

theorem Linked.directoryLeaves_of_rmdir (h : store.Linked) (hlive : store.NoDangling)
    (hok : (Op.rmdir parent name).perform store = .ok () store')
    (hname : EntryName.isDots name = false) :
    ∃ e, e.name = name ∧ store.DirectoryLeaves store' parent e := by
  obtain ⟨hdots, _⟩ | ⟨_, owner, dir, e, target, hleaf, hentry, hkind, rfl⟩ :=
    h.rmdir_cases (rmdirFaulty_eq_ok_iff.mp hok).2
  . rw [hname] at hdots
    cases hdots
  . exact ⟨e, hentry, hleaf.directoryLeaves h hlive hkind⟩

theorem Linked.not_directoryLeaves_of_rmdir (h : store.Linked)
    (hok : (Op.rmdir parent name).perform store = .ok () store')
    (hname : EntryName.isDots name = true) :
    store' = store.eraseObject parent ∧ (parent = rootId ∨ ¬ store'.NoDangling)
      ∧ ∀ id e, ¬ store.DirectoryLeaves store' id e := by
  obtain ⟨_, owner, dir, howner, hbody, hempty, rfl⟩ | ⟨hdots, _⟩ :=
    h.rmdir_cases (rmdirFaulty_eq_ok_iff.mp hok).2
  . refine ⟨rfl, ?_, not_directoryLeaves_eraseObject howner hbody hempty⟩
    by_cases hroot : parent = rootId
    . exact .inl hroot
    . exact .inr (h.dangling_eraseObject howner hbody hempty hroot)
  . rw [hname] at hdots
    cases hdots

end Removal

end MemStore

namespace Volume

open MemStore

variable {pageSize : Nat} {format : ObjectFormat} {hpage : Record.headerSize < pageSize}
  {options : MountOptions} {cacheCapacity : Nat} {ops : List Op}

theorem removal_leaves_nothing_dangling
    (hlive : (run ops (initial pageSize format hpage options cacheCapacity)).store.NoDangling)
    (parent : ObjectId) (name : String) :
    let store := (run ops (initial pageSize format hpage options cacheCapacity)).store
    (∀ store', (MemStore.Op.unlink parent name).perform store = .ok () store' →
      ∃ e, e.name = name ∧ store.FileEntryLeaves store' parent e)
    ∧ ∀ store', (MemStore.Op.rmdir parent name).perform store = .ok () store' →
      (EntryName.isDots name = false → ∃ e, e.name = name ∧ store.DirectoryLeaves store' parent e)
      ∧ (EntryName.isDots name = true →
        store' = store.eraseObject parent ∧ (parent = rootId ∨ ¬ store'.NoDangling)
          ∧ ∀ id e, ¬ store.DirectoryLeaves store' id e) := by
  intro store
  have hlinked : store.Linked := linked_run ops (linked_empty pageSize format hpage)
  refine ⟨fun store' hok => hlinked.fileEntryLeaves_of_unlink hlive hok, fun store' hok => ⟨?_, ?_⟩⟩
  . exact hlinked.directoryLeaves_of_rmdir hlive hok
  . exact hlinked.not_directoryLeaves_of_rmdir hok

def sharingRun : List Op :=
  [.store (.mkdir 1 "d" 0o755), .store (.create 2 "f" 0o644), .store (.link 3 1 "g"),
    .store (.mkdir 1 "e" 0o755)]

theorem removal_leaves_nothing_dangling_sharing :
    let store := (run sharingRun (initial 16 .current (by decide) .optional 64)).store
    store.NoDangling
    ∧ (∃ store' e, (MemStore.Op.unlink 2 "f").perform store = .ok () store'
      ∧ store.FileEntryLeaves store' 2 e)
    ∧ (∃ store' e, (MemStore.Op.rmdir 1 "e").perform store = .ok () store'
      ∧ store.DirectoryLeaves store' 1 e)
    ∧ ∃ store', (MemStore.Op.rmdir 4 ".").perform store = .ok () store'
      ∧ store' = store.eraseObject 4 := by
  intro store
  have hlive : store.NoDangling := by decide +kernel
  obtain ⟨_, hunlink⟩ : ∃ a, (MemStore.Op.unlink 2 "f").perform store =
      .ok a ((MemStore.Op.unlink 2 "f").perform.after store) :=
    Action.eq_ok_of_succeeds (by decide +kernel)
  obtain ⟨_, hrmdir⟩ : ∃ a, (MemStore.Op.rmdir 1 "e").perform store =
      .ok a ((MemStore.Op.rmdir 1 "e").perform.after store) :=
    Action.eq_ok_of_succeeds (by decide +kernel)
  obtain ⟨_, hself⟩ : ∃ a, (MemStore.Op.rmdir 4 ".").perform store =
      .ok a ((MemStore.Op.rmdir 4 ".").perform.after store) :=
    Action.eq_ok_of_succeeds (by decide +kernel)
  obtain ⟨e, _, hfile⟩ := (removal_leaves_nothing_dangling hlive 2 "f").1 _ hunlink
  obtain ⟨e', _, hdirectory⟩ :=
    ((removal_leaves_nothing_dangling hlive 1 "e").2 _ hrmdir).1 (by decide)
  have hdots := ((removal_leaves_nothing_dangling hlive 4 ".").2 _ hself).2 (by decide)
  exact ⟨hlive, ⟨_, e, hunlink, hfile⟩, ⟨_, e', hrmdir, hdirectory⟩, _, hself, hdots.1⟩

theorem rmdir_dots_dangles :
    let store := (run [.store (.mkdir 1 "d" 0o755)]
      (initial 16 .current (by decide) .optional 64)).store
    let fresh := (initial 16 .current (by decide) .optional 64).store
    store.NoDangling
    ∧ (MemStore.Op.rmdir 2 ".").perform.succeeds store = true
    ∧ ¬ ((MemStore.Op.rmdir 2 ".").perform.after store).NoDangling
    ∧ (MemStore.Op.rmdir rootId ".").perform.succeeds fresh = true
    ∧ ((MemStore.Op.rmdir rootId ".").perform.after fresh).object? rootId = none
    ∧ (MemStore.Op.rmdir rootId "..").perform.succeeds fresh = true
    ∧ ((MemStore.Op.rmdir rootId "..").perform.after fresh).object? rootId = none := by
  decide +kernel

end Volume

end AttrTree
