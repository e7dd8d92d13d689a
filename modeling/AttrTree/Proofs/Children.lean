import AttrTree.Proofs.Effect

/-!
This module contains where names lead after a change of the store in memory. Every change of the
entries is a change at one place, which is a name in a directory.
-/

namespace AttrTree

namespace MemStore

variable {store : MemStore} {id dir parent x : ObjectId} {name n : String} {d : Directory}
  {object owner target : MemObject} {e : DirEntry}

theorem child?_of_none (h : store.directory? x = none) (n : String) : store.child? x n = none := by
  simp [child?, h]

theorem child?_congr {store' : MemStore} (h : store'.directory? x = store.directory? x)
    (n : String) : store'.child? x n = store.child? x n := by
  simp [child?, h]

theorem child?_of_objects_eq {store' : MemStore} (h : store'.objects = store.objects)
    (x : ObjectId) (n : String) : store'.child? x n = store.child? x n := by
  apply child?_congr
  simp [directory?, object?_congr h]

theorem Linked.child?_eq_some_iff (h : store.Linked) (hn : EntryName.isDots n = false) :
    store.child? x n = some id ↔
      ∃ d e, store.directory? x = some d ∧ e ∈ d.ordinary ∧ e.name = n ∧ e.target = id := by
  rw [MemStore.child?_eq_some_iff]
  constructor
  . rintro ⟨d, e, hdir, hfind, htarget⟩
    obtain ⟨_, hwf, _⟩ := h.placed hdir
    obtain ⟨hmem, hname⟩ := hwf.mem_ordinary_of_find? hn hfind
    exact ⟨d, e, hdir, hmem, hname, htarget⟩
  . rintro ⟨d, e, hdir, hmem, rfl, htarget⟩
    obtain ⟨_, hwf, _⟩ := h.placed hdir
    exact ⟨d, e, hdir, hwf.find?_name (Directory.mem_entries_of_mem_ordinary hmem), htarget⟩

theorem Linked.place_unique (h : store.Linked) (hcount : store.linkCount id ≤ 1)
    (hname : EntryName.isDots name = false) (hn : EntryName.isDots n = false)
    (hchild : store.child? dir name = some id) (hchild' : store.child? x n = some id) :
    x = dir ∧ n = name := by
  obtain ⟨d, e, hdir, hmem, rfl, htarget⟩ := (h.child?_eq_some_iff hname).mp hchild
  obtain ⟨d', e', hdir', hmem', rfl, htarget'⟩ := (h.child?_eq_some_iff hn).mp hchild'
  obtain ⟨hx, he⟩ := h.eq_of_target hcount hdir hmem htarget hdir' hmem' htarget'
  exact ⟨hx, by rw [he]⟩

theorem Linked.linkCount_le_of_directory? (h : store.Linked) (hdir : store.directory? id = some d) :
    store.linkCount id ≤ 1 := by
  obtain ⟨parent, _, hplace⟩ := h.placed hdir
  exact hplace.linkCount_le

theorem Linked.linkCount_le_of_nlink (h : store.Linked) (hobject : store.object? id = some object)
    (hkind : object.body.isDirectory = false) (hnlink : object.nlink ≤ 1) :
    store.linkCount id ≤ 1 := by
  rw [← (h.file_nlink hobject hkind).1]
  exact hnlink

theorem Linked.child?_ne_root (h : store.Linked) (hdir : store.directory? rootId = some d)
    (hn : EntryName.isDots n = false) : store.child? x n ≠ some rootId := by
  intro hchild
  obtain ⟨d', e, hdir', hmem, _, htarget⟩ := (h.child?_eq_some_iff hn).mp hchild
  have hpos := linkCount_pos hdir' hmem
  obtain ⟨parent, _, hplace⟩ := h.placed hdir
  exact (hplace.of_linkCount_pos (htarget ▸ hpos)).1 rfl

theorem child?_fresh (hdir : store.directory? x = some (.fresh x parent))
    (hn : EntryName.isDots n = false) : store.child? x n = none := by
  simp [child?_of_directory? hdir, Directory.find?_fresh hn]

theorem child?_empty (pageSize : Nat) (format : ObjectFormat) (h : Record.headerSize < pageSize)
    (hn : EntryName.isDots n = false) : (MemStore.empty pageSize format h).child? rootId n = none :=
  child?_fresh rfl hn

section Attach

variable {made : ObjectId → UInt32 → MemObject} {extra : Nat} (h : store.Linked)
  (hnew : store.IsNew parent extra (made store.nextId store.nextGeneration))
  (howner : store.object? parent = some owner) (hbody : owner.body = .directory d)
  (hfree : d.find? name = none)
include h hnew howner hbody hfree

theorem child?_attach (hn : EntryName.isDots n = false) (x : ObjectId) :
    (store.attach made parent name extra).child? x n =
      if x = parent ∧ n = name then some store.nextId else store.child? x n := by
  have hdirectory := directory?_attach h hnew.id_eq howner hbody name extra x
  have hne := h.ne_nextId howner
  by_cases hx : x = store.nextId
  . have hnone : store.child? x n = none := by
      rw [hx]
      exact child?_of_none (by simp [directory?, h.object?_nextId]) n
    rw [if_pos hx] at hdirectory
    rw [if_neg (by rintro ⟨rfl, _⟩; exact hne hx), hnone]
    obtain ⟨content, hfile, _⟩ | ⟨hdir, _⟩ := hnew.body
    . exact child?_of_none (by rw [hdirectory, hfile]; rfl) n
    . subst hx
      exact child?_fresh (by rw [hdirectory, hdir]; rfl) hn
  . rw [if_neg hx] at hdirectory
    by_cases hparent : x = parent
    . rw [if_pos hparent] at hdirectory
      have hold : store.directory? x = some d := hparent ▸ directory?_of_object? howner hbody
      have hcontains : d.contains name = false := by
        simp [Directory.contains, hfree]
      rw [child?_of_directory? hdirectory, child?_of_directory? hold,
        Directory.find?_insert _ hcontains]
      by_cases hnn : n = name
      . simp [hparent, hnn]
      . simp [hnn]
    . rw [if_neg hparent] at hdirectory
      rw [child?_congr hdirectory, if_neg (fun hplace => hparent hplace.1)]

end Attach

theorem child?_madeDirectory (h : store.Linked) (hdir : store.directory? parent = some d)
    (hfree : d.find? name = none) (hn : EntryName.isDots n = false) (x : ObjectId) :
    (store.madeDirectory parent name).child? x n =
      if x = parent ∧ n = name then some store.nextId else store.child? x n := by
  obtain ⟨owner, howner, hbody⟩ := directory?_eq_some_iff.mp hdir
  exact child?_attach h (isNew_directory ..) howner hbody hfree hn x

theorem child?_madeRecord (h : store.Linked) (hdir : store.directory? parent = some d)
    (hfree : d.find? name = none) (hn : EntryName.isDots n = false) (x : ObjectId) :
    (store.madeRecord parent name).child? x n =
      if x = parent ∧ n = name then some store.nextId else store.child? x n := by
  obtain ⟨owner, howner, hbody⟩ := directory?_eq_some_iff.mp hdir
  exact child?_attach h (isNew_file ..) howner hbody hfree hn x

theorem child?_detach (h : store.Linked) (hleaf : store.IsLeaf parent owner d e target)
    (hn : EntryName.isDots n = false) (x : ObjectId) :
    (store.detach parent e target).child? x n =
      if x = parent ∧ n = e.name then none else store.child? x n := by
  have hdirectory := hleaf.directory?_detach x
  obtain ⟨_, hwf⟩ := hleaf.wellFormed h
  by_cases hx : x = e.target
  . rw [if_pos hx] at hdirectory
    have hnone : store.child? x n = none := by
      cases hchild : store.child? x n with
      | none => rfl
      | some id =>
        obtain ⟨d', e', hdir', hmem, _⟩ := (h.child?_eq_some_iff hn).mp hchild
        obtain ⟨object, hobject, hbody⟩ := directory?_eq_some_iff.mp hdir'
        rw [hx, hleaf.target_eq] at hobject
        injection hobject with hobject
        have hempty := hleaf.empty
        rw [hobject, hbody] at hempty
        rw [show d'.ordinary = [] from hempty] at hmem
        cases hmem
    rw [child?_of_none hdirectory, hnone, ite_self]
  . rw [if_neg hx] at hdirectory
    by_cases hparent : x = parent
    . rw [if_pos hparent] at hdirectory
      have hold : store.directory? x = some d := hparent ▸ hleaf.directory?
      rw [child?_of_directory? hdirectory, child?_of_directory? hold,
        hwf.find?_remove (Directory.mem_entries_of_mem_ordinary hleaf.mem)]
      by_cases hnn : n = e.name
      . simp [hparent, hnn]
      . simp [hnn]
    . rw [if_neg hparent] at hdirectory
      rw [child?_congr hdirectory, if_neg (fun hplace => hparent hplace.1)]

end MemStore

end AttrTree
