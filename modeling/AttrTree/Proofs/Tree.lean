import AttrTree.Proofs.Run

/-!
This module contains the tree that the objects of the store in memory make up. It stands as long as no
directory is removed under the name of one of its two links, which would leave its entry behind.
-/

namespace AttrTree

namespace MemStore

inductive ReachedFrom (store : MemStore) (top : ObjectId) : ObjectId → Prop
  | top : ReachedFrom store top top
  | entry {id : ObjectId} {dir : Directory} {e : DirEntry} (hid : ReachedFrom store top id)
      (hdir : store.directory? id = some dir) (he : e ∈ dir.ordinary) :
      ReachedFrom store top e.target

/-- Directories with files as leaves, where only files can have several entries, with the numbers that the store
keeps of itself. -/
structure IsTree (store : MemStore) : Prop where
  root : ∃ dir, store.directory? rootId = some dir
  entry_target : ∀ {id dir}, store.directory? id = some dir →
    ∀ e ∈ dir.ordinary, ∃ object, store.object? e.target = some object
  mem_ordinary : ∀ {id dir}, store.directory? id = some dir →
    ∀ e ∈ dir.entries, e ∈ dir.ordinary ↔ EntryName.isDots e.name = false
  entry_names : ∀ {id dir}, store.directory? id = some dir → (dir.entries.map (·.name)).Nodup
  entry_offset : ∀ {id dir}, store.directory? id = some dir →
    ∀ e ∈ dir.entries, EntryName.isDots e.name = false → 3 ≤ e.offset ∧ e.offset < dir.nextOffset
  file_nlink : ∀ {id object content}, store.object? id = some object →
    object.body = .file content → object.nlink = store.linkCount id ∧ 1 ≤ object.nlink
  directory_entry : ∀ {id dir}, store.directory? id = some dir → id ≠ rootId →
    store.linkCount id = 1 ∧ ∃ up parent, dir.find? ".." = some up
      ∧ store.directory? up.target = some parent ∧ ∃ e ∈ parent.ordinary, e.target = id
  directory_nlink : ∀ {id object dir}, store.object? id = some object →
    object.body = .directory dir →
    object.nlink = 2 + dir.ordinary.countP fun e => (store.directory? e.target).isSome
  reached : ∀ {id object}, store.object? id = some object → store.ReachedFrom rootId id
  mode_type : ∀ {id object}, store.object? id = some object →
    Mode.type object.mode = object.body.type
  id_lt : ∀ {id object}, store.object? id = some object → id < store.nextId

structure Whole (store : MemStore) : Prop where
  root : ∃ dir, store.directory? rootId = some dir
  target : ∀ {id dir}, store.directory? id = some dir →
    ∀ e ∈ dir.ordinary, ∃ object, store.object? e.target = some object

variable {store store' : MemStore} {id parent : ObjectId} {name : String}

section Steps

theorem Whole.of_sameLinks (h : store.Whole) (hsame : store.SameLinks store') : store'.Whole := by
  constructor
  . obtain ⟨dir, hdir⟩ := h.root
    obtain ⟨dir', hdir', _⟩ := hsame.directory?_of_directory? hdir
    exact ⟨dir', hdir'⟩
  . intro id dir' hdir' e he
    obtain ⟨dir, hdir, e₀, he₀, htarget⟩ := hsame.exists_entry' hdir' he
    obtain ⟨target, hlive⟩ := h.target hdir e₀ he₀
    obtain ⟨target', hlive', _⟩ := hsame.object?_of_object? hlive
    exact ⟨target', htarget ▸ hlive'⟩

theorem Whole.attach (h : store.Whole) (hlinked : store.Linked)
    {object : ObjectId → UInt32 → MemObject} {owner : MemObject} {dir : Directory} {extra : Nat}
    (hnew : store.IsNew parent extra (object store.nextId store.nextGeneration))
    (howner : store.object? parent = some owner) (hbody : owner.body = .directory dir)
    (name : String) : (store.attach object parent name extra).Whole := by
  constructor
  . obtain ⟨d, hd⟩ := h.root
    rw [directory?_attach hlinked hnew.id_eq howner hbody, if_neg (Nat.ne_of_lt hlinked.root_lt)]
    split
    . exact ⟨_, rfl⟩
    . exact ⟨d, hd⟩
  . intro x d hx e he
    rcases mem_ordinary_attach hlinked hnew howner hbody hx he with ⟨d', hd', he'⟩ | htarget
    . obtain ⟨o, ho⟩ := h.target hd' e he'
      exact exists_object?_attach hlinked hnew.id_eq howner name extra ho
    . exact ⟨_, by rw [object?_attach hlinked hnew.id_eq howner, if_pos htarget]⟩

theorem Whole.addLink (h : store.Whole) (hlinked : store.Linked) {target : ObjectId}
    {object owner : MemObject} {dir : Directory} (htarget : store.object? target = some object)
    (hkind : object.body.isDirectory = false) (howner : store.object? parent = some owner)
    (hbody : owner.body = .directory dir) (name : String) :
    (store.addLink target parent name).Whole := by
  constructor
  . obtain ⟨d, hd⟩ := h.root
    rw [directory?_addLink htarget hkind howner hbody]
    split
    . exact ⟨_, rfl⟩
    . exact ⟨d, hd⟩
  . intro x d hx e he
    rcases mem_ordinary_addLink hlinked htarget hkind howner hbody hx he with ⟨d', hd', he'⟩ | heq
    . obtain ⟨o, ho⟩ := h.target hd' e he'
      exact exists_object?_addLink htarget hkind howner hbody name ho
    . exact exists_object?_addLink htarget hkind howner hbody name (heq ▸ htarget)

theorem Whole.detach (h : store.Whole) (hlinked : store.Linked) {owner target : MemObject}
    {dir : Directory} {e : DirEntry} (hleaf : store.IsLeaf parent owner dir e target) :
    (store.detach parent e target).Whole := by
  -- An object goes with its last entry only, so no other entry loses its object.
  constructor
  . obtain ⟨d, hd⟩ := h.root
    have hne : rootId ≠ e.target := by
      intro heq
      obtain ⟨_, _, hp⟩ := hlinked.placed hd
      exact (hp.of_linkCount_pos (heq ▸ hleaf.linkCount)).1 rfl
    rw [hleaf.directory?_detach, if_neg hne]
    split
    . exact ⟨_, rfl⟩
    . exact ⟨d, hd⟩
  . intro x d hx e' he'
    obtain ⟨d', hd', hmem⟩ := hleaf.mem_ordinary_detach hlinked hx he'
    obtain ⟨o, ho⟩ := h.target hd' e' hmem
    exact hleaf.exists_object?_detach hlinked ho (linkCount_pos hx he')

theorem keptBySteps_whole : KeptBySteps Whole := by
  intro store store' hlinked hstep h
  cases hstep with
  | same hsame => exact h.of_sameLinks hsame
  | attach hnew howner hbody _ _ => exact h.attach hlinked hnew howner hbody _
  | addLink htarget hkind howner hbody _ _ => exact h.addLink hlinked htarget hkind howner hbody _
  | detach hleaf => exact h.detach hlinked hleaf

end Steps

section IsTree

theorem Linked.directory_reached (h : store.Linked) {dir : Directory}
    (hdir : store.directory? id = some dir) : store.ReachedFrom rootId id := by
  -- The parent of a directory is older than the directory.
  induction id using Nat.strong_induction_on generalizing dir with
  | _ id ih =>
    obtain ⟨parent, _, hp⟩ := h.placed hdir
    unfold IsPlaced at hp
    split at hp
    . next hroot =>
      rw [hroot]
      exact .top
    . obtain ⟨hlt, _, parentDir, hparent, e, he, rfl⟩ := hp
      exact .entry (ih parent hlt hparent) hparent he

theorem Linked.reached (h : store.Linked) {object : MemObject}
    (hobject : store.object? id = some object) : store.ReachedFrom rootId id := by
  cases hbody : object.body with
  | directory dir => exact h.directory_reached (directory?_of_object? hobject hbody)
  | file content =>
    have hnlink := h.file_nlink hobject (by rw [hbody]; rfl)
    have hcount : store.linkCount id ≠ 0 := by
      rw [← hnlink.1]
      exact Nat.ne_of_gt hnlink.2
    rw [ne_eq, linkCount_eq_zero_iff] at hcount
    simp only [not_forall, not_not] at hcount
    obtain ⟨owner, howner, e, he, rfl⟩ := hcount
    have hlive := object?_of_mem h.ids_distinct howner
    cases howner : owner.body with
    | file content' => simp [howner, Body.ordinary] at he
    | directory dir =>
      rw [howner] at he
      have hdir := directory?_of_object? hlive howner
      exact .entry (h.directory_reached hdir) hdir he

theorem Linked.mem_ordinary_iff (h : store.Linked) {dir : Directory}
    (hdir : store.directory? id = some dir) {e : DirEntry} (he : e ∈ dir.entries) :
    e ∈ dir.ordinary ↔ EntryName.isDots e.name = false := by
  obtain ⟨parent, hwf, _⟩ := h.placed hdir
  constructor
  . exact hwf.isDots_of_mem
  . intro hname
    rcases hwf.mem_entries_iff.mp he with ⟨v, rfl, _⟩ | ⟨v, rfl, _⟩ | hmem
    . simp [Directory.selfLink, EntryName.isDots] at hname
    . simp [Directory.parentLink, EntryName.isDots] at hname
    . exact hmem

theorem Whole.isTree (h : store.Whole) (hlinked : store.Linked) : store.IsTree where
  root := h.root
  entry_target := h.target
  mem_ordinary := fun hdir _ he => hlinked.mem_ordinary_iff hdir he
  entry_names := by
    intro id dir hdir
    obtain ⟨parent, hwf, _⟩ := hlinked.placed hdir
    exact hwf.entries_names_nodup
  entry_offset := by
    intro id dir hdir e he hname
    obtain ⟨parent, hwf, _⟩ := hlinked.placed hdir
    have hmem := (hlinked.mem_ordinary_iff hdir he).mpr hname
    exact ⟨Directory.first_le_of_mem_ordinary hmem, hwf.offset_lt e hmem⟩
  file_nlink := fun hobject hbody => hlinked.file_nlink hobject (by rw [hbody]; rfl)
  directory_entry := by
    intro id dir hdir hroot
    obtain ⟨parent, hwf, hp⟩ := hlinked.placed hdir
    obtain ⟨v, hup⟩ := hwf.find?_parent
    rw [IsPlaced, if_neg hroot] at hp
    obtain ⟨_, hone, parentDir, hparent, hentry⟩ := hp
    exact ⟨hone, _, parentDir, hup, hparent, hentry⟩
  directory_nlink := by
    intro id object dir hobject hbody
    rw [hlinked.directory_nlink hobject hbody, directoryLinks]
    congr 1
    apply List.countP_congr
    intro e he
    obtain ⟨target, htarget⟩ := h.target (directory?_of_object? hobject hbody) e he
    rw [isFile_of_object? htarget, Bool.not_not, directory?, htarget, Option.bind_some,
      ← Body.isDirectory_eq_isSome]
  reached := hlinked.reached
  mode_type := hlinked.mode_type
  id_lt := hlinked.id_lt

theorem linked_empty (pageSize : Nat) (format : ObjectFormat)
    (h : Record.headerSize < pageSize) : (empty pageSize format h).Linked := by
  have hobject {id : ObjectId} {object : MemObject}
      (hid : (empty pageSize format h).object? id = some object) :
      id = rootId ∧ object = .root rootId format := by
    have hmem := mem_of_object? hid
    simp only [empty, List.mem_singleton] at hmem
    exact ⟨by rw [← id_of_object? hid, hmem]; rfl, hmem⟩
  have hdirectory {id : ObjectId} {dir : Directory}
      (hid : (empty pageSize format h).directory? id = some dir) :
      id = rootId ∧ dir = .fresh rootId rootId := by
    obtain ⟨object, ho, hbody⟩ := directory?_eq_some_iff.mp hid
    obtain ⟨rfl, rfl⟩ := hobject ho
    injection hbody with hbody
    exact ⟨rfl, hbody.symm⟩
  constructor
  . simp [HasDistinctIds, empty]
  . exact Nat.lt_succ_self _
  . intro id object hid
    obtain ⟨rfl, _⟩ := hobject hid
    exact Nat.lt_succ_self _
  . intro id dir hid e he
    obtain ⟨_, rfl⟩ := hdirectory hid
    simp at he
  . intro id object hid
    obtain ⟨_, rfl⟩ := hobject hid
    exact Mode.type_withType (by decide) _
  . intro id object hid hkind
    obtain ⟨_, rfl⟩ := hobject hid
    simp [MemObject.root, Body.isDirectory] at hkind
  . intro id object dir hid hbody
    obtain ⟨_, rfl⟩ := hobject hid
    injection hbody with hbody
    rw [← hbody]
    rfl
  . intro id dir hid
    obtain ⟨rfl, rfl⟩ := hdirectory hid
    refine ⟨rootId, .fresh _ _, ?_⟩
    rw [IsPlaced, if_pos rfl]
    exact ⟨rfl, rfl⟩

theorem whole_empty (pageSize : Nat) (format : ObjectFormat)
    (h : Record.headerSize < pageSize) : (empty pageSize format h).Whole where
  root := ⟨_, rfl⟩
  target := by
    intro id dir hid e he
    obtain ⟨object, ho, hbody⟩ := directory?_eq_some_iff.mp hid
    have hmem := mem_of_object? ho
    simp only [empty, List.mem_singleton] at hmem
    rw [hmem] at hbody
    injection hbody with hbody
    rw [← hbody] at he
    simp at he

end IsTree

end MemStore

namespace Volume

open Action MemStore

variable {pageSize : Nat} {format : ObjectFormat} {hpage : Record.headerSize < pageSize}
  {options : MountOptions} {cacheCapacity : Nat}

theorem isTree_run {ops : List Op} (hops : ∀ op ∈ ops, op.All MemStore.Op.SparesLinks) :
    (run ops (initial pageSize format hpage options cacheCapacity)).store.IsTree := by
  have hkeeps : ∀ op ∈ ops,
      Keeps (fun volume => volume.store.Linked ∧ volume.store.Whole) op.perform := by
    intro op hop
    exact Op.keeps_perform (keptByCalls keptBySteps_whole.gains keptBySteps_whole.losses)
      (fun _ hspares => MemStore.Op.keeps_of_keptBySteps keptBySteps_whole (.inl hspares)) (hops op hop)
  have hinitial : (initial pageSize format hpage options cacheCapacity).store.Linked
      ∧ (initial pageSize format hpage options cacheCapacity).store.Whole :=
    ⟨linked_empty pageSize format hpage, whole_empty pageSize format hpage⟩
  obtain ⟨hlinked, hwhole⟩ := run_of_keeps hkeeps hinitial
  exact hwhole.isTree hlinked

theorem isTree_run_link :
    let ops : List Op := [.mount ⟨false⟩, .store (.mkdir 1 "a" 0o755), .store (.create 4 "f" 0o644),
      .store (.link 5 1 "g"), .writeValue 5 "user.x" [1, 2] .none, .store (.rmdir 1 "a")]
    (∀ op ∈ ops, op.All MemStore.Op.SparesLinks)
      ∧ (run ops (initial 16 .current (by decide) .optional 64)).store.IsTree := by
  intro ops
  have hops : ∀ op ∈ ops, op.All MemStore.Op.SparesLinks := by
    simp [ops, Op.All, MemStore.Op.SparesLinks, EntryName.isDots]
  exact ⟨hops, isTree_run hops⟩

end Volume

end AttrTree
