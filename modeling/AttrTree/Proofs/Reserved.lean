import AttrTree.Proofs.Transparent

/-!
This module contains the places that the directories of the private tree have. As long as others put nothing but
directories there, a volume finds its way to the attributes of every object open.
-/

namespace AttrTree

namespace MemStore

open Action

variable {base store store' : MemStore} {parent dir id x : ObjectId} {name n : String} {key : ObjectKey}
  {owner target : MemObject} {d : Directory} {e : DirEntry}

section Reserved

/-- The places for directories of the private tree. -/
inductive Reserved (store : MemStore) : ObjectId → String → Prop
  | privateRoot : Reserved store rootId Volume.privateRootName
  | attrRoot {priv : ObjectId} (hpriv : store.child? rootId Volume.privateRootName = some priv) :
    Reserved store priv Volume.attrRootName
  | attrDir {priv root : ObjectId} (hpriv : store.child? rootId Volume.privateRootName = some priv)
    (hroot : store.child? priv Volume.attrRootName = some root) (key : ObjectKey) : Reserved store root key.text

def Upright (store : MemStore) : Prop :=
  ∀ ⦃x n id⦄, store.Reserved x n → store.child? x n = some id → ∃ d, store.directory? id = some d

def KeepsReserved (store store' : MemStore) : Prop :=
  ∀ ⦃x n id⦄, store.Reserved x n → store.child? x n = some id → store'.child? x n = some id

theorem Reserved.isDots (h : store.Reserved x n) : EntryName.isDots n = false := by
  cases h with
  | privateRoot => decide
  | attrRoot => decide
  | attrDir _ _ key => exact key.isDots_text

theorem Reserved.of_keeps (h : store.Reserved x n) (hkeeps : store.KeepsReserved store') : store'.Reserved x n := by
  cases h with
  | privateRoot => exact .privateRoot
  | attrRoot hpriv => exact .attrRoot (hkeeps .privateRoot hpriv)
  | attrDir hpriv hroot key => exact .attrDir (hkeeps .privateRoot hpriv) (hkeeps (.attrRoot hpriv) hroot) key

theorem KeepsReserved.refl (store : MemStore) : store.KeepsReserved store :=
  fun _ _ _ _ hchild => hchild

theorem KeepsReserved.trans (h : base.KeepsReserved store) (h' : store.KeepsReserved store') :
    base.KeepsReserved store' :=
  fun _ _ _ hplace hchild => h' (hplace.of_keeps h) (h hplace hchild)

theorem KeepsChildren.keepsReserved (h : store.KeepsChildren store') : store.KeepsReserved store' :=
  fun _ _ _ hplace hchild => h hplace.isDots hchild

theorem Upright.not_reserved (h : store.Upright) (hlinked : store.Linked) (hplace : store.Reserved x key.text)
    (hchild : store.child? x key.text = some dir) : ¬ store.Reserved dir n := by
  -- A name that leads to a directory of an object does not lead anywhere else, so in such a
  -- directory no place is reserved.
  obtain ⟨d, hdir⟩ := h hplace hchild
  have hcount := hlinked.linkCount_le_of_directory? hdir
  intro hreserved
  cases hreserved with
  | privateRoot => exact hlinked.child?_ne_root hdir key.isDots_text hchild
  | attrRoot hpriv =>
    have hname := (hlinked.place_unique hcount (by decide) key.isDots_text hpriv hchild).2
    exact key.text_ne_privateRootName hname
  | attrDir hpriv hroot =>
    have hname := (hlinked.place_unique hcount (by decide) key.isDots_text hroot hchild).2
    exact key.text_ne_attrRootName hname

end Reserved

section Upright

theorem upright_of_entries
    (hentries : ∀ ⦃x n id⦄, store.Reserved x n → store'.child? x n = some id →
      (∃ d, store'.directory? id = some d)
        ∧ (store.child? x n = some id ∨ ∀ m, EntryName.isDots m = false → store'.child? id m = none)) :
    store'.Upright := by
  -- It is enough to look at the places that were reserved before, if new directories are empty.
  intro x n id hplace hchild
  suffices hold : store.Reserved x n from (hentries hold hchild).1
  cases hplace with
  | privateRoot => exact .privateRoot
  | attrRoot hpriv =>
    obtain ⟨_, hpriv | hempty⟩ := hentries .privateRoot hpriv
    . exact .attrRoot hpriv
    . rw [hempty _ (by decide)] at hchild
      cases hchild
  | attrDir hpriv hroot key =>
    obtain ⟨_, hpriv | hempty⟩ := hentries .privateRoot hpriv
    . obtain ⟨_, hroot | hempty⟩ := hentries (.attrRoot hpriv) hroot
      . exact .attrDir hpriv hroot key
      . rw [hempty _ key.isDots_text] at hchild
        cases hchild
    . rw [hempty _ (by decide)] at hroot
      cases hroot

namespace Upright

variable (h : store.Upright)
include h

theorem of_sameChildren (hchild : ∀ x n, store'.child? x n = store.child? x n)
    (hlive : ∀ id d, store.directory? id = some d → ∃ d', store'.directory? id = some d') : store'.Upright := by
  refine @upright_of_entries store store' fun x n id hplace hchild' => ?_
  rw [hchild] at hchild'
  obtain ⟨d, hdir⟩ := h hplace hchild'
  exact ⟨hlive id d hdir, .inl hchild'⟩

theorem of_sameDirectories (hdirectory : ∀ x, store'.directory? x = store.directory? x) : store'.Upright :=
  h.of_sameChildren (fun x n => child?_congr (hdirectory x) n) fun id d hdir => ⟨d, (hdirectory id).trans hdir⟩

theorem setVisible (id : ObjectId) (offset : Nat) (visible : Bool) :
    (store.mapObject id (·.mapDirectory (·.setVisible offset visible))).Upright := by
  refine h.of_sameChildren (child?_mapObject_setVisible store id offset visible) fun x d hdir => ?_
  rw [directory?_setVisible, hdir]
  split <;> exact ⟨_, rfl⟩

variable (hlinked : store.Linked)
include hlinked

theorem attach {made : ObjectId → UInt32 → MemObject} {extra : Nat}
    (hnew : store.IsNew parent extra (made store.nextId store.nextGeneration))
    (howner : store.object? parent = some owner) (hbody : owner.body = .directory d)
    (hfree : d.find? name = none)
    (hplace : (made store.nextId store.nextGeneration).body.isDirectory = true ∨ ¬ store.Reserved parent name) :
    (store.attach made parent name extra).Upright := by
  -- A file has to be put somewhere else.
  have hne := hlinked.ne_nextId howner
  have hdirectory := directory?_attach hlinked hnew.id_eq howner hbody name extra
  have hchild {n : String} (hn : EntryName.isDots n = false) := child?_attach hlinked hnew howner hbody hfree hn
  refine @upright_of_entries store _ fun x n id hreserved hfound => ?_
  rw [hchild hreserved.isDots] at hfound
  split at hfound
  . next hentry =>
    obtain ⟨rfl, rfl⟩ := hentry
    cases hfound
    refine ⟨?_, .inr fun m hm => ?_⟩
    . rw [hdirectory, if_pos rfl]
      cases hmade : (made store.nextId store.nextGeneration).body with
      | directory d' => exact ⟨d', rfl⟩
      | file content =>
        rw [hmade] at hplace
        obtain ⟨⟨⟩⟩ | hplace := hplace
        exact absurd hreserved hplace
    . rw [hchild hm, if_neg fun hentry => hne hentry.1.symm]
      exact child?_of_none (by simp [directory?, hlinked.object?_nextId]) m
  . obtain ⟨d', hdir⟩ := h hreserved hfound
    refine ⟨?_, .inl hfound⟩
    rw [hdirectory]
    split
    . next hid =>
      obtain ⟨object, hobject, _⟩ := directory?_eq_some_iff.mp hdir
      rw [hid, hlinked.object?_nextId] at hobject
      cases hobject
    . split
      . exact ⟨_, rfl⟩
      . exact ⟨d', hdir⟩

omit hlinked in
theorem addLink {object : MemObject} {made : ObjectId} (htarget : store.object? made = some object)
    (hkind : object.body.isDirectory = false) (howner : store.object? parent = some owner)
    (hbody : owner.body = .directory d) (hfree : d.contains name = false) (hplace : ¬ store.Reserved parent name) :
    (store.addLink made parent name).Upright := by
  have hdirectory := directory?_addLink htarget hkind howner hbody name
  refine @upright_of_entries store _ fun x n id hreserved hfound => ?_
  rw [child?_addLink htarget hkind howner hbody hfree, if_neg] at hfound
  . obtain ⟨d', hdir⟩ := h hreserved hfound
    refine ⟨?_, .inl hfound⟩
    rw [hdirectory]
    split
    . exact ⟨_, rfl⟩
    . exact ⟨d', hdir⟩
  . rintro ⟨rfl, rfl⟩
    exact hplace hreserved

theorem detach (hleaf : store.IsLeaf parent owner d e target) : (store.detach parent e target).Upright := by
  refine @upright_of_entries store _ fun x n id hreserved hfound => ?_
  rw [child?_detach hlinked hleaf hreserved.isDots] at hfound
  split at hfound
  . cases hfound
  . next hentry =>
    obtain ⟨d', hdir⟩ := h hreserved hfound
    refine ⟨?_, .inl hfound⟩
    rw [hleaf.directory?_detach]
    split
    . next hid =>
      subst hid
      obtain ⟨_, hwf⟩ := hleaf.wellFormed hlinked
      have hremoved : store.child? parent e.name = some e.target :=
        (hlinked.child?_eq_some_iff (hwf.isDots_of_mem hleaf.mem)).mpr ⟨d, e, hleaf.directory?, hleaf.mem, rfl, rfl⟩
      have hcount := hlinked.linkCount_le_of_directory? hdir
      exact absurd (hlinked.place_unique hcount (hwf.isDots_of_mem hleaf.mem) hreserved.isDots hremoved hfound) hentry
    . split
      . exact ⟨_, rfl⟩
      . exact ⟨d', hdir⟩

theorem mkdir {mode : UInt32} (hok : store.mkdir parent name mode = .ok (id, store')) : store'.Upright := by
  obtain ⟨_, owner, d, howner, hbody, hfree, heq⟩ := mkdir_eq_ok_iff.mp hok
  injection heq with _ heq
  exact heq ▸ h.attach hlinked (isNew_directory ..) howner hbody (Directory.find?_of_contains hfree) (.inl rfl)

theorem create {mode : UInt32} (hplace : ¬ store.Reserved parent name)
    (hok : store.create parent name mode = .ok (id, store')) : store'.Upright := by
  obtain ⟨_, owner, d, howner, hbody, hfree, heq⟩ := create_eq_ok_iff.mp hok
  injection heq with _ heq
  exact heq ▸ h.attach hlinked (isNew_file ..) howner hbody (Directory.find?_of_contains hfree) (.inr hplace)

omit hlinked in
theorem link (hplace : ¬ store.Reserved parent name) (hok : store.link id parent name = .ok store') :
    store'.Upright := by
  obtain ⟨_, object, owner, d, htarget, hkind, howner, hbody, hfree, rfl⟩ := link_eq_ok_iff.mp hok
  exact h.addLink htarget hkind howner hbody hfree hplace

end Upright

theorem Gain.keepsReserved (hlinked : store.Linked) (hgain : store.Gain store') : store.KeepsReserved store' :=
  (keepsChildren_of_gain hlinked hgain).keepsReserved

theorem keepsReserved_detach (hlinked : store.Linked) (hleaf : store.IsLeaf parent owner d e target)
    (hplace : ¬ store.Reserved parent e.name) : store.KeepsReserved (store.detach parent e target) := by
  intro x n id hreserved hchild
  rw [child?_detach hlinked hleaf hreserved.isDots, if_neg]
  . exact hchild
  . rintro ⟨rfl, rfl⟩
    exact hplace hreserved

end Upright

section Operations

structure Tended (base store : MemStore) : Prop where
  linked : store.Linked
  upright : store.Upright
  keeps : base.KeepsReserved store

namespace Tended

variable (h : base.Tended store)
include h

theorem gain (hgain : store.Gain store') (hupright : store'.Upright) : base.Tended store' :=
  ⟨h.linked.step hgain.step, hupright, h.keeps.trans (hgain.keepsReserved h.linked)⟩

theorem of_objects_eq (hobjects : store'.objects = store.objects) (hnext : store'.nextId = store.nextId) :
    base.Tended store' :=
  h.gain (.of_objects_eq hobjects hnext)
    (h.upright.of_sameDirectories fun x => by simp [directory?, object?, hobjects])

theorem detach (hleaf : store.IsLeaf parent owner d e target) (hplace : ¬ store.Reserved parent e.name) :
    base.Tended (store.detach parent e target) :=
  ⟨h.linked.detach hleaf, h.upright.detach h.linked hleaf,
    h.keeps.trans (keepsReserved_detach h.linked hleaf hplace)⟩

end Tended

theorem keptByLooking_tended (base : MemStore) : KeptByLooking base.Tended where
  lookup _ _ := .query _
  stat _ := .query _
  readPage _ _ _ := .query _
  locateEntry _ _ := .query _
  entryName := keeps_entryNameMoving fun _ _ hs => hs.of_objects_eq rfl rfl

theorem keeps_mkdir_tended (base : MemStore) (parent : ObjectId) (name : String) (mode : UInt32) :
    Keeps base.Tended (ObjectStore.mkdir parent name mode) :=
  .transact fun _ _ _ hok hs => hs.gain (gain_mkdir hok) (hs.upright.mkdir hs.linked hok)

theorem keeps_setAttr_tended (base : MemStore) (id : ObjectId) (change : AttrChange) :
    Keeps base.Tended (ObjectStore.setAttr id change) :=
  .update fun _ _ hok hs =>
    hs.gain (gain_setAttr hs.linked hok) (hs.upright.of_sameDirectories (directory?_setAttr hok))

theorem keeps_writePage_tended (base : MemStore) (id : ObjectId) (index offset : Nat) (data : Bytes) :
    Keeps base.Tended (ObjectStore.writePage id index offset data) :=
  keeps_writePageFaulty (fun _ _ hs => hs.of_objects_eq rfl rfl) (.update fun _ _ hok hs =>
    hs.gain (gain_writePage hs.linked hok) (hs.upright.of_sameDirectories (directory?_writePage hok)))

theorem keeps_markPrivate_tended (base : MemStore) (id : ObjectId) :
    Keeps base.Tended (ObjectStore.markPrivate id) :=
  .update fun _ _ hok hs =>
    hs.gain (gain_markPrivate hs.linked hok) (hs.upright.of_sameDirectories (directory?_markPrivate hok))

def ReservedName (name : String) : Prop :=
  name = Volume.privateRootName ∨ name = Volume.attrRootName ∨ ∃ key : ObjectKey, name = key.text

theorem Reserved.reservedName (h : store.Reserved x n) : ReservedName n := by
  cases h with
  | privateRoot => exact .inl rfl
  | attrRoot => exact .inr (.inl rfl)
  | attrDir _ _ key => exact .inr (.inr ⟨key, rfl⟩)

theorem not_reservedName (hpriv : name ≠ Volume.privateRootName) (hroot : name ≠ Volume.attrRootName)
    (hforeign : ∃ c ∈ name.toList, c ∉ keyAlphabet) : ¬ ReservedName name := by
  rintro (heq | heq | ⟨key, heq⟩)
  . exact hpriv heq
  . exact hroot heq
  . exact key.text_ne hforeign heq.symm

def Op.SparesReserved : Op → Prop
  | create _ name _ | link _ _ name | unlink _ name => ¬ ReservedName name
  | rmdir _ name => ¬ ReservedName name ∧ EntryName.isDots name = false
  | _ => True

theorem keeps_perform_tended (base : MemStore) {op : Op} (hop : op.SparesReserved) :
    Keeps base.Tended op.perform := by
  have hplace {store : MemStore} {parent : ObjectId} {name : String} (hname : ¬ ReservedName name) :
      ¬ store.Reserved parent name :=
    fun hreserved => hname hreserved.reservedName
  cases op with
  | create parent name mode =>
    refine .bind (.transact fun store id store' hok hs => ?_) fun _ => .pure _
    exact hs.gain (gain_create hok) (hs.upright.create hs.linked (hplace hop) hok)
  | mkdir parent name mode => exact .bind (keeps_mkdir_tended base parent name mode) fun _ => .pure _
  | link target parent name =>
    exact .update fun _ _ hok hs => hs.gain (gain_link hok) (hs.upright.link (hplace hop) hok)
  | unlink parent name =>
    refine .update fun store store' hok hs => ?_
    obtain ⟨owner, d, e, target, hleaf, hname, _, rfl⟩ := hs.linked.unlink_cases hok
    exact hs.detach hleaf (hplace (hname ▸ hop))
  | rmdir parent name =>
    refine keeps_rmdirFaulty (fun _ hs => hs.of_objects_eq rfl rfl) (.update fun store store' hok hs => ?_)
    rcases hs.linked.rmdir_cases hok with ⟨hdots, _⟩ | ⟨_, owner, d, e, target, hleaf, hname, _, rfl⟩
    . rw [hop.2] at hdots
      cases hdots
    . exact hs.detach hleaf (hplace (hname ▸ hop.1))
  | setAttr id change => exact keeps_setAttr_tended base id change
  | writePage id index offset data => exact keeps_writePage_tended base id index offset data
  | markPrivate id => exact keeps_markPrivate_tended base id
  | setFormat id format =>
    exact .update fun _ _ hok hs =>
      hs.gain (gain_setFormat hs.linked hok) (hs.upright.of_sameDirectories (directory?_setFormat hok))
  | setVisible parent name visible =>
    refine .update fun store store' hok hs => hs.gain (gain_setVisible hs.linked hok) ?_
    simp only [MemStore.setVisible, exceptBind_eq_ok_iff, exceptPure_eq_ok_iff] at hok
    obtain ⟨e, _, rfl⟩ := hok
    exact hs.upright.setVisible ..
  | entryName parent slot => exact .bind ((keptByLooking_tended base).entryName parent slot) fun _ => .pure _
  | planMoves count => exact .modify fun _ hs => hs.of_objects_eq rfl rfl
  | planWriteFault count => exact .modify fun _ hs => hs.of_objects_eq rfl rfl
  | planRmdirFault => exact .modify fun _ hs => hs.of_objects_eq rfl rfl

end Operations

end MemStore

end AttrTree
