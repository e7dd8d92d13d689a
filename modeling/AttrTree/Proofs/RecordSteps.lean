import AttrTree.Proofs.PrivateSteps

/-!
This module contains the steps that write and remove records, and the removal of a directory without
records. Each of them changes the value of one attribute at most.
-/

namespace AttrTree

namespace MemStore

variable {store store' store'' : MemStore} {priv id parent root dir record x : ObjectId}
  {key key' : ObjectKey} {name n : String} {d : Directory} {e : DirEntry}
  {object owner target : MemObject} {child : Option ObjectId}

structure ValueChanged (store store' : MemStore) (priv : ObjectId) (key : ObjectKey) (name : String)
    (value : Option Bytes) : Prop where
  tidy : store'.Tidy priv
  attrRoot_eq : store'.attrRoot? priv = store.attrRoot? priv
  attrDir_eq : ∀ key', store'.attrDir? priv key' = store.attrDir? priv key'
  attrValue_eq : ∀ ⦃n⦄, EntryName.isDots n = false → ∀ key', store'.attrValue? priv key' n =
    if key' = key ∧ n = name then value else store.attrValue? priv key' n
  keys : store.KeepsKeys store'

namespace Tidy

theorem image (h : store.Tidy priv) (hname : EntryName.isDots name = false)
    (hrecord : store.attrRecord? priv key name = some record) :
    ∃ object value, store.object? record = some object ∧ object.isPrivate = true
      ∧ object.nlink = 1 ∧ object.body = .file (Record.image value)
      ∧ store.attrValue? priv key name = some value := by
  obtain ⟨object, hobject, hprivate, hnlink, value, hbody⟩ := h.record hname hrecord
  refine ⟨object, value, hobject, hprivate, hnlink, hbody, ?_⟩
  rw [attrValue?, hrecord, Option.bind_some, payload?_of_image hobject hbody]

theorem attrDir_entry (h : store.Tidy priv) (hdir : store.attrDir? priv key = some dir) :
    ∃ owner d parent, store.object? dir = some owner ∧ owner.isPrivate = true
      ∧ owner.body = .directory d ∧ store.directory? dir = some d ∧ d.WellFormed dir parent
      ∧ d.nextOffset ≤ store.nextId ∧ ∀ e ∈ d.ordinary, e.visible = true := by
  obtain ⟨_, owner, howner, hprivate, d, hbody, hnext, hvisible⟩ := h.attrDir hdir
  have hdirectory := directory?_of_object? howner hbody
  obtain ⟨parent, hwf, _⟩ := h.linked.placed hdirectory
  exact ⟨owner, d, parent, howner, hprivate, hbody, hdirectory, hwf, hnext, hvisible⟩

section RecordPlace

variable (h : store.Tidy priv) (hdir : store.attrDir? priv key = some dir)
  (hname : EntryName.isDots name = false) (hplace : store.PlaceChanged store' dir name child)
  (hothers : ∀ ⦃id P⦄, store.Has id P → id ≠ dir → store.attrRecord? priv key name ≠ some id →
    store'.Has id P)
include h hdir hname hplace hothers

theorem tidy_of_recordPlace (hlinked : store'.Linked) (hwrite : store'.writeFault = none)
    (hrmdir : store'.rmdirFault = false) (hnext : store.nextId ≤ store'.nextId)
    (hdir' : store'.Has dir (MemObject.IsAttrDirectory store'.nextId))
    (hchild : ∀ ⦃record⦄, child = some record → store'.Has record MemObject.IsRecord) :
    store'.Tidy priv := by
  have hrecord {id : ObjectId} (hid : store.Has id MemObject.IsPrivateDirectory) :
      store.attrRecord? priv key name ≠ some id :=
    fun heq => h.record_ne hname heq hid rfl
  constructor
  . exact hlinked
  . exact hwrite
  . exact hrmdir
  . exact h.root_of_name hdir hplace
  . exact hothers h.privateRoot (h.privateRoot_ne_attrDir hdir) (hrecord h.privateRoot)
  . intro root heq
    rw [h.attrRoot?_of_name hdir hplace] at heq
    exact hothers (h.attrRoot heq) (h.attrRoot_ne_attrDir heq hdir) (hrecord (h.attrRoot heq))
  . intro key' dir₁ heq
    rw [h.attrDir?_of_name hdir hplace] at heq
    obtain ⟨hid, hkind⟩ := h.attrDir heq
    refine ⟨Nat.lt_of_lt_of_le hid hnext, ?_⟩
    by_cases hsame : dir₁ = dir
    . rw [hsame]
      exact hdir'
    . refine (hothers hkind hsame (hrecord hkind.isPrivateDirectory)).mono fun object hobject => ?_
      exact hobject.of_alike (.refl object) hnext
  . intro key' n record hn heq
    rw [h.attrRecord?_of_name hdir hplace hn] at heq
    split at heq
    . exact hchild heq
    . next hne =>
      refine hothers (h.record hn heq)
        (h.record_ne hn heq (h.attrDir hdir).2.isPrivateDirectory) fun heq' => hne ?_
      exact h.record_unique hname hn heq' heq

theorem attrValue?_of_recordPlace (hn : EntryName.isDots n = false) (key' : ObjectKey) :
    store'.attrValue? priv key' n =
      if key' = key ∧ n = name then child.bind store'.payload?
      else store.attrValue? priv key' n := by
  rw [attrValue?, h.attrRecord?_of_name hdir hplace hn]
  split
  . rfl
  . next hne =>
    rw [attrValue?]
    cases heq : store.attrRecord? priv key' n with
    | none => rfl
    | some record =>
      obtain ⟨object, hobject, _⟩ := h.record hn heq
      refine payload?_of_has hobject (hothers ⟨object, hobject, rfl⟩
        (h.record_ne hn heq (h.attrDir hdir).2.isPrivateDirectory) fun heq' => hne ?_)
      exact h.record_unique hname hn heq' heq

theorem valueChanged (hlinked : store'.Linked) (hwrite : store'.writeFault = none)
    (hrmdir : store'.rmdirFault = false) (hkeys : store.KeepsKeys store')
    (hdir' : store'.Has dir (MemObject.IsAttrDirectory store'.nextId))
    (hchild : ∀ ⦃record⦄, child = some record → store'.Has record MemObject.IsRecord) :
    store.ValueChanged store' priv key name (child.bind store'.payload?) where
  tidy := h.tidy_of_recordPlace hdir hname hplace hothers hlinked hwrite hrmdir hkeys.nextId_le hdir'
    hchild
  attrRoot_eq := h.attrRoot?_of_name hdir hplace
  attrDir_eq := h.attrDir?_of_name hdir hplace
  attrValue_eq _ hn key' := h.attrValue?_of_recordPlace hdir hname hplace hothers hn key'
  keys := hkeys

end RecordPlace

theorem overwritten (h : store.Tidy priv) (hname : EntryName.isDots name = false)
    (hrecord : store.attrRecord? priv key name = some record) (value : Bytes) :
    store.ValueChanged (store.setContent record (Record.image value)) priv key name
      (some value) := by
  obtain ⟨dir, hdir, hchild⟩ := attrRecord?_eq_some_iff.mp hrecord
  obtain ⟨object, old, hobject, hprivate, hnlink, hbody, _⟩ := h.image hname hrecord
  have hkind : object.body.isDirectory = false := by
    rw [hbody]
    rfl
  have hwritten : (store.setContent record (Record.image value)).object? record =
      some (withContent (Record.image value) object) := by
    rw [object?_setContent hobject, if_pos rfl]
  have hplace : store.PlaceChanged (store.setContent record (Record.image value)) dir name
      (some record) := by
    intro n hn x
    rw [child?_setContent hobject hkind]
    split
    . next hplace => rw [hplace.1, hplace.2, hchild]
    . rfl
  have hothers ⦃id : ObjectId⦄ ⦃P : MemObject → Prop⦄ (hid : store.Has id P)
      (hne : store.attrRecord? priv key name ≠ some id) :
      (store.setContent record (Record.image value)).Has id P := by
    refine hid.setContent hobject ?_ _
    rintro rfl
    exact hne hrecord
  have hne : store.attrRecord? priv key name ≠ some dir := fun heq =>
    h.record_ne hname heq (h.attrDir hdir).2.isPrivateDirectory rfl
  have hchanged := h.valueChanged hdir hname hplace (fun id P hid _ => hothers hid)
    (h.linked.of_sameLinks (sameLinks_setContent h.linked hobject hbody _)) h.writeFault_eq
    h.rmdirFault_eq (.setContent store record _) (hothers (h.attrDir hdir).2 hne) (by
      rintro _ ⟨⟩
      exact ⟨_, hwritten, hprivate, hnlink, value, rfl⟩)
  rwa [Option.bind_some, payload?_of_image hwritten rfl] at hchanged

theorem recordMade (h : store.Tidy priv) (hdir : store.attrDir? priv key = some dir)
    (hfree : store.attrRecord? priv key name = none) (hvalid : isValidName name = true) :
    (store.madeRecord dir name).Linked ∧ ∃ file, (store.madeRecord dir name).object? store.nextId =
      some file ∧ file.body = .file [] ∧ file.nlink = 1 := by
  obtain ⟨owner, d, _, howner, _, hbody, hdirectory, _⟩ := h.attrDir_entry hdir
  rw [attrRecord?_of_attrDir? hdir] at hfree
  have hfind := find?_eq_none_of_child? hdirectory hfree
  refine ⟨h.linked.madeRecord howner hbody hvalid hfind, store.newRecord owner.isPrivate, ?_, rfl, rfl⟩
  rw [object?_madeRecord h.linked howner, if_pos rfl]

theorem recorded (h : store.Tidy priv) (hdir : store.attrDir? priv key = some dir)
    (hfree : store.attrRecord? priv key name = none) (hvalid : isValidName name = true)
    (value : Bytes) :
    store.ValueChanged ((store.madeRecord dir name).setContent store.nextId (Record.image value))
      priv key name (some value) := by
  have hname := isDots_of_isValidName hvalid
  obtain ⟨owner, d, parent, howner, hprivate, hbody, hdirectory, hwf, hnext, hvisible⟩ :=
    h.attrDir_entry hdir
  rw [attrRecord?_of_attrDir? hdir] at hfree
  have hfind := find?_eq_none_of_child? hdirectory hfree
  have hmade : (store.madeRecord dir name).object? store.nextId =
      some (store.newRecord owner.isPrivate) := by
    rw [object?_madeRecord h.linked howner, if_pos rfl]
  have hwritten : ((store.madeRecord dir name).setContent store.nextId (Record.image value)).object?
      store.nextId = some (withContent (Record.image value) (store.newRecord owner.isPrivate)) := by
    rw [object?_setContent hmade, if_pos rfl]
  -- The links are those of the new record, the content is written afterwards.
  have hplace : store.PlaceChanged
      ((store.madeRecord dir name).setContent store.nextId (Record.image value)) dir name
      (some store.nextId) := by
    intro n hn x
    rw [child?_setContent hmade rfl, child?_madeRecord h.linked hdirectory hfind hn]
  have hothers ⦃id : ObjectId⦄ ⦃P : MemObject → Prop⦄ (hid : store.Has id P) (hne : id ≠ dir)
      (_ : store.attrRecord? priv key name ≠ some id) :
      ((store.madeRecord dir name).setContent store.nextId (Record.image value)).Has id P := by
    obtain ⟨object, hobject, hP⟩ := hid
    refine Has.setContent ?_ hmade (h.linked.ne_nextId hobject) _
    exact Has.attach ⟨object, hobject, hP⟩ h.linked rfl howner hne name 0
  have hdir' : ((store.madeRecord dir name).setContent store.nextId (Record.image value)).Has dir
      (MemObject.IsAttrDirectory (store.nextId + 1)) := by
    have howner' : (withEntry name store.nextId 0 owner).IsAttrDirectory (store.nextId + 1) :=
      MemObject.IsAttrDirectory.withEntry ⟨hprivate, d, hbody, hnext, hvisible⟩ hbody hwf
    refine Has.setContent ⟨_, ?_, howner'⟩ hmade (h.linked.ne_nextId howner) _
    rw [object?_madeRecord h.linked howner, if_neg (h.linked.ne_nextId howner), if_pos rfl]
  have hlinked := h.linked.madeRecord howner hbody hvalid hfind
  have hchanged := h.valueChanged hdir hname hplace hothers
    (hlinked.of_sameLinks (sameLinks_setContent hlinked hmade rfl _)) h.writeFault_eq
    h.rmdirFault_eq ((KeepsKeys.attach store rfl dir name 0).trans (.setContent _ _ _)) hdir' (by
      rintro _ ⟨⟩
      exact ⟨_, hwritten, hprivate, rfl, value, rfl⟩)
  rwa [Option.bind_some, payload?_of_image hwritten rfl] at hchanged

theorem removed (h : store.Tidy priv) (hdir : store.attrDir? priv key = some dir)
    (hleaf : store.IsLeaf dir owner d e target) :
    store.ValueChanged (store.detach dir e target) priv key e.name none := by
  obtain ⟨_, hwf⟩ := hleaf.wellFormed h.linked
  have hname := hwf.isDots_of_mem hleaf.mem
  have hrecord : store.attrRecord? priv key e.name = some e.target := by
    rw [attrRecord?_of_attrDir? hdir, h.linked.child?_eq_some_iff hname]
    exact ⟨d, e, hleaf.directory?, hleaf.mem, rfl, rfl⟩
  have hothers ⦃id : ObjectId⦄ ⦃P : MemObject → Prop⦄ (hid : store.Has id P) (hne : id ≠ dir)
      (hother : store.attrRecord? priv key e.name ≠ some id) :
      (store.detach dir e target).Has id P := by
    refine hid.detach hleaf hne ?_
    rintro rfl
    exact hother hrecord
  have hnext : (store.detach dir e target).nextId = store.nextId :=
    IsLeaf.nextId_detach ..
  have hdir' : (store.detach dir e target).Has dir
      (MemObject.IsAttrDirectory (store.detach dir e target).nextId) := by
    obtain ⟨_, owner', howner, hkind⟩ := h.attrDir hdir
    rw [hleaf.owner_eq] at howner
    injection howner with howner
    subst howner
    refine ⟨withoutEntry e.offset (parentLinks target) owner, ?_, hnext ▸ hkind.withoutEntry⟩
    rw [hleaf.object?_detach, if_neg hleaf.ne.symm, if_pos rfl]
  exact h.valueChanged hdir hname (fun n hn x => child?_detach h.linked hleaf hn x) hothers
    (h.linked.detach hleaf) ((writeFault_detach ..).trans h.writeFault_eq)
    ((rmdirFault_detach ..).trans h.rmdirFault_eq) (.detach store dir e target) hdir' nofun

section Pruned

variable (h : store.Tidy priv) (hroot : store.attrRoot? priv = some root)
  (hleaf : store.IsLeaf root owner d e target) (hname : e.name = key.text)
include h hroot hleaf hname

theorem attrDir?_of_leaf : store.attrDir? priv key = some e.target := by
  rw [attrDir?, hroot, Option.bind_some, h.linked.child?_eq_some_iff key.isDots_text]
  exact ⟨d, e, hleaf.directory?, hleaf.mem, hname, rfl⟩

omit hroot in
theorem placeChanged_pruned :
    store.PlaceChanged (store.detach root e target) root key.text none := by
  intro n hn x
  rw [child?_detach h.linked hleaf hn, hname]

theorem attrDir?_pruned (key' : ObjectKey) :
    (store.detach root e target).attrDir? priv key' =
      if key' = key then none else store.attrDir? priv key' :=
  attrDir?_of_key hroot (h.placeChanged_pruned hleaf hname) key'

theorem attrRecord?_pruned (hn : EntryName.isDots n = false) (key' : ObjectKey) :
    (store.detach root e target).attrRecord? priv key' n = store.attrRecord? priv key' n := by
  by_cases hkey : key' = key
  . have hnone : store.attrRecord? priv key n = none := by
      rw [attrRecord?_of_attrDir? (h.attrDir?_of_leaf hroot hleaf hname)]
      cases hchild : store.child? e.target n with
      | none => rfl
      | some id =>
        obtain ⟨d', e', hdir', hmem, _⟩ := (h.linked.child?_eq_some_iff hn).mp hchild
        have hempty := hleaf.empty
        rw [directory?, hleaf.target_eq] at hdir'
        rw [Body.ordinary_of_directory? hdir'] at hempty
        rw [hempty] at hmem
        cases hmem
    rw [hkey, hnone, attrRecord?, h.attrDir?_pruned hroot hleaf hname, if_pos rfl]
    rfl
  . exact h.attrRecord?_of_key hroot (h.placeChanged_pruned hleaf hname) hn hkey

theorem has_pruned {P : MemObject → Prop} (hid : store.Has id P) (hne : id ≠ root)
    (hother : store.attrDir? priv key ≠ some id) : (store.detach root e target).Has id P := by
  refine hid.detach hleaf hne ?_
  rintro rfl
  exact hother (h.attrDir?_of_leaf hroot hleaf hname)

theorem attrValue?_pruned (hn : EntryName.isDots n = false) (key' : ObjectKey) :
    (store.detach root e target).attrValue? priv key' n = store.attrValue? priv key' n := by
  rw [attrValue?, h.attrRecord?_pruned hroot hleaf hname hn, attrValue?]
  cases heq : store.attrRecord? priv key' n with
  | none => rfl
  | some record =>
    obtain ⟨object, hobject, _⟩ := h.record hn heq
    refine payload?_of_has hobject (h.has_pruned hroot hleaf hname ⟨object, hobject, rfl⟩
      (h.record_ne hn heq (h.attrRoot hroot)) fun hdir => ?_)
    exact h.record_ne hn heq (h.attrDir hdir).2.isPrivateDirectory rfl

theorem pruned : (store.detach root e target).Tidy priv := by
  have hplace := h.placeChanged_pruned hleaf hname
  have hdir := h.attrDir?_of_leaf hroot hleaf hname
  have hnext : (store.detach root e target).nextId = store.nextId :=
    IsLeaf.nextId_detach ..
  constructor
  . exact h.linked.detach hleaf
  . exact (writeFault_detach ..).trans h.writeFault_eq
  . exact (rmdirFault_detach ..).trans h.rmdirFault_eq
  . exact root_of_key hplace h.root
  . exact h.has_pruned hroot hleaf hname h.privateRoot (h.privateRoot_ne_attrRoot hroot)
      fun heq => h.privateRoot_ne_attrDir heq rfl
  . -- The attribute root stays what it is without the entry.
    intro root' heq
    rw [attrRoot?_of_key hplace, hroot] at heq
    injection heq with heq
    subst heq
    obtain ⟨owner', howner, hkind⟩ := h.attrRoot hroot
    rw [hleaf.owner_eq] at howner
    injection howner with howner
    subst howner
    refine ⟨withoutEntry e.offset (parentLinks target) owner, ?_, hkind.withoutEntry⟩
    rw [hleaf.object?_detach, if_neg hleaf.ne.symm, if_pos rfl]
  . intro key' dir heq
    rw [h.attrDir?_pruned hroot hleaf hname] at heq
    split at heq
    . cases heq
    . next hkey =>
      obtain ⟨hid, hkind⟩ := h.attrDir heq
      rw [hnext]
      exact ⟨hid, h.has_pruned hroot hleaf hname hkind (h.attrRoot_ne_attrDir hroot heq).symm
        fun heq' => hkey (h.attrDir_unique heq' heq)⟩
  . intro key' n record hn heq
    rw [h.attrRecord?_pruned hroot hleaf hname hn] at heq
    refine h.has_pruned hroot hleaf hname (h.record hn heq)
      (h.record_ne hn heq (h.attrRoot hroot)) fun hdir => ?_
    exact h.record_ne hn heq (h.attrDir hdir).2.isPrivateDirectory rfl

end Pruned

end Tidy

end MemStore

end AttrTree
