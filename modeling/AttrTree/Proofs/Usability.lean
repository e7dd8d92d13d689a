import AttrTree.Proofs.Access
import AttrTree.Proofs.MountOutcome
import AttrTree.Proofs.Mounting

/-!
This module contains when a volume that has attributes can use them. The first attribute of an object can
be set, read and removed again if and only if its place in the private tree can be made there and is
private.
-/

namespace AttrTree

open MemStore

namespace Registry

theorem resolve?_trusted {name : String} (hstart : EntryName.startsWith name "trusted." = true) :
    ∃ link, standard.resolve? name = some link ∧ link.handler = .trusted := by
  obtain ⟨rest, hrest⟩ := List.isPrefixOf_iff_prefix.mp hstart
  have huser : EntryName.startsWith name "user." = false := by
    simp only [EntryName.startsWith, ← hrest]
    rfl
  refine ⟨⟨1, .trusted⟩, ?_, rfl⟩
  simp only [resolve?, standard, standardHandlers, List.mapIdx_cons, List.mapIdx_nil]
  rw [List.find?_cons_of_neg (by simpa [Handler.start] using huser),
    List.find?_cons_of_pos (by simpa [Handler.start, Handler.trusted] using hstart)]

end Registry

theorem Directory.find?_sole {name : String} (hname : EntryName.isDots name = false)
    (dir root record : ObjectId) :
    ((Directory.fresh dir root).insert name record).find? name =
      some { offset := firstOffset, name, target := record, visible := true } := by
  have hnew : (Directory.fresh dir root).contains name = false := by
    simp [Directory.contains, Directory.find?_fresh hname]
  rw [Directory.find?_insert record hnew, if_pos rfl]
  rfl

theorem Directory.ordinary_remove_sole {name : String} (dir root record : ObjectId) :
    (((Directory.fresh dir root).insert name record).remove firstOffset).ordinary = [] := by
  rw [Directory.ordinary_remove, Directory.ordinary_insert (Nat.le_refl _)]
  rfl

namespace MemStore

variable {store : MemStore} {priv id : ObjectId} {key : ObjectKey}

/-- `attrDir?` finds nothing for `key`, and nothing stands in the way of making it. -/
structure CanHold (store : MemStore) (priv : ObjectId) (key : ObjectKey) : Prop where
  privateRoot : store.Has priv (·.body.isDirectory = true)
  attrRoot : ∀ ⦃root⦄, store.attrRoot? priv = some root → store.Has root MemObject.IsPrivateDirectory
  attrDir : store.attrDir? priv key = none

theorem has_of_directory? {d : Directory} (h : store.directory? id = some d) :
    store.Has id (·.body.isDirectory = true) := by
  obtain ⟨object, hobject, hbody⟩ := directory?_eq_some_iff.mp h
  exact ⟨object, hobject, congrArg Body.isDirectory hbody⟩

theorem directory?_eq_none (h : ¬ store.Has id (·.body.isDirectory = true)) :
    store.directory? id = none :=
  Option.eq_none_iff_forall_ne_some.mpr fun _ hdir => h (has_of_directory? hdir)

end MemStore

namespace Volume

open Action

variable {volume rest : Volume MemStore} {obj root dir priv record : ObjectId} {key : ObjectKey}
  {name start : String} {d : Directory} {e : DirEntry} {object owner : MemObject} {link : HandlerLink}
  {value : Bytes} {isPrivate : Bool} {registry : Registry}

section Plain

variable (hlink : registry.resolve? name = some link) (hplain : link.handler = .plain start)
  (hsuffix : EntryName.size start < EntryName.size name) (henabled : volume.attributesEnabled = true)
  (hobject : volume.store.object? obj = some object) (hformat : object.format ≠ .legacy)
include hlink hplain henabled hobject hformat

theorem removeAttribute_plain :
    removeAttribute registry obj name volume =
      (removeRecord object.stat name >>= fun _ =>
        (pruneDirectory object.stat).attempt >>= fun _ => pure ()) volume := by
  have hhandler := handlerFor_of_enabled hlink henabled hobject hformat
  rw [hplain] at hhandler
  simp [removeAttribute, hhandler, Handler.allowRemoval, onStore, focus, stat_of_object? hobject]

include hsuffix

theorem getAttribute_plain (buffer : Buffer) :
    getAttribute registry obj name (volume, buffer) = readValue obj name (volume, buffer) := by
  have hhandler := handlerFor_of_enabled hlink henabled hobject hformat
  rw [hplain] at hhandler
  simp [getAttribute, onFirst, hhandler, Handler.getValue, Handler.check, Handler.checkSuffix,
    Nat.not_le.mpr hsuffix]

theorem setAttribute_plain (value : Bytes) (flags : SetFlags) :
    setAttribute registry obj name value flags volume = writeValue obj name value flags volume := by
  have hhandler := handlerFor_of_enabled hlink henabled hobject hformat
  rw [hplain] at hhandler
  simp [setAttribute, hhandler, Handler.setValue, Handler.check, Handler.checkSuffix,
    Nat.not_le.mpr hsuffix]

end Plain

section Seat

structure Seat (volume : Volume MemStore) (obj : ObjectId) (key : ObjectKey) (root dir : ObjectId)
    (isPrivate : Bool) (d : Directory) : Prop where
  linked : volume.store.Linked
  writeFault_eq : volume.store.writeFault = none
  rmdirFault_eq : volume.store.rmdirFault = false
  enabled : volume.attributesEnabled = true
  privateRoot : volume.privateRoot ≠ none
  attrRoot_eq : volume.attrRoot = some root
  child : volume.store.child? root key.text = some dir
  remembers : volume.Remembers key dir
  directory : ∃ owner, volume.store.object? dir = some owner ∧ owner.body = .directory d
    ∧ owner.isPrivate = isPrivate
  object : ∃ object, volume.store.object? obj = some object ∧ object.stat.key = key
    ∧ object.format ≠ .legacy
  ne : obj ≠ dir

namespace Seat

variable (h : volume.Seat obj key root dir isPrivate d)
include h

theorem directory? : volume.store.directory? dir = some d := by
  obtain ⟨owner, howner, hbody, _⟩ := h.directory
  exact directory?_of_object? howner hbody

theorem attrRoot?_eq : volume.attrRoot? = some root := by
  obtain ⟨priv, hpriv⟩ := Option.ne_none_iff_exists'.mp h.privateRoot
  simp [attrRoot?, hpriv, h.attrRoot_eq]

theorem opened : (volume.opened key dir).Seat obj key root dir isPrivate d := by
  have hremembers := remembers_opened h.remembers.directory?_eq
  have hroot : (volume.opened key dir).attrRoot = some root := by
    unfold Volume.opened
    split
    . exact h.attrRoot_eq
    . simp [looked, h.attrRoot?_eq]
  have hsame : (volume.opened key dir).privateRoot = volume.privateRoot
      ∧ (volume.opened key dir).attributesEnabled = volume.attributesEnabled := by
    unfold Volume.opened
    split <;> exact ⟨rfl, rfl⟩
  constructor
  . simpa using h.linked
  . simpa using h.writeFault_eq
  . simpa using h.rmdirFault_eq
  . exact hsame.2.trans h.enabled
  . exact hsame.1 ▸ h.privateRoot
  . exact hroot
  . simpa using h.child
  . exact hremembers
  . simpa using h.directory
  . simpa using h.object
  . exact h.ne

theorem withStore {store : MemStore} {d' : Directory} (hlinked : store.Linked)
    (hwrite : store.writeFault = volume.store.writeFault)
    (hrmdir : store.rmdirFault = volume.store.rmdirFault)
    (hchild : ∀ x, volume.store.child? x key.text = some dir → store.child? x key.text = some dir)
    (hdir : ∃ owner, store.object? dir = some owner ∧ owner.body = .directory d'
      ∧ owner.isPrivate = isPrivate)
    (hobj : ∀ object, volume.store.object? obj = some object → ∃ object',
      store.object? obj = some object' ∧ object'.stat.key = object.stat.key
        ∧ object'.format = object.format) :
    Seat { volume with store } obj key root dir isPrivate d' where
  linked := hlinked
  writeFault_eq := hwrite.trans h.writeFault_eq
  rmdirFault_eq := hrmdir.trans h.rmdirFault_eq
  enabled := h.enabled
  privateRoot := h.privateRoot
  attrRoot_eq := h.attrRoot_eq
  child := hchild root h.child
  remembers := h.remembers.withStore hchild
  directory := hdir
  object := by
    obtain ⟨object, hobject, hkey, hformat⟩ := h.object
    obtain ⟨object', hobject', hkey', hformat'⟩ := hobj object hobject
    exact ⟨object', hobject', hkey'.trans hkey, hformat' ▸ hformat⟩
  ne := h.ne

end Seat

theorem seat_made (hlinked : volume.store.Linked) (hwrite : volume.store.writeFault = none)
    (hrmdir : volume.store.rmdirFault = false) (henabled : volume.attributesEnabled = true)
    (hpriv : volume.privateRoot = some priv) (howner : volume.store.object? root = some owner)
    (hbody : owner.body = .directory d) (hfree : d.find? key.text = none)
    (hvalid : isValidName key.text = true) (hobject : volume.store.object? obj = some object)
    (hkey : object.stat.key = key) (hformat : object.format ≠ .legacy) :
    (volume.made (volume.store.madeDirectory root key.text) key root volume.store.nextId).Seat obj key
      root volume.store.nextId owner.isPrivate (.fresh volume.store.nextId root) := by
  have hchild : (volume.store.madeDirectory root key.text).child? root key.text =
      some volume.store.nextId := by
    rw [child?_madeDirectory hlinked (directory?_of_object? howner hbody) hfree key.isDots_text,
      if_pos ⟨rfl, rfl⟩]
  have hidentities : volume.store.KeepsIdentities (volume.store.madeDirectory root key.text) :=
    keepsIdentities_attach hlinked rfl howner key.text 1
  obtain ⟨object', hobject', hkey', hformat'⟩ := hidentities hobject
  constructor
  . exact hlinked.madeDirectory howner hbody hvalid hfree
  . exact hwrite
  . exact hrmdir
  . exact henabled
  . simp [made, hpriv]
  . rfl
  . exact hchild
  . exact remembers_made hpriv hchild
  . refine ⟨volume.store.newDirectory root owner.isPrivate, ?_, rfl, rfl⟩
    rw [made, object?_madeDirectory hlinked howner, if_pos rfl]
  . exact ⟨object', hobject', hkey'.trans hkey, hformat' ▸ hformat⟩
  . exact hlinked.ne_nextId hobject

end Seat

section Place

structure Fresh (volume : Volume MemStore) (priv : ObjectId) : Prop where
  linked : volume.store.Linked
  writeFault_eq : volume.store.writeFault = none
  rmdirFault_eq : volume.store.rmdirFault = false
  enabled : volume.attributesEnabled = true
  privateRoot_eq : volume.privateRoot = some priv
  attrRoot_eq : volume.attrRoot = none
  cache : ∀ key, (volume.cache.get? key).1 = none
  isPrivate : volume.store.Has priv (·.isPrivate = true)

namespace Fresh

variable (h : volume.Fresh priv) (hobject : volume.store.object? obj = some object)
  (hformat : object.format ≠ .legacy) (hid : obj < 2 ^ 64)
include h

theorem attrRoot?_eq : volume.attrRoot? = volume.store.attrRoot? priv := by
  simp [Volume.attrRoot?, h.privateRoot_eq, h.attrRoot_eq, MemStore.attrRoot?]

include hobject hformat hid

theorem openDirectory_seat (hroot : volume.store.attrRoot? priv = some root)
    (howner : volume.store.object? root = some owner) (hkind : owner.body.isDirectory = true)
    (hnone : volume.store.attrDir? priv object.stat.key = none) :
    ∃ dir rest, openDirectory object.stat .none volume = .ok dir rest
      ∧ rest.Seat obj object.stat.key root dir owner.isPrivate (.fresh dir root) := by
  have hvalid : isValidName object.stat.key.text = true :=
    ObjectKey.isValidName_text ((id_of_object? hobject).trans_lt hid)
  cases hbody : owner.body with
  | file content => simp [hbody, Body.isDirectory] at hkind
  | directory d =>
    have hdir := directory?_of_object? howner hbody
    have hfree : d.find? object.stat.key.text = none := by
      simpa [attrDir?, hroot, child?_of_directory? hdir] using hnone
    exact ⟨_, _, openDirectory_made (h.cache _) (h.attrRoot?_eq.trans hroot) hdir hfree hvalid rfl,
      seat_made h.linked h.writeFault_eq h.rmdirFault_eq h.enabled h.privateRoot_eq howner hbody hfree
        hvalid hobject rfl hformat⟩

theorem openDirectory_seat_root (hnone : volume.store.attrRoot? priv = none)
    (hdirectory : volume.store.Has priv (·.body.isDirectory = true)) :
    ∃ root dir rest, openDirectory object.stat .none volume = .ok dir rest
      ∧ rest.Seat obj object.stat.key root dir true (.fresh dir root) := by
  have hvalid : isValidName object.stat.key.text = true :=
    ObjectKey.isValidName_text ((id_of_object? hobject).trans_lt hid)
  obtain ⟨owner, howner, hkind⟩ := hdirectory
  obtain ⟨owner', howner', hprivate⟩ := h.isPrivate
  obtain rfl : owner = owner' := by
    rw [howner] at howner'
    injection howner'
  cases hbody : owner.body with
  | file content => simp [hbody, Body.isDirectory] at hkind
  | directory d =>
    have hdir := directory?_of_object? howner hbody
    have hfree : d.find? attrRootName = none := by
      simpa [MemStore.attrRoot?, child?_of_directory? hdir] using hnone
    have hlinked := h.linked.madeDirectory howner hbody (show isValidName attrRootName = true by decide)
      hfree
    have hidentities : volume.store.KeepsIdentities (volume.store.madeDirectory priv attrRootName) :=
      keepsIdentities_attach h.linked rfl howner attrRootName 1
    obtain ⟨object', hobject', hkey, hformat'⟩ := hidentities hobject
    refine ⟨volume.store.nextId, _, _, openDirectory_made_root h.linked (h.cache _) h.privateRoot_eq h.attrRoot_eq hdir
      hfree hvalid rfl, ?_⟩
    have hmade := object?_madeDirectory h.linked howner attrRootName volume.store.nextId
    rw [if_pos rfl, hprivate] at hmade
    exact @seat_made { volume with store := volume.store.madeDirectory priv attrRootName } _ _ _ _ _ _ _
      hlinked h.writeFault_eq h.rmdirFault_eq h.enabled h.privateRoot_eq hmade rfl
      (Directory.find?_fresh object.stat.key.isDots_text ..) hvalid hobject' hkey (hformat' ▸ hformat)

end Fresh

end Place

section Value

structure SoleValue (volume : Volume MemStore) (obj : ObjectId) (key : ObjectKey)
    (root dir : ObjectId) (isPrivate : Bool) (name : String) (record : ObjectId) (value : Bytes) : Prop
    extends volume.Seat obj key root dir isPrivate ((Directory.fresh dir root).insert name record) where
  file : ∃ file, volume.store.object? record = some file ∧ file.body = .file (Record.image value)
    ∧ file.isPrivate = isPrivate
  ne_record : obj ≠ record

theorem Seat.madeRecord (h : volume.Seat obj key root dir isPrivate d) (hfree : d.find? name = none)
    (hvalid : isValidName name = true) :
    Seat { volume with store := volume.store.madeRecord dir name } obj key root dir isPrivate
      (d.insert name volume.store.nextId) := by
  obtain ⟨owner, howner, hbody, hprivate⟩ := h.directory
  have hne := h.linked.ne_nextId howner
  refine h.withStore (h.linked.madeRecord howner hbody hvalid hfree) rfl rfl (fun x hx => ?_) ?_ ?_
  . rw [child?_madeRecord h.linked h.directory? hfree key.isDots_text, if_neg]
    . exact hx
    . rintro ⟨rfl, rfl⟩
      rw [child?_of_directory? h.directory?, hfree] at hx
      cases hx
  . refine ⟨_, by rw [object?_madeRecord h.linked howner, if_neg hne, if_pos rfl], ?_, ?_⟩
    . exact body_withEntry hbody ..
    . exact (MemObject.isPrivate_mapDirectory ..).trans hprivate
  . exact fun object hobject => keepsIdentities_attach h.linked rfl howner name 0 hobject

theorem Seat.setContent (h : volume.Seat obj key root dir isPrivate d)
    (hobject : volume.store.object? record = some object) {old : Bytes}
    (hbody : object.body = .file old) (content : Bytes) :
    Seat { volume with store := volume.store.setContent record content } obj key root dir isPrivate
      d := by
  have hkind : object.body.isDirectory = false := by
    rw [hbody]
    rfl
  refine h.withStore ?_ rfl rfl (fun x hx => ?_) ?_ ?_
  . exact h.linked.of_sameLinks (sameLinks_setContent h.linked hobject hbody content)
  . rw [child?_setContent hobject hkind]
    exact hx
  . obtain ⟨owner, howner, hdirectory, hprivate⟩ := h.directory
    refine ⟨owner, ?_, hdirectory, hprivate⟩
    rw [object?_setContent hobject, if_neg]
    . exact howner
    . rintro rfl
      rw [hobject] at howner
      injection howner with howner
      rw [howner, hdirectory] at hbody
      cases hbody
  . exact fun object' hobject' => keepsIdentities_setContent hobject content hobject'

theorem Seat.writeValue {middle : Volume MemStore} (hobject : volume.store.object? obj = some object)
    (hformat : object.format ≠ .legacy) (hvalid : isValidName name = true)
    (hopen : openDirectory object.stat .none volume = .ok dir middle)
    (h : middle.Seat obj object.stat.key root dir isPrivate (.fresh dir root)) (value : Bytes) :
    ∃ record rest, writeValue obj name value .none volume = .ok () rest
      ∧ rest.SoleValue obj object.stat.key root dir isPrivate name record value := by
  have hfree : (Directory.fresh dir root).find? name = none :=
    Directory.find?_fresh (isDots_of_isValidName hvalid) dir root
  have hrecord := openRecord_eq hvalid hopen h.directory?
  rw [hfree] at hrecord
  obtain ⟨owner, howner, hbody, hprivate⟩ := h.directory
  obtain ⟨object', hobject', _⟩ := h.object
  have hmade := h.madeRecord hfree hvalid
  have hfile := object?_madeRecord h.linked howner name middle.store.nextId
  rw [if_pos rfl, hprivate] at hfile
  refine ⟨middle.store.nextId, _, Settled.writeValue_of_single hobject hformat hrecord hfile rfl rfl
    h.writeFault_eq hmade.linked value, hmade.setContent hfile rfl _, ?_, h.linked.ne_nextId hobject'⟩
  exact ⟨_, by rw [object?_setContent hfile, if_pos rfl], rfl, rfl⟩

namespace SoleValue

variable (h : volume.SoleValue obj key root dir isPrivate name record value)
include h

theorem opened : (volume.opened key dir).SoleValue obj key root dir isPrivate name record value :=
  ⟨h.toSeat.opened, by simpa using h.file, h.ne_record⟩

theorem readValue (hvalid : isValidName name = true) (buffer : Buffer) :
    Answers (readValue obj name (volume, buffer)) (volume.opened key dir)
      (readAnswer (some value) buffer) := by
  obtain ⟨object, hobject, rfl, hformat⟩ := h.object
  obtain ⟨file, hfile, hbody, _⟩ := h.file
  have hfind := Directory.find?_sole (isDots_of_isValidName hvalid) dir root record
  exact readValue_image (existingRecord_found hvalid hobject hformat h.remembers.directory?_eq
    h.directory? hfind) (by simpa using hfile) hbody buffer

end SoleValue

variable {stat : ObjectStat}

theorem SoleValue.removeRecord_refused
    (h : volume.SoleValue obj stat.key root dir false name record value)
    (hvalid : isValidName name = true) :
    ∃ rest, removeRecord stat name volume = .error entryNotPrivate rest := by
  have hopened := h.opened
  have hfind := Directory.find?_sole (isDots_of_isValidName hvalid) dir root record
  obtain ⟨file, hfile, hbody, hprivate⟩ := hopened.file
  have hremove := removeEntry_notPrivate hopened.linked hopened.directory? hfind hfile
    (by rw [hbody]; rfl) hprivate
  refine ⟨volume.opened stat.key dir, ?_⟩
  rw [removeRecord_eq hvalid (openDirectory_found h.remembers.directory?_eq .looking)]
  simp only [onStore, focus, hremove]

theorem SoleValue.removeRecord (h : volume.SoleValue obj stat.key root dir true name record value)
    (hvalid : isValidName name = true) :
    ∃ d rest, removeRecord stat name volume = .ok () rest
      ∧ rest.Seat obj stat.key root dir true d ∧ d.ordinary = [] ∧ d.nextOffset ≤ 2 ^ 63 := by
  have hopened := h.opened
  have hlinked := hopened.linked
  have hfind := Directory.find?_sole (isDots_of_isValidName hvalid) dir root record
  obtain ⟨file, hfile, hbody, hprivate⟩ := hopened.file
  have hkind : file.body.isDirectory = false := by
    rw [hbody]
    rfl
  obtain ⟨owner, hleaf⟩ := hlinked.isLeaf hopened.directory? hfind hfile hkind
  have hremove := removeEntry_file hlinked hopened.directory? hfind hfile hkind hprivate
  have hobject := hleaf.object?_detach
  refine ⟨((Directory.fresh dir root).insert name record).remove Directory.firstOffset,
    { volume.opened stat.key dir with
      store := (volume.opened stat.key dir).store.detach dir
        { offset := Directory.firstOffset, name, target := record, visible := true } file },
    ?_, ?_, Directory.ordinary_remove_sole dir root record, ?_⟩
  . rw [removeRecord_eq hvalid (openDirectory_found h.remembers.directory?_eq .looking)]
    simp only [onStore, focus, hremove]
  . refine hopened.withStore (hlinked.detach hleaf) (writeFault_detach ..) (rmdirFault_detach ..)
      (fun x hx => ?_) ?_ fun object hobj => ?_
    . rw [child?_detach hlinked hleaf stat.key.isDots_text, if_neg]
      . exact hx
      . rintro ⟨heq, _⟩
        obtain ⟨_, e, hparent, he, _, rfl⟩ :=
          (hlinked.child?_eq_some_iff stat.key.isDots_text).mp hx
        exact hlinked.ne_of_entry hparent he hopened.directory? heq.symm
    . refine ⟨_, by rw [hobject, if_neg (Ne.symm hleaf.ne), if_pos rfl], ?_, ?_⟩
      . exact body_withoutEntry hleaf.body_eq ..
      . obtain ⟨owner', howner', _, hmark⟩ := hopened.directory
        rw [hleaf.owner_eq] at howner'
        injection howner' with howner'
        exact (MemObject.isPrivate_mapDirectory ..).trans (howner' ▸ hmark)
    . exact identity_detach hleaf h.ne_record hobj
  . exact (by decide : Directory.firstOffset + 1 ≤ 2 ^ 63)

theorem Seat.prune (h : volume.Seat obj stat.key root dir isPrivate d) (hempty : d.ordinary = [])
    (hbound : d.nextOffset ≤ 2 ^ 63) :
    ∃ rest object, prune stat dir volume = .ok () rest ∧ rest.attributesEnabled = true
      ∧ rest.store.object? obj = some object ∧ object.format ≠ .legacy
      ∧ ∃ last, openDirectory object.stat .looking rest = .error noDirectory last := by
  have hlinked := h.linked
  obtain ⟨_, hwf, _⟩ := hlinked.placed h.directory?
  have hentries := hasEntries_eq h.directory? hwf hbound
  have hnone : d.isEmpty = true := by
    simpa [Directory.isEmpty] using hempty
  obtain ⟨target, htarget, hbody, _⟩ := h.directory
  obtain ⟨droot, e, hdirectory, hmem, hname, rfl⟩ :=
    (hlinked.child?_eq_some_iff stat.key.isDots_text).mp h.child
  obtain ⟨owner, howner, hrootBody⟩ := directory?_eq_some_iff.mp hdirectory
  have hleaf : volume.store.IsLeaf root owner droot e target := by
    refine ⟨howner, hrootBody, hmem, htarget, ?_⟩
    rw [hbody]
    exact hempty
  have hrmdir := rmdir_empty hleaf hlinked hname (by rw [hbody]; rfl) h.rmdirFault_eq
  have hroot := openAttrRoot_eq _ h.attrRoot?_eq false
  obtain ⟨object, hobject, hkey, hformat⟩ := h.object
  obtain ⟨object', hobject', hkey', hformat'⟩ := identity_detach hleaf h.ne hobject
  let rest : Volume MemStore := { volume with
    store := volume.store.detach root e target
    attrRoot := some root
    cache := volume.cache.erase stat.key }
  have hrest : rest.attrRoot? = some root := by
    obtain ⟨priv, hpriv⟩ := Option.ne_none_iff_exists'.mp h.privateRoot
    simp [rest, attrRoot?, hpriv]
  have hgone : rest.store.child? root object'.stat.key.text = none := by
    rw [hkey', hkey, child?_detach hlinked hleaf stat.key.isDots_text, if_pos ⟨rfl, hname.symm⟩]
  have hdirectory' := hleaf.directory?_detach root
  rw [if_neg (Ne.symm hleaf.ne), if_pos rfl] at hdirectory'
  refine ⟨rest, object', ?_, h.enabled, hobject', hformat' ▸ hformat, _,
    openDirectory_noDirectory ?_ hrest hdirectory' (find?_eq_none_of_child? hdirectory' hgone) rfl⟩
  . simp [Volume.prune, onStore, focus, hentries, hnone, hroot, hrmdir, rest]
  . rw [hkey', hkey, DirCache.get?_fst, DirCache.peek?_erase, if_pos rfl, ite_self]

theorem Seat.pruneDirectory (h : volume.Seat obj stat.key root dir isPrivate d)
    (hempty : d.ordinary = []) (hbound : d.nextOffset ≤ 2 ^ 63) :
    ∃ rest object, pruneDirectory stat volume = .ok () rest ∧ rest.attributesEnabled = true
      ∧ rest.store.object? obj = some object ∧ object.format ≠ .legacy
      ∧ ∃ last, openDirectory object.stat .looking rest = .error noDirectory last := by
  obtain ⟨rest, object, hprune, hrest⟩ := h.opened.prune hempty hbound
  refine ⟨rest, object, ?_, hrest⟩
  rw [Volume.pruneDirectory, bind_apply, openDirectory_found h.remembers.directory?_eq .looking]
  exact hprune

end Value

section Usable

def Usable (volume : Volume MemStore) (obj : ObjectId) (name : String) (value : Bytes) : Prop :=
  ∃ written, setAttribute .standard obj name value .none volume = .ok () written
    ∧ ∀ buffer, ∃ read,
      Answers (getAttribute .standard obj name (written, buffer)) read (readAnswer (some value) buffer)
      ∧ ∃ removed, removeAttribute .standard obj name read = .ok () removed
        ∧ ∀ buffer, ∃ last, Answers (getAttribute .standard obj name (removed, buffer)) last
          (readAnswer none buffer)

variable (hlink : Registry.standard.resolve? name = some link) (hplain : link.handler = .plain start)
  (hsuffix : EntryName.size start < EntryName.size name) (hvalid : isValidName name = true)
include hlink hplain hsuffix hvalid

theorem SoleValue.usable {volume written : Volume MemStore}
    (hset : setAttribute .standard obj name value .none volume = .ok () written)
    (h : written.SoleValue obj key root dir true name record value) :
    volume.Usable obj name value := by
  refine ⟨written, hset, fun buffer => ⟨written.opened key dir, ?_, ?_⟩⟩
  . obtain ⟨object, hobject, _, hformat⟩ := h.object
    rw [getAttribute_plain hlink hplain hsuffix h.enabled hobject hformat]
    exact h.readValue hvalid buffer
  . obtain ⟨object, hobject, rfl, hformat⟩ := h.opened.object
    obtain ⟨d, middle, hremove, hseat, hempty, hbound⟩ := h.opened.removeRecord hvalid
    obtain ⟨rest, object', hprune, henabled, hobject', hformat', last, hopen⟩ :=
      hseat.pruneDirectory hempty hbound
    refine ⟨rest, ?_, fun buffer => ⟨last, ?_⟩⟩
    . rw [removeAttribute_plain hlink hplain h.opened.enabled hobject hformat]
      simp [hremove, attempt, hprune]
    . rw [getAttribute_plain hlink hplain hsuffix henabled hobject' hformat']
      have hexisting := (existingRecord_eq hobject' hformat' name).trans (openRecord_of_error hvalid hopen)
      exact readValue_absent hexisting rfl buffer

theorem SoleValue.not_usable {volume written : Volume MemStore}
    (hset : setAttribute .standard obj name value .none volume = .ok () written)
    (h : written.SoleValue obj key root dir false name record value) :
    ¬ volume.Usable obj name value := by
  rintro ⟨written', hset', hrest⟩
  obtain rfl : written = written' := by
    rw [hset] at hset'
    injection hset'
  obtain ⟨read, hread, removed, hremove, _⟩ := hrest none
  obtain ⟨object, hobject, _, hformat⟩ := h.object
  rw [getAttribute_plain hlink hplain hsuffix h.enabled hobject hformat] at hread
  obtain rfl : read = written.opened key dir := by
    have hread' := h.readValue hvalid none
    simp only [Answers, readAnswer] at hread hread'
    rw [hread] at hread'
    injection hread' with _ hread'
    injection hread'
  obtain ⟨object, hobject, rfl, hformat⟩ := h.opened.object
  obtain ⟨rest, hrefused⟩ := h.opened.removeRecord_refused hvalid
  rw [removeAttribute_plain hlink hplain h.opened.enabled hobject hformat, bind_apply, hrefused] at hremove
  cases hremove

variable (h : volume.Fresh priv) (hobject : volume.store.object? obj = some object)
  (hformat : object.format ≠ .legacy)
include h hobject hformat

omit hvalid in
theorem Fresh.not_usable_of_error {err : Error}
    (hopen : openRecord object.stat name .none volume = .error err rest) (value : Bytes) :
    ¬ volume.Usable obj name value := by
  rintro ⟨written, hset, _⟩
  rw [setAttribute_plain hlink hplain hsuffix h.enabled hobject hformat,
    Settled.writeValue_of_error hobject hformat hopen] at hset
  cases hset

theorem Fresh.not_usable_of_broken (hbroken : volume.IsBroken object.stat.key) (value : Bytes) :
    ¬ volume.Usable obj name value := by
  obtain ⟨err, rest, _, _, hopen⟩ := openDirectory_broken hbroken
  exact h.not_usable_of_error hlink hplain hsuffix hobject hformat
    (openRecord_of_error hvalid (hopen .none)) value

theorem Fresh.not_usable_of_taken (hdir : volume.store.attrDir? priv object.stat.key = some dir)
    (hno : volume.store.directory? dir = none) (value : Bytes) : ¬ volume.Usable obj name value := by
  obtain ⟨root, hroot, hchild⟩ := attrDir?_eq_some_iff.mp hdir
  have hfound : volume.directory? object.stat.key = some dir := by
    simp [directory?, h.cache, h.attrRoot?_eq, hroot, hchild]
  obtain ⟨err, _, hopen⟩ := openRecord_of_missing hvalid (openDirectory_found hfound .none)
    (by simpa using hno)
  exact h.not_usable_of_error hlink hplain hsuffix hobject hformat hopen value

variable (hid : obj < 2 ^ 64)
include hid

theorem Fresh.usable_iff_privateRoot (hnone : volume.store.attrRoot? priv = none) (value : Bytes) :
    volume.Usable obj name value ↔ volume.store.Has priv (·.body.isDirectory = true) := by
  have hset := setAttribute_plain hlink hplain hsuffix h.enabled hobject hformat value .none
  constructor
  . intro husable
    by_contra hno
    exact h.not_usable_of_broken hlink hplain hsuffix hvalid hobject hformat ⟨h.cache _,
      .inr (.inl ⟨priv, h.privateRoot_eq, h.attrRoot_eq, directory?_eq_none hno⟩)⟩ value husable
  . intro hdirectory
    obtain ⟨root, dir, rest, hopen, hseat⟩ :=
      h.openDirectory_seat_root hobject hformat hid hnone hdirectory
    obtain ⟨record, written, hwrite, hsole⟩ := hseat.writeValue hobject hformat hvalid hopen value
    exact hsole.usable hlink hplain hsuffix hvalid (hset.trans hwrite)

theorem Fresh.usable_iff_attrRoot (hroot : volume.store.attrRoot? priv = some root)
    (hnone : volume.store.attrDir? priv object.stat.key = none) (value : Bytes) :
    volume.Usable obj name value ↔ volume.store.Has root MemObject.IsPrivateDirectory := by
  have hset := setAttribute_plain hlink hplain hsuffix h.enabled hobject hformat value .none
  by_cases hdirectory : volume.store.Has root (·.body.isDirectory = true)
  . obtain ⟨owner, howner, hkind⟩ := hdirectory
    obtain ⟨dir, rest, hopen, hseat⟩ :=
      h.openDirectory_seat hobject hformat hid hroot howner hkind hnone
    obtain ⟨record, written, hwrite, hsole⟩ := hseat.writeValue hobject hformat hvalid hopen value
    cases hprivate : owner.isPrivate with
    | true =>
      rw [hprivate] at hsole
      exact ⟨fun _ => ⟨owner, howner, hprivate, hkind⟩,
        fun _ => hsole.usable hlink hplain hsuffix hvalid (hset.trans hwrite)⟩
    | false =>
      rw [hprivate] at hsole
      have husable := hsole.not_usable hlink hplain hsuffix hvalid (hset.trans hwrite)
      refine ⟨fun h => absurd h husable, ?_⟩
      rintro ⟨owner', howner', hmark, _⟩
      rw [howner] at howner'
      injection howner' with howner'
      rw [howner', hmark] at hprivate
      cases hprivate
  . refine ⟨fun husable => absurd husable ?_, fun hcan => absurd (hcan.mono fun _ h => h.2) hdirectory⟩
    exact h.not_usable_of_broken hlink hplain hsuffix hvalid hobject hformat ⟨h.cache _,
      .inr (.inr ⟨root, h.attrRoot?_eq.trans hroot, directory?_eq_none hdirectory⟩)⟩ value

theorem Fresh.usable_iff (hnoDir : ∀ dir, volume.store.attrDir? priv object.stat.key = some dir →
    volume.store.directory? dir = none) (value : Bytes) :
    volume.Usable obj name value ↔ volume.store.CanHold priv object.stat.key := by
  cases hdir : volume.store.attrDir? priv object.stat.key with
  | some dir =>
    have husable := h.not_usable_of_taken hlink hplain hsuffix hvalid hobject hformat hdir
      (hnoDir dir hdir) value
    exact ⟨fun h => absurd h husable, fun hcan => by simp [hcan.attrDir] at hdir⟩
  | none =>
    cases hroot : volume.store.attrRoot? priv with
    | none =>
      rw [h.usable_iff_privateRoot hlink hplain hsuffix hvalid hobject hformat hid hroot value]
      exact ⟨fun hdirectory => ⟨hdirectory, by simp [hroot], hdir⟩, fun hcan => hcan.privateRoot⟩
    | some root =>
      rw [h.usable_iff_attrRoot hlink hplain hsuffix hvalid hobject hformat hid hroot hdir value]
      obtain ⟨_, _, hpriv, _⟩ := child?_eq_some_iff.mp hroot
      refine ⟨fun hprivate => ⟨has_of_directory? hpriv, ?_, hdir⟩, fun hcan => hcan.attrRoot hroot⟩
      intro root' hroot'
      rw [hroot] at hroot'
      injection hroot' with hroot'
      exact hroot' ▸ hprivate

end Usable

section Mount

variable {store store' : MemStore} {flags : MountFlags} {options : MountOptions} {cacheCapacity : Nat}

theorem findDirectory_root_cases {mayCreate : Bool} {missing : Error}
    (h : findDirectory rootId privateRootName mayCreate missing store = .ok priv store') :
    store' = store ∨ store' = store.madeDirectory rootId privateRootName
      ∧ ∃ d, store.directory? rootId = some d ∧ d.find? privateRootName = none := by
  cases hdir : store.directory? rootId with
  | none =>
    obtain ⟨err, _, hfind⟩ := findDirectory_broken hdir
    rw [hfind] at h
    cases h
  | some d =>
    cases hfind : d.find? privateRootName with
    | some e =>
      rw [findDirectory_found hdir hfind] at h
      injection h with _ hstore
      exact .inl hstore.symm
    | none =>
      cases mayCreate with
      | false =>
        rw [findDirectory_absent hdir hfind] at h
        cases h
      | true =>
        rw [findDirectory_made hdir hfind (by decide)] at h
        injection h with _ hstore
        exact .inr ⟨hstore.symm, d, rfl, hfind⟩

theorem findPrivateRoot_ok (hlinked : store.Linked)
    (h : findPrivateRoot flags store = .ok priv store') :
    store'.Linked ∧ store'.writeFault = store.writeFault ∧ store'.rmdirFault = store.rmdirFault
      ∧ store'.Has priv (·.isPrivate = true) := by
  obtain ⟨middle, hfind, hmark⟩ := findPrivateRoot_eq_ok_iff.mp h
  have hmark := update_eq_ok_iff.mp hmark
  simp only [MemStore.markPrivate, exceptBind_eq_ok_iff, exceptPure_eq_ok_iff, getObject_eq_ok_iff]
    at hmark
  obtain ⟨object, hobject, rfl⟩ := hmark
  have hmiddle : middle.Linked ∧ middle.writeFault = store.writeFault
      ∧ middle.rmdirFault = store.rmdirFault := by
    obtain rfl | ⟨rfl, d, hdir, hfree⟩ := findDirectory_root_cases hfind
    . exact ⟨hlinked, rfl, rfl⟩
    . obtain ⟨owner, howner, hbody⟩ := directory?_eq_some_iff.mp hdir
      exact ⟨hlinked.madeDirectory howner hbody (by decide) hfree, rfl, rfl⟩
  refine ⟨hmiddle.1.marked priv, hmiddle.2.1, hmiddle.2.2, object.marked, ?_, rfl⟩
  have hmarked := object?_marked middle priv priv
  rw [if_pos rfl, hobject] at hmarked
  exact hmarked

theorem fresh_mounted (hlinked : store.Linked) (hwrite : store.writeFault = none)
    (hrmdir : store.rmdirFault = false)
    (hmount : mount ⟨false⟩ (unmounted store options cacheCapacity) = .ok () volume)
    (henabled : volume.attributesEnabled = true) : ∃ priv, volume.Fresh priv := by
  let first := unmounted store options cacheCapacity
  have hmount : mount ⟨false⟩ first = .ok () volume := hmount
  cases hon : first.options.settle.attributes with
  | false =>
    rw [mount_off hon] at hmount
    cases hmount
    rw [show (first.adopt first.options.settle).attributesEnabled = _ from hon] at henabled
    cases henabled
  | true =>
    rw [mount_on hon] at hmount
    have hexit := rootExit first ⟨false⟩
    generalize setUpPrivateRoot ⟨false⟩ first = result at hmount hexit
    cases hexit with
    | legacy => cases hmount
    | known _ hroot => cases hroot
    | absent _ _ hreadOnly => cases hreadOnly
    | unavailable => cases hmount
    | @found priv store' _ _ hfind =>
      cases hmount
      obtain ⟨hlinked', hwrite', hrmdir', hprivate⟩ := findPrivateRoot_ok hlinked hfind
      exact ⟨priv, hlinked', hwrite'.trans hwrite, hrmdir'.trans hrmdir, hon, rfl, rfl,
        fun key => by rw [DirCache.get?_fst]; split <;> rfl, hprivate⟩

theorem attributes_usable_iff (ops : List Op) (pageSize : Nat) (h : Record.headerSize < pageSize)
    (options options' : MountOptions) (cacheCapacity cacheCapacity' : Nat)
    (hwrite : (run ops (initial pageSize .current h options cacheCapacity)).store.writeFault = none)
    (hrmdir : (run ops (initial pageSize .current h options cacheCapacity)).store.rmdirFault = false)
    {volume : Volume MemStore}
    (hmount : mount ⟨false⟩
      (unmounted (run ops (initial pageSize .current h options cacheCapacity)).store options'
        cacheCapacity') = .ok () volume)
    (henabled : volume.attributesEnabled = true) :
    ∃ priv, volume.privateRoot = some priv ∧
      ∀ (obj : ObjectId) (object : MemObject), volume.store.object? obj = some object →
        object.format ≠ .legacy → obj < 2 ^ 64 →
        (∀ dir, volume.store.attrDir? priv object.stat.key = some dir →
          volume.store.directory? dir = none) →
        ∀ (name : String), isValidName name = true → EntryName.startsWith name "trusted." = true →
          EntryName.size "trusted." < EntryName.size name → ∀ value : Bytes,
            (volume.Usable obj name value ↔ volume.store.CanHold priv object.stat.key) := by
  have hlinked := linked_run ops
    (show (initial pageSize .current h options cacheCapacity).store.Linked from linked_empty ..)
  obtain ⟨priv, hfresh⟩ := fresh_mounted hlinked hwrite hrmdir hmount henabled
  refine ⟨priv, hfresh.privateRoot_eq, fun obj object hobject hformat hid hnoDir name hvalid hstart
    hsuffix value => ?_⟩
  obtain ⟨link, hlink, hplain⟩ := Registry.resolve?_trusted hstart
  exact hfresh.usable_iff hlink hplain hsuffix hvalid hobject hformat hid hnoDir value

def mountedOver (ops : List MemStore.Op) : Volume MemStore :=
  (mount ⟨false⟩).after
    (unmounted (run (ops.map .store) (initial 64 .current (by decide) .optional 4)).store .optional 4)

theorem attributes_usable_iff_directory :
    let volume := mountedOver [.create 1 "f" 0o644, .mkdir 1 ".xastore_priv" 0o700]
    volume.Usable 2 "trusted.a" [1] := by
  intro volume
  obtain ⟨priv, hpriv, husable⟩ := attributes_usable_iff
    [.store (.create 1 "f" 0o644), .store (.mkdir 1 ".xastore_priv" 0o700)] 64 (by decide) .optional
    .optional 4 4 rfl rfl (show _ = EStateM.Result.ok () volume from rfl) rfl
  have hknown : volume.privateRoot = some 3 := rfl
  rw [hknown] at hpriv
  injection hpriv with hpriv
  subst hpriv
  have hobject : ∃ object, volume.store.object? 2 = some object ∧ object.format ≠ .legacy
      ∧ volume.store.CanHold 3 object.stat.key := by
    refine ⟨_, rfl, by decide, ⟨_, rfl, rfl⟩, fun root hroot => ?_, rfl⟩
    rw [show volume.store.attrRoot? 3 = none from rfl] at hroot
    cases hroot
  obtain ⟨object, hobject, hformat, hcan⟩ := hobject
  have hnoDir : ∀ dir, volume.store.attrDir? 3 object.stat.key = some dir →
      volume.store.directory? dir = none := by
    intro dir hdir
    rw [hcan.attrDir] at hdir
    cases hdir
  exact (husable 2 object hobject hformat (by decide) hnoDir "trusted.a" (by decide) (by decide)
    (by decide) [1]).mpr hcan

def setReadRemove (obj : ObjectId) (name : String) (value : Bytes) : Action (Volume MemStore) Unit := do
  setAttribute .standard obj name value .none
  let _ ← (getAttribute .standard obj name).withSecond none
  removeAttribute .standard obj name

theorem Usable.setReadRemove (h : volume.Usable obj name value) :
    (setReadRemove obj name value).succeeds volume = true := by
  obtain ⟨written, hset, hrest⟩ := h
  obtain ⟨read, hread, removed, hremove, _⟩ := hrest none
  have hread : getAttribute .standard obj name (written, none) = .ok value.length (read, none) := hread
  simp [Action.succeeds, Volume.setReadRemove, hset, withSecond, hread, hremove]

def overFile : List MemStore.Op :=
  [.create 1 "f" 0o644, .create 1 ".xastore_priv" 0o644]

def overFileBelow : List MemStore.Op :=
  [.create 1 "f" 0o644, .mkdir 1 ".xastore_priv" 0o700, .create 3 "xattrs" 0o644]

def overUnmarked : List MemStore.Op :=
  [.create 1 "f" 0o644, .mkdir 1 ".xastore_priv" 0o700, .mkdir 3 "xattrs" 0o700]

theorem mount_unusable :
    ((mountedOver overFile).attributesEnabled = true
      ∧ ¬ (mountedOver overFile).Usable 2 "trusted.a" [1])
    ∧ ((mountedOver overFileBelow).attributesEnabled = true
      ∧ ¬ (mountedOver overFileBelow).Usable 2 "trusted.a" [1])
    ∧ ((mountedOver overUnmarked).attributesEnabled = true
      ∧ ¬ (mountedOver overUnmarked).Usable 2 "trusted.a" [1]) := by
  refine ⟨⟨by decide +kernel, fun h => ?_⟩, ⟨by decide +kernel, fun h => ?_⟩, by decide +kernel,
    fun h => ?_⟩
  all_goals
    exact absurd h.setReadRemove (by decide +kernel)

end Mount

end Volume

end AttrTree
