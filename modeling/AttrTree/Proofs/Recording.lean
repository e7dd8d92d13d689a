import AttrTree.Proofs.Revising

/-!
This module contains how single attributes come into the books of an intact volume and go out of them,
also if a write fails in between: then the book has an entry with bytes that nobody wanted, and no other
trace is left.
-/

namespace AttrTree

open Action

namespace MemStore

variable {store store' : MemStore} {record : ObjectId} {object : MemObject} {index offset : Nat}
  {data image old : Bytes}

section FailingWrite

def withFault (store : MemStore) (fault : Option Nat) : MemStore :=
  { store with writeFault := fault }

theorem eq_withFault (h : store'.withFault none = store.withFault none) :
    store' = store.withFault store'.writeFault := by
  have hplanned := congrArg (fun s => withFault s store'.writeFault) h
  exact hplanned

theorem withFault_eq_self {fault : Option Nat} (h : store.writeFault = fault) :
    store.withFault fault = store := by
  rw [withFault, ← h]

theorem writePageFaulty_unplanned {u : Unit}
    (h : writePageFaulty record index offset data store = .ok u store') :
    writePageFaulty record index offset data (store.withFault none) = .ok () (store'.withFault none) := by
  have hupdate (fault : Option Nat)
      (hok : Action.update (·.writePage record index offset data) (store.withFault fault) =
        .ok () store') :
      Action.update (·.writePage record index offset data) (store.withFault none) =
        .ok () (store'.withFault none) := by
    rw [update_eq_ok_iff, writePage_eq_ok_iff] at hok ⊢
    obtain ⟨object, content, hobject, hbody, rfl⟩ := hok
    exact ⟨object, content, hobject, hbody, rfl⟩
  by_cases hpage : store.pageSize < offset + data.length
  . simp [writePageFaulty, hpage] at h
  . have hplain : writePageFaulty record index offset data (store.withFault none) =
        Action.update (·.writePage record index offset data) (store.withFault none) := by
      simp [writePageFaulty, withFault, hpage]
    rw [hplain]
    cases hfault : store.writeFault with
    | none =>
      refine hupdate none ?_
      rw [withFault_eq_self hfault]
      simpa [writePageFaulty, hpage, hfault] using h
    | some count =>
      cases count with
      | zero => simp [writePageFaulty, hpage, hfault] at h
      | succ count => exact hupdate (some count) (by simpa [writePageFaulty, hpage, hfault, withFault] using h)

theorem writePages_unplanned {pages : List Bytes} {u : Unit}
    (h : Volume.writePages record index pages store = .ok u store') :
    Volume.writePages record index pages (store.withFault none) = .ok () (store'.withFault none) := by
  induction pages generalizing store index with
  | nil =>
    cases h
    rfl
  | cons page pages ih =>
    obtain ⟨_, middle, hwrite, hrest⟩ := bind_eq_ok_iff.mp h
    exact bind_eq_ok_iff.mpr ⟨(), _, writePageFaulty_unplanned hwrite, ih hrest⟩

def Filled (store : MemStore) (record : ObjectId) (size : Nat) (store' : MemStore) : Prop :=
  ∃ content fault, size ≤ content.length ∧ store' = (store.setContent record content).withFault fault

theorem keeps_writePages_filled (store : MemStore) (record : ObjectId) (size index : Nat)
    (pages : List Bytes) :
    Keeps (store.Filled record size) (Volume.writePages record index pages) := by
  refine Volume.keeps_writePages (fun index offset data => keeps_writePageFaulty ?_ ?_) index pages
  . rintro _ fault ⟨content, _, hlength, rfl⟩
    exact ⟨content, fault, hlength, rfl⟩
  . refine .update fun _ _ hok hs => ?_
    obtain ⟨content, fault, hlength, rfl⟩ := hs
    obtain ⟨_, _, _, _, rfl⟩ := writePage_eq_ok_iff.mp hok
    have hwritten (start : Nat) :
        (store.setContent record content).mapObject record
            (fun o => { o with body := o.body.write start data }) =
          store.setContent record (content.write start data) :=
      mapObject_mapObject store record fun _ => rfl
    refine ⟨content.write (index * store.pageSize + offset) data, fault, ?_, ?_⟩
    . rw [Bytes.length_write]
      exact Nat.le_trans hlength (Nat.le_max_left ..)
    . rw [← hwritten]
      rfl

theorem writeImage_cases (hids : store.HasDistinctIds) (hobject : store.object? record = some object)
    (hbody : object.body = .file old) (image : Bytes) :
    (∃ fault, Volume.writeImage record image store =
        .ok () ((store.setContent record image).withFault fault))
      ∨ ∃ err content fault, image.length ≤ content.length ∧ store.writeFault ≠ none
        ∧ Volume.writeImage record image store =
          .error err ((store.setContent record content).withFault fault) := by
  let resized := store.setContent record (old.resize image.length)
  have hwrite : Volume.writeImage record image store =
      Volume.writePages record 0 (image.chunks store.pageSize) resized := by
    rw [Volume.writeImage, bind_apply, setAttr_resize hids hobject hbody image.length]
    rfl
  have hplain : Volume.writePages record 0 (image.chunks store.pageSize) (resized.withFault none) =
      .ok () ((store.setContent record image).withFault none) := by
    have hids' : (store.withFault none).HasDistinctIds := hids
    have hplain := writeImage_eq hids' hobject rfl hbody image
    rw [Volume.writeImage, bind_apply, setAttr_resize hids' hobject hbody image.length] at hplain
    exact hplain
  have hstart : store.Filled record image.length resized :=
    ⟨_, store.writeFault, Nat.le_of_eq (Bytes.length_resize ..).symm, rfl⟩
  have hfilled := (keeps_writePages_filled store record image.length 0
    (image.chunks store.pageSize)).holds resized hstart
  cases hrun : Volume.writePages record 0 (image.chunks store.pageSize) resized with
  | ok u store' =>
    have hsame := (writePages_unplanned hrun).symm.trans hplain
    injection hsame with _ hsame
    refine .inl ⟨store'.writeFault, ?_⟩
    rw [hwrite, hrun, ← eq_withFault hsame]
  | error err store' =>
    rw [after_of_error hrun] at hfilled
    obtain ⟨content, fault, hlength, rfl⟩ := hfilled
    refine .inr ⟨err, content, fault, hlength, fun hnone => ?_, hwrite.trans hrun⟩
    rw [← hwrite, writeImage_eq hids hobject hnone hbody image] at hrun
    cases hrun

end FailingWrite

end MemStore

namespace Volume

open MemStore

variable {volume middle rest : Volume MemStore} {priv dir record obj : ObjectId} {stat : ObjectStat}
  {key : ObjectKey} {name : String} {flags : SetFlags} {object : MemObject} {value old : Bytes}
  {books : ObjectKey → Book} {α : Type}

inductive Yields (volume : Volume MemStore) (priv : ObjectId) (books : ObjectKey → Book) :
    EStateM.Result Error (Volume MemStore) α → Except Error α → Prop
  | done {a : α} {rest : Volume MemStore} (h : volume.Revises rest priv books) :
    Yields volume priv books (.ok a rest) (.ok a)
  | refused {err err' : Error} {rest : Volume MemStore} (hkind : err.kind = err'.kind)
    (h : volume.Revises rest priv (volume.store.book priv)) :
    Yields volume priv books (.error err rest) (.error err')

/-- The call answers as `Yields` says, unless a planned fault made it fail: a `writeFault`, or an `rmdirFault`,
which comes after all the rest. -/
inductive Acts (volume : Volume MemStore) (priv : ObjectId) (books : ObjectKey → Book) :
    EStateM.Result Error (Volume MemStore) α → Except Error α → Prop
  | undisturbed {result : EStateM.Result Error (Volume MemStore) α} {answer : Except Error α}
    (h : volume.Yields priv books result answer) : Acts volume priv books result answer
  | disturbed {a : α} {err : Error} {rest : Volume MemStore} {books' : ObjectKey → Book}
    (hplanned : volume.store.writeFault ≠ none) (h : volume.Revises rest priv books') :
    Acts volume priv books (.error err rest) (.ok a)
  | unpruned {a : α} {err : Error} {rest : Volume MemStore}
    (hplanned : volume.store.rmdirFault ≠ false) (h : volume.Revises rest priv books) :
    Acts volume priv books (.error err rest) (.ok a)

theorem Acts.done {a : α} (h : volume.Revises rest priv books) :
    volume.Acts priv books (.ok a rest) (.ok a) :=
  .undisturbed (.done h)

theorem Acts.refused {err err' : Error} (hkind : err.kind = err'.kind)
    (h : volume.Revises rest priv (volume.store.book priv)) :
    volume.Acts priv books (.error err rest : EStateM.Result Error (Volume MemStore) α)
      (.error err') :=
  .undisturbed (.refused hkind h)

namespace Intact

section OpenDirectory

variable (h : volume.Intact priv)
include h

theorem openDirectory_found (hdir : volume.store.attrDir? priv stat.key = some dir)
    (flags : SetFlags) :
    openDirectory stat flags volume = .ok dir (volume.opened stat.key dir) :=
  Volume.openDirectory_found ((h.directory?_eq stat.key).trans hdir) flags

theorem openDirectory_absent (hnone : volume.store.attrDir? priv stat.key = none)
    (hflags : flags.allowsCreate = false) :
    ∃ err rest, err.kind = .noAttribute ∧ openDirectory stat flags volume = .error err rest
      ∧ volume.Revises rest priv (volume.store.book priv) := by
  cases volume.whereabouts stat.key with
  | found dir hfound =>
    rw [h.directory?_eq, hnone] at hfound
    cases hfound
  | noDirectory root d hcache hroot hdir hfree =>
    exact ⟨_, _, rfl, openDirectory_noDirectory hcache hroot hdir hfree hflags, h.looked _⟩
  | noAttrRoot id d hcache hpriv hroot hdir hfree =>
    exact ⟨_, _, rfl, openDirectory_noAttrRoot hcache hpriv hroot hdir hfree hflags, h.looked _⟩
  | broken hbroken => exact absurd hbroken (h.not_isBroken _)

theorem openDirectory_made (hnone : volume.store.attrDir? priv stat.key = none)
    (hflags : flags.allowsCreate = true) (hid : stat.id < volume.store.nextId)
    (hbound : volume.store.nextId ≤ 2 ^ 64) :
    ∃ dir rest, openDirectory stat flags volume = .ok dir rest
      ∧ volume.Revises rest priv (volume.store.book priv)
      ∧ rest.store.attrDir? priv stat.key = some dir := by
  have hvalid : isValidName stat.key.text = true :=
    ObjectKey.isValidName_text (Nat.lt_of_lt_of_le hid hbound)
  cases volume.whereabouts stat.key with
  | found dir hfound =>
    rw [h.directory?_eq, hnone] at hfound
    cases hfound
  | noDirectory root d hcache hroot hdir hfree =>
    obtain ⟨hrevises, hmade⟩ := h.made (h.attrRoot?_eq ▸ hroot) hnone hvalid hid
    exact ⟨_, _, Volume.openDirectory_made hcache hroot hdir hfree hvalid hflags, hrevises, hmade⟩
  | noAttrRoot id d hcache hpriv hroot hdir hfree =>
    obtain rfl : priv = id := Option.some.inj (h.privateRoot_eq.symm.trans hpriv)
    have hnone' : volume.store.attrRoot? priv = none := by
      rw [MemStore.attrRoot?, child?_of_directory? hdir, hfree]
      rfl
    obtain ⟨hmiddle, hroot', hdir'⟩ := h.madeRoot hnone'
    obtain ⟨hrevises, hmade⟩ :=
      hmiddle.intact.made hroot' (hdir' stat.key) hvalid (Nat.lt_succ_of_lt hid)
    exact ⟨_, _, openDirectory_made_root h.linked hcache hpriv hroot hdir hfree hvalid hflags,
      hmiddle.trans_same hrevises, hmade⟩
  | broken hbroken => exact absurd hbroken (h.not_isBroken _)

end OpenDirectory

section OpenRecord

variable (h : volume.Intact priv) (hvalid : isValidName name = true)
include h hvalid

theorem content?_eq_none_iff (key : ObjectKey) :
    (volume.store.book priv key).content? name = none ↔
      volume.store.attrRecord? priv key name = none := by
  have hdots := isDots_of_isValidName hvalid
  rw [h.content?_book hdots]
  cases hrecord : volume.store.attrRecord? priv key name with
  | none => simp
  | some record =>
    obtain ⟨file, content, hfile, _, _, hbody, _⟩ := h.file_of_record hdots hrecord
    simp [content?_of_object? hfile hbody]

theorem openRecord_found (hrecord : volume.store.attrRecord? priv stat.key name = some record)
    (flags : SetFlags) :
    ∃ rest, volume.Revises rest priv (volume.store.book priv) ∧ rest.store = volume.store
      ∧ openRecord stat name flags volume =
        if flags.create then .error attrExists rest else .ok record rest := by
  obtain ⟨dir, hdir, hchild⟩ := attrRecord?_eq_some_iff.mp hrecord
  obtain ⟨d, e, hdirectory, hfind, rfl⟩ := child?_eq_some_iff.mp hchild
  refine ⟨volume.opened stat.key dir, h.opened hdir, store_opened .., ?_⟩
  rw [openRecord_eq hvalid (h.openDirectory_found hdir flags) (by simpa using hdirectory), hfind]

variable (hnone : volume.store.attrRecord? priv stat.key name = none)
  (hid : stat.id < volume.store.nextId) (hbound : volume.store.nextId ≤ 2 ^ 64)
include hnone hid hbound

theorem openDirectory_empty
    (hflags : volume.store.attrDir? priv stat.key = none → flags.allowsCreate = true) :
    ∃ dir middle, openDirectory stat flags volume = .ok dir middle
      ∧ volume.Revises middle priv (volume.store.book priv)
      ∧ middle.store.attrDir? priv stat.key = some dir
      ∧ middle.store.attrRecord? priv stat.key name = none := by
  suffices hopens : ∃ dir middle, openDirectory stat flags volume = .ok dir middle
      ∧ volume.Revises middle priv (volume.store.book priv)
      ∧ middle.store.attrDir? priv stat.key = some dir by
    obtain ⟨dir, middle, hopen, hrevises, hdir⟩ := hopens
    refine ⟨dir, middle, hopen, hrevises, hdir, ?_⟩
    rw [← hrevises.intact.content?_eq_none_iff hvalid, hrevises.book_eq, h.content?_eq_none_iff hvalid]
    exact hnone
  cases hdir : volume.store.attrDir? priv stat.key with
  | none => exact h.openDirectory_made hdir (hflags hdir) hid hbound
  | some dir =>
    exact ⟨dir, _, h.openDirectory_found hdir flags, h.opened hdir, by rw [store_opened, hdir]⟩

omit h hnone hid hbound in
theorem openRecord_empty (hmiddle : middle.Intact priv)
    (hopen : openDirectory stat flags volume = .ok dir middle)
    (hdir : middle.store.attrDir? priv stat.key = some dir)
    (hempty : middle.store.attrRecord? priv stat.key name = none) :
    openRecord stat name flags volume =
      if flags.onlyExisting then .error attrNotFound middle
      else .ok middle.store.nextId
        { middle with store := middle.store.madeRecord dir name } := by
  obtain ⟨_, d, _, _, _, _, hdirectory, _⟩ := hmiddle.attrDir_entry hdir
  rw [attrRecord?_of_attrDir? hdir] at hempty
  rw [openRecord_eq hvalid hopen hdirectory, find?_eq_none_of_child? hdirectory hempty]

theorem openRecord_absent (hflags : flags.onlyExisting = true) :
    ∃ err rest, err.kind = .noAttribute ∧ openRecord stat name flags volume = .error err rest
      ∧ volume.Revises rest priv (volume.store.book priv) := by
  by_cases hdir : volume.store.attrDir? priv stat.key = none ∧ flags.allowsCreate = false
  . obtain ⟨err, rest, herr, hopen, hrevises⟩ := h.openDirectory_absent hdir.1 hdir.2
    exact ⟨err, rest, herr, openRecord_of_error hvalid hopen, hrevises⟩
  . obtain ⟨dir, middle, hopen, hrevises, hfound, hempty⟩ :=
      h.openDirectory_empty hvalid hnone hid hbound fun hdirNone => by
        simpa [hdirNone] using hdir
    refine ⟨attrNotFound, middle, rfl, ?_, hrevises⟩
    rw [openRecord_empty hvalid hrevises.intact hopen hfound hempty, if_pos hflags]

end OpenRecord

end Intact

section WriteValue

structure Writable (volume rest : Volume MemStore) (priv : ObjectId) (key : ObjectKey) (name : String)
    (record : ObjectId) : Prop where
  ids_distinct : rest.store.HasDistinctIds
  file : ∃ file old, rest.store.object? record = some file ∧ file.body = .file old ∧ file.nlink = 1
  writeFault_eq : volume.store.writeFault = none → rest.store.writeFault = none
  written : ∀ ⦃content⦄, Record.headerSize ≤ content.length →
    volume.Revises { rest with store := rest.store.setContent record content } priv
      (withBook (volume.store.book priv) key ((volume.store.book priv key).put name content))

theorem Writable.yields (h : volume.Writable rest priv key name record)
    (hfault : rest.store.writeFault = none) (value : Bytes) :
    volume.Yields priv (withBook (volume.store.book priv) key
        ((volume.store.book priv key).put name (Record.image value)))
      (onStore (writeImage record (Record.image value)) rest) (.ok ()) := by
  obtain ⟨file, old, hfile, hbody, _⟩ := h.file
  have hwrite := writeImage_eq h.ids_distinct hfile hfault hbody (Record.image value)
  simp only [onStore, focus, hwrite]
  exact .done (h.written (Record.headerSize_le_image value))

theorem Writable.acts (h : volume.Writable rest priv key name record) (value : Bytes) :
    volume.Acts priv (withBook (volume.store.book priv) key
        ((volume.store.book priv key).put name (Record.image value)))
      (onStore (writeImage record (Record.image value)) rest) (.ok ()) := by
  obtain ⟨file, old, hfile, hbody, _⟩ := h.file
  have hlength := Record.headerSize_le_image value
  cases hfault : rest.store.writeFault with
  | none => exact .undisturbed (h.yields hfault value)
  | some count =>
    have hplanned : rest.store.writeFault ≠ none := by
      simp [hfault]
    have hfaults {content : Bytes} (hcontent : Record.headerSize ≤ content.length)
        (fault : Option Nat) :
        volume.Revises { rest with store := (rest.store.setContent record content).withFault fault }
          priv (withBook (volume.store.book priv) key
            ((volume.store.book priv key).put name content)) :=
      (h.written hcontent).trans_same
        ((h.written hcontent).intact.withFaults fault rest.store.rmdirFault
          ⟨fun hnone => absurd hnone hplanned, id⟩)
    obtain ⟨fault, hwrite⟩ | ⟨err, content, fault, hcontent, _, hwrite⟩ :=
      writeImage_cases h.ids_distinct hfile hbody (Record.image value)
    . simp only [onStore, focus, hwrite]
      exact .done (hfaults hlength fault)
    . simp only [onStore, focus, hwrite]
      exact .disturbed (fun hnone => hplanned (h.writeFault_eq hnone))
        (hfaults (Nat.le_trans hlength hcontent) fault)

def writeAnswer (flags : SetFlags) (old : Option Bytes) : Except Error Unit :=
  if old.isSome then
    if flags.create then .error attrExists else .ok ()
  else
    if flags.onlyExisting then .error attrNotFound else .ok ()

variable (h : volume.Intact priv) (hname : isAttrName name = true)
include h hname

theorem Intact.writable_found (hrecord : volume.store.attrRecord? priv stat.key name = some record)
    (hrevises : volume.Revises rest priv (volume.store.book priv)) (hstore : rest.store = volume.store) :
    volume.Writable rest priv stat.key name record := by
  have hdots := isDots_of_isValidName (isAttrName_eq_true_iff.mp hname).1
  obtain ⟨file, old, hfile, _, hnlink, hbody, _⟩ := h.file_of_record hdots hrecord
  refine ⟨hrevises.intact.linked.ids_distinct, ⟨file, old, by rw [hstore, hfile], hbody, hnlink⟩,
    hrevises.quiet.writeFault_eq, fun content hlength => ?_⟩
  exact hrevises.trans_withBook (f := (·.put name content))
    (hrevises.intact.overwritten hname (by rw [hstore, hrecord]) hlength)

omit h in
theorem Intact.writable_made (hmiddle : volume.Revises middle priv (volume.store.book priv))
    (hdir : middle.store.attrDir? priv stat.key = some dir)
    (hempty : middle.store.attrRecord? priv stat.key name = none) :
    volume.Writable { middle with store := middle.store.madeRecord dir name } priv stat.key name
      middle.store.nextId := by
  have hintact := hmiddle.intact
  have hvalid := (isAttrName_eq_true_iff.mp hname).1
  obtain ⟨owner, d, _, howner, _, hbody, hdirectory, _⟩ := hintact.attrDir_entry hdir
  have hfree := hempty
  rw [attrRecord?_of_attrDir? hdir] at hfree
  have hlinked := hintact.linked.madeRecord howner hbody hvalid (find?_eq_none_of_child? hdirectory hfree)
  refine ⟨hlinked.ids_distinct, ⟨middle.store.newRecord owner.isPrivate, [], ?_, rfl, rfl⟩,
    hmiddle.quiet.writeFault_eq, fun content hlength => ?_⟩
  . rw [object?_madeRecord hintact.linked howner, if_pos rfl]
  . exact hmiddle.trans_withBook (f := (·.put name content))
      (hintact.recorded hdir hname hempty hlength)

theorem Intact.openRecord_cases (hother : flags.other = false) (hid : stat.id < volume.store.nextId)
    (hbound : volume.store.nextId ≤ 2 ^ 64) :
    (∃ err err' rest, openRecord stat name flags volume = .error err rest ∧ err.kind = err'.kind
        ∧ volume.Revises rest priv (volume.store.book priv)
        ∧ writeAnswer flags ((volume.store.book priv stat.key).content? name) = .error err')
      ∨ ∃ record rest, openRecord stat name flags volume = .ok record rest
        ∧ volume.Writable rest priv stat.key name record
        ∧ writeAnswer flags ((volume.store.book priv stat.key).content? name) = .ok () := by
  have hvalid := (isAttrName_eq_true_iff.mp hname).1
  cases hrecord : volume.store.attrRecord? priv stat.key name with
  | some record =>
    have hknown : ((volume.store.book priv stat.key).content? name).isSome = true := by
      rw [← Option.ne_none_iff_isSome, ne_eq, h.content?_eq_none_iff hvalid, hrecord]
      nofun
    obtain ⟨rest, hrevises, hstore, hopen⟩ := h.openRecord_found hvalid hrecord flags
    cases hcreate : flags.create with
    | true =>
      refine .inl ⟨attrExists, attrExists, rest, by simpa [hcreate] using hopen, rfl, hrevises, ?_⟩
      simp [writeAnswer, hknown, hcreate]
    | false =>
      refine .inr ⟨record, rest, by simpa [hcreate] using hopen,
        h.writable_found hname hrecord hrevises hstore, ?_⟩
      simp [writeAnswer, hknown, hcreate]
  | none =>
    have hunknown := (h.content?_eq_none_iff hvalid stat.key).mpr hrecord
    rw [hunknown]
    cases honly : flags.onlyExisting with
    | true =>
      obtain ⟨err, rest, herr, hopen, hrevises⟩ := h.openRecord_absent hvalid hrecord hid hbound honly
      exact .inl ⟨err, attrNotFound, rest, hopen, herr, hrevises, by simp [writeAnswer, honly]⟩
    | false =>
      have hcreate : flags.allowsCreate = true := by
        obtain ⟨create, replace, readOnly, other⟩ := flags
        simp only [SetFlags.onlyExisting, Bool.or_eq_false_iff] at honly
        obtain ⟨rfl, rfl⟩ := honly
        obtain rfl : other = false := hother
        cases create <;> rfl
      obtain ⟨dir, middle, hopenDir, hmiddle, hdir, hempty⟩ :=
        h.openDirectory_empty hvalid hrecord hid hbound fun _ => hcreate
      have hopen := openRecord_empty hvalid hmiddle.intact hopenDir hdir hempty
      refine .inr ⟨_, _, by simpa [honly] using hopen, writable_made hname hmiddle hdir hempty, ?_⟩
      simp [writeAnswer, honly]

theorem Intact.acts_writeValue (hobject : volume.store.object? obj = some object)
    (hformat : object.format ≠ .legacy) (hother : flags.other = false)
    (hbound : volume.store.nextId ≤ 2 ^ 64) (value : Bytes) :
    volume.Acts priv (withBook (volume.store.book priv) object.stat.key
        ((volume.store.book priv object.stat.key).put name (Record.image value)))
      (writeValue obj name value flags volume)
      (writeAnswer flags ((volume.store.book priv object.stat.key).content? name)) := by
  have hid : object.stat.id < volume.store.nextId := by
    rw [show object.stat.id = object.id from rfl, id_of_object? hobject]
    exact h.linked.id_lt hobject
  rw [writeValue_eq hobject hformat, bind_apply]
  obtain ⟨err, _, rest, hopen, hkind, hrevises, hanswer⟩ | ⟨record, rest, hopen, hwritable, hanswer⟩ :=
    h.openRecord_cases hname hother hid hbound
  . rw [unsharedRecord_of_error hopen, hanswer]
    exact .refused hkind hrevises
  . obtain ⟨file, _, hfile, _, hnlink⟩ := hwritable.file
    rw [unsharedRecord_single hopen hfile (Nat.le_of_eq hnlink), hanswer]
    exact hwritable.acts value

end WriteValue

section Removal

variable (h : volume.Intact priv)
include h

theorem Intact.removeRecord_found (hvalid : isValidName name = true)
    (hknown : (volume.store.book priv stat.key).content? name ≠ none) :
    ∃ rest, removeRecord stat name volume = .ok () rest
      ∧ volume.Revises rest priv (withBook (volume.store.book priv) stat.key
        ((volume.store.book priv stat.key).without name))
      ∧ rest.store.nextId = volume.store.nextId := by
  have hdots := isDots_of_isValidName hvalid
  rw [ne_eq, h.content?_eq_none_iff hvalid] at hknown
  obtain ⟨record, hrecord⟩ := Option.ne_none_iff_exists'.mp hknown
  obtain ⟨target, _, htarget, hprivate, _, hbody, _⟩ := h.file_of_record hdots hrecord
  obtain ⟨dir, hdir, hchild⟩ := attrRecord?_eq_some_iff.mp hrecord
  obtain ⟨d, e, hdirectory, hfind, rfl⟩ := child?_eq_some_iff.mp hchild
  have hkind : target.body.isDirectory = false := by
    rw [hbody]
    rfl
  have hopened := h.opened hdir
  obtain ⟨owner, hleaf⟩ := h.linked.isLeaf hdirectory hfind htarget hkind
  have hremoved := hopened.intact.removed (by rw [store_opened]; exact hdir)
    (by rw [store_opened]; exact hleaf)
  obtain rfl : e.name = name := by
    simpa using List.find?_some hfind
  refine ⟨_, ?_, hopened.trans_withBook (f := (·.without e.name)) hremoved, ?_⟩
  . rw [removeRecord_eq hvalid (h.openDirectory_found hdir .looking)]
    simp [onStore, focus, removeEntry_file h.linked hdirectory hfind htarget hkind hprivate]
  . rw [IsLeaf.nextId_detach, store_opened]

theorem Intact.removeRecord_absent (hvalid : isValidName name = true)
    (hunknown : (volume.store.book priv stat.key).content? name = none) :
    ∃ err rest, err.kind = .noAttribute ∧ removeRecord stat name volume = .error err rest
      ∧ volume.Revises rest priv (volume.store.book priv) := by
  rw [h.content?_eq_none_iff hvalid] at hunknown
  cases hdir : volume.store.attrDir? priv stat.key with
  | none =>
    obtain ⟨err, rest, herr, hopen, hrevises⟩ :=
      h.openDirectory_absent hdir (show SetFlags.looking.allowsCreate = false from rfl)
    refine ⟨err, rest, herr, ?_, hrevises⟩
    rw [removeRecord, bind_apply, checkAttrName_of_valid hvalid]
    simp only [ofExcept_ok, bind_apply, hopen]
  | some dir =>
    obtain ⟨_, d, _, _, _, _, hdirectory, _⟩ := h.attrDir_entry hdir
    rw [attrRecord?_of_attrDir? hdir] at hunknown
    have hfind := find?_eq_none_of_child? hdirectory hunknown
    refine ⟨attrNotFound, _, rfl, ?_, h.opened hdir⟩
    rw [removeRecord_eq hvalid (h.openDirectory_found hdir .looking)]
    have hsame : ({ volume.opened stat.key dir with store := volume.store } : Volume MemStore) =
        volume.opened stat.key dir := by
      rw [← store_opened volume stat.key dir]
    simp [onStore, focus, removeEntry_absent hdirectory hfind, hsame]

theorem Intact.prune (hdir : volume.store.attrDir? priv stat.key = some dir)
    (hbound : volume.store.nextId ≤ 2 ^ 63) :
    ∃ rest, volume.Revises rest priv (volume.store.book priv)
      ∧ (prune stat dir volume = .ok () rest
        ∨ ∃ err, volume.store.rmdirFault ≠ false ∧ prune stat dir volume = .error err rest) := by
  obtain ⟨_, d, parent, _, _, _, hdirectory, hwf, hnext, _⟩ := h.attrDir_entry hdir
  have hfew : d.nextOffset ≤ 2 ^ 63 := Nat.le_trans hnext hbound
  obtain ⟨root, hroot, hchild⟩ := attrDir?_eq_some_iff.mp hdir
  have hroot' := h.attrRoot?_eq.trans hroot
  cases hempty : d.isEmpty with
  | false => exact ⟨volume, .refl h, .inl (prune_of_entries hdirectory hwf hfew hempty)⟩
  | true =>
    cases hfault : volume.store.rmdirFault with
    | false =>
      obtain ⟨owner, rootDirectory, e, target, _, _, hname, hkind, hleaf⟩ :=
        isLeaf_of_child? h.linked hchild hdirectory hempty
      exact ⟨_, h.pruned hroot hleaf hname, .inl
        (prune_of_empty hdirectory hwf hfew hempty hroot' h.linked hleaf hname hkind hfault)⟩
    | true =>
      have hforgot := h.forgot hroot stat.key
      exact ⟨_, hforgot.trans_same
          (hforgot.intact.withFaults volume.store.writeFault false ⟨id, fun _ => rfl⟩),
        .inr ⟨injectedRmdirFault, Bool.true_eq_false_eq_False,
          prune_of_fault hdirectory hwf hfew hempty hroot' hfault⟩⟩

end Removal

end Volume

end AttrTree
