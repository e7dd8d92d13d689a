import AttrTree.Attribute.Value
import AttrTree.Proofs.Step

/-!
This module contains the outcomes of the operations that the private tree is worked on with, on the
store in memory: what is found, what is made, and when they fail without having done anything.
-/

namespace AttrTree

namespace MemStore

open Action

variable {store : MemStore} {id dir parent : ObjectId} {name : String} {d : Directory}

def IsMissing (e : Error) : Prop :=
  e = objectNotFound ∨ e = notDirectory

def child? (store : MemStore) (dir : ObjectId) (name : String) : Option ObjectId :=
  (store.directory? dir).bind fun d => (d.find? name).map (·.target)

theorem child?_eq_some_iff :
    store.child? dir name = some id ↔
      ∃ d e, store.directory? dir = some d ∧ d.find? name = some e ∧ e.target = id := by
  simp [child?, Option.bind_eq_some_iff, Option.map_eq_some_iff]

theorem child?_of_directory? (h : store.directory? dir = some d) (name : String) :
    store.child? dir name = (d.find? name).map (·.target) := by
  simp [child?, h]

def madeDirectory (store : MemStore) (parent : ObjectId) (name : String) : MemStore :=
  store.attach (store.child ((store.object? parent).any (·.isPrivate))
    (Mode.withType Mode.directoryType Volume.privateMode) 2
    fun self => .directory (.fresh self parent)) parent name 1

def madeRecord (store : MemStore) (parent : ObjectId) (name : String) : MemStore :=
  store.attach (store.child ((store.object? parent).any (·.isPrivate))
    (Mode.withType Mode.fileType (Mode.withType Mode.fileType Volume.privateMode)) 1
    fun _ => .file []) parent name 0

def withContent (content : Bytes) (object : MemObject) : MemObject :=
  { object with body := .file content }

theorem id_withContent (content : Bytes) (object : MemObject) :
    (withContent content object).id = object.id :=
  rfl

def setContent (store : MemStore) (id : ObjectId) (content : Bytes) : MemStore :=
  store.mapObject id (withContent content)

section Lookup

theorem lookup_of_directory? (h : store.directory? dir = some d) (name : String) :
    ObjectStore.lookup dir name store = .ok ((d.find? name).map (·.target)) store := by
  have hget := getDirectory_eq_ok_iff.mpr h
  simp [ObjectStore.lookup, query, MemStore.lookup, hget, bind, Except.bind, pure, Except.pure]

theorem getDirectory_of_none (h : store.directory? dir = none) :
    ∃ e, IsMissing e ∧ store.getDirectory dir = .error e := by
  cases hget : store.getDirectory dir with
  | ok d =>
    rw [getDirectory_eq_ok_iff, h] at hget
    cases hget
  | error e =>
    refine ⟨e, ?_, rfl⟩
    unfold getDirectory getObject at hget
    cases hobject : store.object? dir with
    | none =>
      simp only [hobject, bind, Except.bind, Except.error.injEq] at hget
      exact .inl hget.symm
    | some object =>
      cases hbody : object.body with
      | directory d => simp [directory?_of_object? hobject hbody] at h
      | file content =>
        simp only [hobject, hbody, bind, Except.bind, Except.error.injEq] at hget
        exact .inr hget.symm

theorem lookup_of_none (h : store.directory? dir = none) :
    ∃ e, IsMissing e ∧ ∀ name, ObjectStore.lookup dir name store = .error e store := by
  obtain ⟨e, he, hget⟩ := getDirectory_of_none h
  refine ⟨e, he, fun name => ?_⟩
  simp [ObjectStore.lookup, query, MemStore.lookup, hget, bind, Except.bind]

theorem stat_of_object? {object : MemObject} (h : store.object? id = some object) :
    ObjectStore.stat id store = .ok object.stat store := by
  have hget := getObject_eq_ok_iff.mpr h
  simp [ObjectStore.stat, query, MemStore.stat, hget, bind, Except.bind, pure, Except.pure]

theorem stat_of_none (h : store.object? id = none) :
    ObjectStore.stat id store = .error objectNotFound store := by
  simp [ObjectStore.stat, query, MemStore.stat, getObject, h, bind, Except.bind]

theorem Linked.isDirectory_stat (h : store.Linked) {object : MemObject}
    (hobject : store.object? id = some object) :
    object.stat.isDirectory = object.body.isDirectory := by
  have htype := h.mode_type hobject
  unfold ObjectStat.isDirectory
  rw [show object.stat.mode = object.mode from rfl, htype]
  cases object.body <;> rfl

end Lookup

section Made

theorem mkdir_made (h : store.directory? parent = some d) (hfree : d.find? name = none)
    (hvalid : isValidName name = true) :
    ObjectStore.mkdir parent name Volume.privateMode store =
      .ok store.nextId (store.madeDirectory parent name) := by
  obtain ⟨owner, howner, hbody⟩ := directory?_eq_some_iff.mp h
  have hok : store.mkdir parent name Volume.privateMode =
      .ok (store.nextId, store.madeDirectory parent name) := by
    rw [mkdir_eq_ok_iff]
    refine ⟨hvalid, owner, d, howner, hbody, by simp [Directory.contains, hfree], ?_⟩
    simp [madeDirectory, howner]
  simp [ObjectStore.mkdir, transact, hok]

theorem create_made (h : store.directory? parent = some d) (hfree : d.find? name = none)
    (hvalid : isValidName name = true) :
    ObjectStore.create parent name (Mode.withType Mode.fileType Volume.privateMode) store =
      .ok store.nextId (store.madeRecord parent name) := by
  obtain ⟨owner, howner, hbody⟩ := directory?_eq_some_iff.mp h
  have hok : store.create parent name (Mode.withType Mode.fileType Volume.privateMode) =
      .ok (store.nextId, store.madeRecord parent name) := by
    rw [create_eq_ok_iff]
    refine ⟨hvalid, owner, d, howner, hbody, by simp [Directory.contains, hfree], ?_⟩
    simp [madeRecord, howner]
  simp [ObjectStore.create, transact, hok]

end Made

section FindDirectory

variable {mayCreate : Bool} {missing : Error}

theorem findDirectory_found {e : DirEntry} (h : store.directory? parent = some d)
    (he : d.find? name = some e) :
    Volume.findDirectory parent name mayCreate missing store = .ok e.target store := by
  simp [Volume.findDirectory, lookup_of_directory? h, he]

theorem findDirectory_absent (h : store.directory? parent = some d)
    (hfree : d.find? name = none) :
    Volume.findDirectory parent name false missing store = .error missing store := by
  simp [Volume.findDirectory, lookup_of_directory? h, hfree]

theorem findDirectory_made (h : store.directory? parent = some d) (hfree : d.find? name = none)
    (hvalid : isValidName name = true) :
    Volume.findDirectory parent name true missing store =
      .ok store.nextId (store.madeDirectory parent name) := by
  simp [Volume.findDirectory, Volume.makeDirectory, Volume.makeOrFind, attempt,
    lookup_of_directory? h, hfree, mkdir_made h hfree hvalid]

theorem findDirectory_broken (h : store.directory? parent = none) :
    ∃ e, IsMissing e ∧ ∀ name mayCreate missing,
      Volume.findDirectory parent name mayCreate missing store = .error e store := by
  obtain ⟨e, he, hlookup⟩ := lookup_of_none h
  refine ⟨e, he, fun name mayCreate missing => ?_⟩
  simp [Volume.findDirectory, hlookup]

theorem makeRecord_made (h : store.directory? dir = some d) (hfree : d.find? name = none)
    (hvalid : isValidName name = true) :
    Volume.makeRecord dir name store = .ok store.nextId (store.madeRecord dir name) := by
  simp [Volume.makeRecord, Volume.makeOrFind, attempt, create_made h hfree hvalid]

end FindDirectory

section RemoveEntry

variable {e : DirEntry} {target : MemObject}

theorem removeEntry_absent (h : store.directory? dir = some d) (hfree : d.find? name = none) :
    Volume.removeEntry dir name store = .error Volume.attrNotFound store := by
  simp [Volume.removeEntry, lookup_of_directory? h, hfree]

theorem removeEntry_dead (h : store.directory? dir = some d) (he : d.find? name = some e)
    (hdead : store.object? e.target = none) :
    Volume.removeEntry dir name store = .error objectNotFound store := by
  simp [Volume.removeEntry, lookup_of_directory? h, he, stat_of_none hdead]

theorem removeEntry_directory (hlinked : store.Linked) (h : store.directory? dir = some d)
    (he : d.find? name = some e) (htarget : store.object? e.target = some target)
    (hkind : target.body.isDirectory = true) :
    Volume.removeEntry dir name store = .ok () store := by
  simp [Volume.removeEntry, lookup_of_directory? h, he, stat_of_object? htarget,
    hlinked.isDirectory_stat htarget, hkind]

theorem removeEntry_notPrivate (hlinked : store.Linked) (h : store.directory? dir = some d)
    (he : d.find? name = some e) (htarget : store.object? e.target = some target)
    (hkind : target.body.isDirectory = false) (hprivate : target.isPrivate = false) :
    Volume.removeEntry dir name store = .error Volume.entryNotPrivate store := by
  have hstat : target.stat.isPrivate = false := hprivate
  simp [Volume.removeEntry, lookup_of_directory? h, he, stat_of_object? htarget,
    hlinked.isDirectory_stat htarget, hkind, hstat]

theorem removeEntry_file (hlinked : store.Linked) (h : store.directory? dir = some d)
    (he : d.find? name = some e) (htarget : store.object? e.target = some target)
    (hkind : target.body.isDirectory = false) (hprivate : target.isPrivate = true) :
    Volume.removeEntry dir name store = .ok () (store.detach dir e target) := by
  have hstat : target.stat.isPrivate = true := hprivate
  obtain ⟨owner, howner, hbody⟩ := directory?_eq_some_iff.mp h
  have hok : store.unlink dir name = .ok (store.detach dir e target) :=
    unlink_eq_ok_iff.mpr ⟨owner, d, e, target, howner, hbody, he, htarget, hkind, rfl⟩
  simp [Volume.removeEntry, lookup_of_directory? h, he, stat_of_object? htarget,
    hlinked.isDirectory_stat htarget, hkind, hstat, ObjectStore.unlink, update, hok]

inductive EntryRemoval (store : MemStore) (dir : ObjectId) (name : String) :
    EStateM.Result Error MemStore Unit → Prop
  | refused (err : Error) : EntryRemoval store dir name (.error err store)
  | spared {d : Directory} {e : DirEntry} {target : MemObject} (hdir : store.directory? dir = some d)
      (hfind : d.find? name = some e) (htarget : store.object? e.target = some target)
      (hkind : target.body.isDirectory = true) : EntryRemoval store dir name (.ok () store)
  | removed {owner : MemObject} {d : Directory} {e : DirEntry} {target : MemObject}
      (hfind : d.find? name = some e) (hleaf : store.IsLeaf dir owner d e target)
      (hkind : target.body.isDirectory = false) (hprivate : target.isPrivate = true) :
      EntryRemoval store dir name (.ok () (store.detach dir e target))

theorem entryRemoval (hlinked : store.Linked) (dir : ObjectId) (name : String) :
    EntryRemoval store dir name (Volume.removeEntry dir name store) := by
  cases hdir : store.directory? dir with
  | none =>
    obtain ⟨err, _, hlookup⟩ := lookup_of_none hdir
    rw [Volume.removeEntry, bind_apply, hlookup]
    exact .refused err
  | some d =>
    cases hfind : d.find? name with
    | none =>
      rw [removeEntry_absent hdir hfind]
      exact .refused _
    | some e =>
      cases htarget : store.object? e.target with
      | none =>
        rw [removeEntry_dead hdir hfind htarget]
        exact .refused _
      | some target =>
        cases hkind : target.body.isDirectory with
        | true =>
          rw [removeEntry_directory hlinked hdir hfind htarget hkind]
          exact .spared hdir hfind htarget hkind
        | false =>
          cases hprivate : target.isPrivate with
          | false =>
            rw [removeEntry_notPrivate hlinked hdir hfind htarget hkind hprivate]
            exact .refused _
          | true =>
            obtain ⟨owner, hleaf⟩ := hlinked.isLeaf hdir hfind htarget hkind
            rw [removeEntry_file hlinked hdir hfind htarget hkind hprivate]
            exact .removed hfind hleaf hkind hprivate

end RemoveEntry

section Content

variable {object : MemObject} {record : ObjectId}

theorem object?_setContent (h : store.object? record = some object) (content : Bytes)
    (x : ObjectId) :
    (store.setContent record content).object? x =
      if x = record then some (withContent content object) else store.object? x := by
  rw [setContent, object?_mapObject _ _ (id_withContent content)]
  split
  . next heq => rw [heq, h, Option.map_some]
  . rfl

theorem setContent_setContent (store : MemStore) (record : ObjectId) (content content' : Bytes) :
    (store.setContent record content).setContent record content' =
      store.setContent record content' :=
  mapObject_mapObject store record fun _ => rfl

theorem setContent_eq_self (hids : store.HasDistinctIds)
    (hobject : store.object? record = some object) {content : Bytes}
    (hbody : object.body = .file content) : store.setContent record content = store := by
  refine mapObject_eq_self hids hobject ?_
  rw [withContent, ← hbody]

theorem sameLinks_setContent (h : store.Linked) {old : Bytes}
    (hobject : store.object? record = some object) (hbody : object.body = .file old)
    (content : Bytes) : store.SameLinks (store.setContent record content) := by
  refine .mapObject h.ids_distinct (fun _ => rfl) fun object' hobject' => ?_
  rw [hobject] at hobject'
  injection hobject' with hobject'
  subst hobject'
  constructor
  . rfl
  . rfl
  . rfl
  . simp [withContent, hbody, Body.isDirectory]
  . simp [withContent, hbody, Body.ordinary]
  . intro dir dir' id parent hdir
    rw [hbody] at hdir
    simp at hdir

theorem write_append (front page rest : Bytes) (h : page.length ≤ rest.length) :
    Bytes.write (front ++ rest) front.length page = front ++ page ++ rest.drop page.length := by
  have hfits : ¬ (front ++ rest).length < front.length + page.length := by
    rw [List.length_append]
    omega
  unfold Bytes.write
  simp only [hfits, if_false, Bytes.overlay_eq]
  rw [List.take_left, List.drop_append, List.drop_of_length_le (by omega), Nat.add_sub_cancel_left]
  simp

theorem writePage_eq_ok (hids : store.HasDistinctIds) (hobject : store.object? record = some object)
    {index : Nat} {front page rest : Bytes} (hbody : object.body = .file (front ++ rest))
    (hfront : front.length = index * store.pageSize) (hrest : page.length ≤ rest.length) :
    store.writePage record index 0 page =
      .ok (store.setContent record (front ++ page ++ rest.drop page.length)) := by
  refine writePage_eq_ok_iff.mpr ⟨object, _, hobject, hbody, ?_⟩
  apply mapObject_congr hids hobject
  rw [hbody, Body.write, Nat.add_zero, ← hfront, write_append front page rest hrest]
  rfl

theorem writePage_eq (hids : store.HasDistinctIds) (hobject : store.object? record = some object)
    (hfault : store.writeFault = none) {index : Nat} {front page rest : Bytes}
    (hbody : object.body = .file (front ++ rest)) (hfront : front.length = index * store.pageSize)
    (hpage : page.length ≤ store.pageSize) (hrest : page.length ≤ rest.length) :
    ObjectStore.writePage record index 0 page store =
      .ok () (store.setContent record (front ++ page ++ rest.drop page.length)) := by
  have hok := writePage_eq_ok hids hobject hbody hfront hrest
  have hfits : ¬ store.pageSize < page.length := by omega
  simp [ObjectStore.writePage, writePageFaulty, hfits, hfault, update, hok]

/-- A file in the middle of `writePages`: `front` is there, and `rest` stands where the pages of `data` come.
Only the last page may be short, so `index` tells where a page begins as long as there is `data` left. -/
structure IsWriting (store : MemStore) (record : ObjectId) (size index : Nat)
    (front rest data : Bytes) : Prop where
  pageSize_eq : store.pageSize = size
  ids_distinct : store.HasDistinctIds
  file : ∃ object, store.object? record = some object ∧ object.body = .file (front ++ rest)
  rest_length : data.length = rest.length
  front_length : data ≠ [] → front.length = index * size

namespace IsWriting

variable {size index : Nat} {front rest data : Bytes}

theorem start (hids : store.HasDistinctIds) (hobject : store.object? record = some object)
    (old image : Bytes) :
    (store.setContent record (old.resize image.length)).IsWriting record store.pageSize 0 []
      (old.resize image.length) image where
  pageSize_eq := rfl
  ids_distinct := hasDistinctIds_mapObject hids record (id_withContent _)
  file := ⟨_, (object?_setContent hobject _ record).trans (if_pos rfl), rfl⟩
  rest_length := (Bytes.length_resize ..).symm
  front_length _ := by simp

theorem size_pos (h : store.IsWriting record size index front rest data) : 0 < size :=
  h.pageSize_eq ▸ Nat.zero_lt_of_lt store.headerSize_lt_pageSize

theorem take_le (h : store.IsWriting record size index front rest data) :
    (data.take size).length ≤ rest.length := by
  rw [List.length_take, ← h.rest_length]
  exact Nat.min_le_right ..

theorem next (h : store.IsWriting record size index front rest data) (hdata : data ≠ []) :
    (store.setContent record
      (front ++ data.take size ++ rest.drop (data.take size).length)).IsWriting record size
        (index + 1) (front ++ data.take size) (rest.drop (data.take size).length)
        (data.drop size) where
  pageSize_eq := h.pageSize_eq
  ids_distinct := hasDistinctIds_mapObject h.ids_distinct record (id_withContent _)
  file := by
    obtain ⟨object, hobject, _⟩ := h.file
    exact ⟨_, (object?_setContent hobject _ record).trans (if_pos rfl), rfl⟩
  rest_length := by
    have hrest := h.rest_length
    simp only [List.length_drop, List.length_take]
    omega
  front_length := by
    intro hleft
    have hlong : size < data.length := by
      simpa using hleft
    rw [List.length_append, h.front_length hdata, List.length_take,
      Nat.min_eq_left (Nat.le_of_lt hlong), Nat.succ_mul]

end IsWriting

theorem writePages_eq {size index : Nat} {front rest data : Bytes}
    (h : store.IsWriting record size index front rest data) (hfault : store.writeFault = none) :
    Volume.writePages record index (data.chunks size) store =
      .ok () (store.setContent record (front ++ data)) := by
  have hpos : size ≠ 0 := Nat.ne_of_gt h.size_pos
  fun_induction Bytes.chunks data size generalizing store front rest index with
  | case1 data hdone =>
    obtain rfl : data = [] := by simpa [hpos] using hdone
    obtain rfl : rest = [] := List.length_eq_zero_iff.mp h.rest_length.symm
    obtain ⟨object, hobject, hbody⟩ := h.file
    rw [Volume.writePages, pure_apply, setContent_eq_self h.ids_distinct hobject hbody]
  | case2 data hmore ih =>
    have hdata : data ≠ [] := fun hnil => hmore (.inl hnil)
    obtain ⟨object, hobject, hbody⟩ := h.file
    have hstep := writePage_eq h.ids_distinct hobject hfault hbody
      (h.pageSize_eq ▸ h.front_length hdata) (h.pageSize_eq ▸ List.length_take_le size data) h.take_le
    rw [Volume.writePages, bind_apply, hstep]
    refine (ih (h.next hdata) hfault).trans ?_
    rw [setContent_setContent, List.append_assoc, List.take_append_drop]

theorem apply_resize (object : MemObject) (size : Nat) :
    object.apply (.resize size) = { object with body := object.body.resize size } := by
  have hmask (size : Nat) (field : FieldMask) :
      (AttrChange.resize size).fields.has field = FieldMask.size.has field := rfl
  have hsize : FieldMask.size.has .size = true := by decide
  have huid : FieldMask.size.has .uid = false := by decide
  have hgid : FieldMask.size.has .gid = false := by decide
  have hctime : FieldMask.size.has .ctime = false := by decide
  have hmode : FieldMask.size.has .mode = false := by decide
  simp only [MemObject.apply, hmask, hsize, huid, hgid, hctime, hmode, if_true,
    Bool.false_eq_true, if_false]
  rfl

theorem setAttr_resize (hids : store.HasDistinctIds) (hobject : store.object? record = some object)
    {old : Bytes} (hbody : object.body = .file old) (size : Nat) :
    ObjectStore.setAttr record (.resize size) store =
      .ok () (store.setContent record (old.resize size)) := by
  have hok : store.setAttr record (.resize size) =
      .ok (store.setContent record (old.resize size)) := by
    refine setAttr_eq_ok_iff.mpr ⟨object, hobject, by simp [hbody, Body.isDirectory], ?_⟩
    apply mapObject_congr hids hobject
    rw [apply_resize, hbody]
    rfl
  simp [ObjectStore.setAttr, update, hok]

theorem writeImage_eq (hids : store.HasDistinctIds) (hobject : store.object? record = some object)
    (hfault : store.writeFault = none) {old : Bytes} (hbody : object.body = .file old)
    (image : Bytes) :
    Volume.writeImage record image store = .ok () (store.setContent record image) := by
  have hpages := writePages_eq (.start hids hobject old image) hfault
  rw [setContent_setContent] at hpages
  rw [Volume.writeImage, bind_apply, setAttr_resize hids hobject hbody image.length]
  exact hpages

end Content

end MemStore

end AttrTree
