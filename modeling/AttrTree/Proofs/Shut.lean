import AttrTree.Proofs.Surveying
import AttrTree.Proofs.Upkeep

/-!
This module contains the volumes that cannot open their private tree: it is not known, or no directory. The
calls on attributes fail on them, and change nothing of what is stored.
-/

namespace AttrTree

open Action MemStore

namespace Volume

variable {volume : Volume MemStore} {obj : ObjectId} {object : MemObject} {name : String}
  {flags : SetFlags} {value : Bytes} {buffer : Buffer} {stat : ObjectStat} {cache : DirCache}
  {err : Error} {α β : Type} {result : EStateM.Result Error (Volume MemStore) α}
  {answer : Except Error α}

def books (volume : Volume MemStore) : Except Error (ObjectKey → Book) :=
  match volume.privateRoot with
  | none => .error noPrivateRoot
  | some priv => (volume.store.getDirectory priv).map fun _ => volume.store.book priv

/-- The volume cannot open its private tree. The one that a mount would find is `Ready`. -/
structure Shut (volume : Volume MemStore) : Prop where
  linked : volume.store.Linked
  ready : volume.store.Ready
  privateRoot : ∀ ⦃priv⦄, volume.privateRoot = some priv →
    volume.store.directory? priv = none ∧ priv < volume.store.nextId
  attrRoot_eq : volume.attrRoot = none
  cache : ∀ key, volume.cache.peek? key = none
  locks_eq : volume.locks = .empty

inductive Refuses (volume : Volume MemStore) :
    EStateM.Result Error (Volume MemStore) α → Except Error α → Prop
  | done {a : α} : Refuses volume (.ok a volume) (.ok a)
  | refused {err err' : Error} {cache : DirCache} (hkind : err.kind = err'.kind)
    (hcache : ∀ key, cache.peek? key = none) :
    Refuses volume (.error err { volume with cache }) (.error err')

def NoBooks (volume : Volume MemStore) (result : EStateM.Result Error (Volume MemStore) α) : Prop :=
  ∃ err cache, volume.books = .error err ∧ err.isNoAttribute = false
    ∧ (∀ key, cache.peek? key = none) ∧ result = .error err { volume with cache }

theorem NoBooks.refuses (h : volume.NoBooks result) (hanswer : ∀ err, volume.books = .error err →
    answer = .error err) : volume.Refuses result answer := by
  obtain ⟨err, cache, hbooks, _, hcache, rfl⟩ := h
  rw [hanswer err hbooks]
  exact .refused rfl hcache

namespace Shut

variable (h : volume.Shut)
include h

theorem withCache (hcache : ∀ key, cache.peek? key = none) :
    ({ volume with cache } : Volume MemStore).Shut :=
  ⟨h.linked, h.ready, h.privateRoot, h.attrRoot_eq, hcache, h.locks_eq⟩

theorem failed (err : Error) :
    volume.Refuses (.error err volume : EStateM.Result Error (Volume MemStore) α) (.error err) :=
  .refused rfl h.cache

theorem after {act : Action (Volume MemStore) α} (hrefuses : volume.Refuses (act volume) answer) :
    (act.after volume).Shut := by
  generalize hresult : act volume = result at hrefuses
  cases hrefuses with
  | done => rwa [after_of_ok hresult]
  | refused _ hcache =>
    rw [after_of_error hresult]
    exact h.withCache hcache

theorem openDirectory (stat : ObjectStat) (flags : SetFlags) :
    volume.NoBooks (openDirectory stat flags volume) := by
  have hcache : (volume.cache.get? stat.key).1 = none := by
    rw [DirCache.get?_fst, h.cache, ite_self]
  have hpeek (key : ObjectKey) : (volume.cache.get? stat.key).2.peek? key = none := by
    rw [DirCache.peek?_get?, h.cache]
  have hopen := openDirectory_eq hcache flags
  cases hpriv : volume.privateRoot with
  | none =>
    refine ⟨noPrivateRoot, _, by simp [books, hpriv], rfl, hpeek, ?_⟩
    rw [hopen]
    simp [openAttrRoot, hpriv]
  | some priv =>
    obtain ⟨err, hmissing, hget⟩ := getDirectory_of_none (h.privateRoot hpriv).1
    have hlookup : ObjectStore.lookup priv attrRootName volume.store = .error err volume.store := by
      simp [ObjectStore.lookup, query, MemStore.lookup, hget, bind, Except.bind]
    have hfind (mayCreate : Bool) :
        findDirectory priv attrRootName mayCreate noAttrRoot volume.store =
          .error err volume.store := by
      simp [findDirectory, hlookup]
    refine ⟨err, _, by simp [books, hpriv, hget, Except.map], ?_, hpeek, ?_⟩
    . obtain rfl | rfl := hmissing <;> rfl
    . rw [hopen]
      simp [openAttrRoot, hpriv, h.attrRoot_eq, onStore, focus, hfind]

theorem books_error : ∃ err, volume.books = .error err := by
  unfold books
  cases hpriv : volume.privateRoot with
  | none => exact ⟨_, rfl⟩
  | some priv =>
    obtain ⟨err, _, hget⟩ := getDirectory_of_none (h.privateRoot hpriv).1
    exact ⟨err, by simp [hget, Except.map]⟩

section Record

variable (hvalid : isValidName name = true)
include hvalid

theorem openRecord (stat : ObjectStat) (flags : SetFlags) :
    volume.NoBooks (openRecord stat name flags volume) := by
  obtain ⟨err, cache, hbooks, hkind, hcache, hopen⟩ := h.openDirectory stat flags
  exact ⟨err, cache, hbooks, hkind, hcache, openRecord_of_error hvalid hopen⟩

theorem removeRecord (stat : ObjectStat) : volume.NoBooks (removeRecord stat name volume) := by
  obtain ⟨err, cache, hbooks, hkind, hcache, hopen⟩ := h.openDirectory stat .looking
  refine ⟨err, cache, hbooks, hkind, hcache, ?_⟩
  rw [Volume.removeRecord, bind_apply, checkAttrName_of_valid hvalid]
  simp only [ofExcept_ok, bind_apply, hopen]

theorem writeValue (hobject : volume.store.object? obj = some object) (hformat : object.format ≠ .legacy)
    (value : Bytes) (flags : SetFlags) : volume.NoBooks (writeValue obj name value flags volume) := by
  obtain ⟨err, cache, hbooks, hkind, hcache, hopen⟩ := h.openRecord hvalid object.stat flags
  exact ⟨err, cache, hbooks, hkind, hcache, Settled.writeValue_of_error hobject hformat hopen value⟩

end Record

theorem bulkDirectory? (hreaches : volume.reaches object.subject = true) :
    volume.NoBooks (bulkDirectory? object.stat volume) := by
  obtain ⟨err, cache, hbooks, hkind, hcache, hopen⟩ := h.openDirectory object.stat .looking
  refine ⟨err, cache, hbooks, hkind, hcache, ?_⟩
  simp [bulkDirectory?_of_reaches hreaches, attempt, hopen, hkind]

section Calls

theorem of_stopped {answer : Except Error (ObjectKey → Book) → Except Error α}
    (hstopped : volume.Stopped result answer) : volume.Refuses result (answer volume.books) := by
  obtain ⟨err, err', hkind, rfl, hanswer⟩ := hstopped
  rw [hanswer]
  exact .refused hkind h.cache

theorem refuses_getAttribute (obj : ObjectId) (name : String) (buffer : Buffer) :
    volume.Refuses ((getAttribute .standard obj name).answering buffer volume)
      (volume.getAnswer volume.books obj name buffer) := by
  obtain hstopped | ⟨object, hobject, hformat, hvalid, hget, hanswer⟩ :=
    getAttribute_cases obj name buffer
  . exact h.of_stopped hstopped
  . obtain ⟨err, cache, hbooks, _, hcache, hopen⟩ := h.openRecord hvalid object.stat .looking
    have hrun : getAttribute .standard obj name (volume, buffer) =
        .error err ({ volume with cache }, buffer) := by
      simp [hget, readValue, onFirst, existingRecord_eq hobject hformat, hopen]
    rw [answering_of_error hrun, hanswer, hbooks]
    exact .refused rfl hcache

theorem refuses_removeAcl (hobject : volume.store.object? obj = some object)
    (hvalid : isValidName name = true) :
    volume.Refuses (Handler.removeAcl obj name volume) (volume.books.map fun _ => ()) := by
  obtain ⟨err, cache, hbooks, hkind, hcache, hremove⟩ := h.removeRecord hvalid object.stat
  have hrun : Handler.removeAcl obj name volume = .error err { volume with cache } := by
    simp [Handler.removeAcl, attempt, removeValue, onStore, focus, stat_of_object? hobject, hremove,
      hkind]
  rw [hrun, hbooks]
  exact .refused rfl hcache

theorem refuses_writeValue (hobject : volume.store.object? obj = some object)
    (hformat : object.format ≠ .legacy) (hvalid : isValidName name = true) (value : Bytes)
    (flags : SetFlags) (written : (ObjectKey → Book) → Except Error Unit) :
    volume.Refuses (Volume.writeValue obj name value flags volume) (volume.books.bind written) := by
  refine (h.writeValue hvalid hobject hformat value flags).refuses fun err hbooks => ?_
  rw [hbooks]
  rfl

theorem refuses_setAttribute (obj : ObjectId) (name : String) (value : Bytes) (flags : SetFlags) :
    volume.Refuses (setAttribute .standard obj name value flags volume)
      (volume.setAnswer volume.books obj name value flags) := by
  obtain hstopped | ⟨object, hobject, hformat, hname, hset, hanswer⟩ :=
    setAttribute_cases obj name value flags
  . exact h.of_stopped hstopped
  . have hvalid := (isAttrName_eq_true_iff.mp hname).1
    rw [hset, hanswer]
    cases aclKind? name with
    | none => exact h.refuses_writeValue hobject hformat hvalid value flags _
    | some kind =>
      cases value with
      | nil => exact h.refuses_removeAcl hobject hvalid
      | cons b value =>
        simp only [List.isEmpty_cons, Bool.false_eq_true, if_false, writeAcl_eq h.linked hobject]
        split
        . exact h.failed _
        . cases Acl.validate (b :: value) with
          | error err => exact h.failed err
          | ok count => exact h.refuses_writeValue hobject hformat hvalid (b :: value) flags _

theorem refuses_removeAttribute (obj : ObjectId) (name : String) :
    volume.Refuses (removeAttribute .standard obj name volume)
      (volume.removeAnswer volume.books obj name) := by
  obtain hstopped | ⟨object, _, hvalid, hremove, hanswer⟩ := removeAttribute_cases obj name
  . exact h.of_stopped hstopped
  . obtain ⟨err, cache, hbooks, _, hcache, hrecord⟩ := h.removeRecord hvalid object.stat
    rw [hremove, hanswer, hbooks]
    simp only [bind_apply, hrecord]
    exact .refused rfl hcache

theorem refuses_listAttributes (obj : ObjectId) (buffer : Buffer) :
    volume.Refuses ((listAttributes .standard obj).answering buffer volume)
      (volume.listAnswer volume.books obj buffer) := by
  have hcheck := checkObject_checkedSubject volume obj
  cases hchecked : volume.checkedSubject obj with
  | error err =>
    rw [hchecked] at hcheck
    have hrun : listAttributes .standard obj (volume, buffer) = .error err (volume, buffer) := by
      simp [Volume.listAttributes, onFirst, listedDirectory?, hcheck]
    have hanswer : volume.listAnswer volume.books obj buffer = .error err := by
      simp [listAnswer, hchecked, bind, Except.bind]
    rw [answering_of_error hrun, hanswer]
    exact h.failed err
  | ok subject =>
    rw [hchecked] at hcheck
    obtain ⟨_, object, hobject, _, rfl⟩ := checkedSubject_eq_ok_iff.mp hchecked
    obtain ⟨err, cache, hbooks, hkind, hcache, hopen⟩ := h.openDirectory object.stat .looking
    have hrun : listAttributes .standard obj (volume, buffer) =
        .error err ({ volume with cache }, buffer) := by
      simp [Volume.listAttributes, onFirst, listedDirectory?, hcheck, onStore, focus,
        stat_of_object? hobject, attempt, hopen, hkind]
    have hanswer : volume.listAnswer volume.books obj buffer = .error err := by
      simp [listAnswer, hchecked, hbooks, bind, Except.bind]
    rw [answering_of_error hrun, hanswer]
    exact .refused rfl hcache

theorem refuses_onAttrDirectory (obj : ObjectId)
    (act : ObjectStat → ObjectId → Action (Volume MemStore) Unit) :
    volume.Refuses (onAttrDirectory obj act volume) (volume.bulkAnswer volume.books obj) := by
  -- It is not known what an attribute directory holds, so nothing is done for any.
  cases hobject : volume.store.object? obj with
  | none =>
    rw [onAttrDirectory_of_none hobject, bulkAnswer_of_none hobject]
    exact h.failed _
  | some object =>
    cases hreaches : volume.reaches object.subject with
    | false =>
      have hanswer : volume.bulkAnswer volume.books obj = .ok () := by
        simp [bulkAnswer, subject?_of_object? hobject, hreaches]
      rw [onAttrDirectory_skipped hobject (bulkDirectory?_of_not_reaches hreaches), hanswer]
      exact .done
    | true =>
      obtain ⟨err, cache, hbooks, _, hcache, hbulk⟩ := h.bulkDirectory? hreaches
      have hanswer : volume.bulkAnswer volume.books obj = .error err := by
        simp [bulkAnswer, subject?_of_object? hobject, hreaches, hbooks, Except.map]
      rw [onAttrDirectory_failed hobject hbulk, hanswer]
      exact .refused rfl hcache

theorem refuses_deleteAttributes (obj : ObjectId) :
    volume.Refuses (deleteAttributes obj volume) (volume.bulkAnswer volume.books obj) :=
  h.refuses_onAttrDirectory obj emptyDirectory

theorem refuses_chownAttributes (obj : ObjectId) (change : AttrChange) :
    volume.Refuses (chownAttributes obj change volume) (volume.bulkAnswer volume.books obj) :=
  h.refuses_onAttrDirectory obj fun _ => chownDirectory change

end Calls

end Shut

end Volume

end AttrTree
