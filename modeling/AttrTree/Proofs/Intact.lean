import AttrTree.Proofs.Access
import AttrTree.Proofs.Book
import AttrTree.Proofs.Mended
import AttrTree.Proofs.Outside

/-!
This module contains the volumes that would be in order if their records were mended, no fault were
planned and all classes of attributes were on. Calls on attributes keep them intact whatever happens, and
change the book of one object at most.
-/

namespace AttrTree

namespace MemStore

variable {store store' store'' : MemStore} {priv id parent root dir record x : ObjectId}
  {key : ObjectKey} {name n : String} {d : Directory} {e : DirEntry} {object owner target : MemObject}
  {made : ObjectId → UInt32 → MemObject}

def KeepsOutside (store store' : MemStore) (priv : ObjectId) : Prop :=
  ∀ ⦃x object⦄, store.object? x = some object → ¬ store.InTree priv x →
    store'.object? x = some object ∧ ¬ store'.InTree priv x

namespace KeepsOutside

theorem refl (store : MemStore) (priv : ObjectId) : store.KeepsOutside store priv :=
  fun _ _ hobject hout => ⟨hobject, hout⟩

theorem trans (h : store.KeepsOutside store' priv) (h' : store'.KeepsOutside store'' priv) :
    store.KeepsOutside store'' priv := by
  intro x object hobject hout
  obtain ⟨hobject', hout'⟩ := h hobject hout
  exact h' hobject' hout'

theorem mapObject (hid : store.InTree priv id) {f : MemObject → MemObject}
    (hf : ∀ object, (f object).id = object.id)
    (hin : ∀ ⦃x⦄, (store.mapObject id f).InTree priv x → store.InTree priv x) :
    store.KeepsOutside (store.mapObject id f) priv := by
  intro x object hobject hout
  refine ⟨?_, fun hx => hout (hin hx)⟩
  rw [object?_mapObject _ _ hf, if_neg, hobject]
  rintro rfl
  exact hout hid

end KeepsOutside

theorem inTree_cases (store : MemStore) (new : ObjectId)
    (hroot : ∀ ⦃root⦄, store'.attrRoot? priv = some root → store.InTree priv root ∨ root = new)
    (hdir : ∀ ⦃key dir⦄, store'.attrDir? priv key = some dir → store.InTree priv dir ∨ dir = new)
    (hrecord : ∀ ⦃key n record⦄, EntryName.isDots n = false →
      store'.attrRecord? priv key n = some record → store.InTree priv record ∨ record = new)
    (hx : store'.InTree priv x) : store.InTree priv x ∨ x = new := by
  cases hx with
  | privateRoot => exact .inl .privateRoot
  | attrRoot h => exact hroot h
  | attrDir h => exact hdir h
  | record hname h => exact hrecord hname h

end MemStore

namespace Volume

open Action MemStore

variable {volume middle rest : Volume MemStore} {priv root dir record : ObjectId} {stat : ObjectStat}
  {key key' : ObjectKey} {name n : String} {books books' : ObjectKey → Book} {content : Bytes}
  {object owner target : MemObject} {d : Directory} {e : DirEntry} {flags : SetFlags}

def mended (volume : Volume MemStore) : Volume MemStore :=
  { volume with store := volume.store.mended, options := .all }

@[simp]
theorem attrRoot?_mended (volume : Volume MemStore) : volume.mended.attrRoot? = volume.attrRoot? := by
  simp [attrRoot?, mended]

@[simp]
theorem directory?_mended (volume : Volume MemStore) (key : ObjectKey) :
    volume.mended.directory? key = volume.directory? key := by
  simp only [directory?, attrRoot?_mended]
  simp [mended]

theorem mended_looked (volume : Volume MemStore) (key : ObjectKey) :
    (volume.looked key).mended = volume.mended.looked key := by
  simp only [looked, attrRoot?_mended]
  rfl

theorem mended_opened (volume : Volume MemStore) (key : ObjectKey) (dir : ObjectId) :
    (volume.opened key dir).mended = volume.mended.opened key dir := by
  have hcache : volume.mended.cache = volume.cache := rfl
  simp only [opened, hcache]
  split
  . rfl
  . simp only [← mended_looked]
    rfl

structure Intact (volume : Volume MemStore) (priv : ObjectId) : Prop where
  settled : volume.mended.Settled priv
  names : ∀ ⦃key n⦄, EntryName.isDots n = false → volume.store.attrRecord? priv key n ≠ none →
    isAttrName n = true

structure Revises (volume rest : Volume MemStore) (priv : ObjectId) (books : ObjectKey → Book) :
    Prop where
  intact : rest.Intact priv
  book_eq : ∀ key, rest.store.book priv key = books key
  locks_eq : rest.locks = volume.locks
  options_eq : rest.options = volume.options
  outside : volume.store.KeepsOutside rest.store priv
  quiet : volume.store.KeepsQuiet rest.store

def withBook (books : ObjectKey → Book) (key : ObjectKey) (book : Book) : ObjectKey → Book :=
  fun key' => if key' = key then book else books key'

theorem withBook_eq_self {book : Book} (h : book = books key) (key' : ObjectKey) :
    withBook books key book key' = books key' := by
  unfold withBook
  split
  . next heq => rw [heq, h]
  . rfl

namespace Revises

theorem refl (h : volume.Intact priv) : volume.Revises volume priv (volume.store.book priv) :=
  ⟨h, fun _ => rfl, rfl, rfl, .refl .., .refl _⟩

theorem trans (h : volume.Revises middle priv books) (h' : middle.Revises rest priv books') :
    volume.Revises rest priv books' :=
  ⟨h'.intact, h'.book_eq, h'.locks_eq.trans h.locks_eq, h'.options_eq.trans h.options_eq,
    h.outside.trans h'.outside, h.quiet.trans h'.quiet⟩

theorem congr (h : volume.Revises rest priv books) (hbooks : ∀ key, books key = books' key) :
    volume.Revises rest priv books' :=
  { h with book_eq := fun key => (h.book_eq key).trans (hbooks key) }

theorem trans_same (h : volume.Revises middle priv books)
    (h' : middle.Revises rest priv (middle.store.book priv)) : volume.Revises rest priv books :=
  (h.trans h').congr h.book_eq

theorem trans_withBook (h : volume.Revises middle priv books) {f : Book → Book}
    (h' : middle.Revises rest priv
      (withBook (middle.store.book priv) key (f (middle.store.book priv key)))) :
    volume.Revises rest priv (withBook books key (f (books key))) := by
  refine (h.trans h').congr fun key' => ?_
  simp only [withBook, h.book_eq]

end Revises

namespace Intact

section Facts

variable (h : volume.Intact priv)
include h

theorem tidy : volume.store.mended.Tidy priv :=
  h.settled.tidy

theorem linked : volume.store.Linked :=
  linked_mended_iff.mp h.tidy.linked

theorem privateRoot_eq : volume.privateRoot = some priv :=
  h.settled.privateRoot_eq

theorem attrRoot?_eq : volume.attrRoot? = volume.store.attrRoot? priv := by
  rw [← attrRoot?_mended, h.settled.attrRoot?_eq]
  exact MemStore.attrRoot?_mended ..

theorem directory?_eq (key : ObjectKey) :
    volume.directory? key = volume.store.attrDir? priv key := by
  rw [← directory?_mended, h.settled.directory?_eq]
  exact attrDir?_mended ..

theorem not_isBroken (key : ObjectKey) : ¬ volume.IsBroken key := by
  have hsame : volume.mended.IsBroken key ↔ volume.IsBroken key := by
    simp only [IsBroken, attrRoot?_mended]
    simp [mended]
  exact fun hbroken => h.settled.not_isBroken key (hsame.mpr hbroken)

theorem attrDir_entry (hdir : volume.store.attrDir? priv key = some dir) :
    ∃ owner d parent, volume.store.object? dir = some owner ∧ owner.isPrivate = true
      ∧ owner.body = .directory d ∧ volume.store.directory? dir = some d ∧ d.WellFormed dir parent
      ∧ d.nextOffset ≤ volume.store.nextId ∧ ∀ e ∈ d.ordinary, e.visible = true := by
  rw [← attrDir?_mended] at hdir
  obtain ⟨owner', d, parent, howner, hprivate, hbody, hdirectory, hwf, hnext, hvisible⟩ :=
    h.tidy.attrDir_entry hdir
  rw [object?_mended, Option.map_eq_some_iff] at howner
  obtain ⟨owner, howner, rfl⟩ := howner
  exact ⟨owner, d, parent, howner, hprivate, MemObject.mended_body_eq_directory_iff.mp hbody,
    by simpa using hdirectory, hwf, hnext, hvisible⟩

theorem file_of_record (hname : EntryName.isDots name = false)
    (hrecord : volume.store.attrRecord? priv key name = some record) :
    ∃ file content, volume.store.object? record = some file ∧ file.isPrivate = true
      ∧ file.nlink = 1 ∧ file.body = .file content ∧ Record.headerSize ≤ content.length := by
  rw [← attrRecord?_mended] at hrecord
  obtain ⟨file', hfile, hprivate, hnlink, value, hbody⟩ := h.tidy.record hname hrecord
  rw [object?_mended, Option.map_eq_some_iff] at hfile
  obtain ⟨file, hfile, rfl⟩ := hfile
  cases hold : file.body with
  | directory d =>
    rw [MemObject.mended, hold] at hbody
    cases hbody
  | file content =>
    rw [MemObject.mended, hold, Body.mended] at hbody
    injection hbody with hmend
    exact ⟨file, content, hfile, hprivate, hnlink, hold, Record.headerSize_le_of_mend hmend⟩

theorem entry (hdir : volume.store.attrDir? priv key = some dir)
    (hdirectory : volume.store.directory? dir = some d) (hmem : e ∈ d.ordinary) :
    EntryName.isDots e.name = false
      ∧ volume.store.attrRecord? priv key e.name = some e.target := by
  have hname : EntryName.isDots e.name = false := by
    obtain ⟨_, hwf, _⟩ := h.linked.placed hdirectory
    exact hwf.isDots_of_mem hmem
  refine ⟨hname, ?_⟩
  rw [attrRecord?_of_attrDir? hdir, h.linked.child?_eq_some_iff hname]
  exact ⟨d, e, hdirectory, hmem, rfl, rfl⟩

theorem content?_book (hname : EntryName.isDots name = false) (key : ObjectKey) :
    (volume.store.book priv key).content? name =
      (volume.store.attrRecord? priv key name).bind volume.store.content? := by
  cases hdir : volume.store.attrDir? priv key with
  | none => simp [book_of_none hdir, Book.content?, attrRecord?, hdir]
  | some dir =>
    obtain ⟨_, d, parent, _, _, _, hdirectory, hwf, _⟩ := h.attrDir_entry hdir
    rw [book_of_some hdir hdirectory, content?_bookOf hwf hname, attrRecord?_of_attrDir? hdir,
      child?_of_directory? hdirectory]
    cases hfind : d.find? name with
    | none => rfl
    | some e =>
      have hrecord : volume.store.attrRecord? priv key name = some e.target := by
        rw [attrRecord?_of_attrDir? hdir, child?_of_directory? hdirectory, hfind]
        rfl
      obtain ⟨file, content, hfile, _, _, hbody, _⟩ := h.file_of_record hname hrecord
      simp [content?_of_object? hfile hbody]

theorem book_congr {store : MemStore} {key : ObjectKey}
    (hdir : store.attrDir? priv key = volume.store.attrDir? priv key)
    (hdirectory : ∀ ⦃dir⦄, volume.store.attrDir? priv key = some dir →
      store.directory? dir = volume.store.directory? dir)
    (hcontent : ∀ ⦃n record⦄, EntryName.isDots n = false →
      volume.store.attrRecord? priv key n = some record →
      store.content? record = volume.store.content? record) :
    store.book priv key = volume.store.book priv key := by
  cases hfound : volume.store.attrDir? priv key with
  | none => rw [book_of_none hfound, book_of_none (hdir.trans hfound)]
  | some dir =>
    obtain ⟨_, d, _, _, _, _, hdirectory', _⟩ := h.attrDir_entry hfound
    rw [book_of_some hfound hdirectory',
      book_of_some (hdir.trans hfound) ((hdirectory hfound).trans hdirectory')]
    apply bookOf_congr
    intro e hmem
    obtain ⟨hname, hrecord⟩ := h.entry hfound hdirectory' hmem
    exact hcontent hname hrecord

end Facts

end Intact

end Volume

end AttrTree
