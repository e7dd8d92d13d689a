import AttrTree.Proofs.Key
import AttrTree.Proofs.Record

/-!
This module contains what can come of opening the attribute directory of an object of the store in
memory. Either there is one, or there is none and the store stays as it is, or one is made, which
changes nothing else.
-/

namespace AttrTree

namespace Volume

open Action MemStore

variable {volume rest : Volume MemStore} {stat : ObjectStat} {key : ObjectKey} {name : String}
  {flags : SetFlags} {dir : ObjectId} {d : Directory} {e : DirEntry}

theorem Remembers.of_keepsOthers {store : MemStore} (h : volume.Remembers key dir)
    (hlinked : volume.store.Linked) (hdir : volume.store.directory? dir = some d)
    (hothers : volume.store.KeepsOthers store dir name) :
    { volume with store }.Remembers key dir := by
  apply h.withStore
  intro root hchild
  refine (hothers ?_ hchild).1
  rintro ⟨rfl, _⟩
  obtain ⟨d', e, hdir', hfind, rfl⟩ := child?_eq_some_iff.mp hchild
  obtain ⟨_, hwf, _⟩ := hlinked.placed hdir'
  obtain ⟨hmem, _⟩ := hwf.mem_ordinary_of_find? key.isDots_text hfind
  exact hlinked.ne_of_entry hdir' hmem hdir rfl

section Grown

structure Grown (volume rest : Volume MemStore) (key : ObjectKey) (dir : ObjectId) : Prop where
  linked : rest.store.Linked
  isNew : volume.store.nextId ≤ dir
  directory : ∃ parent, rest.store.directory? dir = some (.fresh dir parent)
  remembers : rest.Remembers key dir
  others : ∀ x n, volume.store.KeepsOthers rest.store x n
  identities : volume.store.KeepsIdentities rest.store
  nextId_le : volume.store.nextId ≤ rest.store.nextId
  writeFault_eq : rest.store.writeFault = volume.store.writeFault

theorem keepsOthers_madeDirectory {store : MemStore} {parent : ObjectId} (h : store.Linked)
    (hdir : store.directory? parent = some d) (hfree : d.find? name = none) (x : ObjectId)
    (n : String) : store.KeepsOthers (store.madeDirectory parent name) x n := by
  obtain ⟨owner, howner, hbody⟩ := directory?_eq_some_iff.mp hdir
  exact keepsOthers_attach h rfl howner hbody hfree 1 x n

theorem grown_made (volume : Volume MemStore) {root priv : ObjectId} (hlinked : volume.store.Linked)
    (hpriv : volume.privateRoot = some priv) (hdir : volume.store.directory? root = some d)
    (hfree : d.find? key.text = none) (hvalid : isValidName key.text = true) :
    volume.Grown (volume.made (volume.store.madeDirectory root key.text) key root
      volume.store.nextId) key volume.store.nextId := by
  obtain ⟨owner, howner, hbody⟩ := directory?_eq_some_iff.mp hdir
  have hdirectory := directory?_madeDirectory hlinked howner hbody key.text
  have hne := hlinked.ne_nextId howner
  constructor
  . exact hlinked.madeDirectory howner hbody hvalid hfree
  . exact Nat.le_refl _
  . exact ⟨root, by rw [made, hdirectory, if_pos rfl]⟩
  . refine remembers_made hpriv ?_
    have hnew : d.contains key.text = false := by
      simp [Directory.contains, hfree]
    have hfind := Directory.find?_insert volume.store.nextId hnew key.text
    rw [if_pos rfl] at hfind
    exact child?_eq_some_iff.mpr ⟨_, _, by rw [hdirectory, if_neg hne, if_pos rfl], hfind, rfl⟩
  . exact keepsOthers_madeDirectory hlinked hdir hfree
  . exact keepsIdentities_attach hlinked rfl howner key.text 1
  . exact Nat.le_succ _
  . rfl

theorem Grown.of_keeps {middle : Volume MemStore} (h : middle.Grown rest key dir)
    (hothers : ∀ x n, volume.store.KeepsOthers middle.store x n)
    (hidentities : volume.store.KeepsIdentities middle.store)
    (hnext : volume.store.nextId ≤ middle.store.nextId)
    (hfault : middle.store.writeFault = volume.store.writeFault) : volume.Grown rest key dir where
  linked := h.linked
  isNew := Nat.le_trans hnext h.isNew
  directory := h.directory
  remembers := h.remembers
  others x n := (hothers x n).trans (h.others x n)
  identities := hidentities.trans h.identities
  nextId_le := Nat.le_trans hnext h.nextId_le
  writeFault_eq := h.writeFault_eq.trans hfault

theorem Grown.objects_ne (h : volume.Grown rest key dir) (hlinked : volume.store.Linked) :
    rest.store.objects ≠ volume.store.objects := by
  intro hobjects
  obtain ⟨parent, hdir⟩ := h.directory
  obtain ⟨object, hobject, _⟩ := directory?_eq_some_iff.mp hdir
  rw [object?_congr hobjects] at hobject
  exact Nat.not_lt.mpr h.isNew (hlinked.id_lt hobject)

theorem grown_made_root {priv : ObjectId} (hlinked : volume.store.Linked)
    (hpriv : volume.privateRoot = some priv) (hdir : volume.store.directory? priv = some d)
    (hfree : d.find? attrRootName = none) (hvalid : isValidName key.text = true)
    {store : MemStore} (hstore : store = volume.store.madeDirectory priv attrRootName) :
    volume.Grown (volume.made (store.madeDirectory volume.store.nextId key.text) key
      volume.store.nextId store.nextId) key store.nextId := by
  obtain ⟨owner, howner, hbody⟩ := directory?_eq_some_iff.mp hdir
  have hvalidRoot : isValidName attrRootName = true := by decide
  have hlinked' : store.Linked := hstore ▸ hlinked.madeDirectory howner hbody hvalidRoot hfree
  have hroot : store.directory? volume.store.nextId = some (.fresh volume.store.nextId priv) := by
    rw [hstore, directory?_madeDirectory hlinked howner hbody, if_pos rfl]
  have hgrown := grown_made { volume with store } hlinked' hpriv hroot
    (Directory.find?_fresh key.isDots_text ..) hvalid
  refine hgrown.of_keeps ?_ ?_ ?_ ?_
  . rw [hstore]
    exact keepsOthers_madeDirectory hlinked hdir hfree
  . rw [hstore]
    exact keepsIdentities_attach hlinked rfl howner attrRootName 1
  . rw [hstore]
    exact Nat.le_succ _
  . rw [hstore]
    rfl

end Grown

section Opening

theorem openDirectory_made_root {priv : ObjectId} (hlinked : volume.store.Linked)
    (hcache : (volume.cache.get? stat.key).1 = none) (hpriv : volume.privateRoot = some priv)
    (hroot : volume.attrRoot = none) (hdir : volume.store.directory? priv = some d)
    (hfree : d.find? attrRootName = none) (hvalid : isValidName stat.key.text = true)
    (hflags : flags.allowsCreate = true) :
    openDirectory stat flags volume = .ok (volume.store.madeDirectory priv attrRootName).nextId
      (volume.made ((volume.store.madeDirectory priv attrRootName).madeDirectory
        volume.store.nextId stat.key.text) stat.key volume.store.nextId
        (volume.store.madeDirectory priv attrRootName).nextId) := by
  obtain ⟨owner, howner, hbody⟩ := directory?_eq_some_iff.mp hdir
  have hopen := openAttrRoot_made { volume with cache := (volume.cache.get? stat.key).2 } hpriv hroot
    hdir hfree
  have hmade : (volume.store.madeDirectory priv attrRootName).directory? volume.store.nextId =
      some (.fresh volume.store.nextId priv) := by
    rw [directory?_madeDirectory hlinked howner hbody, if_pos rfl]
  have hfree' : (Directory.fresh volume.store.nextId priv).find? stat.key.text = none :=
    Directory.find?_fresh stat.key.isDots_text ..
  rw [openDirectory_eq hcache, hflags, bind_apply, hopen]
  simp only [onStore, focus, bind_apply, findDirectory_made hmade hfree' hvalid]
  rfl

inductive Opening (volume : Volume MemStore) (stat : ObjectStat) (flags : SetFlags) : Prop
  | failed (err : Error) (rest : Volume MemStore) (herr : err = noPrivateRoot ∨ IsMissing err)
      (hstore : rest.store = volume.store)
      (hopen : openDirectory stat flags volume = .error err rest) (hbroken : volume.IsBroken stat.key)
  | absent (err : Error) (rest : Volume MemStore) (herr : err = noAttrRoot ∨ err = noDirectory)
      (hstore : rest.store = volume.store)
      (hopen : openDirectory stat flags volume = .error err rest)
      (hnone : volume.directory? stat.key = none) (hflags : flags.allowsCreate = false)
  | found (dir : ObjectId) (h : volume.directory? stat.key = some dir)
  | grown (dir : ObjectId) (rest : Volume MemStore) (hnone : volume.directory? stat.key = none)
      (hgrown : volume.Grown rest stat.key dir) (hflags : flags.allowsCreate = true)
      (hopen : openDirectory stat flags volume = .ok dir rest)
      (hlooking : ∃ err rest', (err = noAttrRoot ∨ err = noDirectory)
        ∧ openDirectory stat .looking volume = .error err rest')

theorem opening (hlinked : volume.store.Linked) (hid : stat.id < 2 ^ 64) (flags : SetFlags) :
    volume.Opening stat flags := by
  have hvalid : isValidName stat.key.text = true := ObjectKey.isValidName_text hid
  cases volume.whereabouts stat.key with
  | found dir h => exact .found dir h
  | broken h =>
    obtain ⟨err, rest, herr, hstore, hopen⟩ := openDirectory_broken h
    exact .failed err rest herr hstore (hopen flags) h
  | noDirectory root d hcache hroot hdir hfree =>
    have hnone : volume.directory? stat.key = none := by
      simp [directory?, hcache, hroot, child?_of_directory? hdir, hfree]
    cases hflags : flags.allowsCreate with
    | false =>
      exact .absent noDirectory (volume.looked stat.key) (.inr rfl) rfl
        (openDirectory_noDirectory hcache hroot hdir hfree hflags) hnone hflags
    | true =>
      obtain ⟨priv, hpriv, _⟩ := Option.bind_eq_some_iff.mp hroot
      exact .grown _ _ hnone (grown_made volume hlinked hpriv hdir hfree hvalid) hflags
        (openDirectory_made hcache hroot hdir hfree hvalid hflags)
        ⟨_, _, .inr rfl, openDirectory_noDirectory hcache hroot hdir hfree rfl⟩
  | noAttrRoot priv d hcache hpriv hroot hdir hfree =>
    have hnone : volume.directory? stat.key = none := by
      simp [directory?, hcache, attrRoot?_eq_none hpriv hroot hdir hfree]
    cases hflags : flags.allowsCreate with
    | false =>
      exact .absent noAttrRoot (volume.looked stat.key) (.inl rfl) rfl
        (openDirectory_noAttrRoot hcache hpriv hroot hdir hfree hflags) hnone hflags
    | true =>
      exact .grown _ _ hnone (grown_made_root hlinked hpriv hdir hfree hvalid rfl) hflags
        (openDirectory_made_root hlinked hcache hpriv hroot hdir hfree hvalid hflags)
        ⟨_, _, .inl rfl, openDirectory_noAttrRoot hcache hpriv hroot hdir hfree rfl⟩

end Opening

end Volume

end AttrTree
