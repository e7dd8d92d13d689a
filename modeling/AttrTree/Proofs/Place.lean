import AttrTree.Proofs.Cache
import AttrTree.Proofs.Outcome

/-!
This module contains where a volume over the store in memory looks for the attributes of an object,
and what it finds there or makes. Four things can be the case: there is a directory for the object,
there is none, there is no attribute root either, or the way to them is broken.
-/

namespace AttrTree

namespace Volume

open Action MemStore

variable {volume : Volume MemStore} {stat : ObjectStat} {key : ObjectKey} {dir : ObjectId}
  {d : Directory} {flags : SetFlags}

def attrRoot? (volume : Volume MemStore) : Option ObjectId :=
  volume.privateRoot.bind fun priv => volume.attrRoot.or (volume.store.child? priv attrRootName)

def directory? (volume : Volume MemStore) (key : ObjectKey) : Option ObjectId :=
  (volume.cache.get? key).1.or
    (volume.attrRoot?.bind fun root => volume.store.child? root key.text)

def record? (volume : Volume MemStore) (key : ObjectKey) (name : String) : Option ObjectId :=
  (volume.directory? key).bind fun dir => volume.store.child? dir name

def looked (volume : Volume MemStore) (key : ObjectKey) : Volume MemStore :=
  { volume with
    cache := (volume.cache.get? key).2
    attrRoot := volume.attrRoot?.or volume.attrRoot }

def opened (volume : Volume MemStore) (key : ObjectKey) (dir : ObjectId) : Volume MemStore :=
  match (volume.cache.get? key).1 with
  | some _ => { volume with cache := (volume.cache.get? key).2 }
  | none => { volume.looked key with cache := (volume.cache.get? key).2.insert key dir }

def made (volume : Volume MemStore) (store : MemStore) (key : ObjectKey) (root dir : ObjectId) :
    Volume MemStore :=
  { volume with
    store
    cache := (volume.cache.get? key).2.insert key dir
    attrRoot := some root }

def IsBroken (volume : Volume MemStore) (key : ObjectKey) : Prop :=
  (volume.cache.get? key).1 = none ∧ (volume.privateRoot = none
    ∨ (∃ priv, volume.privateRoot = some priv ∧ volume.attrRoot = none
      ∧ volume.store.directory? priv = none)
    ∨ ∃ root, volume.attrRoot? = some root ∧ volume.store.directory? root = none)

inductive Whereabouts (volume : Volume MemStore) (key : ObjectKey) : Prop
  | found (dir : ObjectId) (h : volume.directory? key = some dir)
  | noDirectory (root : ObjectId) (d : Directory) (hcache : (volume.cache.get? key).1 = none)
      (hroot : volume.attrRoot? = some root) (hdir : volume.store.directory? root = some d)
      (hfree : d.find? key.text = none)
  | noAttrRoot (priv : ObjectId) (d : Directory) (hcache : (volume.cache.get? key).1 = none)
      (hpriv : volume.privateRoot = some priv) (hroot : volume.attrRoot = none)
      (hdir : volume.store.directory? priv = some d) (hfree : d.find? attrRootName = none)
  | broken (h : volume.IsBroken key)

theorem whereabouts (volume : Volume MemStore) (key : ObjectKey) : volume.Whereabouts key := by
  cases hcache : (volume.cache.get? key).1 with
  | some dir => exact .found dir (by simp [directory?, hcache])
  | none =>
    cases hpriv : volume.privateRoot with
    | none => exact .broken ⟨hcache, .inl hpriv⟩
    | some priv =>
      cases hroot : volume.attrRoot? with
      | none =>
        have hnone : volume.attrRoot = none ∧ volume.store.child? priv attrRootName = none := by
          simpa [attrRoot?, hpriv, Option.or_eq_none_iff] using hroot
        cases hdir : volume.store.directory? priv with
        | none => exact .broken ⟨hcache, .inr (.inl ⟨priv, hpriv, hnone.1, hdir⟩)⟩
        | some d =>
          refine .noAttrRoot priv d hcache hpriv hnone.1 hdir ?_
          simpa [child?_of_directory? hdir] using hnone.2
      | some root =>
        cases hdir : volume.store.directory? root with
        | none => exact .broken ⟨hcache, .inr (.inr ⟨root, hroot, hdir⟩)⟩
        | some d =>
          cases hchild : d.find? key.text with
          | none => exact .noDirectory root d hcache hroot hdir hchild
          | some e =>
            exact .found e.target (by
              simp [directory?, hcache, hroot, child?_of_directory? hdir, hchild])

section OpenAttrRoot

theorem openAttrRoot_eq (volume : Volume MemStore) {root : ObjectId}
    (h : volume.attrRoot? = some root) (mayCreate : Bool) :
    openAttrRoot mayCreate volume = .ok root { volume with attrRoot := some root } := by
  obtain ⟨priv, hpriv, h⟩ := Option.bind_eq_some_iff.mp h
  rcases Option.eq_none_or_eq_some volume.attrRoot with hroot | ⟨root', hroot⟩
  . rw [hroot, Option.none_or] at h
    obtain ⟨d, e, hdir, he, rfl⟩ := child?_eq_some_iff.mp h
    simp [openAttrRoot, hpriv, hroot, onStore, focus, findDirectory_found hdir he]
  . obtain rfl : root' = root := by simpa [hroot] using h
    have hsame : { volume with attrRoot := some root' } = volume := by
      rw [← hroot]
    rw [hsame]
    simp [openAttrRoot, hpriv, hroot]

theorem openAttrRoot_unknown {σ : Type} [ObjectStore σ] {volume : Volume σ} {priv : ObjectId}
    (hpriv : volume.privateRoot = some priv) (hroot : volume.attrRoot = none) (mayCreate : Bool) :
    openAttrRoot mayCreate volume =
      (do
        let id ← onStore (findDirectory priv attrRootName mayCreate noAttrRoot)
        modify fun volume => { volume with attrRoot := some id }
        return id : Action (Volume σ) ObjectId) volume := by
  simp [openAttrRoot, hpriv, hroot]

theorem openAttrRoot_absent (volume : Volume MemStore) {priv : ObjectId}
    (hpriv : volume.privateRoot = some priv)
    (hroot : volume.attrRoot = none) (hdir : volume.store.directory? priv = some d)
    (hfree : d.find? attrRootName = none) :
    openAttrRoot false volume = .error noAttrRoot volume := by
  have hsame : { volume with privateRoot := some priv, attrRoot := none } = volume := by
    rw [← hpriv, ← hroot]
  simpa [openAttrRoot, hpriv, hroot, onStore, focus, findDirectory_absent hdir hfree] using hsame

theorem openAttrRoot_made (volume : Volume MemStore) {priv : ObjectId}
    (hpriv : volume.privateRoot = some priv)
    (hroot : volume.attrRoot = none) (hdir : volume.store.directory? priv = some d)
    (hfree : d.find? attrRootName = none) :
    openAttrRoot true volume = .ok volume.store.nextId { volume with
      store := volume.store.madeDirectory priv attrRootName
      attrRoot := some volume.store.nextId } := by
  have hvalid : isValidName attrRootName = true := by decide
  simp [openAttrRoot, hpriv, hroot, onStore, focus, findDirectory_made hdir hfree hvalid]

end OpenAttrRoot

section OpenDirectory

theorem openDirectory_found (h : volume.directory? stat.key = some dir) (flags : SetFlags) :
    openDirectory stat flags volume = .ok dir (volume.opened stat.key dir) := by
  unfold directory? at h
  rw [openDirectory, bind_apply, cachedDirectory?_eq]
  cases hcache : (volume.cache.get? stat.key).1 with
  | some dir' =>
    obtain rfl : dir' = dir := by simpa [hcache] using h
    simp [opened, hcache]
  | none =>
    simp only [hcache, Option.none_or] at h
    obtain ⟨root, hroot, hchild⟩ := Option.bind_eq_some_iff.mp h
    obtain ⟨d, e, hdir, he, rfl⟩ := child?_eq_some_iff.mp hchild
    have hopen := openAttrRoot_eq { volume with cache := (volume.cache.get? stat.key).2 }
      hroot flags.allowsCreate
    simp [opened, hcache, looked, hopen, hroot, onStore, focus, findDirectory_found hdir he]

theorem attrRoot?_eq_none {priv : ObjectId} (hpriv : volume.privateRoot = some priv)
    (hroot : volume.attrRoot = none) (hdir : volume.store.directory? priv = some d)
    (hfree : d.find? attrRootName = none) : volume.attrRoot? = none := by
  simp [attrRoot?, hpriv, hroot, child?_of_directory? hdir, hfree]

theorem openDirectory_eq {σ : Type} [ObjectStore σ] {volume : Volume σ}
    (hcache : (volume.cache.get? stat.key).1 = none) (flags : SetFlags) :
    openDirectory stat flags volume =
      (do
        let root ← openAttrRoot flags.allowsCreate
        let dir ← onStore (findDirectory root stat.key.text flags.allowsCreate noDirectory)
        modify fun volume => { volume with cache := volume.cache.insert stat.key dir }
        return dir : Action (Volume σ) ObjectId)
        { volume with cache := (volume.cache.get? stat.key).2 } := by
  -- The call does not get beyond a cache that does not know the directory.
  rw [openDirectory, bind_apply, cachedDirectory?_eq, hcache]

theorem openDirectory_noDirectory {root : ObjectId}
    (hcache : (volume.cache.get? stat.key).1 = none) (hroot : volume.attrRoot? = some root)
    (hdir : volume.store.directory? root = some d) (hfree : d.find? stat.key.text = none)
    (hflags : flags.allowsCreate = false) :
    openDirectory stat flags volume = .error noDirectory (volume.looked stat.key) := by
  have hopen := openAttrRoot_eq { volume with cache := (volume.cache.get? stat.key).2 }
    hroot false
  rw [openDirectory_eq hcache, hflags, bind_apply, hopen]
  simp [onStore, focus, findDirectory_absent hdir hfree, looked, hroot]

theorem openDirectory_noAttrRoot {priv : ObjectId}
    (hcache : (volume.cache.get? stat.key).1 = none) (hpriv : volume.privateRoot = some priv)
    (hroot : volume.attrRoot = none) (hdir : volume.store.directory? priv = some d)
    (hfree : d.find? attrRootName = none) (hflags : flags.allowsCreate = false) :
    openDirectory stat flags volume = .error noAttrRoot (volume.looked stat.key) := by
  have hopen := openAttrRoot_absent
    { volume with cache := (volume.cache.get? stat.key).2 } hpriv hroot hdir hfree
  rw [openDirectory_eq hcache, hflags, bind_apply, hopen]
  simp only [looked, attrRoot?_eq_none hpriv hroot hdir hfree, Option.none_or]

theorem openDirectory_made {root : ObjectId}
    (hcache : (volume.cache.get? stat.key).1 = none) (hroot : volume.attrRoot? = some root)
    (hdir : volume.store.directory? root = some d) (hfree : d.find? stat.key.text = none)
    (hvalid : isValidName stat.key.text = true) (hflags : flags.allowsCreate = true) :
    openDirectory stat flags volume = .ok volume.store.nextId
      (volume.made (volume.store.madeDirectory root stat.key.text) stat.key root
        volume.store.nextId) := by
  have hopen := openAttrRoot_eq { volume with cache := (volume.cache.get? stat.key).2 }
    hroot true
  rw [openDirectory_eq hcache, hflags, bind_apply, hopen]
  simp [onStore, focus, findDirectory_made hdir hfree hvalid, made]

theorem openDirectory_broken (h : volume.IsBroken stat.key) :
    ∃ e rest, (e = noPrivateRoot ∨ IsMissing e) ∧ rest.store = volume.store ∧
      ∀ flags, openDirectory stat flags volume = .error e rest := by
  obtain ⟨hcache, hpriv | ⟨priv, hpriv, hroot, hdir⟩ | ⟨root, hroot, hdir⟩⟩ := h
  . refine ⟨noPrivateRoot, { volume with cache := (volume.cache.get? stat.key).2 }, .inl rfl, rfl,
      fun flags => ?_⟩
    rw [openDirectory_eq hcache]
    simp [openAttrRoot, hpriv]
  . obtain ⟨e, he, hfind⟩ := findDirectory_broken hdir
    refine ⟨e, { volume with cache := (volume.cache.get? stat.key).2 }, .inr he, rfl,
      fun flags => ?_⟩
    rw [openDirectory_eq hcache]
    simp [openAttrRoot, hpriv, hroot, onStore, focus, hfind]
  . obtain ⟨e, he, hfind⟩ := findDirectory_broken hdir
    refine ⟨e, { volume with cache := (volume.cache.get? stat.key).2, attrRoot := some root },
      .inr he, rfl, fun flags => ?_⟩
    have hopen := openAttrRoot_eq { volume with cache := (volume.cache.get? stat.key).2 } hroot
      flags.allowsCreate
    rw [openDirectory_eq hcache, bind_apply, hopen]
    simp [onStore, focus, hfind]

theorem directory?_of_openDirectory {rest : Volume MemStore} (hflags : flags.allowsCreate = false)
    (h : openDirectory stat flags volume = .ok dir rest) :
    volume.directory? stat.key = some dir ∧ rest = volume.opened stat.key dir := by
  -- A call that makes nothing succeeds only if there is a directory.
  cases volume.whereabouts stat.key with
  | found dir' hfound =>
    rw [openDirectory_found hfound] at h
    injection h with hdir hrest
    exact ⟨hdir ▸ hfound, hdir ▸ hrest.symm⟩
  | noDirectory root d hcache hroot hdir hfree =>
    rw [openDirectory_noDirectory hcache hroot hdir hfree hflags] at h
    cases h
  | noAttrRoot priv d hcache hpriv hroot hdir hfree =>
    rw [openDirectory_noAttrRoot hcache hpriv hroot hdir hfree hflags] at h
    cases h
  | broken hbroken =>
    obtain ⟨err, rest', _, _, hopen⟩ := openDirectory_broken hbroken
    rw [hopen] at h
    cases h

theorem store_of_openDirectory_error {err : Error} {rest : Volume MemStore}
    (h : openDirectory stat .looking volume = .error err rest) : rest.store = volume.store := by
  cases volume.whereabouts stat.key with
  | found dir hfound =>
    rw [openDirectory_found hfound] at h
    cases h
  | noDirectory root d hcache hroot hdir hfree =>
    rw [openDirectory_noDirectory hcache hroot hdir hfree rfl] at h
    cases h
    rfl
  | noAttrRoot priv d hcache hpriv hroot hdir hfree =>
    rw [openDirectory_noAttrRoot hcache hpriv hroot hdir hfree rfl] at h
    cases h
    rfl
  | broken hbroken =>
    obtain ⟨_, _, _, hstore, hopen⟩ := openDirectory_broken hbroken
    rw [hopen] at h
    cases h
    exact hstore

end OpenDirectory

section Remembers

def Remembers (volume : Volume MemStore) (key : ObjectKey) (dir : ObjectId) : Prop :=
  (volume.cache.capacity ≠ 0 ∧ volume.cache.peek? key = some dir)
    ∨ (volume.cache.capacity = 0 ∧ ∃ priv root, volume.privateRoot = some priv
      ∧ volume.attrRoot = some root ∧ volume.store.child? root key.text = some dir)

theorem Remembers.directory?_eq (h : volume.Remembers key dir) :
    volume.directory? key = some dir := by
  unfold directory?
  rw [DirCache.get?_fst]
  rcases h with ⟨hroom, hpeek⟩ | ⟨hroom, priv, root, hpriv, hroot, hchild⟩
  . simp [hroom, hpeek]
  . simp [hroom, attrRoot?, hpriv, hroot, hchild]

theorem remembers_opened (h : volume.directory? key = some dir) :
    (volume.opened key dir).Remembers key dir := by
  unfold directory? at h
  unfold opened
  rw [DirCache.get?_fst] at h ⊢
  by_cases hroom : volume.cache.capacity = 0
  . simp only [hroom, if_true, Option.none_or] at h ⊢
    obtain ⟨root, hroot, hchild⟩ := Option.bind_eq_some_iff.mp h
    obtain ⟨priv, hpriv, _⟩ := Option.bind_eq_some_iff.mp hroot
    refine .inr ⟨by simpa using hroom, priv, root, hpriv, ?_, hchild⟩
    simp [looked, hroot]
  . simp only [hroom, if_false] at h ⊢
    cases hpeek : volume.cache.peek? key with
    | some dir' =>
      obtain rfl : dir' = dir := by simpa [hpeek] using h
      exact .inl ⟨by simpa using hroom, by simpa using hpeek⟩
    | none =>
      refine .inl ⟨by simpa using hroom, ?_⟩
      simp [DirCache.peek?_insert_self, hroom]

theorem remembers_made {store : MemStore} {root priv : ObjectId}
    (hpriv : volume.privateRoot = some priv) (hchild : store.child? root key.text = some dir) :
    (volume.made store key root dir).Remembers key dir := by
  by_cases hroom : volume.cache.capacity = 0
  . exact .inr ⟨by rwa [made, DirCache.capacity_insert, DirCache.capacity_get?], priv, root, hpriv, rfl, hchild⟩
  . refine .inl ⟨by rwa [made, DirCache.capacity_insert, DirCache.capacity_get?], ?_⟩
    simp [made, DirCache.peek?_insert_self, hroom]

theorem Remembers.withStore (h : volume.Remembers key dir) {store : MemStore}
    (hkept : ∀ root, volume.store.child? root key.text = some dir →
      store.child? root key.text = some dir) : { volume with store }.Remembers key dir := by
  rcases h with hcached | ⟨hroom, priv, root, hpriv, hroot, hchild⟩
  . exact .inl hcached
  . exact .inr ⟨hroom, priv, root, hpriv, hroot, hkept root hchild⟩

@[simp]
theorem store_opened (volume : Volume MemStore) (key : ObjectKey) (dir : ObjectId) :
    (volume.opened key dir).store = volume.store := by
  unfold opened
  split <;> rfl

end Remembers

end Volume

end AttrTree
