import AttrTree.Proofs.Outside

/-!
This module contains what the cache of a volume is worth: a directory in it is the one that its key
leads to in the attribute root. Every call sees to that, so that a volume without a cache would have
found the same directory.
-/

namespace AttrTree

namespace MemStore

open Action

variable {store store' : MemStore} {parent id : ObjectId} {name : String}

def KeepsChildren (store store' : MemStore) : Prop :=
  ∀ ⦃x n id⦄, EntryName.isDots n = false → store.child? x n = some id → store'.child? x n = some id

theorem keepsChildren_of_gain (h : store.Linked) (hgain : store.Gain store') :
    store.KeepsChildren store' := by
  intro x n id hn hchild
  -- The name of a new entry did not lead anywhere.
  have hnew {owner : MemObject} {d : Directory} {parent : ObjectId} {name : String}
      (howner : store.object? parent = some owner) (hbody : owner.body = .directory d)
      (hnone : d.find? name = none) : ¬ (x = parent ∧ n = name) := by
    rintro ⟨rfl, rfl⟩
    rw [child?_of_directory? (directory?_of_object? howner hbody), hnone] at hchild
    cases hchild
  cases hgain with
  | same _ hdirectory => exact (child?_congr (hdirectory x) n).trans hchild
  | shown _ => exact (child?_mapObject_setVisible ..).trans hchild
  | attach hisNew howner hbody _ hfree =>
    have hnone := Directory.find?_of_contains hfree
    rw [child?_attach h hisNew howner hbody hnone hn, if_neg (hnew howner hbody hnone)]
    exact hchild
  | addLink htarget hkind howner hbody _ hfree =>
    have hnone := Directory.find?_of_contains hfree
    rw [child?_addLink htarget hkind howner hbody hfree, if_neg (hnew howner hbody hnone)]
    exact hchild

theorem keptByGains {P : MemStore → Prop}
    (hP : ∀ store store' : MemStore, store.KeepsChildren store' → P store → P store') :
    KeptByGains P :=
  fun _ _ hlinked hgain => hP _ _ (keepsChildren_of_gain hlinked hgain)

theorem child?_of_lookup {found : Option ObjectId}
    (h : ObjectStore.lookup parent name store = .ok found store') :
    store' = store ∧ store.child? parent name = found := by
  cases hdir : store.directory? parent with
  | none =>
    obtain ⟨err, _, hmissing⟩ := lookup_of_none hdir
    rw [hmissing name] at h
    cases h
  | some d =>
    rw [lookup_of_directory? hdir] at h
    injection h with hfound hstore
    exact ⟨hstore.symm, (child?_of_directory? hdir name).trans hfound⟩

theorem child?_of_mkdir {mode : UInt32} (hlinked : store.Linked)
    (h : ObjectStore.mkdir parent name mode store = .ok id store') :
    store'.child? parent name = some id := by
  obtain ⟨hvalid, owner, d, howner, hbody, hfree, heq⟩ :=
    mkdir_eq_ok_iff.mp (transact_eq_ok_iff.mp h)
  injection heq with hid hstore
  rw [hstore, hid, child?_attach hlinked (isNew_directory ..) howner hbody
    (Directory.find?_of_contains hfree) (isDots_of_isValidName hvalid)]
  simp

theorem child?_of_create {mode : UInt32} (hlinked : store.Linked)
    (h : ObjectStore.create parent name mode store = .ok id store') :
    store'.child? parent name = some id := by
  obtain ⟨hvalid, owner, d, howner, hbody, hfree, heq⟩ :=
    create_eq_ok_iff.mp (transact_eq_ok_iff.mp h)
  injection heq with hid hstore
  rw [hstore, hid, child?_attach hlinked (isNew_file ..) howner hbody
    (Directory.find?_of_contains hfree) (isDots_of_isValidName hvalid)]
  simp

theorem child?_of_makeRecord (hlinked : store.Linked)
    (h : Volume.makeRecord parent name store = .ok id store') :
    store'.child? parent name = some id := by
  obtain hcreate | ⟨err, later, _, _, hagain⟩ := Volume.makeOrFind_eq_ok_iff.mp h
  . exact child?_of_create hlinked hcreate
  . obtain ⟨rfl, hchild⟩ := child?_of_lookup hagain
    exact hchild

theorem child?_of_findDirectory {mayCreate : Bool} {missing : Error} (hlinked : store.Linked)
    (h : Volume.findDirectory parent name mayCreate missing store = .ok id store') :
    store'.child? parent name = some id := by
  obtain ⟨found, middle, hlookup, hrest⟩ := bind_eq_ok_iff.mp h
  obtain ⟨rfl, hchild⟩ := child?_of_lookup hlookup
  cases found with
  | some id' =>
    cases hrest
    exact hchild
  | none =>
    cases mayCreate with
    | false => cases hrest
    | true =>
      obtain hmkdir | ⟨err, later, _, _, hagain⟩ := Volume.makeDirectory_eq_ok_iff.mp hrest
      . exact child?_of_mkdir hlinked hmkdir
      . obtain ⟨rfl, hchild⟩ := child?_of_lookup hagain
        exact hchild

end MemStore

namespace Volume

open Action MemStore

variable {volume rest : Volume MemStore} {stat : ObjectStat} {key : ObjectKey} {dir root : ObjectId}
  {name : String} {flags : SetFlags}

def KnowsDirectories (volume : Volume MemStore) : Prop :=
  ∀ ⦃key dir⦄, volume.cache.peek? key = some dir → volume.privateRoot.isSome = true
    ∧ ∃ root, volume.attrRoot = some root ∧ volume.store.child? root key.text = some dir

def Coherent (volume : Volume MemStore) : Prop :=
  volume.store.Linked ∧ volume.KnowsDirectories

def HasOpen (key : ObjectKey) (dir : ObjectId) (volume : Volume MemStore) : Prop :=
  volume.store.Linked ∧ volume.KnowsDirectories
    ∧ ∃ root, volume.attrRoot = some root ∧ volume.store.child? root key.text = some dir

theorem HasOpen.coherent (h : HasOpen key dir volume) : volume.Coherent :=
  ⟨h.1, h.2.1⟩

theorem KnowsDirectories.withStore (h : volume.KnowsDirectories) {store : MemStore}
    (hkeeps : ∀ ⦃key root dir⦄, volume.cache.peek? key = some dir → volume.attrRoot = some root →
      volume.store.child? root key.text = some dir → store.child? root key.text = some dir) :
    { volume with store }.KnowsDirectories := by
  intro key dir hpeek
  obtain ⟨hpriv, root, hroot, hchild⟩ := h hpeek
  exact ⟨hpriv, root, hroot, hkeeps hpeek hroot hchild⟩

theorem KnowsDirectories.withCache (h : volume.KnowsDirectories) {cache : DirCache}
    (hcache : ∀ ⦃key dir⦄, cache.peek? key = some dir → volume.cache.peek? key = some dir) :
    { volume with cache }.KnowsDirectories :=
  fun _ _ hpeek => h (hcache hpeek)

section Keeping

theorem keptByAdding_coherent (volume : Volume MemStore) :
    KeptByAdding fun store => Coherent { volume with store } :=
  keptByAdding <| keptByGains fun _ _ hkeeps h =>
    h.withStore fun key _ _ _ _ hchild => hkeeps key.isDots_text hchild

theorem keptByAdding_hasOpen (key : ObjectKey) (dir : ObjectId) (volume : Volume MemStore) :
    KeptByAdding fun store => HasOpen key dir { volume with store } := by
  refine keptByAdding (keptByGains ?_)
  rintro store store' hkeeps ⟨hknows, root, hroot, hchild⟩
  exact ⟨hknows.withStore fun key _ _ _ _ hchild => hkeeps key.isDots_text hchild,
    root, hroot, hkeeps key.isDots_text hchild⟩

theorem keeps_unlink_hasOpen (volume : Volume MemStore) (key : ObjectKey) (dir : ObjectId)
    (name : String) :
    Keeps (fun store => HasOpen key dir { volume with store }) (ObjectStore.unlink dir name) := by
  -- The directory of an object is not the attribute root, so what is unlinked in it is not cached.
  refine .update fun store store' hok hs => ?_
  obtain ⟨hlinked, hknows, root, hroot, hchild⟩ := hs
  obtain ⟨owner, d, e, target, hleaf, _, _, rfl⟩ := hlinked.unlink_cases hok
  have hne : root ≠ dir := by
    rintro rfl
    obtain ⟨d', e', hdir, hmem, _, htarget⟩ :=
      (hlinked.child?_eq_some_iff key.isDots_text).mp hchild
    exact hlinked.ne_of_entry hdir hmem (htarget ▸ hdir) htarget
  have hkeeps (key : ObjectKey) (x : ObjectId) (h : store.child? root key.text = some x) :
      (store.detach dir e target).child? root key.text = some x := by
    rw [child?_detach hlinked hleaf key.isDots_text, if_neg fun hplace => hne hplace.1]
    exact h
  refine ⟨hlinked.detach hleaf, hknows.withStore fun key root' x _ hroot' h => ?_, root, hroot,
    hkeeps key dir hchild⟩
  cases hroot.symm.trans hroot'
  exact hkeeps key x h

theorem keeps_rmdir_coherent (volume : Volume MemStore) (root : ObjectId)
    (hpeek : volume.cache.peek? key = none) :
    Keeps (fun store => Coherent { volume with store }) (ObjectStore.rmdir root key.text) := by
  -- The directory is forgotten before it is removed.
  have hplan (store : MemStore) (hs : Coherent { volume with store }) :
      Coherent { volume with store := { store with rmdirFault := false } } :=
    ⟨hs.1.of_sameLinks (.of_objects_eq rfl rfl), hs.2.withStore fun _ _ _ _ _ h => h⟩
  refine keeps_rmdirFaulty hplan (.update fun store store' hok hs => ?_)
  obtain ⟨hlinked, hknows⟩ := hs
  rcases hlinked.rmdir_cases hok with ⟨hdots, _⟩ | ⟨_, owner, d, e, target, hleaf, hname, _, rfl⟩
  . rw [key.isDots_text] at hdots
    cases hdots
  . refine ⟨hlinked.detach hleaf, hknows.withStore fun key' x dir hpeek' _ hchild => ?_⟩
    have hkey : key' ≠ key := by
      rintro rfl
      rw [hpeek] at hpeek'
      cases hpeek'
    rw [child?_detach hlinked hleaf key'.isDots_text, if_neg]
    . exact hchild
    . rintro ⟨_, htext⟩
      exact hkey (ObjectKey.text_injective (htext.trans hname))

end Keeping

section Opening

def uncached : Volume MemStore → Volume MemStore :=
  recached fun _ => .empty 0

inductive AttrRootExit (volume : Volume MemStore) (mayCreate : Bool) :
    EStateM.Result Error (Volume MemStore) ObjectId → Prop
  | nowhere (hpriv : volume.privateRoot = none) :
    AttrRootExit volume mayCreate (.error noPrivateRoot volume)
  | known {priv root : ObjectId} (hpriv : volume.privateRoot = some priv)
    (hroot : volume.attrRoot = some root) : AttrRootExit volume mayCreate (.ok root volume)
  | found {priv root : ObjectId} {store : MemStore} (hpriv : volume.privateRoot = some priv)
    (hroot : volume.attrRoot = none)
    (hfind : findDirectory priv attrRootName mayCreate noAttrRoot volume.store = .ok root store) :
    AttrRootExit volume mayCreate (.ok root { volume with store, attrRoot := some root })
  | failed {priv : ObjectId} {err : Error} {store : MemStore}
    (hpriv : volume.privateRoot = some priv) (hroot : volume.attrRoot = none)
    (hfind : findDirectory priv attrRootName mayCreate noAttrRoot volume.store = .error err store) :
    AttrRootExit volume mayCreate (.error err { volume with store })

theorem attrRootExit (volume : Volume MemStore) (mayCreate : Bool) :
    AttrRootExit volume mayCreate (openAttrRoot mayCreate volume) := by
  cases hpriv : volume.privateRoot with
  | none =>
    have hrun : openAttrRoot mayCreate volume = .error noPrivateRoot volume := by
      simp [openAttrRoot, hpriv]
    exact hrun ▸ .nowhere hpriv
  | some priv =>
    cases hroot : volume.attrRoot with
    | some root =>
      have hrun : openAttrRoot mayCreate volume = .ok root volume := by
        simp [openAttrRoot, hpriv, hroot]
      exact hrun ▸ .known hpriv hroot
    | none =>
      cases hfind : findDirectory priv attrRootName mayCreate noAttrRoot volume.store with
      | ok root store =>
        have hrun : openAttrRoot mayCreate volume =
            .ok root { volume with store, attrRoot := some root } := by
          simp [openAttrRoot, hpriv, hroot, onStore, focus, hfind]
        exact hrun ▸ .found hpriv hroot hfind
      | error err store =>
        have hrun : openAttrRoot mayCreate volume = .error err { volume with store } := by
          simp [openAttrRoot, hpriv, hroot, onStore, focus, hfind]
        exact hrun ▸ .failed hpriv hroot hfind

theorem openAttrRoot_ok {mayCreate : Bool} (hopen : openAttrRoot mayCreate volume = .ok root rest) :
    rest.privateRoot.isSome = true ∧ rest.attrRoot = some root := by
  have hexit := attrRootExit volume mayCreate
  rw [hopen] at hexit
  cases hexit with
  | known hpriv hroot => exact ⟨by simp [hpriv], hroot⟩
  | found hpriv hroot hfind => exact ⟨by simp [hpriv], rfl⟩

theorem Coherent.looked (h : volume.Coherent) (key : ObjectKey) :
    Coherent { volume with cache := (volume.cache.get? key).2 } :=
  ⟨h.1, h.2.withCache fun _ _ hpeek => by simpa using hpeek⟩

theorem Coherent.inserted (h : volume.Coherent) (hpriv : volume.privateRoot.isSome = true)
    (hroot : volume.attrRoot = some root) (hchild : volume.store.child? root key.text = some dir) :
    Coherent { volume with cache := volume.cache.insert key dir } := by
  refine ⟨h.1, fun key' dir' hpeek => ?_⟩
  obtain ⟨rfl, rfl⟩ | hpeek := DirCache.peek?_of_insert hpeek
  . exact ⟨hpriv, root, hroot, hchild⟩
  . exact h.2 hpeek

theorem Coherent.erased (h : volume.Coherent) (key : ObjectKey) :
    Coherent { volume with cache := volume.cache.erase key } := by
  refine ⟨h.1, h.2.withCache fun key' dir hpeek => ?_⟩
  rw [DirCache.peek?_erase] at hpeek
  split at hpeek
  . cases hpeek
  . exact hpeek

theorem keeps_openAttrRoot_coherent (mayCreate : Bool) :
    Keeps Coherent (openAttrRoot mayCreate) := by
  refine ⟨fun volume hs => ?_⟩
  have hkept (priv : ObjectId) :=
    (@keeps_findDirectory _ _ _ _ _ ((keptByAdding_coherent volume).lookup priv attrRootName)
      mayCreate (fun _ => (keptByAdding_coherent volume).mkdir ..) noAttrRoot).holds volume.store hs
  have hexit := attrRootExit volume mayCreate
  unfold after
  generalize openAttrRoot mayCreate volume = result at hexit
  cases hexit with
  | nowhere => exact hs
  | known => exact hs
  | @found priv root store _ hroot hfind =>
    have hend := hkept priv
    rw [after_of_ok hfind] at hend
    -- Nothing is cached as long as the attribute root is not known.
    refine ⟨hend.1, fun key dir hpeek => ?_⟩
    obtain ⟨_, root', hroot', _⟩ := hs.2 hpeek
    rw [hroot] at hroot'
    cases hroot'
  | @failed priv err store _ _ hfind =>
    have hend := hkept priv
    rw [after_of_error hfind] at hend
    exact hend

theorem follows_openAttrRoot (mayCreate : Bool) :
    Follows uncached Coherent (openAttrRoot mayCreate) := by
  refine .of_run (.getBind (fun _ _ => rfl) fun _ => .bind (.ofOption ..) fun priv =>
    .getBind (fun _ _ => rfl) fun volume => ?_) (keeps_openAttrRoot_coherent mayCreate)
  cases volume.attrRoot with
  | some root => exact .pure root
  | none =>
    exact .bind (follows_onStore fun _ => ⟨fun _ _ => trivial⟩) fun root =>
      .bind (.modify (fun _ _ => rfl) fun _ _ => trivial) fun _ => .pure root

theorem KnowsDirectories.of_get? (h : volume.KnowsDirectories)
    (hcache : (volume.cache.get? key).1 = some dir) : volume.privateRoot.isSome = true
      ∧ ∃ root, volume.attrRoot = some root ∧ volume.store.child? root key.text = some dir := by
  rw [DirCache.get?_fst] at hcache
  split at hcache
  . cases hcache
  . exact h hcache

theorem Coherent.openDirectory_uncached (h : volume.Coherent)
    (hcache : (volume.cache.get? stat.key).1 = some dir) (flags : SetFlags) :
    openDirectory stat flags volume.uncached = .ok dir volume.uncached := by
  obtain ⟨hpriv, root, hroot, hchild⟩ := h.2.of_get? hcache
  obtain ⟨priv, hpriv⟩ := Option.isSome_iff_exists.mp hpriv
  have hknown : volume.uncached.attrRoot? = some root := by
    simp [attrRoot?, uncached, recached, hpriv, hroot]
  have hdir : volume.uncached.directory? stat.key = some dir := by
    simp only [directory?, hknown]
    exact hchild
  have hopened : volume.uncached.opened stat.key dir =
      { volume.uncached with attrRoot := volume.uncached.attrRoot?.or volume.uncached.attrRoot } :=
    rfl
  rw [openDirectory_found hdir flags, hopened, hknown, Option.some_or, ← hroot]
  rfl

theorem openDirectory_cached (hcache : (volume.cache.get? stat.key).1 = some dir)
    (flags : SetFlags) : openDirectory stat flags volume =
      .ok dir { volume with cache := (volume.cache.get? stat.key).2 } := by
  have hdir : volume.directory? stat.key = some dir := by
    simp [directory?, hcache]
  rw [openDirectory_found hdir flags, opened, hcache]

theorem follows_openDirectory (stat : ObjectStat) (flags : SetFlags) :
    Follows uncached Coherent (openDirectory stat flags) := by
  refine .of_at fun volume hs => ?_
  have hlooked := hs.looked stat.key
  cases hcache : (volume.cache.get? stat.key).1 with
  | some dir =>
    exact .of_ok (openDirectory_cached hcache flags) (hs.openDirectory_uncached hcache flags) hlooked
  | none =>
    have hrun : openDirectory stat flags volume.uncached = _ := openDirectory_eq (by rfl) flags
    refine .congr (openDirectory_eq hcache flags) hrun ?_
    refine ((follows_openAttrRoot flags.allowsCreate).at hlooked).bind fun root middle hopen hmiddle => ?_
    obtain ⟨hpriv, hroot⟩ := openAttrRoot_ok hopen
    have hkeeps := @keeps_findDirectory _ _ _ _ _
      ((keptByAdding_coherent middle).lookup root stat.key.text) flags.allowsCreate
      (fun _ => (keptByAdding_coherent middle).mkdir ..) noDirectory
    refine (followsAt_onStore hkeeps hmiddle).bind fun dir last hfind hlast => ?_
    obtain ⟨store, hfound, rfl⟩ := onStore_eq_ok_iff.mp hfind
    have hchild := child?_of_findDirectory hmiddle.1 hfound
    exact ⟨rfl, hlast.inserted hpriv hroot hchild⟩

theorem Coherent.hasOpen (h : volume.Coherent)
    (hopen : openDirectory stat flags volume = .ok dir rest) : rest.HasOpen stat.key dir := by
  have hend := (follows_openDirectory stat flags).keeps.holds volume h
  rw [after_of_ok hopen] at hend
  refine ⟨hend.1, hend.2, ?_⟩
  cases hcache : (volume.cache.get? stat.key).1 with
  | some dir' =>
    rw [openDirectory_cached hcache flags] at hopen
    cases hopen
    exact (h.2.of_get? hcache).2
  | none =>
    rw [openDirectory_eq hcache] at hopen
    obtain ⟨root, middle, hroot, hopen⟩ := bind_eq_ok_iff.mp hopen
    obtain ⟨dir', last, hfind, hopen⟩ := bind_eq_ok_iff.mp hopen
    obtain ⟨store, hfound, rfl⟩ := onStore_eq_ok_iff.mp hfind
    cases hopen
    have hmiddle := (keeps_openAttrRoot_coherent flags.allowsCreate).holds _ (h.looked stat.key)
    rw [after_of_ok hroot] at hmiddle
    exact ⟨root, (openAttrRoot_ok hroot).2, child?_of_findDirectory hmiddle.1 hfound⟩

end Opening

section Parts

theorem follows_removeRecord (stat : ObjectStat) (name : String) :
    Follows uncached Coherent (removeRecord stat name) := by
  refine .bind (.ofExcept _) fun _ => .of_at fun volume hs => ?_
  refine ((follows_openDirectory stat .looking).at hs).bind fun dir rest hopen _ => ?_
  have hremove := keeps_removeEntry (keptByAdding_hasOpen stat.key dir rest).toKeptByLooking
    (keeps_unlink_hasOpen rest stat.key dir name)
  exact (followsAt_onStore hremove (hs.hasOpen hopen)).mono fun _ => HasOpen.coherent

theorem follows_prune (stat : ObjectStat) (dir : ObjectId) :
    Follows uncached Coherent (prune stat dir) := by
  refine .bind (follows_onStore fun volume =>
    keeps_hasEntries (keptByAdding_coherent volume).toKeptByLooking dir) fun more => .ite (.pure ()) ?_
  refine .bind (follows_openAttrRoot false) fun root => .of_at fun volume hs => ?_
  have herase : FollowsAt uncached Coherent
      (modify fun volume => { volume with cache := volume.cache.erase stat.key }) volume :=
    ⟨rfl, hs.erased stat.key⟩
  refine herase.bind fun _ rest hrun hrest => ?_
  cases hrun
  exact followsAt_onStore (keeps_rmdir_coherent _ root (by simp)) hrest

theorem followedByParts_coherent : FollowedByParts (fun _ => .empty 0) Coherent where
  looking volume := (keptByAdding_coherent volume).toKeptByLooking
  findDirectory stat := follows_openDirectory stat .looking
  adding := keptByAdding_coherent
  options _ _ _ hs := hs
  privateRoot _ _ _ _ _ _ _ hs := ⟨hs.1, fun _ _ hpeek => ⟨rfl, (hs.2 hpeek).2⟩⟩
  openDirectory := follows_openDirectory
  removeRecord := follows_removeRecord
  prune := follows_prune

theorem openDirectory_of_bulkDirectory?
    (hfound : bulkDirectory? stat volume = .ok (some dir) rest) :
    openDirectory stat .looking volume = .ok dir rest := by
  obtain ⟨_, _, ⟨⟩, hfound⟩ := bind_eq_ok_iff.mp hfound
  split at hfound
  . cases hfound
  . obtain ⟨result, middle, hopen, hfound⟩ := bind_eq_ok_iff.mp hfound
    unfold attempt at hopen
    cases hrun : openDirectory stat .looking volume with
    | ok dir' last =>
      rw [hrun] at hopen
      cases hopen
      cases hfound
      rfl
    | error err last =>
      rw [hrun] at hopen
      cases hopen
      by_cases hmissing : err.isNoAttribute = true
      . simp [hmissing] at hfound
      . simp [hmissing] at hfound

theorem follows_deleteAttributes_coherent (obj : ObjectId) :
    Follows uncached Coherent (deleteAttributes obj) := by
  -- The directory stays open while its entries are removed.
  refine .bind (follows_stat followedByParts_coherent.toFollowedByReading obj) fun stat => .of_at fun volume hs => ?_
  refine ((follows_bulkDirectory? followedByParts_coherent.toFollowedByReading stat).at hs).bind
    fun found rest hfound hrest => ?_
  cases found with
  | none => exact (Follows.pure ()).at hrest
  | some dir =>
    have hopen := hs.hasOpen (openDirectory_of_bulkDirectory? hfound)
    have hlooking (volume : Volume MemStore) :=
      (keptByAdding_hasOpen stat.key dir volume).toKeptByLooking
    have hvisit : Follows uncached (HasOpen stat.key dir) (visitEntries dir (removeEntry dir)) :=
      follows_visitEntries hlooking dir fun volume name =>
        keeps_removeEntry (hlooking volume) (keeps_unlink_hasOpen volume stat.key dir name)
    refine ((hvisit.attempt.at hopen).mono fun _ => HasOpen.coherent).bind
      fun removed last _ hlast => ?_
    exact ((follows_prune stat dir).attempt.bind fun _ =>
      .bind (.ofExcept removed) fun _ => .ofExcept _).at hlast

end Parts

end Volume

end AttrTree
