import AttrTree.Proofs.Harmless

/-!
This module contains what the cache of a volume is worth in any state that a store can be brought into:
a directory in it is where its key leads to, or has gone. Then its number is not given out again.
-/

namespace AttrTree

open Action

namespace MemStore

variable {store store' : MemStore} {root dir : ObjectId} {key : ObjectKey}

def Homed (root : ObjectId) (key : ObjectKey) (dir : ObjectId) (store : MemStore) : Prop :=
  dir < store.nextId ∧ ∀ d, store.directory? dir = some d → store.child? root key.text = some dir

theorem keptInPlace_homed (root : ObjectId) (key : ObjectKey) (dir : ObjectId) :
    KeptInPlace (Homed root key dir) where
  keeps store store' _ _ hkeeps h := by
    refine ⟨Nat.lt_of_lt_of_le h.1 hkeeps.nextId_le, fun d' hdir' => ?_⟩
    obtain ⟨d, hdir⟩ := hkeeps.back h.1 hdir'
    exact hkeeps.directories key.isDots_text (h.2 d hdir) hdir'

theorem Linked.homed (h : store.Linked) (hchild : store.child? root key.text = some dir) :
    store.Homed root key dir := by
  obtain ⟨d, e, hdir, he, _, rfl⟩ := (h.child?_eq_some_iff key.isDots_text).mp hchild
  exact ⟨h.target_lt hdir e he, fun _ _ => hchild⟩

end MemStore

namespace Volume

open MemStore

variable {volume rest : Volume MemStore} {stat : ObjectStat} {key : ObjectKey} {name : String}
  {root dir : ObjectId}

structure Reliable (volume : Volume MemStore) : Prop where
  linked : volume.store.Linked
  cached : ∀ ⦃key dir⦄, volume.cache.peek? key = some dir → volume.privateRoot.isSome = true
    ∧ ∃ root, volume.attrRoot = some root ∧ volume.store.Homed root key dir

theorem keptInPlace_cached (volume : Volume MemStore) :
    KeptInPlace fun store => ∀ key dir, volume.cache.peek? key = some dir →
      volume.privateRoot.isSome = true
        ∧ ∃ root, volume.attrRoot = some root ∧ store.Homed root key dir where
  keeps store store' hlinked hlinked' hkeeps hs key dir hpeek := by
    obtain ⟨hpriv, root, hroot, hhomed⟩ := hs key dir hpeek
    exact ⟨hpriv, root, hroot, (keptInPlace_homed root key dir).keeps hlinked hlinked' hkeeps hhomed⟩

theorem reliable_withStore {store : MemStore} : Reliable { volume with store } ↔
    store.Linked ∧ ∀ key dir, volume.cache.peek? key = some dir →
      volume.privateRoot.isSome = true
        ∧ ∃ root, volume.attrRoot = some root ∧ store.Homed root key dir :=
  ⟨fun h => ⟨h.linked, h.cached⟩, fun h => ⟨h.1, h.2⟩⟩

theorem keptByCalls_reliable (volume : Volume MemStore) :
    KeptByCalls fun store => Reliable { volume with store } := by
  simpa only [reliable_withStore] using (keptInPlace_cached volume).calls

namespace Reliable

theorem withCache (h : volume.Reliable) {cache : DirCache}
    (hcache : ∀ ⦃key dir⦄, cache.peek? key = some dir → volume.cache.peek? key = some dir) :
    Reliable { volume with cache } :=
  ⟨h.linked, fun _ _ hpeek => h.cached (hcache hpeek)⟩

theorem looked (h : volume.Reliable) (key : ObjectKey) :
    Reliable { volume with cache := (volume.cache.get? key).2 } :=
  h.withCache fun _ _ hpeek => by simpa using hpeek

theorem erased (h : volume.Reliable) (key : ObjectKey) :
    Reliable { volume with cache := volume.cache.erase key } := by
  refine h.withCache fun key' dir hpeek => ?_
  rw [DirCache.peek?_erase] at hpeek
  split at hpeek
  . cases hpeek
  . exact hpeek

theorem inserted (h : volume.Reliable) (hpriv : volume.privateRoot.isSome = true)
    (hroot : volume.attrRoot = some root) (hchild : volume.store.child? root key.text = some dir) :
    Reliable { volume with cache := volume.cache.insert key dir } := by
  refine ⟨h.linked, fun key' dir' hpeek => ?_⟩
  obtain ⟨rfl, rfl⟩ | hpeek := DirCache.peek?_of_insert hpeek
  . exact ⟨hpriv, root, hroot, h.linked.homed hchild⟩
  . exact h.cached hpeek

end Reliable

theorem keeps_findDirectory_reliable (volume : Volume MemStore) (parent : ObjectId) (name : String)
    (mayCreate : Bool) (missing : Error) :
    Keeps (fun store => Reliable { volume with store }) (findDirectory parent name mayCreate missing) :=
  keeps_findDirectory ((keptByCalls_reliable volume).lookup parent name)
    (fun _ => (keptByCalls_reliable volume).mkdir ..) missing

theorem keeps_openAttrRoot_reliable (mayCreate : Bool) : Keeps Reliable (openAttrRoot mayCreate) := by
  refine ⟨fun volume hs => ?_⟩
  have hexit := attrRootExit volume mayCreate
  unfold after
  generalize openAttrRoot mayCreate volume = result at hexit
  cases hexit with
  | nowhere => exact hs
  | known => exact hs
  | @found priv root store _ hroot hfind =>
    have hend := (keeps_findDirectory_reliable volume priv attrRootName mayCreate noAttrRoot).holds _ hs
    rw [after_of_ok hfind] at hend
    refine ⟨hend.linked, fun key dir hpeek => ?_⟩
    obtain ⟨_, root', hroot', _⟩ := hs.cached hpeek
    rw [hroot] at hroot'
    cases hroot'
  | @failed priv err store _ _ hfind =>
    have hend := (keeps_findDirectory_reliable volume priv attrRootName mayCreate noAttrRoot).holds _ hs
    rwa [after_of_error hfind] at hend

theorem keeps_openDirectory_reliable (stat : ObjectStat) (flags : SetFlags) :
    Keeps Reliable (openDirectory stat flags) := by
  refine ⟨fun volume hs => ?_⟩
  have hlooked := hs.looked stat.key
  cases hcache : (volume.cache.get? stat.key).1 with
  | some dir => rwa [after_of_ok (openDirectory_cached hcache flags)]
  | none =>
    suffices hfollows : FollowsAt (recached id) Reliable (openDirectory stat flags) volume from
      hfollows.keeps
    refine .congr (openDirectory_eq hcache flags) (openDirectory_eq hcache flags) ?_
    have hopens : Follows (recached id) Reliable (openAttrRoot flags.allowsCreate) :=
      .of_keeps (keeps_openAttrRoot_reliable _)
    refine (hopens.at hlooked).bind fun root middle hopen hmiddle => ?_
    obtain ⟨hpriv, hroot⟩ := openAttrRoot_ok hopen
    refine (followsAt_onStore (keeps_findDirectory_reliable middle root stat.key.text
      flags.allowsCreate noDirectory) hmiddle).bind fun dir last hfind hlast => ?_
    obtain ⟨store, hfound, rfl⟩ := onStore_eq_ok_iff.mp hfind
    exact ⟨rfl, hlast.inserted hpriv hroot (child?_of_findDirectory hmiddle.linked hfound)⟩

theorem Reliable.homed_of_openDirectory {flags : SetFlags} (h : volume.Reliable)
    (hopen : openDirectory stat flags volume = .ok dir rest) :
    ∃ root, rest.store.Homed root stat.key dir := by
  have hlooked := h.looked stat.key
  cases hcache : (volume.cache.get? stat.key).1 with
  | some found =>
    rw [openDirectory_cached hcache flags] at hopen
    injection hopen with hdir hrest
    rw [DirCache.get?_fst] at hcache
    split at hcache
    . cases hcache
    . obtain ⟨_, root, _, hhomed⟩ := h.cached hcache
      exact ⟨root, by rwa [← hdir, ← hrest]⟩
  | none =>
    rw [openDirectory_eq hcache flags] at hopen
    obtain ⟨root, middle, hroot, hopen⟩ := bind_eq_ok_iff.mp hopen
    obtain ⟨found, last, hfind, hopen⟩ := bind_eq_ok_iff.mp hopen
    obtain ⟨store, hfound, rfl⟩ := onStore_eq_ok_iff.mp hfind
    cases hopen
    have hmiddle := (keeps_openAttrRoot_reliable flags.allowsCreate).holds _ hlooked
    rw [after_of_ok hroot] at hmiddle
    have hlast := (keeps_findDirectory_reliable middle root stat.key.text flags.allowsCreate
      noDirectory).holds _ hmiddle
    rw [after_of_ok hfound] at hlast
    exact ⟨root, hlast.linked.homed (child?_of_findDirectory hmiddle.linked hfound)⟩

theorem keeps_removeRecord_reliable (stat : ObjectStat) (name : String) :
    Keeps Reliable (removeRecord stat name) :=
  .bind (.ofExcept _) fun _ => .bind (keeps_openDirectory_reliable stat .looking) fun dir =>
    keeps_onStore fun volume => keeps_removeEntry
      (keptByCalls_reliable volume).toKeptByLooking ((keptByCalls_reliable volume).unlink dir name)

theorem keeps_prune_reliable (stat : ObjectStat) (dir : ObjectId) :
    Keeps Reliable (prune stat dir) :=
  .bind (keeps_onStore fun volume => keeps_hasEntries (keptByCalls_reliable volume).toKeptByLooking dir)
    fun _ => .ite (.pure ()) <| .bind (keeps_openAttrRoot_reliable false) fun _ =>
      .bind (.modify fun _ hs => hs.erased stat.key) fun _ =>
        keeps_onStore fun volume => (keptByCalls_reliable volume).rmdir _ _ stat.key.isDots_text

theorem followedByParts_reliable : FollowedByParts id Reliable where
  looking volume := (keptByCalls_reliable volume).toKeptByLooking
  findDirectory stat := .of_keeps (keeps_openDirectory_reliable stat .looking)
  removeRecord stat name := .of_keeps (keeps_removeRecord_reliable stat name)
  prune stat dir := .of_keeps (keeps_prune_reliable stat dir)
  adding volume := (keptByCalls_reliable volume).toKeptByAdding
  options _ _ _ hs := ⟨hs.linked, hs.cached⟩
  privateRoot _ _ _ _ _ _ _ hs := ⟨hs.linked, fun _ _ hpeek => ⟨rfl, (hs.cached hpeek).2⟩⟩
  openDirectory stat flags := .of_keeps (keeps_openDirectory_reliable stat flags)

theorem keeps_perform_reliable (op : Op) : Keeps Reliable op.perform := by
  refine op.keeps_of_parts followedByParts_reliable keptByCalls_reliable (fun volume op => ?_)
    fun volume options capacity hs => ⟨hs.linked, nofun⟩
  simpa only [reliable_withStore] using (keptInPlace_cached volume).perform op

theorem reliable_run (ops : List Op) (h : volume.Reliable) : (run ops volume).Reliable :=
  run_of_keeps (fun op _ => keeps_perform_reliable op) h

theorem reliable_initial (pageSize : Nat) (format : ObjectFormat) (h : Record.headerSize < pageSize)
    (options : MountOptions) (cacheCapacity : Nat) :
    Reliable (initial pageSize format h options cacheCapacity) :=
  ⟨linked_empty .., nofun⟩

end Volume

end AttrTree
