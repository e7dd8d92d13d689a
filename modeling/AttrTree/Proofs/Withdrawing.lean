import AttrTree.Proofs.Clearing
import AttrTree.Proofs.Rehearsing
import AttrTree.Proofs.Serving

/-!
This module contains the removal of an attribute while any call of the store may fail. Up to the call
that takes the entry away nothing is changed, and after it no failure is one of the removal. The attribute
can be set again.
-/

namespace AttrTree

namespace MemStore

open Action

variable {store now : MemStore} {root dir : ObjectId} {home e : DirEntry} {d : Directory}
  {target file : MemObject} {key : ObjectKey} {pruned : Bool}

section Trimmed

inductive Trimmed (store : MemStore) (root : ObjectId) (home : DirEntry) (target : MemObject) :
    Bool → MemStore → Prop
  | stays (fault : Bool) : Trimmed store root home target false { store with rmdirFault := fault }
  | goes : Trimmed store root home target true (store.detach root home target)

theorem trimmed_rmdir {rootDirectory : Directory} (hroot : store.directory? root = some rootDirectory)
    (hfind : rootDirectory.find? key.text = some home) (htarget : store.object? home.target = some target)
    (hbody : target.body = .directory d) :
    ∃ pruned, store.Trimmed root home target pruned ((ObjectStore.rmdir root key.text).after store)
      ∧ (pruned = true → d.isEmpty = true) ∧ (store.rmdirFault = false → pruned = d.isEmpty) := by
  cases hfault : store.rmdirFault with
  | true =>
    have hrun : ObjectStore.rmdir root key.text store =
        .error injectedRmdirFault { store with rmdirFault := false } := by
      simp [ObjectStore.rmdir, rmdirFaulty, hfault]
    exact ⟨false, after_of_error hrun ▸ .stays false, fun h => Bool.noConfusion h, fun h => Bool.noConfusion h⟩
  | false =>
    have hplain : (ObjectStore.rmdir root key.text).after store =
        (update (·.rmdir root key.text)).after store :=
      after_congr (by simp [ObjectStore.rmdir, rmdirFaulty, hfault])
    rw [hplain]
    cases hentries : d.isEmpty with
    | true =>
      obtain ⟨owner, howner, hownerBody⟩ := directory?_eq_some_iff.mp hroot
      have hrmdir : store.rmdir root key.text = .ok (store.detach root home target) :=
        rmdir_eq_ok_iff.mpr ⟨owner, rootDirectory, home, target, d, howner, hownerBody, hfind, htarget, hbody,
          by simpa [Directory.isEmpty] using hentries, rfl⟩
      have hrun : update (·.rmdir root key.text) store = .ok () (store.detach root home target) :=
        update_eq_ok_iff.mpr hrmdir
      exact ⟨true, after_of_ok hrun ▸ .goes, fun _ => rfl, fun _ => rfl⟩
    | false =>
      have hentry : store.getEntry root key.text = .ok home :=
        getEntry_eq_ok_iff.mpr ⟨rootDirectory, hroot, hfind⟩
      have hdirectory : store.getDirectory home.target = .ok d :=
        getDirectory_eq_ok_iff.mpr (directory?_of_object? htarget hbody)
      have hrmdir : store.rmdir root key.text = .error directoryNotEmpty := by
        simp only [MemStore.rmdir, hentry, Except.bind, bind, hdirectory, hentries, Bool.false_eq_true, if_false]
        rfl
      have hrun : update (·.rmdir root key.text) store =
          .error directoryNotEmpty { store with rmdirFault := false } := by
        simp [update, hrmdir, ← hfault]
      exact ⟨false, after_of_error hrun ▸ .stays false, fun h => Bool.noConfusion h, fun _ => rfl⟩

theorem Trimmed.way (h : store.Trimmed root home target pruned now) (hlinked : store.Linked)
    {rootDirectory : Directory} (hroot : store.directory? root = some rootDirectory)
    (hfind : rootDirectory.find? key.text = some home) (htarget : store.object? home.target = some target)
    (hbody : target.body = .directory d) (hempty : pruned = true → d.isEmpty = true) :
    now.Linked ∧ (now.directory? root).isSome = true
      ∧ ∀ ⦃dir⦄, now.child? root key.text = some dir → (now.directory? dir).isSome = true := by
  cases h with
  | stays fault =>
    refine ⟨hlinked.of_sameLinks (.of_objects_eq rfl rfl), ?_, fun dir hchild => ?_⟩
    . exact Option.isSome_of_eq_some hroot
    . have hhome : store.child? root key.text = some home.target :=
        child?_eq_some_iff.mpr ⟨rootDirectory, home, hroot, hfind, rfl⟩
      obtain rfl : home.target = dir := Option.some.inj (hhome.symm.trans hchild)
      exact Option.isSome_of_eq_some (directory?_of_object? htarget hbody)
  | goes =>
    obtain ⟨_, hwf, _⟩ := hlinked.placed hroot
    obtain ⟨hmem, hname⟩ := hwf.mem_ordinary_of_find? key.isDots_text hfind
    obtain ⟨owner, howner, hownerBody⟩ := directory?_eq_some_iff.mp hroot
    have hnone : d.ordinary = [] := by
      simpa [Directory.isEmpty] using hempty rfl
    have hleaf : store.IsLeaf root owner rootDirectory home target :=
      ⟨howner, hownerBody, hmem, htarget, by rw [hbody]; exact hnone⟩
    refine ⟨hlinked.detach hleaf, ?_, fun dir hchild => ?_⟩
    . rw [hleaf.directory?_detach, if_neg hleaf.ne.symm, if_pos rfl]
      rfl
    . rw [child?_detach hlinked hleaf key.isDots_text, if_pos ⟨rfl, hname.symm⟩] at hchild
      cases hchild

end Trimmed

section Withdrawn

structure Withdrawn (store : MemStore) (root dir : ObjectId) (home e : DirEntry) (pruned : Bool)
    (now : MemStore) : Prop where
  object?_file : now.object? e.target = (store.object? e.target).bind unlinked?
  object?_dir : now.object? dir =
    if pruned then none else (store.object? dir).map (·.mapDirectory (·.remove e.offset))
  object?_root : now.object? root =
    if pruned then (store.object? root).map (withoutEntry home.offset 1) else store.object? root
  object?_of_ne : ∀ x, x ≠ e.target → x ≠ dir → x ≠ root → now.object? x = store.object? x
  rest_eq : ∃ fault, now = { store with objects := now.objects, rmdirFault := fault }

variable {owner : MemObject} {rootDirectory : Directory}

theorem Linked.ne_of_home (h : store.Linked) (hleaf : store.IsLeaf dir owner d e file)
    (hkind : file.body.isDirectory = false) (hroot : store.directory? root = some rootDirectory)
    (hmem : home ∈ rootDirectory.ordinary) (hhome : home.target = dir) :
    root ≠ dir ∧ root ≠ e.target := by
  constructor
  . rintro rfl
    exact h.ne_of_entry hroot hmem (hhome ▸ hleaf.directory?) hhome
  . rintro rfl
    obtain ⟨target, htarget, hbody⟩ := directory?_eq_some_iff.mp hroot
    rw [hleaf.target_eq] at htarget
    cases htarget
    rw [hbody] at hkind
    cases hkind

theorem Trimmed.withdrawn (h : (store.detach dir e file).Trimmed root home target pruned now)
    (hlinked : store.Linked) (hleaf : store.IsLeaf dir owner d e file)
    (hkind : file.body.isDirectory = false) (hroot : store.directory? root = some rootDirectory)
    (hmem : home ∈ rootDirectory.ordinary) (hhome : home.target = dir)
    (htarget : (store.detach dir e file).object? dir = some target)
    (hempty : pruned = true → (d.remove e.offset).isEmpty = true) :
    store.Withdrawn root dir home e pruned now := by
  obtain ⟨hrootDir, hrootFile⟩ := hlinked.ne_of_home hleaf hkind hroot hmem hhome
  have hobject := hleaf.object?_detach_file hkind
  have hdir := hobject dir
  rw [if_neg hleaf.ne.symm, if_pos rfl] at hdir
  have hleft := hobject root
  rw [if_neg hrootFile, if_neg hrootDir] at hleft
  cases h with
  | stays fault =>
    constructor
    . exact (hobject e.target).trans (by rw [if_pos rfl, hleaf.target_eq]; rfl)
    . exact hdir.trans (by rw [hleaf.owner_eq]; rfl)
    . exact hleft
    . intro x hx hxd _
      exact (hobject x).trans (by rw [if_neg hx, if_neg hxd])
    . exact ⟨fault, by rw [detach_eq store]⟩
  | goes =>
    obtain ⟨rootOwner, hrootOwner, hrootBody⟩ := directory?_eq_some_iff.mp hroot
    rw [hdir] at htarget
    cases htarget
    have hbody : (owner.mapDirectory (·.remove e.offset)).body = .directory (d.remove e.offset) := by
      rw [MemObject.mapDirectory_of_directory hleaf.body_eq]
    have hnone : (d.remove e.offset).ordinary = [] := by
      simpa [Directory.isEmpty] using hempty rfl
    have hagain : (store.detach dir e file).IsLeaf root rootOwner rootDirectory home
        (owner.mapDirectory (·.remove e.offset)) :=
      ⟨hleft.trans hrootOwner, hrootBody, hmem, hhome ▸ hdir, by rw [hbody]; exact hnone⟩
    have hgone := hagain.object?_detach_directory (by rw [hbody]; rfl)
    rw [hhome] at hgone
    constructor
    . rw [hgone, if_neg hleaf.ne, if_neg hrootFile.symm, hobject, if_pos rfl, hleaf.target_eq]
      rfl
    . rw [hgone, if_pos rfl]
      rfl
    . rw [hgone, if_neg hrootDir, if_pos rfl, hrootOwner]
      rfl
    . intro x hx hxd hxr
      rw [hgone, if_neg hxd, if_neg hxr, hobject, if_neg hx, if_neg hxd]
    . exact ⟨store.rmdirFault, by rw [detach_eq, detach_eq store dir e file]⟩

theorem Withdrawn.identity (h : store.Withdrawn root dir home e pruned now) {x : ObjectId}
    {object' : MemObject} (hobject' : now.object? x = some object') :
    ∃ object, store.object? x = some object ∧ object'.stat.key = object.stat.key
      ∧ object'.format = object.format := by
  have hmapped {f : MemObject → MemObject} {x : ObjectId}
      (hf : ∀ o, (f o).stat.key = o.stat.key ∧ (f o).format = o.format)
      (hfound : (store.object? x).map f = some object') :
      ∃ object, store.object? x = some object ∧ object'.stat.key = object.stat.key
        ∧ object'.format = object.format := by
    obtain ⟨object, hobject, rfl⟩ := Option.map_eq_some_iff.mp hfound
    exact ⟨object, hobject, hf object⟩
  have hremoved (offset : Nat) (o : MemObject) : (o.mapDirectory (·.remove offset)).stat.key = o.stat.key
      ∧ (o.mapDirectory (·.remove offset)).format = o.format := by
    unfold MemObject.mapDirectory
    split <;> exact ⟨rfl, rfl⟩
  by_cases hx : x = e.target
  . rw [hx, h.object?_file] at hobject'
    obtain ⟨object, hobject, hleft⟩ := Option.bind_eq_some_iff.mp hobject'
    obtain ⟨_, _, rfl⟩ := unlinked?_eq_some_iff.mp hleft
    exact ⟨object, hx ▸ hobject, rfl, rfl⟩
  . by_cases hxd : x = dir
    . rw [hxd, h.object?_dir] at hobject'
      split at hobject'
      . cases hobject'
      . exact hxd ▸ hmapped (hremoved e.offset) hobject'
    . by_cases hxr : x = root
      . rw [hxr, h.object?_root] at hobject'
        split at hobject'
        . have hlost (o : MemObject) : (withoutEntry home.offset 1 o).stat.key = o.stat.key
              ∧ (withoutEntry home.offset 1 o).format = o.format := hremoved home.offset o
          exact hxr ▸ hmapped hlost hobject'
        . exact ⟨object', hxr ▸ hobject', rfl, rfl⟩
      . rw [h.object?_of_ne x hx hxd hxr] at hobject'
        exact ⟨object', hobject', rfl, rfl⟩

end Withdrawn

end MemStore

namespace Volume

open Action MemStore

variable {volume rest : Volume MemStore} {root dir obj : ObjectId} {key : ObjectKey} {name : String}
  {stat : ObjectStat} {d : Directory} {e : DirEntry} {object file : MemObject} {registry : Registry}
  {err : Error}

section Withdraw

variable {σ : Type} [ObjectStore σ]

def takeEntry (obj : ObjectId) (name : String) : Action (Volume σ) ObjectStat := do
  let stat ← onStore (ObjectStore.stat obj)
  removeRecord stat name
  return stat

/-- `removeAttribute` up to the call that takes the entry away. -/
def withdraw (registry : Registry) (obj : ObjectId) (name : String) : Action (Volume σ) ObjectStat := do
  let handler ← handlerFor registry obj name
  Action.ofExcept (handler.allowRemoval (← get) name)
  takeEntry obj name

theorem removeAttribute_eq (registry : Registry) (obj : ObjectId) (name : String) :
    (removeAttribute registry obj name : Action (Volume σ) Unit) =
      (do
        let stat ← withdraw registry obj name
        let _ ← (pruneDirectory stat).attempt) := by
  simp only [removeAttribute, withdraw, takeEntry, bind_assoc, pure_bind]

end Withdraw

section Outcome

theorem handlerFor_cases (registry : Registry) (obj : ObjectId) (name : String)
    (volume : Volume MemStore) :
    (∃ err, handlerFor registry obj name volume = .error err volume)
      ∨ (∃ handler, handlerFor registry obj name volume = .ok handler volume)
        ∧ volume.attributesEnabled = true
        ∧ ∃ object, volume.store.object? obj = some object ∧ object.format ≠ .legacy := by
  cases hlink : registry.resolve? name with
  | none => exact .inl ⟨noHandler, by simp [handlerFor, hlink]⟩
  | some link =>
    obtain ⟨hcheck, hfacts⟩ | ⟨err, hcheck, _⟩ := checkObject_cases volume obj
    . exact .inr ⟨⟨link.handler, by simp [handlerFor, hlink, hcheck]⟩, hfacts⟩
    . exact .inl ⟨err, by simp [handlerFor, hlink, hcheck]⟩

theorem withdraw_cases (registry : Registry) (obj : ObjectId) (name : String) (volume : Volume MemStore) :
    (∃ err, withdraw registry obj name volume = .error err volume)
      ∨ withdraw registry obj name volume = takeEntry obj name volume ∧ volume.attributesEnabled = true
        ∧ ∃ object, volume.store.object? obj = some object ∧ object.format ≠ .legacy := by
  obtain ⟨err, hhandler⟩ | ⟨⟨handler, hhandler⟩, hfacts⟩ := handlerFor_cases registry obj name volume
  . exact .inl ⟨err, by simp [withdraw, hhandler]⟩
  . cases hallow : handler.allowRemoval volume name with
    | error err => exact .inl ⟨err, by simp [withdraw, hhandler, hallow]⟩
    | ok _ => exact .inr ⟨by simp [withdraw, hhandler, hallow], hfacts⟩

theorem rehearsed_takeEntry {first : MemStore} (hfirst : volume.store = first) (obj : ObjectId)
    (name : String) :
    volume.Rehearsed (·.store = first) (takeEntry obj name) (takeEntry obj name) := by
  refine (rehearsed_stat hfirst obj).bind fun stat rest hstat => ?_
  obtain ⟨store, hstore, rfl⟩ := onStore_eq_ok_iff.mp hstat
  obtain rfl := state_of_query hstore
  exact (rehearsed_removeRecord hfirst stat name).bind fun _ _ _ => .pure stat

theorem rehearsed_withdraw {first : MemStore} (hfirst : volume.store = first) (registry : Registry)
    (obj : ObjectId) (name : String) :
    volume.Rehearsed (·.store = first) (withdraw registry obj name) (withdraw registry obj name) := by
  refine (rehearsed_handlerFor hfirst registry obj name).bind fun handler rest hhandler => ?_
  obtain rfl : rest = volume := by
    obtain ⟨err, hrun⟩ | ⟨⟨handler', hrun⟩, _⟩ := handlerFor_cases registry obj name volume
    all_goals
      rw [hrun] at hhandler
      cases hhandler
    rfl
  have hallow (script : List Cue) :
      handler.allowRemoval (rest.scripted script) name = handler.allowRemoval rest name := by
    cases handler <;> rfl
  cases hallowed : handler.allowRemoval rest name with
  | error err => exact .of_view fun script => by simp [hallow, hallowed, seen]
  | ok _ =>
    exact .congr (by simp [hallowed]) (fun script => by simp [hallow, hallowed])
      (rehearsed_takeEntry hfirst obj name)

theorem store_of_takeEntry_error (hlinked : volume.store.Linked)
    (h : takeEntry obj name volume = .error err rest) : rest.store = volume.store := by
  cases hobject : volume.store.object? obj with
  | none =>
    simp only [takeEntry, bind_apply, onStore, focus, stat_of_none hobject] at h
    cases h
    rfl
  | some object =>
    simp only [takeEntry, bind_apply, onStore, focus, stat_of_object? hobject] at h
    cases hremove : removeRecord object.stat name volume with
    | error err' rest' =>
      rw [hremove] at h
      cases h
      exact store_of_removeRecord_error hlinked hremove
    | ok _ rest' =>
      rw [hremove] at h
      cases h

theorem takeEntry_ok (hlinked : volume.store.Linked) (hobject : volume.store.object? obj = some object)
    (hname : volume.IsNoDirectory object.stat.key name) (h : takeEntry obj name volume = .ok stat rest) :
    stat = object.stat ∧ ∃ dir owner d e file, volume.directory? object.stat.key = some dir
      ∧ d.find? name = some e ∧ volume.store.IsLeaf dir owner d e file ∧ file.body.isDirectory = false
      ∧ rest = { volume.opened object.stat.key dir with store := volume.store.detach dir e file } := by
  simp only [takeEntry, bind_apply, onStore, focus, stat_of_object? hobject] at h
  cases hremove : removeRecord object.stat name volume with
  | error err rest' =>
    rw [hremove] at h
    cases h
  | ok _ rest' =>
    rw [hremove] at h
    cases h
    refine ⟨rfl, ?_⟩
    cases hvalid : isValidName name with
    | false =>
      obtain ⟨err, hcheck, _⟩ := checkAttrName_of_invalid hvalid
      simp [removeRecord, hcheck] at hremove
    | true =>
      cases hopen : openDirectory object.stat .looking volume with
      | error err middle => simp [removeRecord, checkAttrName_of_valid hvalid, hopen] at hremove
      | ok dir middle =>
        obtain ⟨hfound, rfl⟩ := directory?_of_openDirectory rfl hopen
        rw [removeRecord_eq hvalid hopen] at hremove
        obtain ⟨store, hentry, rfl⟩ := onStore_eq_ok_iff.mp hremove
        rw [store_opened] at hentry
        have hremoval := entryRemoval hlinked dir name
        rw [hentry] at hremoval
        cases hremoval with
        | @spared d e target hdir hfind htarget hkind =>
          have hrecord : volume.record? object.stat.key name = some e.target := by
            simp [record?, hfound, child?_of_directory? hdir, hfind]
          rw [hname hvalid hrecord htarget] at hkind
          cases hkind
        | @removed owner d e file hfind hleaf hkind _ =>
          exact ⟨dir, owner, d, e, file, hfound, hfind, hleaf, hkind, rfl⟩

theorem hasEntries_of_directory? {store : MemStore} (hdir : store.directory? dir = some d) :
    ∃ more, hasEntries dir store = .ok more store ∧ (d.isEmpty = true → more = false) := by
  -- An empty directory has no entry that a scan would begin with.
  rw [hasEntries, bind_apply, Scan.locateEntry_eq hdir]
  cases hslot : d.locate? Directory.lastOffset with
  | none => exact ⟨false, rfl, fun _ => rfl⟩
  | some slot =>
    refine ⟨decide (Directory.parentOffset < slot.offset), rfl, fun hempty => ?_⟩
    have hnone : d.upTo Directory.lastOffset = [] := by
      have hordinary : d.ordinary = [] := by
        simpa [Directory.isEmpty] using hempty
      simp [Directory.upTo, hordinary]
    exact decide_eq_false (Nat.not_lt.mpr (Directory.locate?_of_upTo_nil hnone slot hslot))

variable {rootDirectory : Directory} {home : DirEntry} {target : MemObject}

theorem Serving.prune (h : volume.Serving root stat.key)
    (hroot : volume.store.directory? root = some rootDirectory)
    (hfind : rootDirectory.find? stat.key.text = some home)
    (htarget : volume.store.object? home.target = some target) (hbody : target.body = .directory d) :
    let rest := (Volume.prune stat home.target).after volume
    ∃ pruned, volume.store.Trimmed root home target pruned rest.store
      ∧ (pruned = true → d.isEmpty = true) ∧ (volume.store.rmdirFault = false → pruned = d.isEmpty)
      ∧ rest.Serving root stat.key := by
  intro rest
  obtain ⟨more, hmore, hempty⟩ := hasEntries_of_directory? (directory?_of_object? htarget hbody)
  have hmore' : onStore (hasEntries home.target) volume = .ok more volume :=
    onStore_eq_ok_iff.mpr ⟨_, hmore, rfl⟩
  cases more with
  | true =>
    have hentries : d.isEmpty = false := by
      by_contra hnone
      exact Bool.noConfusion (hempty (Bool.eq_true_of_not_eq_false hnone))
    have hprune : Volume.prune stat home.target volume = .ok () volume := by
      simp [Volume.prune, hmore']
    have hrest : rest = volume := after_of_ok hprune
    rw [hrest]
    exact ⟨false, .stays volume.store.rmdirFault, fun h => Bool.noConfusion h, fun _ => hentries.symm, h⟩
  | false =>
    have hprune : Volume.prune stat home.target volume =
        onStore (ObjectStore.rmdir root stat.key.text)
          { volume with cache := volume.cache.erase stat.key } := by
      simp [Volume.prune, hmore', h.openAttrRoot_eq]
    obtain ⟨pruned, htrimmed, hgone, hstays⟩ := trimmed_rmdir hroot hfind htarget hbody
    have hrest : rest = { volume with
        store := (ObjectStore.rmdir root stat.key.text).after volume.store
        cache := volume.cache.erase stat.key } :=
      (after_congr hprune).trans (after_onStore ..)
    rw [hrest]
    exact ⟨pruned, htrimmed, hgone, hstays, h.erased _⟩

theorem Serving.pruneDirectory (h : volume.Serving root stat.key)
    (hroot : volume.store.directory? root = some rootDirectory)
    (hfind : rootDirectory.find? stat.key.text = some home)
    (htarget : volume.store.object? home.target = some target) (hbody : target.body = .directory d) :
    let rest := (Volume.pruneDirectory stat).after volume
    ∃ pruned, volume.store.Trimmed root home target pruned rest.store
      ∧ (pruned = true → d.isEmpty = true) ∧ (volume.store.rmdirFault = false → pruned = d.isEmpty)
      ∧ rest.Serving root stat.key := by
  have hchild : volume.store.child? root stat.key.text = some home.target :=
    child?_eq_some_iff.mpr ⟨rootDirectory, home, hroot, hfind, rfl⟩
  have hfound := h.directory?_eq.trans hchild
  have hrun : Volume.pruneDirectory stat volume =
      Volume.prune stat home.target (volume.opened stat.key home.target) := by
    rw [Volume.pruneDirectory, bind_apply, openDirectory_found hfound]
  have hstore := store_opened volume stat.key home.target
  rw [after_congr hrun, ← hstore]
  exact (h.opened hfound).prune (by rwa [hstore]) hfind (by rwa [hstore]) hbody

theorem Serving.keptOnTheWay (left : MemStore) (root : ObjectId) (key : ObjectKey) :
    KeptOnTheWay key fun volume => volume.Serving root key ∧ volume.store = left where
  looked _ hs := ⟨hs.1.looked, hs.2⟩
  attrRoot _ _ _ hopen hs := by
    rw [hs.1.openAttrRoot_eq] at hopen
    cases hopen
    exact hs

theorem rehearsed_pruneDirectory {left : MemStore} (h : volume.Serving root stat.key)
    (hleft : volume.store = left) :
    volume.Rehearsed (fun volume => volume.Serving root stat.key ∧ volume.store = left)
      (Volume.pruneDirectory stat) (Volume.pruneDirectory stat) := by
  have hway := Serving.keptOnTheWay left root stat.key
  refine (rehearsed_openDirectory ⟨h, hleft⟩ hway).bind fun dir rest hopen => ?_
  obtain ⟨hfound, rfl⟩ := directory?_of_openDirectory rfl hopen
  exact rehearsed_prune ⟨h.opened hfound, (store_opened ..).trans hleft⟩ hway
    (fun volume hs => ⟨hs.1.erased volume.store, hs.2⟩) dir

theorem Serving.attempt_pruneDirectory (h : volume.Serving root stat.key)
    (hroot : volume.store.directory? root = some rootDirectory)
    (hfind : rootDirectory.find? stat.key.text = some home)
    (htarget : volume.store.object? home.target = some target) (hbody : target.body = .directory d)
    {script : List Cue} (hscript : Cue.Fail script) :
    ∃ (rest : List Cue) (result : Except Error Unit) (last : Volume MemStore) (pruned : Bool),
      (Volume.pruneDirectory stat).attempt (volume.scripted script) = .ok result (last.scripted rest)
      ∧ volume.store.Trimmed root home target pruned last.store
      ∧ (pruned = true → d.isEmpty = true)
      ∧ (rest.length = script.length → volume.store.rmdirFault = false → pruned = d.isEmpty)
      ∧ rest.length ≤ script.length
      ∧ last.Serving root stat.key := by
  obtain ⟨rest, result, last, hrun, ⟨hlength, hplain⟩ | ⟨hlength, hserving, hstore⟩⟩ :=
    (rehearsed_pruneDirectory h rfl).attempt hscript
  . obtain ⟨pruned, htrimmed, hgone, hstays, hserving⟩ := h.pruneDirectory hroot hfind htarget hbody
    have hlast : (Volume.pruneDirectory stat).after volume = last := by
      unfold Action.attempt at hplain
      unfold after
      cases hact : Volume.pruneDirectory stat volume <;> rw [hact] at hplain <;> cases hplain <;> rfl
    rw [hlast] at htrimmed hserving
    exact ⟨rest, result, last, pruned, hrun, htrimmed, hgone, fun _ => hstays, hlength.le, hserving⟩
  . refine ⟨rest, result, last, false, hrun, ?_, nofun, fun heq => absurd heq hlength.ne, hlength.le, hserving⟩
    rw [hstore]
    exact .stays volume.store.rmdirFault

end Outcome

section Removal

def unscripted (volume : Volume (ScriptedStore MemStore)) : Volume MemStore where
  store := volume.store.base
  options := volume.options
  aclFlag := volume.aclFlag
  privateRoot := volume.privateRoot
  attrRoot := volume.attrRoot
  locks := volume.locks
  cache := volume.cache

def Welcomes (volume : Volume MemStore) (registry : Registry) (obj : ObjectId) : Prop :=
  volume.store.writeFault = none → ∀ ⦃object name link value⦄, volume.store.object? obj = some object →
    registry.resolve? name = some link → link.handler.check volume name = .ok () →
    isValidName name = true → link.handler.stores object.body.isDirectory value = true →
    volume.Accepts object.stat.key name → volume.Settable registry obj name value

structure Removed (volume : Volume MemStore) (key : ObjectKey) (name : String) (root dir : ObjectId)
    (home e : DirEntry) (d : Directory) (pruned : Bool) (now : MemStore) : Prop where
  attrRoot?_eq : volume.attrRoot? = some root
  home_eq : (volume.store.directory? root).bind (·.find? key.text) = some home
  target_eq : home.target = dir
  found : volume.directory? key = some dir
  directory?_eq : volume.store.directory? dir = some d
  find?_eq : d.find? name = some e
  withdrawn : volume.store.Withdrawn root dir home e pruned now
  isEmpty_of_pruned : pruned = true → (d.remove e.offset).isEmpty = true

theorem removed_of_takeEntry (hreliable : volume.Reliable) (henabled : volume.attributesEnabled = true)
    (hobj : obj < 2 ^ 64) (hobject : volume.store.object? obj = some object)
    (hformat : object.format ≠ .legacy) (hname : volume.IsNoDirectory object.stat.key name)
    (htake : takeEntry obj name volume = .ok stat rest) {script : List Cue} (hscript : Cue.Fail script) :
    ∃ (left : List Cue) (result : Except Error Unit) (last : Volume MemStore) (root dir : ObjectId)
        (home e : DirEntry) (d : Directory) (pruned : Bool),
      (Volume.pruneDirectory stat).attempt (rest.scripted script) = .ok result (last.scripted left)
      ∧ left.length ≤ script.length
      ∧ volume.Removed object.stat.key name root dir home e d pruned last.store
      ∧ (left.length = script.length → volume.store.rmdirFault = false →
          pruned = (d.remove e.offset).isEmpty)
      ∧ last.Welcomes registry obj := by
  have hlinked := hreliable.linked
  obtain ⟨rfl, dir, owner, d, e, file, hfound, hfind, hleaf, hkind, rfl⟩ :=
    takeEntry_ok hlinked hobject hname htake
  obtain ⟨root, hroot?, hserving, hchild⟩ := hreliable.serving_opened henabled hfound hleaf.directory?
  obtain ⟨rootDirectory, home, hroot, hhome, htarget⟩ := child?_eq_some_iff.mp hchild
  obtain ⟨_, hwf, _⟩ := hlinked.placed hroot
  obtain ⟨hmem, _⟩ := hwf.mem_ordinary_of_find? object.stat.key.isDots_text hhome
  obtain ⟨hrootDir, hrootFile⟩ := hlinked.ne_of_home hleaf hkind hroot hmem htarget
  subst htarget
  have hrootLeft : (volume.store.detach home.target e file).directory? root = some rootDirectory := by
    rw [hleaf.directory?_detach, if_neg hrootFile, if_neg hrootDir, hroot]
  have hserving' : Serving { volume.opened object.stat.key home.target with
      store := volume.store.detach home.target e file } root object.stat.key := by
    refine hserving.withStore ?_
    rw [child?_detach hlinked hleaf object.stat.key.isDots_text, if_neg fun hplace => hrootDir hplace.1,
      store_opened]
  obtain ⟨target, htarget, hbody⟩ : ∃ target,
      (volume.store.detach home.target e file).object? home.target = some target
        ∧ target.body = .directory (d.remove e.offset) :=
    directory?_eq_some_iff.mp (by rw [hleaf.directory?_detach, if_neg hleaf.ne.symm, if_pos rfl])
  obtain ⟨left, result, last, pruned, hrun, htrimmed, hempty, hstays, hlength, hlast⟩ :=
    hserving'.attempt_pruneDirectory hrootLeft hhome htarget hbody hscript
  have hwithdrawn := htrimmed.withdrawn hlinked hleaf hkind hroot hmem rfl htarget hempty
  obtain ⟨hlinked', hlive, hplace⟩ :=
    htrimmed.way (hlinked.detach hleaf) hrootLeft hhome htarget hbody hempty
  refine ⟨left, result, last, root, home.target, home, e, d, pruned, hrun, hlength,
    ⟨hroot?, by rw [hroot]; exact hhome, rfl, hfound, hleaf.directory?, hfind, hwithdrawn, hempty⟩,
    fun heq hfault => hstays heq (by rwa [rmdirFault_detach]), ?_⟩
  intro hfault object' name' link value hobject' hlink hcheck hvalid hstores haccepts
  obtain ⟨object₀, hobject₀, hkey, hformat'⟩ := hwithdrawn.identity hobject'
  obtain rfl : object₀ = object := Option.some.inj (hobject₀.symm.trans hobject)
  exact hlast.settable hlinked' hlive hplace hobj hobject' hkey (hformat'.symm ▸ hformat) hfault hlink hcheck
    hvalid (hkey ▸ haccepts) hstores

variable {script : List Cue}

theorem withdraw_scripted (hlinked : volume.store.Linked) (hscript : Cue.Fail script) (registry : Registry)
    (obj : ObjectId) (name : String) :
    (∃ (err : Error) (rest : Volume MemStore) (left : List Cue),
        withdraw registry obj name (volume.scripted script) = .error err (rest.scripted left)
        ∧ rest.store = volume.store)
      ∨ ∃ (stat : ObjectStat) (rest : Volume MemStore) (left : List Cue),
        withdraw registry obj name (volume.scripted script) = .ok stat (rest.scripted left)
        ∧ Cue.Fail left ∧ left.length = script.length ∧ takeEntry obj name volume = .ok stat rest
        ∧ volume.attributesEnabled = true
        ∧ ∃ object, volume.store.object? obj = some object ∧ object.format ≠ .legacy := by
  obtain ⟨left, hleft, ⟨hlength, hrun⟩ | ⟨_, err, rest, hrun, hrest⟩⟩ :=
    (rehearsed_withdraw rfl registry obj name).run script hscript
  . obtain ⟨err, hplain⟩ | ⟨hplain, hfacts⟩ := withdraw_cases registry obj name volume
    . rw [hplain] at hrun
      exact .inl ⟨err, volume, left, hrun, rfl⟩
    . rw [hplain] at hrun
      cases htake : takeEntry obj name volume with
      | error err rest =>
        rw [htake] at hrun
        exact .inl ⟨err, rest, left, hrun, store_of_takeEntry_error hlinked htake⟩
      | ok stat rest =>
        rw [htake] at hrun
        exact .inr ⟨stat, rest, left, hrun, hleft, hlength, rfl, hfacts⟩
  . exact .inl ⟨err, rest, left, hrun, hrest⟩

variable {pageSize cacheCapacity : Nat} {format : ObjectFormat}
  {hpage : Record.headerSize < pageSize} {options : MountOptions} {ops : List Op}

/-- With a script of failing calls `pruned` is left open, without one it tells whether `d` was empty. -/
theorem removeAttribute_all_or_nothing
    (hrun : run ops (initial pageSize format hpage options cacheCapacity) = volume) (hobj : obj < 2 ^ 64)
    (hname : ∀ ⦃record after target⦄, existingRecord obj name volume = .ok record after →
      volume.store.object? record = some target → target.body.isDirectory = false)
    (hscript : Cue.Fail script) :
    let call := removeAttribute registry obj name (volume.scripted script)
    (∀ err rest, call = .error err rest → rest.store.base = volume.store)
    ∧ ∀ rest, call = .ok () rest →
      ∃ object root dir home e d pruned, volume.store.object? obj = some object
        ∧ volume.Removed object.stat.key name root dir home e d pruned rest.store.base
        ∧ (rest.store.script.length = script.length → volume.store.rmdirFault = false →
            pruned = (d.remove e.offset).isEmpty)
        ∧ rest.unscripted.Welcomes registry obj := by
  intro call
  have hreliable : volume.Reliable := hrun ▸ reliable_run ops (reliable_initial ..)
  have hcall : call = _ := congrFun (removeAttribute_eq registry obj name) (volume.scripted script)
  rw [bind_apply] at hcall
  obtain ⟨err, rest, left, hwithdraw, hrest⟩ | ⟨stat, rest, left, hwithdraw, hleft, hlength, htake, henabled,
    object, hobject, hformat⟩ := withdraw_scripted hreliable.linked hscript registry obj name
  . rw [hwithdraw] at hcall
    refine ⟨fun err' rest' hfailed => ?_, fun rest' hdone => ?_⟩
    . cases hcall.symm.trans hfailed
      exact hrest
    . cases hcall.symm.trans hdone
  . obtain ⟨left', result, last, root, dir, home, e, d, pruned, hprune, hle, hremoved, hstays, hwelcomes⟩ :=
      @removed_of_takeEntry _ _ _ _ _ _ registry hreliable henabled hobj hobject hformat
        (isNoDirectory_of_existingRecord hobject hformat hname) htake left hleft
    simp only [hwithdraw, bind_apply, hprune] at hcall
    refine ⟨fun err' rest' hfailed => ?_, fun rest' hdone => ?_⟩
    . cases hcall.symm.trans hfailed
    . cases hcall.symm.trans hdone
      refine ⟨object, root, dir, home, e, d, pruned, hobject, hremoved, fun heq => hstays ?_, hwelcomes⟩
      exact heq.trans hlength.symm

def failing (op : StoreOp) (e : Error) : Cue where
  op
  id := none
  name := none
  index := none
  skip := 0
  answer := .failure e

theorem removeAttribute_all_or_nothing_kept :
    let volume := run attrRun (initial 16 .current (by decide) .optional 64)
    let call := removeAttribute .standard 3 "user.x" (volume.scripted [failing .rmdir injectedRmdirFault])
    ∃ rest home e d, call = .ok () rest
      ∧ volume.Removed ⟨3, 2⟩ "user.x" 4 5 home e d false rest.store.base
      ∧ (d.remove e.offset).isEmpty = true
      ∧ rest.unscripted.Settable .standard 3 "user.x" [2] := by
  intro volume call
  have hscript : Cue.Fail [failing .rmdir injectedRmdirFault] := by decide
  have hrun : run attrRun (initial 16 .current (by decide) .optional 64) = volume := rfl
  have hset : canBeSet 3 "user.x" [2] .none volume = true := by decide +kernel
  obtain ⟨_, hname, _⟩ := canBeSet_spec hset
  obtain ⟨_, hdone⟩ := @removeAttribute_all_or_nothing volume 3 "user.x" .standard
    [failing .rmdir injectedRmdirFault] 16 64 .current (by decide) .optional attrRun hrun (by decide) hname
    hscript
  have hsucceeds : (removeAttribute .standard 3 "user.x").succeeds
      (volume.scripted [failing .rmdir injectedRmdirFault]) = true := by
    decide +kernel
  obtain ⟨_, hcall⟩ := eq_ok_of_succeeds hsucceeds
  obtain ⟨object, root, dir, home, e, d, pruned, hobject, hremoved, _, hwelcomes⟩ := hdone _ hcall
  have hfile : (volume.store.object? 3).all (·.stat.key = ⟨3, 2⟩) = true := by decide +kernel
  rw [hobject, Option.all_some, decide_eq_true_eq] at hfile
  rw [hfile] at hremoved
  have hroot : volume.attrRoot? = some 4 := by decide +kernel
  have hdir : volume.directory? ⟨3, 2⟩ = some 5 := by decide +kernel
  obtain rfl : 4 = root := Option.some.inj (hroot.symm.trans hremoved.attrRoot?_eq)
  obtain rfl : 5 = dir := Option.some.inj (hdir.symm.trans hremoved.found)
  have hlast : (volume.store.directory? 5).all (fun d =>
      (d.find? "user.x").all fun e => (d.remove e.offset).isEmpty) = true := by
    decide +kernel
  rw [hremoved.directory?_eq, Option.all_some, hremoved.find?_eq, Option.all_some] at hlast
  generalize hend : (removeAttribute .standard 3 "user.x").after
    (volume.scripted [failing .rmdir injectedRmdirFault]) = rest at *
  have hkept : (rest.store.base.object? 5).isSome = true := by
    rw [← hend]
    decide +kernel
  obtain rfl : pruned = false := by
    cases pruned with
    | false => rfl
    | true => simp [hremoved.withdrawn.object?_dir] at hkept
  have hfault : rest.unscripted.store.writeFault = none := by
    rw [← hend]
    decide +kernel
  have hagain : (rest.unscripted.store.object? 3).any (·.stat.key = ⟨3, 2⟩) = true := by
    rw [← hend]
    decide +kernel
  have hcheck : Handler.user.check rest.unscripted "user.x" = .ok () := by
    rw [← hend]
    decide +kernel
  have hgone : rest.unscripted.record? ⟨3, 2⟩ "user.x" = none := by
    rw [← hend]
    decide +kernel
  have hlink : Registry.standard.resolve? "user.x" = some ⟨0, .user⟩ := by decide +kernel
  obtain ⟨object', hobject', hkey⟩ := (Option.any_eq_true _ _).mp hagain
  rw [decide_eq_true_eq] at hkey
  refine ⟨rest, home, e, d, hcall, hremoved, hlast, ?_⟩
  refine hwelcomes hfault hobject' hlink hcheck (by decide) rfl fun record hrecord => ?_
  rw [hkey, hgone] at hrecord
  cases hrecord

def foreignRun : List Op :=
  attrRun ++ [.store (.create 1 "g" 0o644), .store (.link 7 5 "user.g")]

theorem removeAttribute_leaves_foreign :
    let volume := run foreignRun (initial 16 .current (by decide) .optional 64)
    let rest := (removeAttribute .standard 3 "user.x").after volume
    (removeAttribute .standard 3 "user.x").result volume = .ok ()
      ∧ rest.store.writeFault = none
      ∧ Registry.standard.resolve? "user.g" = some ⟨0, .user⟩
      ∧ Handler.user.check rest "user.g" = .ok () ∧ Handler.user.stores false [1] = true
      ∧ (setAttribute .standard 3 "user.g" [1] .none).result rest = .error entryNotPrivate := by
  decide +kernel

end Removal

end Volume

end AttrTree
