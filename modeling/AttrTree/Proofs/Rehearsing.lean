import AttrTree.Attribute.Access
import AttrTree.Proofs.Exclusive
import AttrTree.Proofs.Failing
import AttrTree.Proofs.Reliable

/-!
This module contains calls of a volume over a store that fails now and then: what looks for an attribute,
and what removes one.
-/

namespace AttrTree

namespace Volume

open Action MemStore

variable {volume rest : Volume MemStore} {P : Volume MemStore → Prop} {α : Type} {stat : ObjectStat}
  {dir obj : ObjectId} {name : String}

abbrev Rehearsed (P : Volume MemStore → Prop) (act' : Action (Volume (ScriptedStore MemStore)) α)
    (act : Action (Volume MemStore) α) (volume : Volume MemStore) : Prop :=
  Rehearses (fun script volume => scripted volume script) P act' act volume

theorem rehearsed_onStore {act' : Action (ScriptedStore MemStore) α} {act : Action MemStore α}
    (h : Rehearses ScriptedStore.atop (fun store => P { volume with store }) act' act volume.store) :
    volume.Rehearsed P (onStore act') (onStore act) := by
  refine ⟨fun script hscript => ?_⟩
  obtain ⟨rest, hrest, ⟨hlength, hrun⟩ | ⟨hlength, e, s', hrun, hs'⟩⟩ := h.run script hscript
  . refine ⟨rest, hrest, .inl ⟨hlength, ?_⟩⟩
    have hrun' : act' (volume.scripted script).store = seen (ScriptedStore.atop rest) (act volume.store) :=
      hrun
    simp only [onStore, focus, hrun']
    cases act volume.store <;> rfl
  . refine ⟨rest, hrest, .inr ⟨hlength, e, { volume with store := s' }, ?_, hs'⟩⟩
    have hrun' : act' (volume.scripted script).store = .error e (ScriptedStore.atop rest s') := hrun
    simp only [onStore, focus, hrun']
    rfl

theorem state_of_query {σ : Type} {ask : σ → Except Error α} {a : α} {s s' : σ}
    (h : query ask s = .ok a s') : s' = s := by
  unfold query at h
  split at h
  . cases h
    rfl
  . cases h

structure KeptOnTheWay (key : ObjectKey) (P : Volume MemStore → Prop) : Prop where
  looked : ∀ ⦃volume⦄, P volume → P { volume with cache := (volume.cache.get? key).2 }
  attrRoot : ∀ ⦃volume root rest⦄, openAttrRoot false volume = .ok root rest → P volume → P rest

theorem store_of_findDirectory {store store' : MemStore} {parent id : ObjectId} {missing : Error}
    (h : findDirectory parent name false missing store = .ok id store') : store' = store := by
  obtain ⟨found, middle, hlookup, hrest⟩ := bind_eq_ok_iff.mp h
  obtain ⟨rfl, _⟩ := child?_of_lookup hlookup
  cases found with
  | some id' =>
    cases hrest
    rfl
  | none => cases hrest

theorem keptOnTheWay_store (key : ObjectKey) (first : MemStore) :
    KeptOnTheWay key fun volume => volume.store = first where
  looked _ hs := hs
  attrRoot volume root rest hopen hs := by
    have hexit := attrRootExit volume false
    rw [hopen] at hexit
    cases hexit with
    | known => exact hs
    | found _ _ hfind => exact (store_of_findDirectory hfind).trans hs

section Checking

variable {σ : Type} [ObjectStore σ] {volume : Volume σ} {registry : Registry} {link : HandlerLink}

theorem checkObject_enabled (henabled : volume.attributesEnabled = true) (obj : ObjectId) :
    checkObject obj volume =
      (do
        let _ ← onStore (statWithAttributes obj)
        return : Action (Volume σ) Unit) volume := by
  simp [checkObject, henabled]

theorem handlerFor_resolved (hlink : registry.resolve? name = some link) :
    handlerFor registry obj name volume =
      (do
        checkObject obj
        return link.handler : Action (Volume σ) Handler) volume := by
  simp [handlerFor, hlink]

end Checking

section Looking

variable (hP : P volume)
include hP

theorem rehearsed_stat (id : ObjectId) :
    volume.Rehearsed P (onStore (ObjectStore.stat id)) (onStore (ObjectStore.stat id)) :=
  rehearsed_onStore (ScriptedStore.rehearses_stat (P := fun store => P { volume with store }) hP id)

theorem rehearsed_findDirectory (parent : ObjectId) (name : String) (missing : Error) :
    volume.Rehearsed P (onStore (findDirectory parent name false missing))
      (onStore (findDirectory parent name false missing)) := by
  have hlookup := ScriptedStore.rehearses_lookup (P := fun store => P { volume with store }) hP parent name
  refine rehearsed_onStore (hlookup.bind fun found store _ => ?_)
  cases found with
  | some id => exact .pure id
  | none => exact .throw missing

theorem rehearsed_openAttrRoot : volume.Rehearsed P (openAttrRoot false) (openAttrRoot false) := by
  cases hpriv : volume.privateRoot with
  | none => exact .of_view fun script => by simp [openAttrRoot, scripted, hpriv, seen]
  | some priv =>
    cases hroot : volume.attrRoot with
    | some root => exact .of_view fun script => by simp [openAttrRoot, scripted, hpriv, hroot, seen]
    | none =>
      refine .congr (openAttrRoot_unknown hpriv hroot false)
        (fun script => @openAttrRoot_unknown _ _ (volume.scripted script) _ hpriv hroot false) ?_
      exact (rehearsed_findDirectory hP priv attrRootName noAttrRoot).bind fun id rest _ =>
        .of_view fun _ => rfl

theorem rehearsed_openDirectory (hway : KeptOnTheWay stat.key P) :
    volume.Rehearsed P (openDirectory stat .looking) (openDirectory stat .looking) := by
  have hlooked := hway.looked hP
  cases hcache : (volume.cache.get? stat.key).1 with
  | some dir =>
    refine .of_view fun script => ?_
    simp [openDirectory, cachedDirectory?_eq, scripted, hcache, seen]
  | none =>
    refine .congr (openDirectory_eq hcache .looking)
      (fun script => @openDirectory_eq stat _ _ (volume.scripted script) hcache .looking) ?_
    refine (rehearsed_openAttrRoot hlooked).bind fun root middle hopen => ?_
    have hmiddle := hway.attrRoot hopen hlooked
    exact (rehearsed_findDirectory hmiddle root stat.key.text noDirectory).bind fun dir rest _ =>
      .of_view fun _ => rfl

theorem rehearsed_checkObject (obj : ObjectId) :
    volume.Rehearsed P (checkObject obj) (checkObject obj) := by
  cases henabled : volume.attributesEnabled with
  | false =>
    have henabled' (script : List Cue) : (volume.scripted script).attributesEnabled = false := henabled
    exact .of_view fun script => by simp [checkObject, henabled, henabled', seen]
  | true =>
    refine .congr (checkObject_enabled henabled obj)
      (fun script => @checkObject_enabled _ _ (volume.scripted script) henabled obj) ?_
    refine Rehearses.bind (rehearsed_onStore ?_) fun _ _ _ => .pure ()
    have hstat := ScriptedStore.rehearses_stat (P := fun store => P { volume with store }) hP obj
    refine hstat.bind fun stat store _ => ?_
    cases stat.isLegacy with
    | true => exact .of_view fun _ => rfl
    | false => exact .of_view fun _ => rfl

theorem rehearsed_handlerFor (registry : Registry) (obj : ObjectId) (name : String) :
    volume.Rehearsed P (handlerFor registry obj name) (handlerFor registry obj name) := by
  cases hlink : registry.resolve? name with
  | none => exact .of_view fun script => by simp [handlerFor, hlink, seen]
  | some link =>
    refine .congr (handlerFor_resolved hlink) (fun script => handlerFor_resolved hlink) ?_
    exact (rehearsed_checkObject hP obj).bind fun _ _ _ => .pure _

end Looking

section Removing

theorem rehearses_removeEntry {P : MemStore → Prop} {store : MemStore} (hP : P store) (dir : ObjectId)
    (name : String) : Rehearses ScriptedStore.atop P (removeEntry dir name) (removeEntry dir name) store := by
  refine (ScriptedStore.rehearses_lookup hP dir name).bind fun found middle hlookup => ?_
  obtain rfl := state_of_query hlookup
  refine (Rehearses.ofOption attrNotFound found).bind fun id last hfound => ?_
  have hlast : P last := by
    cases found <;> cases hfound
    exact hP
  refine (ScriptedStore.rehearses_stat hlast id).bind fun target final hstat => ?_
  obtain rfl := state_of_query hstat
  cases target.isDirectory with
  | true => exact .pure ()
  | false =>
    cases target.isPrivate with
    | true => exact ScriptedStore.rehearses_unlink hlast dir name
    | false => exact .of_view fun _ => rfl

theorem rehearsed_removeRecord {first : MemStore} (hfirst : volume.store = first) (stat : ObjectStat)
    (name : String) :
    volume.Rehearsed (·.store = first) (removeRecord stat name) (removeRecord stat name) := by
  cases hcheck : checkAttrName name with
  | error e => exact .of_view fun script => by simp [removeRecord, hcheck, seen]
  | ok _ =>
    have heq {σ : Type} [ObjectStore σ] {volume : Volume σ} : removeRecord stat name volume =
        (openDirectory stat .looking >>= fun dir => onStore (removeEntry dir name)) volume := by
      simp [removeRecord, hcheck]
    refine .congr heq (fun script => heq) ?_
    refine (rehearsed_openDirectory hfirst (keptOnTheWay_store ..)).bind fun dir middle hopen => ?_
    obtain ⟨_, rfl⟩ := directory?_of_openDirectory rfl hopen
    have hmiddle : (volume.opened stat.key dir).store = first := (store_opened ..).trans hfirst
    exact rehearsed_onStore (rehearses_removeEntry (P := (· = first)) hmiddle dir name)

theorem rehearsed_prune (hP : P volume) (hway : KeptOnTheWay stat.key P)
    (herased : ∀ ⦃volume : Volume MemStore⦄, P volume →
      P { volume with cache := volume.cache.erase stat.key }) (dir : ObjectId) :
    volume.Rehearsed P (prune stat dir) (prune stat dir) := by
  -- An emptied directory is removed last, and what was cached for it before.
  have hmore : volume.Rehearsed P (onStore (hasEntries dir)) (onStore (hasEntries dir)) := by
    have hlocate := ScriptedStore.rehearses_locateEntry (P := fun store => P { volume with store }) hP dir
      Directory.lastOffset
    refine rehearsed_onStore (hlocate.bind fun found store _ => ?_)
    cases found with
    | none => exact .pure false
    | some slot => exact .pure (decide (Directory.parentOffset < slot.offset))
  refine hmore.bind fun more middle hrun => ?_
  have hmiddle : P middle := by
    obtain ⟨store, hmore, rfl⟩ := onStore_eq_ok_iff.mp hrun
    obtain ⟨found, last, hlocate, hlast⟩ := bind_eq_ok_iff.mp hmore
    obtain rfl := state_of_query hlocate
    cases found <;> cases hlast <;> exact hP
  cases more with
  | true => exact .pure ()
  | false =>
    refine (rehearsed_openAttrRoot hmiddle).bind fun root rest hopen => ?_
    have hrest := herased (hway.attrRoot hopen hmiddle)
    refine Rehearses.bind (.of_view fun _ => rfl) fun _ last hlast => ?_
    cases hlast
    exact rehearsed_onStore (ScriptedStore.rehearses_rmdir
      (P := fun store => P { rest with cache := rest.cache.erase stat.key, store }) hrest root stat.key.text)

end Removing

end Volume

end AttrTree
