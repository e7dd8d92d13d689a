import AttrTree.Proofs.Missing
import AttrTree.Proofs.StoredAcls
import AttrTree.Volume.Mount

/-!
This module contains races for what is made when a volume is mounted or an attribute is set. Whoever
has made it first, the outcome is the same.
-/

namespace AttrTree

namespace Volume

open Action MemStore ScriptedStore

variable {volume rest : Volume MemStore} {script left : List Cue} {α : Type} {stat : ObjectStat}
  {key : ObjectKey} {name : String} {flags : SetFlags} {dir obj : ObjectId} {object : MemObject}
  {registry : Registry} {value : Bytes}

abbrev Passed (script : List Cue) (act' : Action (Volume (ScriptedStore MemStore)) α)
    (act : Action (Volume MemStore) α) (volume : Volume MemStore) : Prop :=
  Passes (fun script volume => scripted volume script) script act' act volume

abbrev Played (script : List Cue) (Q : α → Volume MemStore → List Cue → Prop)
    (act' : Action (Volume (ScriptedStore MemStore)) α) (act : Action (Volume MemStore) α)
    (volume : Volume MemStore) : Prop :=
  Plays (fun script volume => scripted volume script) script Q act' act volume

theorem passed_onStore {act' : Action (ScriptedStore MemStore) α} {act : Action MemStore α}
    (h : Passes atop script act' act volume.store) :
    volume.Passed script (onStore act') (onStore act) := by
  have hrun : act' (volume.scripted script).store = seen (atop script) (act volume.store) := h
  unfold Passed Passes
  simp only [onStore, focus, hrun]
  cases act volume.store <;> rfl

theorem played_onStore {Q : α → MemStore → List Cue → Prop} {act' : Action (ScriptedStore MemStore) α}
    {act : Action MemStore α} (h : Plays atop script Q act' act volume.store) :
    volume.Played script (fun a rest left => Q a rest.store left) (onStore act') (onStore act) := by
  obtain ⟨left, hrun, hleft⟩ := h
  have hrun' : act' (volume.scripted script).store = seen (atop left) (act volume.store) := hrun
  refine ⟨left, ?_, fun a rest hact => ?_⟩
  . simp only [onStore, focus, hrun']
    cases act volume.store <;> rfl
  . obtain ⟨store, hstore, rfl⟩ := onStore_eq_ok_iff.mp hact
    exact hleft a store hstore

section Opening

/-- `writeValue` looks up a name that is there, and `overtaken` tells it that it is not. -/
inductive Overlooks (volume : Volume MemStore) (key : ObjectKey) (name : String) (flags : SetFlags) :
    Cue → Prop
  | attrRoot {priv root : ObjectId} (hcache : (volume.cache.get? key).1 = none)
    (hpriv : volume.privateRoot = some priv) (hroot : volume.attrRoot = none)
    (hchild : volume.store.child? priv attrRootName = some root) :
    Overlooks volume key name flags (overtaken priv attrRootName)
  | directory {root dir : ObjectId} (hcache : (volume.cache.get? key).1 = none)
    (hroot : volume.attrRoot? = some root) (hchild : volume.store.child? root key.text = some dir) :
    Overlooks volume key name flags (overtaken root key.text)
  | record {dir record : ObjectId} (hflags : flags = .none) (hdir : volume.directory? key = some dir)
    (hchild : volume.store.child? dir name = some record) :
    Overlooks volume key name flags (overtaken dir name)

theorem Overlooks.child? {parent : ObjectId} {n : String}
    (h : volume.Overlooks key name flags (overtaken parent n)) :
    ∃ id, volume.store.child? parent n = some id := by
  generalize hcue : overtaken parent n = cue at h
  cases h with
  | attrRoot _ _ _ hchild | directory _ _ hchild | record _ _ hchild =>
    cases hcue
    exact ⟨_, hchild⟩

theorem played_openAttrRoot (hmiss : Cue.Miss script) {mayCreate : Bool}
    (hover : ∀ priv, volume.privateRoot = some priv → volume.attrRoot = none →
      overtaken priv attrRootName ∈ script →
        mayCreate = true ∧ ∃ root, volume.store.child? priv attrRootName = some root) :
    volume.Played script (fun _ _ left => left.Sublist script ∧ ∀ priv, volume.privateRoot = some priv →
        volume.attrRoot = none → overtaken priv attrRootName ∉ left)
      (openAttrRoot mayCreate) (openAttrRoot mayCreate) := by
  cases hpriv : volume.privateRoot with
  | none =>
    exact ⟨script, by simp [openAttrRoot, scripted, hpriv, seen],
      fun _ _ hopen => by simp [openAttrRoot, hpriv] at hopen⟩
  | some priv =>
    cases hroot : volume.attrRoot with
    | some root =>
      exact ⟨script, by simp [openAttrRoot, scripted, hpriv, hroot, seen], fun _ _ _ => ⟨.refl _, fun _ _ hnone => absurd hnone (Option.some_ne_none root)⟩⟩
    | none =>
      refine .congr (openAttrRoot_unknown hpriv hroot mayCreate)
        (@openAttrRoot_unknown _ _ (volume.scripted script) _ hpriv hroot mayCreate) ?_
      have hentry : overtaken priv attrRootName ∈ script → mayCreate = true
          ∧ isValidName attrRootName = true ∧ ∃ root, volume.store.child? priv attrRootName = some root := by
        intro hmem
        obtain ⟨hcreate, hchild⟩ := hover priv hpriv hroot hmem
        exact ⟨hcreate, by decide, hchild⟩
      have hfind := plays_findDirectory hmiss hentry noAttrRoot
      refine (played_onStore hfind).bind fun id rest left _ hleft => ⟨left, rfl, fun _ _ _ => ?_⟩
      subst hleft
      refine ⟨List.erase_sublist, ?_⟩
      rintro _ ⟨⟩ _
      exact hmiss.not_mem_erase _

theorem Overlooks.attrRoot? {cue : Cue} (h : volume.Overlooks key name flags cue)
    (hcache : (volume.cache.get? key).1 = none)
    (hleft : ∀ priv, volume.privateRoot = some priv → volume.attrRoot = none →
      cue ≠ overtaken priv attrRootName) :
    ∃ root, volume.attrRoot? = some root := by
  cases h with
  | attrRoot _ hpriv hroot _ => exact absurd rfl (hleft _ hpriv hroot)
  | directory _ hroot _ => exact ⟨_, hroot⟩
  | record _ hdir _ =>
    simp only [directory?, hcache, Option.none_or] at hdir
    obtain ⟨root, hroot, _⟩ := Option.bind_eq_some_iff.mp hdir
    exact ⟨root, hroot⟩

def Left (dir : ObjectId) (name : String) (flags : SetFlags) (store : MemStore) (cue : Cue) : Prop :=
  flags = .none ∧ cue = overtaken dir name ∧ ∃ record, store.child? dir name = some record

theorem Overlooks.left_of_cached {cue : Cue} (h : volume.Overlooks key name flags cue)
    (hcache : (volume.cache.get? key).1 = some dir) : Left dir name flags volume.store cue := by
  cases h with
  | attrRoot hnone | directory hnone =>
    rw [hcache] at hnone
    cases hnone
  | @record dir' record hflags hdir hchild =>
    obtain rfl : dir = dir' := by simpa [directory?, hcache] using hdir
    exact ⟨hflags, rfl, record, hchild⟩

theorem Overlooks.opened_left {cue : Cue} {root : ObjectId} (h : volume.Overlooks key name flags cue)
    (hcache : (volume.cache.get? key).1 = none)
    (hleft : ∀ priv, volume.privateRoot = some priv → volume.attrRoot = none →
      cue ≠ overtaken priv attrRootName)
    (hroot : volume.attrRoot? = some root) (hfree : cue ≠ overtaken root key.text) :
    ∃ dir, volume.store.child? root key.text = some dir ∧ Left dir name flags volume.store cue := by
  cases h with
  | attrRoot _ hpriv hnone => exact absurd rfl (hleft _ hpriv hnone)
  | directory _ hroot' =>
    obtain rfl : root = _ := Option.some.inj (hroot.symm.trans hroot')
    exact absurd rfl hfree
  | @record dir record hflags hdir hchild =>
    have hplace : volume.store.child? root key.text = some dir := by
      simpa [directory?, hcache, hroot] using hdir
    exact ⟨dir, hplace, hflags, rfl, record, hchild⟩

def obtainRecord {σ : Type} [ObjectStore σ] (dir : ObjectId) (name : String) (flags : SetFlags) :
    Action (Volume σ) ObjectId := do
  match ← onStore (ObjectStore.lookup dir name) with
  | some id => if flags.create then throw attrExists else return id
  | none => if flags.onlyExisting then throw attrNotFound else onStore (makeRecord dir name)

theorem passed_obtainRecord (hmiss : Cue.Miss script) (hfree : overtaken dir name ∉ script) :
    volume.Passed script (obtainRecord dir name flags) (obtainRecord dir name flags) := by
  refine (passed_onStore (passes_lookup (hmiss.unfit_lookup hfree))).bind fun found rest _ => ?_
  cases found with
  | some id =>
    cases flags.create with
    | true => exact .throw attrExists
    | false => exact .pure id
  | none =>
    cases flags.onlyExisting with
    | true => exact .throw attrNotFound
    | false =>
      exact passed_onStore (passes_makeOrFind (passes_create (hmiss.unfit_of_op rfl) _)
        (hmiss.unfit_lookup hfree) recordVanished)

theorem played_obtainRecord (hmiss : Cue.Miss script) (hvalid : isValidName name = true)
    (hentry : ∀ cue ∈ script, Left dir name flags volume.store cue) :
    volume.Played script (fun _ _ left => left = []) (obtainRecord dir name flags)
      (obtainRecord dir name flags) := by
  cases script with
  | nil => exact (passed_obtainRecord hmiss List.not_mem_nil).plays.mono fun _ _ _ _ h => h.2
  | cons cue rest =>
    obtain ⟨rfl, rfl, record, hchild⟩ := hentry cue List.mem_cons_self
    obtain rfl : rest = [] := by
      refine List.eq_nil_iff_forall_not_mem.mpr fun cue hcue => ?_
      obtain ⟨_, rfl, _⟩ := hentry cue (List.mem_cons_of_mem _ hcue)
      exact (List.nodup_cons.mp hmiss.nodup).1 hcue
    obtain ⟨d, e, hdir, hfind, rfl⟩ := child?_eq_some_iff.mp hchild
    have hmissed : ObjectStore.lookup dir name (volume.scripted [overtaken dir name]).store =
        .ok none (atop [] volume.store) := by
      have hlookup := @lookup_overtaken [overtaken dir name] volume.store dir name hmiss List.mem_cons_self
      rwa [List.erase_cons_head] at hlookup
    have hfound := makeRecord_taken hvalid hdir hfind
    have hplain : obtainRecord dir name .none volume = .ok e.target volume := by
      simp [obtainRecord, onStore, focus, lookup_of_directory? hdir, hfind, SetFlags.none]
    refine ⟨[], ?_, fun _ _ _ => rfl⟩
    rw [hplain]
    simp only [obtainRecord, bind_apply, onStore, focus, hmissed, SetFlags.onlyExisting, SetFlags.none,
      Bool.or_self, Bool.false_eq_true, if_false, hfound]
    rfl

variable (hmiss : Cue.Miss script)
  (hover : ∀ cue ∈ script, flags.allowsCreate = true ∧ volume.Overlooks stat.key name flags cue)
  (hid : stat.id < 2 ^ 64)
include hmiss hover hid

theorem played_openDirectory : volume.Played script
    (fun dir rest left => left.Sublist script ∧ ∀ cue ∈ left, Left dir name flags rest.store cue)
    (openDirectory stat flags) (openDirectory stat flags) := by
  cases hcache : (volume.cache.get? stat.key).1 with
  | some dir =>
    refine ⟨script, ?_, fun dir' rest hopen => ⟨.refl _, fun cue hcue => ?_⟩⟩
    . simp [openDirectory, cachedDirectory?_eq, scripted, hcache, seen]
    . rw [openDirectory_cached hcache] at hopen
      cases hopen
      exact (hover cue hcue).2.left_of_cached hcache
  | none =>
    refine .congr (openDirectory_eq hcache flags)
      (@openDirectory_eq stat _ _ (volume.scripted script) hcache flags) ?_
    have hroots := @played_openAttrRoot { volume with cache := (volume.cache.get? stat.key).2 } script hmiss
      flags.allowsCreate fun priv hpriv hroot hmem => ⟨(hover _ hmem).1, (hover _ hmem).2.child?⟩
    refine hroots.bind fun root middle left hopen hleft => ?_
    obtain ⟨hsub, hfree⟩ := hleft
    -- What is left of the script is about entries of a store that has not been changed
    have hknown : ∀ cue ∈ left, volume.attrRoot? = some root ∧ middle.store = volume.store := by
      intro cue hcue
      obtain ⟨root', hroot⟩ := (hover cue (hsub.subset hcue)).2.attrRoot? hcache
        fun priv hpriv hnone heq => hfree priv hpriv hnone (heq ▸ hcue)
      rw [openAttrRoot_eq { volume with cache := (volume.cache.get? stat.key).2 } hroot] at hopen
      cases hopen
      exact ⟨hroot, rfl⟩
    have hentry : overtaken root stat.key.text ∈ left → flags.allowsCreate = true
        ∧ isValidName stat.key.text = true ∧ ∃ dir, middle.store.child? root stat.key.text = some dir := by
      intro hmem
      obtain ⟨hallows, hcue⟩ := hover _ (hsub.subset hmem)
      obtain ⟨_, hstore⟩ := hknown _ hmem
      exact ⟨hallows, ObjectKey.isValidName_text hid, hstore ▸ hcue.child?⟩
    have hfind := plays_findDirectory (hmiss.sublist hsub) hentry noDirectory
    refine (played_onStore hfind).bind fun dir last left' hdir hleft => ⟨left', rfl, fun _ _ hend => ?_⟩
    cases hend
    subst hleft
    refine ⟨List.erase_sublist.trans hsub, fun cue hcue => ?_⟩
    have hmem := List.mem_of_mem_erase hcue
    obtain ⟨hroot, hstore⟩ := hknown cue hmem
    obtain ⟨dir', hplace, hleft⟩ := (hover cue (hsub.subset hmem)).2.opened_left hcache
      (fun priv hpriv hnone heq => hfree priv hpriv hnone (heq ▸ hmem)) hroot
      (fun heq => (hmiss.sublist hsub).not_mem_erase _ (heq ▸ hcue))
    rw [← hstore] at hplace hleft
    obtain ⟨d, e, hd, he, rfl⟩ := child?_eq_some_iff.mp hplace
    obtain ⟨store, hrun, rfl⟩ := onStore_eq_ok_iff.mp hdir
    rw [findDirectory_found hd he] at hrun
    cases hrun
    exact hleft

theorem played_openRecord : volume.Played script (fun _ _ left => left = [])
    (openRecord stat name flags) (openRecord stat name flags) := by
  cases hvalid : isValidName name with
  | false =>
    obtain ⟨err, hcheck, _⟩ := checkAttrName_of_invalid hvalid
    exact ⟨script, by simp [openRecord, hcheck, seen],
      fun _ _ hopen => by simp [openRecord, hcheck] at hopen⟩
  | true =>
    have heq {σ : Type} [ObjectStore σ] {volume : Volume σ} : openRecord stat name flags volume =
        (openDirectory stat flags >>= fun dir => obtainRecord dir name flags) volume := by
      rw [openRecord, checkAttrName_of_valid hvalid]
      rfl
    refine .congr heq heq ?_
    exact (played_openDirectory hmiss hover hid).bind fun dir rest left _ hleft =>
      played_obtainRecord (hmiss.sublist hleft.1) hvalid hleft.2

theorem played_unsharedRecord (rounds : Nat) : volume.Played script (fun _ _ left => left = [])
    (unsharedRecord stat name rounds flags) (unsharedRecord stat name rounds flags) := by
  induction rounds generalizing volume script flags with
  | zero => exact .throw _
  | succ rounds ih =>
    refine (played_openRecord hmiss hover hid).bind fun record rest left _ hleft => ?_
    subst hleft
    have hask := passed_onStore (@passes_stat _ _ rest.store record _ List.any_nil)
    refine hask.plays.bind fun target last _ _ hleft => ?_
    obtain ⟨_, rfl⟩ := hleft
    by_cases hshared : target.nlink ≤ 1
    . simp only [hshared, if_true]
      exact .pure rfl
    . simp only [hshared, if_false]
      have hremove := (@rehearsed_removeRecord last _ rfl stat name).passes.plays
      refine hremove.bind fun _ again _ _ hleft => ?_
      obtain ⟨_, rfl⟩ := hleft
      exact ih Cue.miss_nil (fun _ hcue => absurd hcue List.not_mem_nil)

end Opening

section Setting

theorem writeValue_scripted (hmiss : Cue.Miss script) (hobject : volume.store.object? obj = some object)
    (hformat : object.format ≠ .legacy) (name : String) (value : Bytes) (flags : SetFlags) :
    writeValue obj name value flags (volume.scripted script) =
      (unsharedRecord object.stat name (volume.store.pendingMoves + Cue.calls script + 2) flags >>=
        fun record => onStore (writeImage record (Record.image value))) (volume.scripted script) := by
  have hstat : statWithAttributes obj (volume.scripted script).store =
      .ok object.stat (volume.scripted script).store := by
    have hpassed := @passes_statWithAttributes _ script volume.store obj _ (hmiss.unfit_of_op rfl)
    rw [Passes, statWithAttributes_eq hobject hformat] at hpassed
    exact hpassed
  have hpage : ¬ ObjectStore.pageSize (volume.scripted script).store ≤ Record.headerSize :=
    Nat.not_le.mpr volume.store.headerSize_lt_pageSize
  have hrounds : recordRounds (volume.scripted script).store =
      volume.store.pendingMoves + Cue.calls script + 2 := rfl
  simp only [writeValue, bind_apply, onStore, focus, hstat, get_apply, hpage, if_false, hrounds]

theorem played_writeValue (hlinked : volume.store.Linked) (hobj : obj < 2 ^ 64)
    (hname : ∀ ⦃record after target⦄, existingRecord obj name volume = .ok record after →
      volume.store.object? record = some target → target.body.isDirectory = false)
    (hmiss : Cue.Miss script)
    (hover : ∀ object, volume.store.object? obj = some object → ∀ cue ∈ script,
      flags.allowsCreate = true ∧ volume.Overlooks object.stat.key name flags cue) (value : Bytes) :
    volume.Played script (fun _ _ _ => True) (writeValue obj name value flags)
      (writeValue obj name value flags) := by
  by_cases hlegacy : ∀ object, volume.store.object? obj = some object → object.format = .legacy
  . obtain ⟨err, _, hstat⟩ := statWithAttributes_of_error hlegacy
    have hpassed := @passes_statWithAttributes _ script volume.store obj _ (hmiss.unfit_of_op rfl)
    rw [Passes, hstat] at hpassed
    have hstat' : statWithAttributes obj (volume.scripted script).store =
        .error err (volume.scripted script).store := hpassed
    refine ⟨script, ?_, fun _ _ _ => trivial⟩
    simp only [writeValue, bind_apply, onStore, focus, hstat, hstat']
    rfl
  . simp only [not_forall] at hlegacy
    obtain ⟨object, hobject, hformat⟩ := hlegacy
    have hid : object.stat.id < 2 ^ 64 := by
      rw [show object.stat.id = object.id from rfl, id_of_object? hobject]
      exact hobj
    obtain ⟨result, _, hrounds⟩ := unshared hlinked hid (isNoDirectory_of_existingRecord hobject hformat hname)
      flags
    have hplain : writeValue obj name value flags volume =
        (unsharedRecord object.stat name (volume.store.pendingMoves + Cue.calls script + 2) flags >>=
          fun record => onStore (writeImage record (Record.image value))) volume := by
      rw [writeValue_eq hobject hformat, bind_apply, bind_apply, hrounds, hrounds]
    refine .congr hplain (writeValue_scripted hmiss hobject hformat name value flags) ?_
    refine (played_unsharedRecord hmiss (hover object hobject) hid _).bind fun record rest left _ hleft => ?_
    subst hleft
    have hwrite : rest.Passed [] (onStore (writeImage record (Record.image value)))
        (onStore (writeImage record (Record.image value))) :=
      passed_onStore (passes_writeImage (fun _ => List.any_nil) List.any_nil _)
    exact hwrite.plays.mono fun _ _ _ _ _ => trivial

theorem handler_check_scripted (handler : Handler) (volume : Volume MemStore) (script : List Cue)
    (name : String) : handler.check (volume.scripted script) name = handler.check volume name := by
  cases handler <;> rfl

theorem passed_checkObject (hmiss : Cue.Miss script) (obj : ObjectId) :
    volume.Passed script (checkObject obj) (checkObject obj) := by
  cases henabled : volume.attributesEnabled with
  | false =>
    have henabled' : (volume.scripted script).attributesEnabled = false := henabled
    simp [Passed, Passes, checkObject, henabled, henabled', seen]
  | true =>
    refine .congr (checkObject_enabled henabled obj)
      (@checkObject_enabled _ _ (volume.scripted script) henabled obj) ?_
    exact (passed_onStore (passes_statWithAttributes (hmiss.unfit_of_op rfl))).bind fun _ _ _ => .pure ()

theorem passed_handlerFor (hmiss : Cue.Miss script) (registry : Registry) (obj : ObjectId) (name : String) :
    volume.Passed script (handlerFor registry obj name) (handlerFor registry obj name) := by
  cases hlink : registry.resolve? name with
  | none => simp [Passed, Passes, handlerFor, hlink, seen]
  | some link =>
    refine .congr (handlerFor_resolved hlink) (handlerFor_resolved hlink) ?_
    exact (passed_checkObject hmiss obj).bind fun _ _ _ => .pure link.handler

theorem writeAcl_access {σ : Type} [ObjectStore σ] {volume : Volume σ} :
    Handler.writeAcl .access obj name value flags volume =
      (Action.ofExcept (Acl.validate value) >>= fun _ => writeValue obj name value flags) volume := by
  simp [Handler.writeAcl]

theorem writeAcl_default {σ : Type} [ObjectStore σ] {volume : Volume σ} :
    Handler.writeAcl .default obj name value flags volume =
      (onStore (ObjectStore.stat obj) >>= fun stat =>
        if stat.isDirectory then
          Action.ofExcept (Acl.validate value) >>= fun _ => writeValue obj name value flags
        else
          throw Handler.defaultAclOnFile) volume := by
  simp only [Handler.writeAcl, if_true, bind_apply]
  split
  . next stat _ _ => cases stat.isDirectory <;> rfl
  . rfl

theorem played_writeAcl (kind : AclKind) (hmiss : Cue.Miss script)
    (hwrite : volume.Played script (fun _ _ _ => True) (writeValue obj name value flags)
      (writeValue obj name value flags)) :
    volume.Played script (fun _ _ _ => True) (Handler.writeAcl kind obj name value flags)
      (Handler.writeAcl kind obj name value flags) := by
  -- What keeps a list, after the list has been checked, is a write of the value.
  have hvalidate : volume.Played script (fun _ _ _ => True)
      (Action.ofExcept (Acl.validate value) >>= fun _ => writeValue obj name value flags)
      (Action.ofExcept (Acl.validate value) >>= fun _ => writeValue obj name value flags) := by
    cases hlist : Acl.validate value with
    | error err => exact ⟨script, rfl, fun _ _ _ => trivial⟩
    | ok count => exact .congr (by simp) (by simp) hwrite
  cases kind with
  | access => exact .congr writeAcl_access writeAcl_access hvalidate
  | default =>
    refine .congr writeAcl_default writeAcl_default ?_
    have hask := passed_onStore (@passes_stat _ _ volume.store obj _ (hmiss.unfit_of_op rfl))
    refine hask.plays.bind fun stat rest left _ hasked => ?_
    obtain ⟨hstat, rfl⟩ := hasked
    obtain ⟨store, hstore, rfl⟩ := onStore_eq_ok_iff.mp hstat
    obtain rfl := state_of_query hstore
    cases stat.isDirectory with
    | true => exact hvalidate
    | false => exact .throw Handler.defaultAclOnFile

theorem played_setValue (handler : Handler) (hlinked : volume.store.Linked) (hobj : obj < 2 ^ 64)
    (hname : ∀ ⦃record after target⦄, existingRecord obj name volume = .ok record after →
      volume.store.object? record = some target → target.body.isDirectory = false)
    (hvalue : handler.aclKind?.isSome = true → value ≠ []) (hmiss : Cue.Miss script)
    (hover : ∀ object, volume.store.object? obj = some object → ∀ cue ∈ script,
      flags.allowsCreate = true ∧ volume.Overlooks object.stat.key name flags cue) :
    volume.Played script (fun _ _ _ => True) (handler.setValue obj name (some value) flags)
      (handler.setValue obj name (some value) flags) := by
  have hwrite := played_writeValue hlinked hobj hname hmiss hover value
  cases hcheck : handler.check volume name with
  | error err =>
    refine ⟨script, ?_, fun _ _ _ => trivial⟩
    simp [Handler.setValue, handler_check_scripted, hcheck, seen]
  | ok _ =>
    have hcheck' := (handler_check_scripted handler volume script name).trans hcheck
    cases handler with
    | user | plain start =>
      exact .congr (by simp [Handler.setValue, hcheck]) (by simp [Handler.setValue, hcheck']) hwrite
    | fixed start answers =>
      refine ⟨script, ?_, fun _ _ _ => trivial⟩
      simp [Handler.setValue, hcheck, hcheck', seen]
    | acl kind =>
      obtain ⟨b, rest, rfl⟩ := List.exists_cons_of_ne_nil (hvalue rfl)
      exact .congr (by simp [Handler.setValue, hcheck]) (by simp [Handler.setValue, hcheck'])
        (played_writeAcl kind hmiss hwrite)

theorem handlerFor_ok {handler : Handler} (h : handlerFor registry obj name volume = .ok handler rest) :
    rest = volume ∧ ∃ link, registry.resolve? name = some link ∧ link.handler = handler := by
  cases hlink : registry.resolve? name with
  | none => simp [handlerFor, hlink] at h
  | some link =>
    obtain ⟨hcheck, _⟩ | ⟨err, hcheck, _⟩ := checkObject_cases volume obj
    . simp only [handlerFor, hlink, bind_apply, ofOption_some, hcheck, pure_apply] at h
      cases h
      exact ⟨rfl, link, rfl, rfl⟩
    . simp [handlerFor, hlink, hcheck] at h

theorem played_setAttribute (hlinked : volume.store.Linked) (hobj : obj < 2 ^ 64)
    (hname : ∀ ⦃record after target⦄, existingRecord obj name volume = .ok record after →
      volume.store.object? record = some target → target.body.isDirectory = false)
    (hvalue : ∀ link, registry.resolve? name = some link → link.handler.aclKind?.isSome = true → value ≠ [])
    (hmiss : Cue.Miss script)
    (hover : ∀ object, volume.store.object? obj = some object → ∀ cue ∈ script,
      flags.allowsCreate = true ∧ volume.Overlooks object.stat.key name flags cue) :
    volume.Played script (fun _ _ _ => True) (setAttribute registry obj name value flags)
      (setAttribute registry obj name value flags) := by
  have hpassed := @passed_handlerFor volume script hmiss registry obj name
  refine hpassed.plays.bind fun handler rest left _ hresolved => ?_
  obtain ⟨hhandler, rfl⟩ := hresolved
  obtain ⟨rfl, link, hlink, rfl⟩ := handlerFor_ok hhandler
  exact played_setValue link.handler hlinked hobj hname (hvalue link hlink) hmiss hover

end Setting

section Mounting

variable {mountFlags : MountFlags}

theorem setUpPrivateRoot_unknown {σ : Type} [ObjectStore σ] {volume : Volume σ}
    (hformat : ¬ ObjectStore.format volume.store = .legacy) (hpriv : ¬ volume.privateRoot.isSome) :
    setUpPrivateRoot mountFlags volume =
      (onStore (findPrivateRoot mountFlags).attempt >>= fun
        | .ok id => do
          modify fun volume => { volume with privateRoot := some id }
          return true
        | .error _ => if mountFlags.readOnly then return false else throw privateRootUnavailable) volume :=
  (congrFun (if_neg hformat) volume).trans (congrFun (if_neg hpriv) volume)

theorem mount_attributes {σ : Type} [ObjectStore σ] {volume : Volume σ}
    (hoptions : volume.options.settle.attributes = true) :
    mount mountFlags volume =
      ((setUpPrivateRoot mountFlags).attempt >>= fun
        | .ok true => modify (·.adopt volume.options.settle)
        | .ok false => modify (·.adopt volume.options.settle.withoutAttributes)
        | .error e => do
          modify (·.adopt volume.options.settle.withoutAttributes)
          throw e) volume :=
  congrFun (if_pos hoptions) volume

variable (hmiss : Cue.Miss script)
  (hover : ∀ cue ∈ script, mountFlags.readOnly = false ∧ cue = overtaken rootId privateRootName
    ∧ ∃ priv, volume.store.child? rootId privateRootName = some priv)
include hmiss hover

theorem plays_findPrivateRoot : Plays atop script (fun _ _ _ => True) (findPrivateRoot mountFlags)
    (findPrivateRoot mountFlags) volume.store := by
  have heq {σ : Type} [ObjectStore σ] {store : σ} : findPrivateRoot mountFlags store =
      (findDirectory (ObjectStore.root store) privateRootName (!mountFlags.readOnly) privateRootNotFound >>=
        fun id => ObjectStore.markPrivate id >>= fun _ => pure id) store := rfl
  refine .congr heq heq ?_
  have hentry : overtaken rootId privateRootName ∈ script → (!mountFlags.readOnly) = true
      ∧ isValidName privateRootName = true
      ∧ ∃ priv, volume.store.child? rootId privateRootName = some priv := by
    intro hmem
    obtain ⟨hwritable, _, hchild⟩ := hover _ hmem
    exact ⟨by simp [hwritable], by decide, hchild⟩
  refine (plays_findDirectory hmiss hentry privateRootNotFound).bind fun id store left _ hleft => ?_
  subst hleft
  refine Plays.mono (Passes.bind ?_ fun _ _ _ => .pure id).plays fun _ _ _ _ _ => trivial
  exact passes_markPrivate ((hmiss.erase _).unfit_of_op rfl)

theorem played_setUpPrivateRoot : volume.Played script (fun _ _ _ => True) (setUpPrivateRoot mountFlags)
    (setUpPrivateRoot mountFlags) := by
  by_cases hformat : ObjectStore.format volume.store = .legacy
  . have hformat' : ObjectStore.format (volume.scripted script).store = .legacy := hformat
    exact ⟨script, by simp [setUpPrivateRoot, hformat, hformat', seen], fun _ _ _ => trivial⟩
  . have hformat' : ¬ ObjectStore.format (volume.scripted script).store = .legacy := hformat
    cases hpriv : volume.privateRoot.isSome with
    | true =>
      have hpriv' : (volume.scripted script).privateRoot.isSome = true := hpriv
      exact ⟨script, by simp [setUpPrivateRoot, hformat, hformat', hpriv, hpriv', seen], fun _ _ _ => trivial⟩
    | false =>
      have hnone : ¬ volume.privateRoot.isSome := by simp [hpriv]
      refine .congr (setUpPrivateRoot_unknown hformat hnone)
        (@setUpPrivateRoot_unknown _ _ _ (volume.scripted script) hformat' hnone) ?_
      have hfind := (plays_findPrivateRoot hmiss hover).attempt
      refine (played_onStore hfind).bind fun result rest left _ _ => ?_
      cases result with
      | ok id => exact ⟨left, rfl, fun _ _ _ => trivial⟩
      | error err =>
        cases mountFlags.readOnly with
        | true => exact ⟨left, rfl, fun _ _ _ => trivial⟩
        | false => exact ⟨left, rfl, fun _ _ _ => trivial⟩

theorem played_mount : volume.Played script (fun _ _ _ => True) (mount mountFlags) (mount mountFlags) := by
  cases hoptions : volume.options.settle.attributes with
  | false =>
    have hoptions' : (volume.scripted script).options.settle.attributes = false := hoptions
    exact ⟨script, by simp [mount, hoptions, hoptions', seen]; rfl, fun _ _ _ => trivial⟩
  | true =>
    refine .congr (mount_attributes hoptions) (@mount_attributes _ _ _ (volume.scripted script) hoptions) ?_
    refine (played_setUpPrivateRoot hmiss hover).attempt.bind fun result rest left _ _ => ?_
    cases result with
    | ok found => cases found <;> exact ⟨left, rfl, fun _ _ _ => trivial⟩
    | error err => exact ⟨left, rfl, fun _ _ _ => trivial⟩

end Mounting

section Race

variable {pageSize cacheCapacity : Nat} {format : ObjectFormat}
  {hpage : Record.headerSize < pageSize} {options : MountOptions} {ops : List Op}

theorem lost_races_invisible (hrun : run ops (initial pageSize format hpage options cacheCapacity) = volume) :
    (∀ script : List Cue, script.Nodup →
      (∀ cue ∈ script, cue = overtaken rootId privateRootName
        ∧ ∃ priv, volume.store.child? rootId privateRootName = some priv) →
      ∃ left, mount ⟨false⟩ (volume.scripted script) =
        seen (fun rest => rest.scripted left) (mount ⟨false⟩ volume))
    ∧ ∀ (registry : Registry) (obj : ObjectId) (object : MemObject) (name : String) (value : Bytes)
        (flags : SetFlags) (script : List Cue), obj < 2 ^ 64 → volume.store.object? obj = some object →
      (∀ ⦃record after target⦄, existingRecord obj name volume = .ok record after →
        volume.store.object? record = some target → target.body.isDirectory = false) →
      (∀ link, registry.resolve? name = some link → link.handler.aclKind?.isSome = true → value ≠ []) →
      flags = .none ∨ flags = creating → script.Nodup →
      (∀ cue ∈ script, volume.Overlooks object.stat.key name flags cue) →
      ∃ left, setAttribute registry obj name value flags (volume.scripted script) =
        seen (fun rest => rest.scripted left) (setAttribute registry obj name value flags volume) := by
  have hlinked : volume.store.Linked := hrun ▸ linked_run ops (linked_empty pageSize format hpage)
  refine ⟨fun script hnodup hover => ?_, ?_⟩
  . have hmiss : Cue.Miss script := ⟨hnodup, fun cue hcue => ⟨_, _, (hover cue hcue).1⟩⟩
    obtain ⟨left, hend, _⟩ := @played_mount volume script ⟨false⟩ hmiss fun cue hcue => ⟨rfl, hover cue hcue⟩
    exact ⟨left, hend⟩
  . intro registry obj object name value flags script hobj hobject hname hvalue hflags hnodup hover
    have hmiss : Cue.Miss script := by
      refine ⟨hnodup, fun cue hcue => ?_⟩
      cases hover cue hcue <;> exact ⟨_, _, rfl⟩
    have hallows : flags.allowsCreate = true := by
      obtain rfl | rfl := hflags <;> decide
    have hover' : ∀ object, volume.store.object? obj = some object → ∀ cue ∈ script,
        flags.allowsCreate = true ∧ volume.Overlooks object.stat.key name flags cue := by
      intro object' hobject' cue hcue
      obtain rfl : object = object' := Option.some.inj (hobject.symm.trans hobject')
      exact ⟨hallows, hover cue hcue⟩
    obtain ⟨left, hend, _⟩ := @played_setAttribute volume script name flags obj registry value hlinked hobj
      hname hvalue hmiss hover'
    exact ⟨left, hend⟩

theorem lost_races_invisible_shared :
    let fresh := run (linkRun ++ [.renew .optional 64]) (initial 16 .current (by decide) .optional 64)
    let again := run (linkRun ++ [.renew .optional 64, .mount ⟨false⟩])
      (initial 16 .current (by decide) .optional 64)
    (∃ left, mount ⟨false⟩ (fresh.scripted [overtaken rootId privateRootName]) =
        seen (fun rest => rest.scripted left) (mount ⟨false⟩ fresh))
      ∧ (setAttribute .standard 3 "user.x" [2] .none).succeeds again = true
      ∧ ∃ left, setAttribute .standard 3 "user.x" [2] .none
          (again.scripted [overtaken 2 attrRootName, overtaken 4 "3.2", overtaken 5 "user.x"]) =
        seen (fun rest => rest.scripted left) (setAttribute .standard 3 "user.x" [2] .none again) := by
  intro fresh again
  have hfresh : run (linkRun ++ [.renew .optional 64]) (initial 16 .current (by decide) .optional 64) = fresh :=
    rfl
  have hagain : run (linkRun ++ [.renew .optional 64, .mount ⟨false⟩])
      (initial 16 .current (by decide) .optional 64) = again := rfl
  have hpriv : fresh.store.child? rootId privateRootName = some 2 := by decide +kernel
  have hfile : (again.store.object? 3).any (·.stat.key = ⟨3, 2⟩) = true := by decide +kernel
  obtain ⟨object, hobject, hkey⟩ := (Option.any_eq_true _ _).mp hfile
  rw [decide_eq_true_eq] at hkey
  have hset : canBeSet 3 "user.x" [2] .none again = true := by decide +kernel
  obtain ⟨_, hname, _⟩ := canBeSet_spec hset
  have hlink : Registry.standard.resolve? "user.x" = some ⟨0, .user⟩ := by decide +kernel
  have htext : ObjectKey.text ⟨3, 2⟩ = "3.2" := by decide +kernel
  have hcache : (again.cache.get? ⟨3, 2⟩).1 = none := by decide +kernel
  have hover : ∀ cue ∈ [overtaken 2 attrRootName, overtaken 4 "3.2", overtaken 5 "user.x"],
      again.Overlooks object.stat.key "user.x" .none cue := by
    have hroot : again.store.child? 2 attrRootName = some 4 := by decide +kernel
    have hdir : again.store.child? 4 (ObjectKey.text ⟨3, 2⟩) = some 5 := by decide +kernel
    have hrecord : again.store.child? 5 "user.x" = some 6 := by decide +kernel
    rw [hkey, ← htext]
    simp only [List.forall_mem_cons]
    exact ⟨.attrRoot hcache (by decide +kernel) (by decide +kernel) hroot,
      .directory hcache (by decide +kernel) hdir, .record rfl (by decide +kernel) hrecord,
      fun _ hcue => absurd hcue List.not_mem_nil⟩
  refine ⟨(lost_races_invisible hfresh).1 _ (by decide) fun cue hcue => ?_, by decide +kernel, ?_⟩
  . exact ⟨List.mem_singleton.mp hcue, 2, hpriv⟩
  . refine (lost_races_invisible hagain).2 .standard 3 object "user.x" [2] .none _ (by decide) hobject hname
      (fun link hresolved hacl => ?_) (.inl rfl) (by decide +kernel) hover
    rw [hlink] at hresolved
    cases hresolved
    cases hacl

theorem lost_races_visible :
    let list := AclKind.access.attrName
    let shared := run linkRun (initial 16 .current (by decide) .optional 64)
    (listed.store.child? 6 list = some 7
        ∧ (setAttribute .standard 2 list [] .none).result listed = .ok ()
        ∧ ((setAttribute .standard 2 list [] .none).after listed).store.child? 6 list = none
        ∧ (setAttribute .standard 2 list [] .none).result (listed.scripted [overtaken 6 list]) = .ok ()
        ∧ ((setAttribute .standard 2 list [] .none).after
          (listed.scripted [overtaken 6 list])).store.base.child? 6 list = some 7)
      ∧ (shared.store.child? 5 "user.x" = some 6
        ∧ (setAttribute .standard 3 "user.x" [2] .none).result shared = .ok ()
        ∧ (setAttribute .standard 3 "user.x" [2] .none).result
          (shared.scripted [{ overtaken 5 "user.x" with skip := 1 }]) = .error attrNotFound) := by
  decide +kernel

end Race

end Volume

end AttrTree
