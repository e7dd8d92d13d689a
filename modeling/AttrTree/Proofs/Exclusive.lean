import AttrTree.Proofs.Failure
import AttrTree.Proofs.Passing

/-!
This module contains what becomes of records that are there already when an attribute is set that must
be new. As long as nobody interferes, no file changes. But a record that someone else makes after it
was looked for and not found is taken for the call's own, and overwritten.
-/

namespace AttrTree

namespace MemStore

open Action

variable {first store store' : MemStore} {id dir parent record : ObjectId} {name : String}
  {d : Directory} {owner : MemObject}

def KeepsFiles (store store' : MemStore) : Prop :=
  ∀ ⦃id content⦄, store.readAll id = .ok content → store'.readAll id = .ok content

theorem readAll_eq_ok_iff {content : Bytes} :
    store.readAll id = .ok content ↔
      ∃ object, store.object? id = some object ∧ object.body = .file content :=
  getContent_eq_ok_iff

theorem KeepsFiles.of_object? (h : first.KeepsFiles store)
    (hsame : ∀ ⦃id object content⦄, first.readAll id = .ok content → store.object? id = some object →
      object.body = .file content → store'.object? id = some object) : first.KeepsFiles store' := by
  intro id content hread
  obtain ⟨object, hobject, hbody⟩ := readAll_eq_ok_iff.mp (h hread)
  exact readAll_eq_ok_iff.mpr ⟨object, hsame hread hobject hbody, hbody⟩

section Extends

structure Extends (first store : MemStore) : Prop where
  linked : store.Linked
  nextId_le : first.nextId ≤ store.nextId
  files : first.KeepsFiles store

theorem Extends.refl (h : store.Linked) : store.Extends store :=
  ⟨h, Nat.le_refl _, fun _ _ hread => hread⟩

theorem Extends.attach (h : first.Extends store) {made : ObjectId → UInt32 → MemObject}
    {extra : Nat} (hnew : store.IsNew parent extra (made store.nextId store.nextGeneration))
    (howner : store.object? parent = some owner) (hbody : owner.body = .directory d)
    (hvalid : isValidName name = true) (hfree : d.contains name = false) :
    first.Extends (store.attach made parent name extra) where
  linked := h.linked.attach hnew howner hbody hvalid hfree
  nextId_le := Nat.le_succ_of_le h.nextId_le
  files := h.files.of_object? fun id object content _ hobject hfile => by
    have hne : id ≠ parent := by
      rintro rfl
      rw [howner] at hobject
      injection hobject with hobject
      rw [← hobject, hbody] at hfile
      cases hfile
    rw [object?_attach h.linked hnew.id_eq howner, if_neg (h.linked.ne_nextId hobject), if_neg hne]
    exact hobject

theorem keptByMaking_extends (first : MemStore) : KeptByMaking first.Extends where
  lookup _ _ := .query _
  mkdir _ _ _ := .transact fun store made store' hok h => by
    obtain ⟨hvalid, owner, dir, howner, hbody, hfree, heq⟩ := mkdir_eq_ok_iff.mp hok
    injection heq with _ heq
    exact heq ▸ h.attach (isNew_directory ..) howner hbody hvalid hfree
  create _ _ _ := .transact fun store made store' hok h => by
    obtain ⟨hvalid, owner, dir, howner, hbody, hfree, heq⟩ := create_eq_ok_iff.mp hok
    injection heq with _ heq
    exact heq ▸ h.attach (isNew_file ..) howner hbody hvalid hfree

end Extends

section NewFile

variable (hrecord : ∀ ⦃content⦄, first.readAll record ≠ .ok content)
include hrecord

theorem KeepsFiles.mapObject (h : first.KeepsFiles store) {f : MemObject → MemObject}
    (hf : ∀ o, (f o).id = o.id) : first.KeepsFiles (store.mapObject record f) := by
  refine h.of_object? fun id object content hread hobject _ => ?_
  have hne : id ≠ record := by
    rintro rfl
    exact hrecord hread
  rw [object?_mapObject store record hf, if_neg hne]
  exact hobject

theorem keepsFiles_writeImage (image : Bytes) :
    Keeps first.KeepsFiles (Volume.writeImage record image) := by
  refine Volume.keeps_writeImage (fun change => .update fun store store' hok h => ?_)
    (fun index offset data => keeps_writePageFaulty (fun _ _ h => h)
      (.update fun store store' hok h => ?_)) image
  . obtain ⟨_, _, _, rfl⟩ := setAttr_eq_ok_iff.mp hok
    exact h.mapObject hrecord fun _ => rfl
  . obtain ⟨_, _, _, _, rfl⟩ := writePage_eq_ok_iff.mp hok
    exact h.mapObject hrecord fun _ => rfl

end NewFile

theorem makeRecord_new (hlinked : store.Linked) (habsent : store.lookup dir name = .ok none)
    (hmake : Volume.makeRecord dir name store = .ok record store') :
    record = store.nextId ∧ ∃ object, store'.object? record = some object ∧ object.nlink = 1 := by
  unfold Volume.makeRecord Volume.makeOrFind at hmake
  simp only [bind_apply, attempt, ObjectStore.create, transact] at hmake
  cases hcreate : store.create dir name (Mode.withType Mode.fileType Volume.privateMode) with
  | ok made =>
    simp only [hcreate, pure_apply] at hmake
    obtain ⟨_, owner, d, howner, _, _, rfl⟩ := create_eq_ok_iff.mp hcreate
    cases hmake
    exact ⟨rfl, _, by rw [object?_attach hlinked rfl howner, if_pos rfl], rfl⟩
  | error err =>
    -- someone else's record would have been found before
    simp only [hcreate] at hmake
    split at hmake
    . simp [ObjectStore.lookup, query, habsent] at hmake
    . cases hmake

end MemStore

namespace ScriptedStore

open Action MemStore Volume

variable {script : List Cue} {store : MemStore} {dir id : ObjectId} {name : String} {d : Directory}
  {e : DirEntry}

theorem lookup_child? (hunfit : script.any (·.fits { op := .lookup, id := dir, name }) = false)
    (hchild : store.child? dir name = some id) :
    ObjectStore.lookup dir name (atop script store) = .ok (some id) (atop script store) := by
  obtain ⟨d, e, hdir, hfind, rfl⟩ := child?_eq_some_iff.mp hchild
  have hpassed : ObjectStore.lookup dir name (atop script store) = _ := passes_lookup hunfit
  rw [lookup_of_directory? hdir, hfind] at hpassed
  exact hpassed

section Taken

variable (hvalid : isValidName name = true) (hdir : store.directory? dir = some d)
  (hfind : d.find? name = some e) (mode : UInt32)
include hvalid hdir hfind

theorem mkdir_taken : ObjectStore.mkdir dir name mode store = .error entryExists store := by
  obtain ⟨owner, howner, hbody⟩ := directory?_eq_some_iff.mp hdir
  have hget := getObject_eq_ok_iff.mpr howner
  have htaken : d.contains name = true := by
    simp [Directory.contains, hfind]
  simp [ObjectStore.mkdir, transact, MemStore.mkdir, addChild, checkName, hvalid, hget, hbody,
    htaken, bind, Except.bind]

theorem create_taken : ObjectStore.create dir name mode store = .error entryExists store := by
  obtain ⟨owner, howner, hbody⟩ := directory?_eq_some_iff.mp hdir
  have hget := getObject_eq_ok_iff.mpr howner
  have htaken : d.contains name = true := by
    simp [Directory.contains, hfind]
  simp [ObjectStore.create, transact, MemStore.create, addChild, checkName, hvalid, hget, hbody,
    htaken, bind, Except.bind]

end Taken

theorem makeOrFind_taken {make' : Action (ScriptedStore MemStore) ObjectId} {make : Action MemStore ObjectId}
    (hmake : Passes atop script make' make store) (htaken : make store = .error entryExists store)
    (hunfit : script.any (·.fits { op := .lookup, id := dir, name }) = false)
    (hchild : store.child? dir name = some id) (vanished : Error) :
    makeOrFind make' dir name vanished (atop script store) = .ok id (atop script store) := by
  unfold Passes at hmake
  simp [makeOrFind, Action.attempt, hmake, htaken, seen, entryExists, lookup_child? hunfit hchild]

end ScriptedStore

namespace Volume

open Action MemStore

variable {volume rest : Volume MemStore} {stat : ObjectStat} {name : String} {flags : SetFlags}
  {obj dir record : ObjectId} {d : Directory} {e : DirEntry} {object : MemObject} {value : Bytes}

section Undisturbed

theorem extends_openDirectory {first : MemStore} (stat : ObjectStat) (flags : SetFlags) :
    Keeps (fun volume : Volume MemStore => first.Extends volume.store)
      (openDirectory stat flags) :=
  keeps_openDirectory (keptByMaking_extends first) stat flags

theorem openRecord_new (hlinked : volume.store.Linked) (hcreate : flags.create = true)
    (hopen : openRecord stat name flags volume = .ok record rest) :
    volume.store.nextId ≤ record
      ∧ ∃ object, rest.store.object? record = some object ∧ object.nlink = 1 := by
  obtain ⟨_, _, hcheck, hopen⟩ := bind_eq_ok_iff.mp hopen
  obtain ⟨dir, middle, hdir, hopen⟩ := bind_eq_ok_iff.mp hopen
  have hsame : openDirectory stat flags volume = .ok dir middle := by
    cases hname : checkAttrName name with
    | ok _ =>
      rw [hname] at hcheck
      cases hcheck
      exact hdir
    | error err =>
      rw [hname] at hcheck
      cases hcheck
  have hextends := (extends_openDirectory stat flags).holds volume (.refl hlinked)
  rw [after_of_ok hsame] at hextends
  simp only [bind_apply, onStore, focus, ObjectStore.lookup, query] at hopen
  cases hlookup : middle.store.lookup dir name with
  | error err => simp [hlookup] at hopen
  | ok found =>
    cases found with
    | some id => simp [hlookup, hcreate] at hopen
    | none =>
      simp only [hlookup] at hopen
      split at hopen
      . cases hopen
      . cases hmake : makeRecord dir name middle.store with
        | error err store => simp [focus, hmake] at hopen
        | ok made store =>
          simp only [focus, hmake] at hopen
          cases hopen
          obtain ⟨rfl, hobject⟩ := makeRecord_new hextends.linked hlookup hmake
          exact ⟨hextends.nextId_le, hobject⟩

theorem writeValue_refused (hcreate : flags.create = true) {after : Volume MemStore}
    (hexisting : existingRecord obj name volume = .ok record after) (value : Bytes) :
    ∃ rest, writeValue obj name value flags volume = .error attrExists rest
      ∧ rest.store = volume.store := by
  obtain ⟨hvalid, object, dir, d, e, hobject, hformat, hfound, hdir, hfind, rfl, _⟩ :=
    existingRecord_eq_ok_iff.mp hexisting
  have hopen := openRecord_eq hvalid (openDirectory_found hfound flags) (by simpa using hdir)
  simp only [hfind, hcreate, if_true] at hopen
  refine ⟨_, ?_, store_opened volume object.stat.key dir⟩
  rw [writeValue_eq hobject hformat, bind_apply, unsharedRecord_of_error hopen]

theorem keepsFiles_writeValue (hlinked : volume.store.Linked) (hcreate : flags.create = true)
    (obj : ObjectId) (name : String) (value : Bytes) :
    volume.store.KeepsFiles ((writeValue obj name value flags).after volume).store := by
  by_cases hlegacy : ∀ object, volume.store.object? obj = some object → object.format = .legacy
  . obtain ⟨err, _, hwrite⟩ := writeValue_of_statError hlegacy name value flags
    rw [after_of_error hwrite]
    exact fun _ _ hread => hread
  . simp only [not_forall] at hlegacy
    obtain ⟨object, hobject, hformat⟩ := hlegacy
    have hwrite := writeValue_eq hobject hformat name value flags
    have hextends := (keeps_openRecord (keptByMaking_extends volume.store) object.stat name
      flags).holds volume (.refl hlinked)
    cases hopen : openRecord object.stat name flags volume with
    | error err middle =>
      rw [bind_apply, unsharedRecord_of_error hopen] at hwrite
      rw [after_of_error hopen] at hextends
      rw [after_of_error hwrite]
      exact hextends.files
    | ok record middle =>
      obtain ⟨hnew, file, hfile, hnlink⟩ := openRecord_new hlinked hcreate hopen
      rw [bind_apply, unsharedRecord_single hopen hfile (Nat.le_of_eq hnlink)] at hwrite
      simp only at hwrite
      rw [after_of_ok hopen] at hextends
      have hrecord : ∀ ⦃content⦄, volume.store.readAll record ≠ .ok content := by
        intro content hread
        obtain ⟨_, hold, _⟩ := readAll_eq_ok_iff.mp hread
        exact Nat.not_lt.mpr hnew (hlinked.id_lt hold)
      rw [after_congr hwrite]
      exact (Keeps.onStore (keepsFiles_writeImage hrecord (Record.image value))).holds middle
        hextends.files

end Undisturbed

section Overtaken

def scripted (volume : Volume MemStore) (script : List Cue) : Volume (ScriptedStore MemStore) where
  store := { base := volume.store, reportedPageSize := none, script }
  options := volume.options
  aclFlag := volume.aclFlag
  privateRoot := volume.privateRoot
  attrRoot := volume.attrRoot
  locks := volume.locks
  cache := volume.cache

/-- A `lookup` finds nothing although the name is there, as if someone else made it only then. -/
def overtaken (dir : ObjectId) (name : String) : Cue where
  op := .lookup
  id := dir
  name := name
  index := none
  skip := 0
  answer := .absent

theorem openAttrRoot_scripted {script : List Cue} {root : ObjectId}
    (hroot : volume.attrRoot? = some root)
    (hunfit : ∀ priv, volume.store.child? priv attrRootName = some root →
      script.any (·.fits { op := .lookup, id := priv, name := attrRootName }) = false)
    (mayCreate : Bool) :
    openAttrRoot mayCreate (volume.scripted script) =
      .ok root ({ volume with attrRoot := some root }.scripted script) := by
  obtain ⟨priv, hpriv, hroot⟩ := Option.bind_eq_some_iff.mp hroot
  rcases Option.eq_none_or_eq_some volume.attrRoot with hknown | ⟨root', hknown⟩
  . rw [hknown, Option.none_or] at hroot
    have hlookup := ScriptedStore.lookup_child? (hunfit priv hroot) hroot
    simp only [ScriptedStore.atop] at hlookup
    simp [openAttrRoot, scripted, hpriv, hknown, onStore, focus, findDirectory, hlookup]
  . obtain rfl : root' = root := by simpa [hknown] using hroot
    simp [openAttrRoot, scripted, hpriv, hknown]

theorem openDirectory_scripted {script : List Cue} (hfound : volume.directory? stat.key = some dir)
    (hunfit : ∀ parent n id, volume.store.child? parent n = some id →
      (volume.store.directory? id).isSome = true →
      script.any (·.fits { op := .lookup, id := parent, name := n }) = false)
    (hlive : (volume.store.directory? dir).isSome = true) (flags : SetFlags) :
    openDirectory stat flags (volume.scripted script) =
      .ok dir ((volume.opened stat.key dir).scripted script) := by
  unfold directory? at hfound
  rw [openDirectory, bind_apply]
  cases hcache : (volume.cache.get? stat.key).1 with
  | some dir' =>
    obtain rfl : dir' = dir := by simpa [hcache] using hfound
    simp [cachedDirectory?, scripted, opened, hcache]
  | none =>
    simp only [hcache, Option.none_or] at hfound
    obtain ⟨root, hroot, hchild⟩ := Option.bind_eq_some_iff.mp hfound
    obtain ⟨d, _, hdir, _⟩ := child?_eq_some_iff.mp hchild
    have hopen := @openAttrRoot_scripted { volume with cache := (volume.cache.get? stat.key).2 }
      script root hroot (fun priv hpriv => hunfit priv attrRootName root hpriv (by simp [hdir]))
      flags.allowsCreate
    have hlookup := ScriptedStore.lookup_child? (hunfit root _ dir hchild hlive) hchild
    simp only [ScriptedStore.atop] at hlookup
    simp only [scripted] at hopen
    simp [cachedDirectory?, scripted, opened, hcache, looked, hopen, hroot, onStore, focus,
      findDirectory, hlookup]

theorem makeRecord_taken {store : MemStore} (hvalid : isValidName name = true)
    (hdir : store.directory? dir = some d) (hfind : d.find? name = some e) :
    makeRecord dir name (ScriptedStore.atop [] store) = .ok e.target (ScriptedStore.atop [] store) :=
  ScriptedStore.makeOrFind_taken (ScriptedStore.passes_create List.any_nil _)
    (ScriptedStore.create_taken hvalid hdir hfind _) List.any_nil
    (child?_eq_some_iff.mpr ⟨d, e, hdir, hfind, rfl⟩) recordVanished

theorem openRecord_overtaken (hvalid : isValidName name = true)
    (hfound : volume.directory? stat.key = some dir) (hdir : volume.store.directory? dir = some d)
    (hfind : d.find? name = some e) (hkind : volume.store.directory? e.target = none)
    (hflags : flags.onlyExisting = false) :
    openRecord stat name flags (volume.scripted [overtaken dir name]) =
      .ok e.target ((volume.opened stat.key dir).scripted []) := by
  have hunfit : ∀ parent n id, volume.store.child? parent n = some id →
      (volume.store.directory? id).isSome = true →
      [overtaken dir name].any (·.fits { op := .lookup, id := parent, name := n }) = false := by
    intro parent n id hchild hlive
    by_contra hfits
    obtain ⟨rfl, rfl⟩ : dir = parent ∧ name = n := by
      simpa [overtaken, Cue.fits] using hfits
    rw [child?_of_directory? hdir, hfind] at hchild
    cases hchild
    simp [hkind] at hlive
  have hopen := openDirectory_scripted hfound hunfit (by simp [hdir]) flags
  have hmissed (volume : Volume MemStore) : ObjectStore.lookup dir name
      (volume.scripted [overtaken dir name]).store = .ok none (volume.scripted []).store := by
    simp [ObjectStore.lookup, ScriptedStore.orAbsent, ScriptedStore.answer, Cue.take, Cue.fits,
      overtaken, scripted]
  have hmake := makeRecord_taken hvalid (store_opened volume stat.key dir ▸ hdir) hfind
  rw [openRecord, bind_apply, checkAttrName_of_valid hvalid]
  simp only [ScriptedStore.atop] at hmake
  simp only [ofExcept_ok, bind_apply, hopen, onStore, focus, hmissed, hflags, Bool.false_eq_true,
    if_false]
  simp only [scripted, hmake]

theorem writeValue_overtaken (hlinked : volume.store.Linked)
    (hfault : volume.store.writeFault = none) {after : Volume MemStore} {target : MemObject}
    (hexisting : existingRecord obj name volume = .ok record after)
    (htarget : volume.store.object? record = some target) (hkind : target.body.isDirectory = false)
    (hnlink : target.nlink ≤ 1) (hflags : flags.onlyExisting = false) (value : Bytes) :
    ∃ dir rest, volume.store.child? dir name = some record
      ∧ writeValue obj name value flags (volume.scripted [overtaken dir name]) = .ok () rest
      ∧ rest.store.base.readAll record = .ok (Record.image value) := by
  obtain ⟨hvalid, object, dir, d, e, hobject, hformat, hfound, hdir, hfind, rfl, _⟩ :=
    existingRecord_eq_ok_iff.mp hexisting
  have hchild : volume.store.child? dir name = some e.target :=
    child?_eq_some_iff.mpr ⟨d, e, hdir, hfind, rfl⟩
  obtain ⟨old, hold⟩ : ∃ old, target.body = .file old := by
    cases hbody : target.body with
    | file old => exact ⟨old, rfl⟩
    | directory d' => simp [hbody, Body.isDirectory] at hkind
  have hfile : volume.store.directory? e.target = none := by
    simp [MemStore.directory?, htarget, hold, Body.directory?]
  have hlegacy : object.stat.isLegacy = false := by
    simpa [ObjectStat.isLegacy, MemObject.stat] using hformat
  have hstat : ObjectStore.stat obj (volume.scripted [overtaken dir name]).store = _ :=
    ScriptedStore.passes_stat rfl
  have hopen := openRecord_overtaken hvalid hfound hdir hfind hfile hflags
  have hrecord : ObjectStore.stat e.target (ScriptedStore.atop [] volume.store) = _ :=
    ScriptedStore.passes_stat rfl
  have hwrite : writeImage e.target (Record.image value) (ScriptedStore.atop [] volume.store) = _ :=
    ScriptedStore.passes_writeImage (fun _ => rfl) rfl _
  simp only [stat_of_object? hobject, seen, ScriptedStore.atop, scripted] at hstat
  simp only [stat_of_object? htarget, seen, ScriptedStore.atop] at hrecord
  simp only [writeImage_eq hlinked.ids_distinct htarget hfault hold, seen, ScriptedStore.atop] at hwrite
  have hsingle : target.stat.nlink ≤ 1 := hnlink
  have hpage : ¬ ObjectStore.pageSize (volume.scripted [overtaken dir name]).store ≤
      Record.headerSize := Nat.not_le.mpr volume.store.headerSize_lt_pageSize
  -- The first look does not find the record, the second one does, and then the flags are not asked.
  have hunshared (rounds : Nat) :
      unsharedRecord object.stat name (rounds + 1) flags (volume.scripted [overtaken dir name]) =
        .ok e.target ((volume.opened object.stat.key dir).scripted []) := by
    rw [unsharedRecord, bind_apply, hopen]
    simp [onStore, focus, scripted, hrecord, hsingle]
  refine ⟨dir, ({ volume.opened object.stat.key dir with
    store := volume.store.setContent e.target (Record.image value) } : Volume MemStore).scripted [],
    hchild, ?_, ?_⟩
  . have hmay : onStore (statWithAttributes obj) (volume.scripted [overtaken dir name]) =
        .ok object.stat (volume.scripted [overtaken dir name]) := by
      simp [onStore, focus, statWithAttributes, scripted, hstat, hlegacy]
    rw [writeValue, bind_apply, hmay]
    simp only [bind_apply, get_apply, hpage, if_false, recordRounds, hunshared]
    simp [onStore, focus, scripted, hwrite]
  . have hafter := object?_setContent htarget (Record.image value) e.target
    rw [if_pos rfl] at hafter
    exact readAll_of_file hafter rfl

end Overtaken

section Create

variable {pageSize cacheCapacity : Nat} {format : ObjectFormat}
  {hpage : Record.headerSize < pageSize} {options : MountOptions} {ops : List Op}

theorem create_run (hcreate : flags.create = true) (obj : ObjectId) (name : String)
    (value : Bytes) :
    let volume := run ops (initial pageSize format hpage options cacheCapacity)
    volume.store.KeepsFiles ((writeValue obj name value flags).after volume).store
    ∧ (∀ record after, existingRecord obj name volume = .ok record after →
      ∃ rest, writeValue obj name value flags volume = .error attrExists rest
        ∧ rest.store = volume.store)
    ∧ (volume.store.writeFault = none → flags.onlyExisting = false →
      ∀ record after target, existingRecord obj name volume = .ok record after →
        volume.store.object? record = some target → target.body.isDirectory = false →
        target.nlink ≤ 1 →
        ∃ dir rest, volume.store.child? dir name = some record
          ∧ writeValue obj name value flags (volume.scripted [overtaken dir name]) = .ok () rest
          ∧ rest.store.base.readAll record = .ok (Record.image value)) := by
  intro volume
  have hlinked : volume.store.Linked := linked_run ops (linked_empty pageSize format hpage)
  refine ⟨keepsFiles_writeValue hlinked hcreate obj name value, fun record after hexisting => ?_,
    fun hfault hflags record after target hexisting htarget hkind hnlink => ?_⟩
  . exact writeValue_refused hcreate hexisting value
  . exact writeValue_overtaken hlinked hfault hexisting htarget hkind hnlink hflags value

def creating : SetFlags :=
  { SetFlags.none with create := true }

def attrRun : List Op :=
  fileRun ++ [.writeValue 3 "user.x" [1] .none]

def hasRecord (obj : ObjectId) (name : String) (volume : Volume MemStore) : Bool :=
  existingRecord obj name volume matches .ok _ _

theorem create_run_refused :
    let volume := run attrRun (initial 16 .current (by decide) .optional 64)
    hasRecord 3 "user.x" volume = true
    ∧ ∃ rest, writeValue 3 "user.x" [2] creating volume = .error attrExists rest
      ∧ rest.store = volume.store := by
  intro volume
  have hcheck : hasRecord 3 "user.x" volume = true := by
    decide +kernel
  refine ⟨hcheck, ?_⟩
  unfold hasRecord at hcheck
  cases hexisting : existingRecord 3 "user.x" volume with
  | ok record after =>
    have hrun := @create_run creating 16 64 .current (by decide) .optional attrRun rfl 3 "user.x" [2]
    exact hrun.2.1 record after hexisting
  | error err after =>
    rw [hexisting] at hcheck
    cases hcheck

def contentAfter (act : Action (Volume (ScriptedStore MemStore)) Unit) (id : ObjectId)
    (volume : Volume (ScriptedStore MemStore)) : Option Bytes :=
  match act volume with
  | .ok _ rest => (rest.store.base.readAll id).toOption
  | .error _ _ => none

theorem create_overtaken :
    let volume := run attrRun (initial 16 .current (by decide) .optional 64)
    creating.create = true
    ∧ volume.store.child? 5 "user.x" = some 6
    ∧ volume.store.readAll 6 = .ok (Record.image [1])
    ∧ contentAfter (writeValue 3 "user.x" [2] creating) 6
        (volume.scripted [overtaken 5 "user.x"]) = some (Record.image [2]) := by
  decide +kernel

end Create

end Volume

end AttrTree
