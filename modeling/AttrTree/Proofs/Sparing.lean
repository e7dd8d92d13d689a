import AttrTree.Proofs.UserData

/-!
This module contains what calls leave alone. Calls that look change nothing that is stored, and calls that
set and remove attributes spare the data of users, whatever was done to the private tree before.
-/

namespace AttrTree

open Action

namespace MemStore

variable {first store : MemStore} {id dir parent record : ObjectId} {name : String}

section Operations

variable (hfirst : first.Linked)

theorem keptByLooking_spares (first : MemStore) : KeptByLooking first.Spares where
  lookup _ _ := .query _
  stat _ := .query _
  readPage _ _ _ := .query _
  locateEntry _ _ := .query _
  entryName := keeps_entryNameMoving fun _ _ hs => hs.of_objects_eq rfl rfl

include hfirst

theorem keeps_mkdir_spares (hparent : first.Inner parent) (name : String) (mode : UInt32) :
    Keeps first.Spares (ObjectStore.mkdir parent name mode) := by
  refine .transact fun store made store' hok hs => ?_
  obtain ⟨hvalid, owner, d, howner, hbody, hfree, heq⟩ := mkdir_eq_ok_iff.mp hok
  injection heq with _ heq
  exact heq ▸ hs.attach hfirst (isNew_directory ..) howner hbody hvalid hfree hparent

theorem keeps_create_spares (hparent : first.Inner parent) (name : String) (mode : UInt32) :
    Keeps first.Spares (ObjectStore.create parent name mode) := by
  refine .transact fun store made store' hok hs => ?_
  obtain ⟨hvalid, owner, d, howner, hbody, hfree, heq⟩ := create_eq_ok_iff.mp hok
  injection heq with _ heq
  exact heq ▸ hs.attach hfirst (isNew_file ..) howner hbody hvalid hfree hparent

theorem keeps_rmdir_spares (hparent : first.Inner parent) (hname : EntryName.isDots name = false) :
    Keeps first.Spares (ObjectStore.rmdir parent name) := by
  refine keeps_rmdirFaulty (fun _ hs => hs.of_objects_eq rfl rfl) (.update fun store store' hok hs => ?_)
  rcases hs.linked.rmdir_cases hok with ⟨hdots, _⟩ | ⟨_, owner, d, e, target, hleaf, _, hkind, rfl⟩
  . rw [hname] at hdots
    cases hdots
  . exact hs.detach hfirst hleaf hparent (.inr hkind)

theorem keeps_removeEntry_spares (hdir : first.Inner dir) (name : String) :
    Keeps first.Spares (Volume.removeEntry dir name) := by
  -- Only a private file is removed, and only from the directory.
  refine ⟨fun store hs => ?_⟩
  have hremoval := entryRemoval hs.linked dir name
  generalize hrun : Volume.removeEntry dir name store = result at hremoval
  cases hremoval with
  | refused err => rwa [after_of_error hrun]
  | spared => rwa [after_of_ok hrun]
  | removed _ hleaf _ hprivate =>
    rw [after_of_ok hrun]
    exact hs.detach hfirst hleaf hdir (.inl hprivate)

omit hfirst in
theorem keeps_writeImage_spares (hrecord : first.Secluded record) (image : Bytes) :
    Keeps first.Spares (Volume.writeImage record image) := by
  refine Volume.keeps_writeImage (fun change => .update fun store store' hok hs => ?_)
    (fun index offset data => keeps_writePageFaulty (fun _ _ hs => hs.of_objects_eq rfl rfl)
      (.update fun store store' hok hs => ?_)) image
  . have hlinked := hs.linked.of_sameLinks (sameLinks_setAttr hs.linked hok)
    obtain ⟨_, _, _, rfl⟩ := setAttr_eq_ok_iff.mp hok
    exact hs.mapObject hrecord hlinked (fun _ => rfl) (fun _ => rfl) (fun _ => rfl)
      (MemObject.directory?_apply change)
  . have hlinked := hs.linked.of_sameLinks (sameLinks_writePage hs.linked hok)
    obtain ⟨_, _, _, _, rfl⟩ := writePage_eq_ok_iff.mp hok
    exact hs.mapObject hrecord hlinked (fun _ => rfl) (fun _ => rfl) (fun _ => rfl) fun object =>
      MemObject.directory?_write _ _ object.body

end Operations

end MemStore

namespace Volume

open MemStore

variable {volume rest : Volume MemStore} {first : MemStore} {stat : ObjectStat} {name : String}
  {flags : SetFlags} {dir record : ObjectId}

section Reading

structure OnlyLooked (volume rest : Volume MemStore) : Prop where
  store_eq : ∃ moves, rest.store = { volume.store with pendingMoves := moves }
  options_eq : rest.options = volume.options
  aclFlag_eq : rest.aclFlag = volume.aclFlag
  privateRoot_eq : rest.privateRoot = volume.privateRoot
  locks_eq : rest.locks = volume.locks

theorem OnlyLooked.refl (volume : Volume MemStore) : volume.OnlyLooked volume :=
  ⟨⟨_, rfl⟩, rfl, rfl, rfl, rfl⟩

theorem keptByLooking_onlyLooked (volume rest : Volume MemStore) :
    KeptByLooking fun store => volume.OnlyLooked { rest with store } where
  lookup _ _ := .query _
  stat _ := .query _
  readPage _ _ _ := .query _
  locateEntry _ _ := .query _
  entryName := keeps_entryNameMoving fun store moves hs => by
    obtain ⟨⟨_, hstore⟩, hoptions, hflag, hroot, hlocks⟩ := hs
    refine ⟨⟨moves, ?_⟩, hoptions, hflag, hroot, hlocks⟩
    rw [show store = _ from hstore]

theorem keptByOpening_onlyLooked (volume : Volume MemStore) :
    KeptByOpening false volume.OnlyLooked fun _ _ => True where
  known _ _ _ _ := trivial
  find rest parent name missing _ := by
    have hlookup := (keptByLooking_onlyLooked volume rest).lookup parent name
    have hfind := @keeps_findDirectory _ _ _ _ _ hlookup false nofun missing
    exact .mono (.of_keeps hfind fun _ hs => hs) (fun _ hs => hs.1) fun _ _ hs => ⟨hs, trivial⟩
  attrRoot _ _ hs _ := ⟨hs.store_eq, hs.options_eq, hs.aclFlag_eq, hs.privateRoot_eq, hs.locks_eq⟩
  cache _ _ hs _ := ⟨hs.store_eq, hs.options_eq, hs.aclFlag_eq, hs.privateRoot_eq, hs.locks_eq⟩

theorem followedByReading_onlyLooked (volume : Volume MemStore) :
    FollowedByReading id volume.OnlyLooked where
  looking := keptByLooking_onlyLooked volume
  findDirectory _ :=
    .of_keeps (((keptByOpening_onlyLooked volume).openDirectory rfl).keeps fun _ _ hs => hs.1)

def Op.IsReading : Op → Prop
  | getAttribute .. | readValue .. | listAttributes .. | getHandled .. | scan .. => True
  | forEachEntry _ visit => ∀ item, visit item = []
  | _ => False

theorem onlyLooked_of_isReading {op : Op} (hop : op.IsReading) (volume : Volume MemStore) :
    volume.OnlyLooked (op.perform.after volume) := by
  have hreading := followedByReading_onlyLooked volume
  suffices hkeeps : Keeps volume.OnlyLooked op.perform from hkeeps.holds volume (.refl volume)
  cases op with
  | getAttribute registry obj name buffer =>
    exact (Follows.withSecond buffer (follows_getAttribute hreading registry obj name)).discard.keeps
  | readValue obj name buffer =>
    exact (Follows.withSecond buffer (follows_readValue hreading obj name)).discard.keeps
  | listAttributes registry obj buffer =>
    exact (Follows.withSecond buffer (follows_listAttributes hreading registry obj)).discard.keeps
  | getHandled handler obj name buffer =>
    exact (Follows.withSecond buffer (follows_getValue hreading handler obj name)).discard.keeps
  | scan dir position limit =>
    exact (@follows_scanDirectory _ id _ _ hreading.looking dir position limit).discard.keeps
  | forEachEntry dir visit =>
    have hscan := @follows_forEachEntry _ Unit id volume.OnlyLooked _ hreading.looking dir
      (fun item => onFirst (onStore (MemStore.performAll (visit item)))) fun _ _ item => by
        rw [hop item]
        exact .onFirst (follows_onStore fun _ => .pure ())
    exact .withSecond () hscan.keeps
  | _ => cases hop

end Reading

section Sparing

structure Guarded (first : MemStore) (volume : Volume MemStore) : Prop where
  spares : first.Spares volume.store
  knows : ∀ ⦃id⦄, volume.Knows id → first.Inner id

def Found (first : MemStore) (dir : ObjectId) (name : String) (record : ObjectId)
    (volume : Volume MemStore) : Prop :=
  volume.Guarded first ∧ first.Inner dir ∧ volume.store.child? dir name = some record

theorem keeps_guarded (volume : Volume MemStore) {α : Type} {act : Action MemStore α}
    (hact : Keeps first.Spares act) : Keeps (fun store => Guarded first { volume with store }) act :=
  ⟨fun store hs => ⟨hact.holds store hs.spares, hs.knows⟩⟩

theorem keptByLooking_guarded (volume : Volume MemStore) :
    KeptByLooking fun store => Guarded first { volume with store } where
  lookup dir name := keeps_guarded volume ((keptByLooking_spares first).lookup dir name)
  stat id := keeps_guarded volume ((keptByLooking_spares first).stat id)
  readPage id index length := keeps_guarded volume ((keptByLooking_spares first).readPage id index length)
  locateEntry dir position :=
    keeps_guarded volume ((keptByLooking_spares first).locateEntry dir position)
  entryName dir slot := keeps_guarded volume ((keptByLooking_spares first).entryName dir slot)

theorem Guarded.withCache (h : volume.Guarded first) {cache : DirCache}
    (hcache : ∀ ⦃key id⦄, cache.peek? key = some id → first.Inner id) :
    Guarded first { volume with cache } := by
  refine ⟨h.spares, fun id hknows => ?_⟩
  obtain hpriv | hroot | ⟨key, hpeek⟩ := hknows
  . exact h.knows (.inl hpriv)
  . exact h.knows (.inr (.inl hroot))
  . exact hcache hpeek

variable (hfirst : first.Linked)
include hfirst

theorem keptByOpening_guarded (mayCreate : Bool) :
    KeptByOpening mayCreate (Guarded first) fun id _ => first.Inner id where
  known _ _ hs hknows := hs.knows hknows
  find volume parent name missing hname := by
    refine .of_and fun hparent => ?_
    have hkeeps := @keeps_findDirectory _ _ _ _ _ ((keptByLooking_spares first).lookup parent name)
      mayCreate (fun _ => keeps_mkdir_spares hfirst hparent name _) missing
    have hends := Ensures.of_keeps (keeps_guarded volume hkeeps) fun _ hs => hs
    refine ⟨fun store id store' hs hrun => ?_, hends.error⟩
    have hguarded : Guarded first { volume with store := store' } := hends.ok hs hrun
    have hchild := child?_of_findDirectory hs.spares.linked hrun
    exact ⟨hguarded, .child hfirst hguarded.spares hparent hname hchild⟩
  attrRoot volume root hs hroot := by
    refine ⟨hs.spares, fun id hknows => ?_⟩
    obtain hpriv | heq | hpeek := hknows
    . exact hs.knows (.inl hpriv)
    . cases heq
      exact hroot
    . exact hs.knows (.inr (.inr hpeek))
  cache _ _ hs hcache := hs.withCache hcache

theorem ensures_openDirectory_guarded (stat : ObjectStat) (flags : SetFlags) :
    Ensures (Guarded first) (Guarded first) (fun dir volume => volume.Guarded first ∧ first.Inner dir)
      (openDirectory stat flags) :=
  (keptByOpening_guarded hfirst _).openDirectory rfl

theorem keeps_removeRecord_guarded (stat : ObjectStat) (name : String) :
    Keeps (Guarded first) (removeRecord stat name) := by
  have hremove (dir : ObjectId) : Ensures (Guarded first)
      (fun volume => volume.Guarded first ∧ first.Inner dir) (fun _ => Guarded first)
      (onStore (removeEntry dir name)) :=
    .of_and fun hdir => .onStore fun volume =>
      .of_keeps (keeps_guarded volume (keeps_removeEntry_spares hfirst hdir name)) fun _ hs => hs
  have hcheck : Ensures (Guarded first) (Guarded first) (fun _ => Guarded first)
      (Action.ofExcept (checkAttrName name)) :=
    .ofExcept (fun _ hs => hs) fun _ _ _ hs => hs
  exact (hcheck.bind fun _ => (ensures_openDirectory_guarded hfirst stat .looking).bind
    hremove).keeps fun _ _ hs => hs

theorem keeps_prune_guarded (stat : ObjectStat) (dir : ObjectId) :
    Keeps (Guarded first) (prune stat dir) := by
  have hmore : Keeps (Guarded first) (onStore (hasEntries dir)) :=
    (Ensures.onStore fun volume =>
      .of_keeps (keeps_hasEntries (keptByLooking_guarded volume) dir) fun _ hs => hs).keeps
        fun _ _ hs => hs
  refine .bind hmore fun more => .ite (.pure ()) ?_
  refine ((keptByOpening_guarded hfirst false).openAttrRoot.bind fun root => ?_).keeps
    fun _ _ hs => hs
  refine .of_and fun hroot => .of_keeps (.bind (.modify fun volume hs => ?_) fun _ => ?_) fun _ hs => hs
  . refine hs.withCache fun key id hpeek => ?_
    rw [DirCache.peek?_erase] at hpeek
    split at hpeek
    . cases hpeek
    . exact hs.knows (.inr (.inr ⟨key, hpeek⟩))
  . refine (Ensures.onStore fun volume => .of_keeps (keeps_guarded volume ?_) fun _ hs => hs).keeps
      fun _ _ hs => hs
    exact keeps_rmdir_spares hfirst hroot stat.key.isDots_text

theorem followedByRemoving_guarded : FollowedByRemoving id (Guarded first) where
  looking := keptByLooking_guarded
  findDirectory stat :=
    .of_keeps ((ensures_openDirectory_guarded hfirst stat .looking).keeps fun _ _ hs => hs.1)
  removeRecord stat name := .of_keeps (keeps_removeRecord_guarded hfirst stat name)
  prune stat dir := .of_keeps (keeps_prune_guarded hfirst stat dir)

theorem ensures_openRecord_guarded (stat : ObjectStat) (name : String) (flags : SetFlags) :
    Ensures (Guarded first) (Guarded first)
      (fun record volume => EntryName.isDots name = false ∧ ∃ dir, volume.Found first dir name record)
      (openRecord stat name flags) := by
  have hcheck : Ensures (Guarded first) (Guarded first)
      (fun _ volume => volume.Guarded first ∧ isValidName name = true)
      (Action.ofExcept (checkAttrName name)) := by
    refine .ofExcept (fun _ hs => hs) fun _ _ hok hs => ⟨hs, ?_⟩
    by_contra hinvalid
    obtain ⟨err, herr, _⟩ := checkAttrName_of_invalid (Bool.eq_false_iff.mpr hinvalid)
    rw [hok] at herr
    cases herr
  refine hcheck.bind fun _ => .of_and fun hvalid => ?_
  have hname := isDots_of_isValidName hvalid
  refine (ensures_openDirectory_guarded hfirst stat flags).bind fun dir => .of_and fun hdir => ?_
  have hlookup : Ensures (Guarded first) (Guarded first)
      (fun found volume => volume.Guarded first ∧ volume.store.child? dir name = found)
      (onStore (ObjectStore.lookup dir name)) := by
    refine .onStore fun volume => ⟨fun store found store' hs hrun => ?_, ?_⟩
    . obtain ⟨rfl, hchild⟩ := child?_of_lookup hrun
      exact ⟨hs, hchild⟩
    . have hkeeps := (@keptByLooking_guarded first volume).lookup dir name
      exact (Ensures.of_keeps hkeeps fun _ hs => hs).error
  refine hlookup.bind fun found => ?_
  cases found with
  | some id =>
    refine .ite (fun _ => .throw fun _ hs => hs.1) fun _ => .pure fun volume hs => ?_
    exact ⟨hname, dir, hs.1, hdir, hs.2⟩
  | none =>
    refine .ite (fun _ => .throw fun _ hs => hs.1) fun _ => .onStore fun volume => ?_
    have hkeeps := @keeps_makeRecord _ _ _ _ _ ((keptByLooking_spares first).lookup dir name)
      (keeps_create_spares hfirst hdir name)
    have hends := Ensures.of_keeps (keeps_guarded volume hkeeps) fun _ hs => hs
    refine ⟨fun store id store' hs hrun => ⟨hname, dir, hends.ok hs.1 hrun, hdir, ?_⟩, fun _ _ _ hs =>
      hends.error hs.1⟩
    exact child?_of_makeRecord hs.1.spares.linked hrun

theorem ensures_unsharedRecord_guarded (stat : ObjectStat) (name : String) (rounds : Nat)
    (flags : SetFlags) :
    Ensures (Guarded first) (Guarded first)
      (fun record volume => volume.Guarded first ∧ first.Secluded record)
      (unsharedRecord stat name rounds flags) := by
  induction rounds generalizing flags with
  | zero => exact .throw fun _ hs => hs
  | succ rounds ih =>
    refine (ensures_openRecord_guarded hfirst stat name flags).bind fun record => ?_
    have hstat : Ensures (Guarded first)
        (fun volume => EntryName.isDots name = false ∧ ∃ dir, volume.Found first dir name record)
        (fun stat volume => volume.Guarded first ∧ (stat.nlink ≤ 1 → first.Secluded record))
        (onStore (ObjectStore.stat record)) := by
      refine .onStore fun volume => ⟨fun store stat store' hs hrun => ?_, fun store e store' hs hrun => ?_⟩
      . obtain ⟨hname, dir, hguarded, hdir, hchild⟩ := hs
        cases hobject : store.object? record with
        | none =>
          rw [stat_of_none hobject] at hrun
          cases hrun
        | some object =>
          rw [stat_of_object? hobject] at hrun
          cases hrun
          exact ⟨hguarded, secluded_of_single hfirst hguarded.spares hdir hname hchild hobject⟩
      . obtain ⟨_, _, hguarded, _⟩ := hs
        have hend := ((keptByLooking_guarded volume).stat record).holds store hguarded
        rwa [after_of_error hrun] at hend
    refine hstat.bind fun _ => .ite (fun hsingle => .pure fun _ hs => ⟨hs.1, hs.2 hsingle⟩) fun _ => ?_
    refine (Ensures.of_keeps (keeps_removeRecord_guarded hfirst stat name) fun _ hs => hs.1).bind
      fun _ => ih _

theorem keeps_writeValue_guarded (obj : ObjectId) (name : String) (value : Bytes)
    (flags : SetFlags) : Keeps (Guarded first) (writeValue obj name value flags) := by
  have hreading := (followedByRemoving_guarded hfirst).toFollowedByReading
  have hrest (stat : ObjectStat) (volume : Volume MemStore) : Keeps (Guarded first) (do
      let record ← unsharedRecord stat name (recordRounds volume.store) flags
      onStore (writeImage record (Record.image value))) := by
    refine ((ensures_unsharedRecord_guarded hfirst stat name _ flags).bind fun record => ?_).keeps
      fun _ _ hs => hs
    exact .of_and fun hrecord => .onStore fun rest =>
      .of_keeps (keeps_guarded rest (keeps_writeImage_spares hrecord _)) fun _ hs => hs
  refine .bind (follows_statWithAttributes hreading obj).keeps fun stat => .bind .get fun _ => ?_
  exact .ite (.bind (.throw _) fun _ => .bind .get fun volume => hrest stat volume)
    (.bind .get fun volume => hrest stat volume)

theorem keeps_deleteAttributes_guarded (obj : ObjectId) :
    Keeps (Guarded first) (deleteAttributes obj) := by
  have hremoving := followedByRemoving_guarded hfirst
  refine .bind (follows_stat hremoving.toFollowedByReading obj).keeps fun stat => ?_
  have hfound : Ensures (Guarded first) (Guarded first)
      (fun found volume => volume.Guarded first ∧ ∀ dir, found = some dir → first.Inner dir)
      (bulkDirectory? stat) := by
    have hkeeps := (follows_bulkDirectory? hremoving.toFollowedByReading stat).keeps
    have hends := Ensures.of_keeps hkeeps fun _ hs => hs
    refine ⟨fun volume found rest hs hrun => ⟨hends.ok hs hrun, fun dir heq => ?_⟩, hends.error⟩
    subst heq
    exact ((ensures_openDirectory_guarded hfirst stat .looking).ok hs
      (openDirectory_of_bulkDirectory? hrun)).2
  refine (hfound.bind fun found => ?_).keeps fun _ _ hs => hs
  cases found with
  | none => exact .pure fun _ hs => hs.1
  | some dir =>
    refine Ensures.of_and fun hdir => .of_keeps ?_ fun _ hs => hs
    have hvisit := @follows_visitEntries _ id (Guarded first) _ keptByLooking_guarded dir
      (removeEntry dir) fun volume name =>
        keeps_guarded volume (keeps_removeEntry_spares hfirst (hdir dir rfl) name)
    exact .bind hvisit.keeps.attempt fun removed =>
      .bind (keeps_prune_guarded hfirst stat dir).attempt fun _ =>
        .bind (.ofExcept removed) fun _ => .ofExcept _

end Sparing

end Volume

end AttrTree
