import AttrTree.Proofs.MountOutcome
import AttrTree.Proofs.Reserved

/-!
This module contains that a volume leaves the directories of the private tree at their places and knows them by
these, whatever is called. So does a run in which nobody else takes a directory from its place or puts something
else there.
-/

namespace AttrTree

namespace Volume

open Action MemStore

variable {volume rest : Volume MemStore} {store : MemStore} {stat : ObjectStat} {key : ObjectKey} {name : String}
  {dir root : ObjectId} {flags : SetFlags}

section Grounded

structure Grounded (volume : Volume MemStore) : Prop where
  linked : volume.store.Linked
  upright : volume.store.Upright
  privateRoot : ∀ ⦃priv⦄, volume.privateRoot = some priv →
    volume.store.child? rootId privateRootName = some priv
  attrRoot : ∀ ⦃root⦄, volume.attrRoot = some root →
    ∃ priv, volume.privateRoot = some priv ∧ volume.store.child? priv attrRootName = some root

structure Rooted (volume : Volume MemStore) : Prop extends Grounded volume where
  knows : volume.KnowsDirectories

structure OpenAt (key : ObjectKey) (dir : ObjectId) (volume : Volume MemStore) : Prop extends Rooted volume where
  place : ∃ root, volume.attrRoot = some root ∧ volume.store.child? root key.text = some dir

namespace Grounded

variable (h : volume.Grounded)
include h

theorem tended : volume.store.Tended volume.store :=
  ⟨h.linked, h.upright, .refl volume.store⟩

theorem reserved (hroot : volume.attrRoot = some root) (key : ObjectKey) : volume.store.Reserved root key.text := by
  obtain ⟨priv, hpriv, hplace⟩ := h.attrRoot hroot
  exact .attrDir (h.privateRoot hpriv) hplace key

variable (htended : volume.store.Tended store)
include htended

theorem withStore : Grounded { volume with store } where
  linked := htended.linked
  upright := htended.upright
  privateRoot _ hpriv := htended.keeps .privateRoot (h.privateRoot hpriv)
  attrRoot _ hroot := by
    obtain ⟨priv, hpriv, hchild⟩ := h.attrRoot hroot
    exact ⟨priv, hpriv, htended.keeps (.attrRoot (h.privateRoot hpriv)) hchild⟩

end Grounded

theorem Rooted.withStore (h : volume.Rooted) (htended : volume.store.Tended store) :
    Rooted { volume with store } where
  toGrounded := h.toGrounded.withStore htended
  knows := h.knows.withStore fun key _ _ _ hroot hchild => htended.keeps (h.reserved hroot key) hchild

theorem OpenAt.withStore (h : volume.OpenAt key dir) (htended : volume.store.Tended store) :
    OpenAt key dir { volume with store } where
  toRooted := h.toRooted.withStore htended
  place := by
    obtain ⟨root, hroot, hchild⟩ := h.place
    exact ⟨root, hroot, htended.keeps (h.reserved hroot key) hchild⟩

theorem Rooted.coherent (h : volume.Rooted) : volume.Coherent :=
  ⟨h.linked, h.knows⟩

theorem OpenAt.not_reserved (h : volume.OpenAt key dir) (n : String) : ¬ volume.store.Reserved dir n := by
  obtain ⟨root, hroot, hchild⟩ := h.place
  exact h.upright.not_reserved h.linked (h.reserved hroot key) hchild

end Grounded

section Tending

structure KeptByTending (P : Volume MemStore → Prop) : Prop where
  tended : ∀ ⦃volume⦄, P volume → volume.store.Tended volume.store
  withStore : ∀ ⦃volume store⦄, P volume → volume.store.Tended store → P { volume with store }

theorem keptByTending_grounded : KeptByTending Grounded :=
  ⟨fun _ h => h.tended, fun _ _ h => h.withStore⟩

theorem keptByTending_rooted : KeptByTending Rooted :=
  ⟨fun _ h => h.tended, fun _ _ h => h.withStore⟩

theorem keptByTending_openAt (key : ObjectKey) (dir : ObjectId) : KeptByTending (OpenAt key dir) :=
  ⟨fun _ h => h.tended, fun _ _ h => h.withStore⟩

namespace KeptByTending

variable {α : Type} {P : Volume MemStore → Prop} (hP : KeptByTending P)
include hP

theorem keeps {act : Action MemStore α} (hact : ∀ base : MemStore, Keeps base.Tended act)
    (volume : Volume MemStore) : Keeps (fun store => P { volume with store }) act :=
  ⟨fun store hs =>
    @KeptByTending.withStore _ hP { volume with store } _ hs ((hact store).holds store (hP.tended hs))⟩

theorem onStore {act : Action MemStore α} (hact : ∀ base : MemStore, Keeps base.Tended act) :
    Keeps P (onStore act) :=
  keeps_onStore (hP.keeps hact)

theorem looking (volume : Volume MemStore) : KeptByLooking fun store => P { volume with store } :=
  .of_family keptByLooking_tended fun h => hP.keeps h volume

end KeptByTending

theorem keeps_findDirectory_tended (base : MemStore) (parent : ObjectId) (name : String) (mayCreate : Bool)
    (missing : Error) : Keeps base.Tended (findDirectory parent name mayCreate missing) :=
  keeps_findDirectory ((keptByLooking_tended base).lookup parent name)
    (fun _ => keeps_mkdir_tended base parent name _) missing

theorem keeps_findPrivateRoot_tended (base : MemStore) (flags : MountFlags) :
    Keeps base.Tended (findPrivateRoot flags) :=
  .bind .get fun _ => .bind (keeps_findDirectory_tended base ..) fun id =>
    .bind (keeps_markPrivate_tended base id) fun _ => .pure id

theorem keeps_create_openAt (volume : Volume MemStore) (key : ObjectKey) (dir : ObjectId) (name : String)
    (mode : UInt32) : Keeps (fun store => OpenAt key dir { volume with store }) (ObjectStore.create dir name mode) :=
  .transact fun _ _ _ hok hs => hs.withStore
    (hs.tended.gain (gain_create hok) (hs.upright.create hs.linked (hs.not_reserved name) hok))

theorem keeps_unlink_openAt (volume : Volume MemStore) (key : ObjectKey) (dir : ObjectId) (name : String) :
    Keeps (fun store => OpenAt key dir { volume with store }) (ObjectStore.unlink dir name) := by
  refine .update fun store store' hok hs => ?_
  obtain ⟨owner, d, e, target, hleaf, _, _, rfl⟩ := hs.linked.unlink_cases hok
  exact hs.withStore (hs.tended.detach hleaf (hs.not_reserved e.name))

theorem keeps_rmdir_grounded (volume : Volume MemStore) (root : ObjectId) (key : ObjectKey) :
    Keeps (fun store => Grounded { volume with store }) (ObjectStore.rmdir root key.text) := by
  refine keeps_rmdirFaulty (fun store hs => hs.withStore (hs.tended.of_objects_eq rfl rfl))
    (.update fun store store' hok hs => ?_)
  rcases hs.linked.rmdir_cases hok with ⟨hdots, _⟩ | ⟨_, owner, d, e, target, hleaf, hname, _, rfl⟩
  . rw [key.isDots_text] at hdots
    cases hdots
  . have hchild {x : ObjectId} {n : String} (hn : EntryName.isDots n = false) (hne : key.text ≠ n) :
        (store.detach root e target).child? x n = store.child? x n := by
      rw [child?_detach hs.linked hleaf hn, if_neg fun hentry => hne (hname.symm.trans hentry.2.symm)]
    constructor
    . exact hs.linked.detach hleaf
    . exact hs.upright.detach hs.linked hleaf
    . intro priv hpriv
      exact (hchild (by decide) key.text_ne_privateRootName).trans (hs.privateRoot hpriv)
    . intro known hroot
      obtain ⟨priv, hpriv, hplace⟩ := hs.attrRoot hroot
      exact ⟨priv, hpriv, (hchild (by decide) key.text_ne_attrRootName).trans hplace⟩

end Tending

section Opening

theorem keeps_rooted {α : Type} {act : Action (Volume MemStore) α} (h : Keeps Grounded act)
    (h' : Keeps Coherent act) : Keeps Rooted act :=
  ⟨fun volume hs => { h.holds volume hs.toGrounded with knows := (h'.holds volume hs.coherent).2 }⟩

theorem keeps_openAttrRoot_grounded (mayCreate : Bool) : Keeps Grounded (openAttrRoot mayCreate) := by
  refine ⟨fun volume hs => ?_⟩
  have hkept (priv : ObjectId) : Grounded { volume with
      store := (findDirectory priv attrRootName mayCreate noAttrRoot).after volume.store } :=
    hs.withStore ((keeps_findDirectory_tended _ ..).holds _ hs.tended)
  have hexit := attrRootExit volume mayCreate
  unfold after
  generalize openAttrRoot mayCreate volume = result at hexit
  cases hexit with
  | nowhere => exact hs
  | known => exact hs
  | @found priv root store hpriv _ hfind =>
    have hend := hkept priv
    rw [after_of_ok hfind] at hend
    refine { hend with attrRoot := ?_ }
    rintro _ ⟨⟩
    exact ⟨priv, hpriv, child?_of_findDirectory hs.linked hfind⟩
  | @failed priv err store _ _ hfind =>
    have hend := hkept priv
    rw [after_of_error hfind] at hend
    exact hend

theorem keeps_openDirectory_grounded (stat : ObjectStat) (flags : SetFlags) :
    Keeps Grounded (openDirectory stat flags) := by
  have hcached : Keeps Grounded (cachedDirectory? stat.key) :=
    ⟨fun volume hs => by rw [after_of_ok (cachedDirectory?_eq volume stat.key)]; exact { hs with }⟩
  refine .bind hcached fun found => ?_
  cases found with
  | some dir => exact .pure dir
  | none =>
    refine .bind (keeps_openAttrRoot_grounded _) fun root => ?_
    refine .bind (keptByTending_grounded.onStore fun base => keeps_findDirectory_tended base ..) fun dir => ?_
    exact .bind (.modify fun _ hs => { hs with }) fun _ => .pure dir

theorem keeps_openDirectory_rooted (stat : ObjectStat) (flags : SetFlags) :
    Keeps Rooted (openDirectory stat flags) :=
  keeps_rooted (keeps_openDirectory_grounded stat flags) (follows_openDirectory stat flags).keeps

theorem ensures_openDirectory_rooted (stat : ObjectStat) (flags : SetFlags) :
    Ensures Rooted Rooted (OpenAt stat.key) (openDirectory stat flags) := by
  have hends := Ensures.of_keeps (keeps_openDirectory_rooted stat flags) fun _ hs => hs
  exact ⟨fun _ _ _ hs hopen => { hends.ok hs hopen with place := (hs.coherent.hasOpen hopen).2.2 }, hends.error⟩

theorem ensures_openAt {α : Type} {act : Action (Volume MemStore) α} (h : Keeps (OpenAt key dir) act) :
    Ensures Rooted (OpenAt key dir) (fun _ => Rooted) act := by
  have hends := Ensures.of_keeps h fun _ hs => hs
  exact ⟨fun _ _ _ hs hrun => (hends.ok hs hrun).toRooted, fun _ _ _ hs hrun => (hends.error hs hrun).toRooted⟩

theorem keeps_removeEntry_openAt (volume : Volume MemStore) (key : ObjectKey) (dir : ObjectId) (name : String) :
    Keeps (fun store => OpenAt key dir { volume with store }) (removeEntry dir name) :=
  keeps_removeEntry ((keptByTending_openAt key dir).looking volume) (keeps_unlink_openAt volume key dir name)

theorem keeps_removeRecord_rooted (stat : ObjectStat) (name : String) :
    Keeps Rooted (removeRecord stat name) := by
  refine .bind (.ofExcept _) fun _ => Ensures.keeps (.bind (ensures_openDirectory_rooted stat .looking) fun dir => ?_)
    fun _ _ hs => hs
  exact ensures_openAt (keeps_onStore fun volume => keeps_removeEntry_openAt volume stat.key dir name)

theorem keeps_prune_rooted (stat : ObjectStat) (dir : ObjectId) : Keeps Rooted (prune stat dir) := by
  refine keeps_rooted ?_ (follows_prune stat dir).keeps
  refine .bind (keptByTending_grounded.onStore fun base => keeps_hasEntries (keptByLooking_tended base) dir)
    fun more => .ite (.pure ()) ?_
  refine .bind (keeps_openAttrRoot_grounded false) fun root => .bind (.modify fun _ hs => { hs with }) fun _ => ?_
  exact keeps_onStore fun volume => keeps_rmdir_grounded volume root stat.key

end Opening

section Calls

theorem keeps_openRecord_rooted (stat : ObjectStat) (name : String) (flags : SetFlags) :
    Keeps Rooted (openRecord stat name flags) := by
  refine .bind (.ofExcept _) fun _ => Ensures.keeps (.bind (ensures_openDirectory_rooted stat flags) fun dir => ?_)
    fun _ _ hs => hs
  have hlooking := (keptByTending_openAt stat.key dir).looking
  refine ensures_openAt (.bind (keeps_onStore fun volume => (hlooking volume).lookup dir name) fun found => ?_)
  cases found with
  | some id => exact .ite (.throw attrExists) (.pure id)
  | none =>
    exact .ite (.throw attrNotFound) (keeps_onStore fun volume =>
      keeps_makeRecord ((hlooking volume).lookup dir name) (keeps_create_openAt volume stat.key dir name))

theorem keeps_unsharedRecord_rooted (stat : ObjectStat) (name : String) (rounds : Nat) (flags : SetFlags) :
    Keeps Rooted (unsharedRecord stat name rounds flags) := by
  induction rounds generalizing flags with
  | zero => exact .throw _
  | succ rounds ih =>
    refine .bind (keeps_openRecord_rooted stat name flags) fun record => ?_
    refine .bind (keptByTending_rooted.onStore fun base => (keptByLooking_tended base).stat record) fun _ => ?_
    exact .ite (.pure record) (.bind (keeps_removeRecord_rooted stat name) fun _ => ih _)

theorem keeps_writeValue_rooted (obj : ObjectId) (name : String) (value : Bytes) (flags : SetFlags) :
    Keeps Rooted (writeValue obj name value flags) := by
  have hrest (stat : ObjectStat) (volume : Volume MemStore) : Keeps Rooted (do
      let record ← unsharedRecord stat name (recordRounds volume.store) flags
      onStore (writeImage record (Record.image value))) :=
    .bind (keeps_unsharedRecord_rooted stat name _ flags) fun record => keptByTending_rooted.onStore fun base =>
      keeps_writeImage (keeps_setAttr_tended base record) (keeps_writePage_tended base record) _
  refine .bind (keptByTending_rooted.onStore fun base => keeps_statWithAttributes (keptByLooking_tended base) obj)
    fun stat => .bind .get fun _ => ?_
  exact .ite (.bind (.throw _) fun _ => .bind .get fun volume => hrest stat volume)
    (.bind .get fun volume => hrest stat volume)

theorem rooted_withPrivateRoot {flags : MountFlags} {id : ObjectId} (hnone : volume.privateRoot = none)
    (hfind : findPrivateRoot flags volume.store = .ok id store) (h : volume.Rooted)
    (h' : Rooted { volume with store }) : Rooted { volume with store, privateRoot := some id } := by
  obtain ⟨middle, hfound, hmark⟩ := findPrivateRoot_eq_ok_iff.mp hfind
  have hmiddle : middle.Linked := by
    have hkept := keeps_findDirectory_tended volume.store rootId privateRootName (!flags.readOnly)
      privateRootNotFound
    exact ((Ensures.of_keeps hkept fun _ hs => hs).ok h.tended hfound).linked
  have hchild := keepsChildren_of_gain hmiddle (gain_markPrivate hmiddle (update_eq_ok_iff.mp hmark))
  refine { h' with privateRoot := ?_, attrRoot := fun root hroot => ?_, knows := fun key dir hpeek => ?_ }
  . rintro _ ⟨⟩
    exact hchild (by decide) (child?_of_findDirectory h.linked hfound)
  -- As long as there is no private root, nothing in it is remembered.
  . obtain ⟨priv, hpriv, _⟩ := h.attrRoot hroot
    rw [hnone] at hpriv
    cases hpriv
  . exact ⟨rfl, (h'.knows hpeek).2⟩

theorem followedByManaging_rooted : FollowedByManaging id Rooted where
  looking := keptByTending_rooted.looking
  findDirectory stat := .of_keeps (keeps_openDirectory_rooted stat .looking)
  removeRecord stat name := .of_keeps (keeps_removeRecord_rooted stat name)
  prune stat dir := .of_keeps (keeps_prune_rooted stat dir)
  setAttr volume id change := keptByTending_rooted.keeps (fun base => keeps_setAttr_tended base id change) volume
  findPrivateRoot volume flags :=
    keptByTending_rooted.keeps (fun base => keeps_findPrivateRoot_tended base flags) volume
  options _ _ _ hs := { hs with }
  privateRoot _ _ _ _ hnone hfind hs hs' := rooted_withPrivateRoot hnone hfind hs hs'

theorem keeps_deleteAttributes_rooted (obj : ObjectId) : Keeps Rooted (deleteAttributes obj) := by
  have hreading := followedByManaging_rooted.toFollowedByReading
  refine .bind (follows_stat hreading obj).keeps fun stat => ?_
  have hkept := Ensures.of_keeps (follows_bulkDirectory? hreading stat).keeps fun _ hs => hs
  have hfound : Ensures Rooted Rooted
      (fun found volume => volume.Rooted ∧ ∀ dir, found = some dir → volume.OpenAt stat.key dir)
      (bulkDirectory? stat) := by
    refine ⟨fun volume found rest hs hrun => ⟨hkept.ok hs hrun, ?_⟩, hkept.error⟩
    rintro dir rfl
    exact (ensures_openDirectory_rooted stat .looking).ok hs (openDirectory_of_bulkDirectory? hrun)
  refine Ensures.keeps (hfound.bind fun found => ?_) fun _ _ hs => hs
  cases found with
  | none => exact .pure fun _ hs => hs.1
  | some dir =>
    have hvisit := (@follows_visitEntries _ id _ _ (keptByTending_openAt stat.key dir).looking dir
      (removeEntry dir) fun volume => keeps_removeEntry_openAt volume stat.key dir).keeps
    have hprune : Keeps Rooted (prune stat dir) := keeps_prune_rooted stat dir
    refine Ensures.mono (.bind (ensures_openAt hvisit.attempt) fun removed => ?_) (fun _ hs => hs.2 dir rfl)
      fun _ _ hs => hs
    exact .of_keeps (.bind hprune.attempt fun pruned => .bind (.ofExcept removed) fun _ => .ofExcept pruned)
      fun _ hs => hs

end Calls

section Run

variable {op : Op} {ops : List Op}

def SparesReserved : List Op → Volume MemStore → Prop
  | [], _ => True
  | op :: ops, volume =>
    (∀ step ∈ op.directSteps volume, step.1.store.KeepsReserved step.2.store ∧ step.2.store.Upright)
      ∧ SparesReserved ops (op.perform.after volume)

theorem Op.rooted_perform (hs : volume.Rooted)
    (hspares : ∀ step ∈ op.directSteps volume, step.1.store.KeepsReserved step.2.store ∧ step.2.store.Upright) :
    (op.perform.after volume).Rooted := by
  have hcall (hcall : op.isCall = true) : Keeps Rooted op.perform :=
    (Op.follows_perform followedByManaging_rooted
      (fun obj name value flags => .of_keeps (keeps_writeValue_rooted obj name value flags))
      (fun obj => .of_keeps (keeps_deleteAttributes_rooted obj)) hcall).keeps
  refine Op.holds_perform keptByTending_rooted.looking (fun _ _ hs => { hs with }) hcall (fun _ _ _ hs => ?_)
    (fun step hstep hstart => ?_) hs
  -- A new volume remembers nothing.
  . exact { hs with privateRoot := nofun, attrRoot := nofun, knows := nofun }
  . obtain ⟨hkeeps, hupright⟩ := hspares step hstep
    exact hstart.withStore ⟨Op.linked_directSteps hs.linked op step hstep, hupright, hkeeps⟩

theorem rooted_run (hs : volume.Rooted) (hspares : SparesReserved ops volume) : (run ops volume).Rooted := by
  induction ops generalizing volume with
  | nil => exact hs
  | cons op ops ih => exact ih (Op.rooted_perform hs hspares.1) hspares.2

theorem rooted_initial (pageSize : Nat) (format : ObjectFormat) (h : Record.headerSize < pageSize)
    (options : MountOptions) (cacheCapacity : Nat) :
    (initial pageSize format h options cacheCapacity).Rooted where
  linked := linked_empty pageSize format h
  upright _ _ _ hplace hchild := by
    have hempty := child?_empty pageSize format h (n := privateRootName) (by decide)
    cases hplace with
    | privateRoot => cases hempty.symm.trans hchild
    | attrRoot hpriv => cases hempty.symm.trans hpriv
    | attrDir hpriv => cases hempty.symm.trans hpriv
  privateRoot := nofun
  attrRoot := nofun
  knows := nofun

theorem sparesReserved_of_all (hs : volume.Rooted)
    (h : ∀ op ∈ ops, op.All MemStore.Op.SparesReserved) : SparesReserved ops volume := by
  induction ops generalizing volume with
  | nil => trivial
  | cons op ops ih =>
    obtain ⟨hop, hops⟩ := List.forall_mem_cons.mp h
    have hlooking : KeptByLooking fun store : MemStore => store.Linked ∧ store.Upright :=
      .of_family keptByLooking_tended fun hact => ⟨fun store hs =>
        have hkept := (hact store).holds store ⟨hs.1, hs.2, .refl store⟩
        ⟨hkept.linked, hkept.upright⟩⟩
    have hsteps := Op.forall_directSteps hlooking (fun store h => Tended.mk h.1 h.2 (.refl store))
      (fun _ _ h => ⟨h.linked, h.upright⟩) (fun base _ hop => keeps_perform_tended base hop) hop
      ⟨hs.linked, hs.upright⟩
    have hspares := fun step hstep => And.intro (hsteps step hstep).keeps (hsteps step hstep).upright
    exact ⟨hspares, ih (Op.rooted_perform hs hspares) hops⟩

end Run

end Volume

end AttrTree
