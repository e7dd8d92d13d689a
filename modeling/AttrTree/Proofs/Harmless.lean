import AttrTree.Proofs.Sparing

/-!
This module contains why calls on attributes do no harm in any state. Whatever is done to a store, what
a volume remembers as a part of the private tree is one, or is gone.
-/

namespace AttrTree

open Action

namespace MemStore

variable {store store' : MemStore} {id parent : ObjectId} {name : String}

section Inner

def KeepsDirectories (store store' : MemStore) : Prop :=
  ∀ ⦃x n id d⦄, EntryName.isDots n = false → store.child? x n = some id →
    store'.directory? id = some d → store'.child? x n = some id

structure KeepsPlaces (store store' : MemStore) : Prop where
  nextId_le : store.nextId ≤ store'.nextId
  directories : store.KeepsDirectories store'
  back : ∀ ⦃id d'⦄, id < store.nextId → store'.directory? id = some d' →
    ∃ d, store.directory? id = some d

theorem keepsPlaces_of_gain (hlinked : store.Linked) (hgain : store.Gain store') :
    store.KeepsPlaces store' where
  nextId_le := hgain.step.nextId_le
  directories _ _ _ _ hn hchild _ := keepsChildren_of_gain hlinked hgain hn hchild
  back id d' hid hdir' := by
    cases hgain with
    | same _ hdirectory => exact ⟨d', hdirectory id ▸ hdir'⟩
    | shown _ =>
      rw [directory?_setVisible] at hdir'
      split at hdir'
      . obtain ⟨d, hdir, _⟩ := Option.map_eq_some_iff.mp hdir'
        exact ⟨d, hdir⟩
      . exact ⟨d', hdir'⟩
    | attach hnew howner hbody _ _ =>
      rw [directory?_attach hlinked hnew.id_eq howner hbody, if_neg (Nat.ne_of_lt hid)] at hdir'
      split at hdir'
      . next heq => exact ⟨_, heq ▸ directory?_of_object? howner hbody⟩
      . exact ⟨d', hdir'⟩
    | addLink htarget hkind howner hbody _ _ =>
      rw [directory?_addLink htarget hkind howner hbody] at hdir'
      split at hdir'
      . next heq => exact ⟨_, heq ▸ directory?_of_object? howner hbody⟩
      . exact ⟨d', hdir'⟩

theorem keepsPlaces_detach {owner target : MemObject} {dir : Directory} {e : DirEntry}
    (hlinked : store.Linked) (hleaf : store.IsLeaf parent owner dir e target) :
    store.KeepsPlaces (store.detach parent e target) where
  nextId_le := Nat.le_of_eq (IsLeaf.nextId_detach ..).symm
  directories := by
    intro x n id d hn hchild hlive
    rw [child?_detach hlinked hleaf hn, if_neg]
    . exact hchild
    . rintro ⟨rfl, rfl⟩
      have htarget : store.child? x e.name = some e.target :=
        (hlinked.child?_eq_some_iff hn).mpr ⟨dir, e, hleaf.directory?, hleaf.mem, rfl, rfl⟩
      rw [htarget] at hchild
      injection hchild with hchild
      rw [hleaf.directory?_detach, if_pos hchild.symm] at hlive
      cases hlive
  back id d' _ hdir' := by
    rw [hleaf.directory?_detach] at hdir'
    split at hdir'
    . cases hdir'
    . split at hdir'
      . next heq => exact ⟨dir, heq ▸ hleaf.directory?⟩
      . exact ⟨d', hdir'⟩

theorem keepsPlaces_eraseObject {owner : MemObject} {dir : Directory} (hlinked : store.Linked)
    (howner : store.object? parent = some owner) (hbody : owner.body = .directory dir)
    (hempty : dir.ordinary = []) : store.KeepsPlaces (store.eraseObject parent) := by
  have hdirectory := directory?_eraseObject store parent
  refine ⟨Nat.le_refl _, ?_, ?_⟩
  . intro x n id d hn hchild hlive
    rw [child?_congr ((hdirectory x).trans (if_neg ?_))]
    . exact hchild
    . rintro rfl
      obtain ⟨d', e, hdir, he, _⟩ := (hlinked.child?_eq_some_iff hn).mp hchild
      rw [directory?_of_object? howner hbody] at hdir
      injection hdir with hdir
      rw [← hdir, hempty] at he
      cases he
  . intro id d' _ hdir'
    rw [hdirectory] at hdir'
    split at hdir'
    . cases hdir'
    . exact ⟨d', hdir'⟩

structure KeptInPlace (P : MemStore → Prop) : Prop where
  keeps : ∀ ⦃store store'⦄, store.Linked → store'.Linked → store.KeepsPlaces store' → P store → P store'

namespace KeptInPlace

variable {P : MemStore → Prop} (hP : KeptInPlace P)
include hP

theorem gains : KeptByGains P :=
  fun _ _ hlinked hgain => hP.keeps hlinked (hlinked.step hgain.step) (keepsPlaces_of_gain hlinked hgain)

theorem losses : KeptByLosses P :=
  fun _ _ _ _ _ _ hlinked hleaf => hP.keeps hlinked (hlinked.detach hleaf) (keepsPlaces_detach hlinked hleaf)

theorem erasure : KeptByErasure P :=
  fun hlinked howner hbody hempty => hP.keeps hlinked (hlinked.eraseObject howner hbody hempty)
    (keepsPlaces_eraseObject hlinked howner hbody hempty)

theorem calls : KeptByCalls fun store : MemStore => store.Linked ∧ P store :=
  keptByCalls hP.gains hP.losses

theorem perform (op : MemStore.Op) : Keeps (fun store => store.Linked ∧ P store) op.perform :=
  op.keeps_of_keptByGains hP.gains (fun _ _ _ => hP.losses.unlink) fun _ _ _ =>
    hP.losses.rmdir (.inr hP.erasure)

end KeptInPlace

theorem Inner.of_keepsPlaces (h : store.Inner id) (hlinked : store.Linked) (hlinked' : store'.Linked)
    (hkeeps : store.KeepsPlaces store') (hid : id < store.nextId) : store'.Inner id := by
  intro d' hdir'
  obtain ⟨d, hdir⟩ := hkeeps.back hid hdir'
  obtain ⟨priv, hpriv, hreached⟩ := h d hdir
  suffices hreached' : store'.ReachedFrom priv id ∧ ∃ d, store'.directory? priv = some d by
    obtain ⟨hreached', _, hlive⟩ := hreached'
    exact ⟨priv, hkeeps.directories (by decide) hpriv hlive, hreached'⟩
  clear hdir hid h
  induction hreached generalizing d' with
  | top => exact ⟨.top, d', hdir'⟩
  | entry hid hdir he ih =>
    obtain ⟨_, hwf, _⟩ := hlinked.placed hdir
    have hname := hwf.isDots_of_mem he
    have hchild := hkeeps.directories hname
      ((hlinked.child?_eq_some_iff hname).mpr ⟨_, _, hdir, he, rfl, rfl⟩) hdir'
    obtain ⟨d'', e', hdir'', he', _, htarget⟩ := (hlinked'.child?_eq_some_iff hname).mp hchild
    obtain ⟨hreached', hlive⟩ := ih d'' hdir''
    exact ⟨htarget ▸ .entry hreached' hdir'' he', hlive⟩

theorem Inner.of_child (h : store.Inner parent) (hlinked : store.Linked)
    (hname : EntryName.isDots name = false) (hchild : store.child? parent name = some id) :
    store.Inner id := by
  intro _ _
  obtain ⟨d, e, hdir, he, _, rfl⟩ := (hlinked.child?_eq_some_iff hname).mp hchild
  obtain ⟨priv, hpriv, hreached⟩ := h d hdir
  exact ⟨priv, hpriv, .entry hreached hdir he⟩

def WasInner (id : ObjectId) (store : MemStore) : Prop :=
  id < store.nextId ∧ store.Inner id

theorem WasInner.child (h : WasInner parent store) (hlinked : store.Linked)
    (hname : EntryName.isDots name = false) (hchild : store.child? parent name = some id) :
    WasInner id store := by
  refine ⟨?_, h.2.of_child hlinked hname hchild⟩
  obtain ⟨d, e, hdir, he, _, rfl⟩ := (hlinked.child?_eq_some_iff hname).mp hchild
  exact hlinked.target_lt hdir e he

theorem keptInPlace_wasInner (id : ObjectId) : KeptInPlace (WasInner id) where
  keeps _ _ hlinked hlinked' hkeeps h :=
    ⟨Nat.lt_of_lt_of_le h.1 hkeeps.nextId_le, h.2.of_keepsPlaces hlinked hlinked' hkeeps h.1⟩

end Inner

end MemStore

namespace Volume

open MemStore

variable {volume rest : Volume MemStore} {stat : ObjectStat} {name : String} {dir : ObjectId}

theorem Op.keeps_of_parts {P : Volume MemStore → Prop} (hparts : FollowedByParts id P)
    (hcalls : ∀ volume : Volume MemStore, KeptByCalls fun store => P { volume with store })
    (hstore : ∀ (volume : Volume MemStore) (op : MemStore.Op),
      Keeps (fun store => P { volume with store }) op.perform)
    (hrenew : ∀ (volume : Volume MemStore) options capacity, P volume →
      P (unmounted volume.store options capacity)) (op : Op) : Keeps P op.perform := by
  by_cases hcall : op.isCall = true
  . have hdelete := follows_deleteAttributes hparts.toFollowedByRemoving fun volume => (hcalls volume).unlink
    exact (Op.follows_perform hparts.managing (follows_writeValue hparts) hdelete hcall).keeps
  . cases op with
    | store op => exact keeps_onStore fun volume => hstore volume op
    | renew options cacheCapacity => exact .modify fun volume => hrenew volume options cacheCapacity
    | forEachEntry dir visit =>
      have hscan := @follows_forEachEntry _ Unit id P _ hparts.looking dir
        (fun item => onFirst (onStore (MemStore.performAll (visit item)))) fun locks held item =>
          .onFirst (follows_onStore fun volume => ⟨fun store hs => ⟨hs.1,
            (MemStore.keeps_performAll fun op _ => hstore { volume with locks } op).holds store hs.2⟩⟩)
      exact .withSecond () hscan.keeps
    | _ => exact absurd rfl hcall

section Anchored

structure Anchored (volume : Volume MemStore) : Prop where
  linked : volume.store.Linked
  knows : ∀ ⦃id⦄, volume.Knows id → WasInner id volume.store

theorem anchored_withStore {volume : Volume MemStore} {store : MemStore} :
    Anchored { volume with store } ↔
      store.Linked ∧ ∀ id, volume.Knows id → WasInner id store :=
  ⟨fun h => ⟨h.linked, h.knows⟩, fun h => ⟨h.1, h.2⟩⟩

theorem keptInPlace_knows (volume : Volume MemStore) :
    KeptInPlace fun store => ∀ id, volume.Knows id → WasInner id store where
  keeps _ _ hlinked hlinked' hkeeps hs id hknows :=
    (keptInPlace_wasInner id).keeps hlinked hlinked' hkeeps (hs id hknows)

theorem keptByCalls_anchored (volume : Volume MemStore) :
    KeptByCalls fun store => Anchored { volume with store } := by
  simpa only [anchored_withStore] using (keptInPlace_knows volume).calls

theorem Anchored.withCache (h : volume.Anchored) {cache : DirCache}
    (hcache : ∀ ⦃key id⦄, cache.peek? key = some id → WasInner id volume.store) :
    Anchored { volume with cache } := by
  refine ⟨h.linked, fun id hknows => ?_⟩
  obtain hpriv | hroot | ⟨key, hpeek⟩ := hknows
  . exact h.knows (.inl hpriv)
  . exact h.knows (.inr (.inl hroot))
  . exact hcache hpeek

theorem keptByOpening_anchored (mayCreate : Bool) :
    KeptByOpening mayCreate Anchored WasInner where
  known _ _ hs hknows := hs.knows hknows
  find volume parent name missing hname := by
    have hadding := (keptByCalls_anchored volume).toKeptByAdding
    have hparent := keptByAdding (keptInPlace_wasInner parent).gains
    have hboth : Keeps (fun store => Anchored { volume with store } ∧ store.Linked ∧ WasInner parent store)
        (findDirectory parent name mayCreate missing) := by
      refine ⟨fun store hs => ⟨?_, ?_⟩⟩
      . exact (@keeps_findDirectory _ _ _ _ _ (hadding.lookup ..) mayCreate
          (fun _ => hadding.mkdir ..) missing).holds store hs.1
      . exact (@keeps_findDirectory _ _ _ _ _ (hparent.lookup ..) mayCreate
          (fun _ => hparent.mkdir ..) missing).holds store hs.2
    have hends := Ensures.of_keeps hboth fun _ hs => hs
    constructor
    . intro store id store' hs hrun
      have hstart : store.Linked := hs.1.linked
      obtain ⟨hanchored, hlinked, hinner⟩ := hends.ok ⟨hs.1, hstart, hs.2⟩ hrun
      exact ⟨hanchored, hinner.child hlinked hname (child?_of_findDirectory hstart hrun)⟩
    . intro store e store' hs hrun
      exact (hends.error ⟨hs.1, hs.1.linked, hs.2⟩ hrun).1
  attrRoot volume root hs hroot := by
    refine ⟨hs.linked, fun id hknows => ?_⟩
    obtain hpriv | heq | hpeek := hknows
    . exact hs.knows (.inl hpriv)
    . cases heq
      exact hroot
    . exact hs.knows (.inr (.inr hpeek))
  cache _ _ hs hcache := hs.withCache hcache

theorem keeps_openDirectory_anchored (stat : ObjectStat) (flags : SetFlags) :
    Keeps Anchored (openDirectory stat flags) :=
  ((keptByOpening_anchored _).openDirectory rfl).keeps fun _ _ hs => hs.1

theorem keeps_removeRecord_anchored (stat : ObjectStat) (name : String) :
    Keeps Anchored (removeRecord stat name) :=
  .bind (.ofExcept _) fun _ => .bind (keeps_openDirectory_anchored stat .looking) fun dir =>
    keeps_onStore fun volume => keeps_removeEntry
      (keptByCalls_anchored volume).toKeptByLooking ((keptByCalls_anchored volume).unlink dir name)

theorem keeps_prune_anchored (stat : ObjectStat) (dir : ObjectId) :
    Keeps Anchored (prune stat dir) := by
  refine .bind (keeps_onStore fun volume =>
    keeps_hasEntries (keptByCalls_anchored volume).toKeptByLooking dir) fun more => .ite (.pure ()) ?_
  refine .bind ((keptByOpening_anchored false).openAttrRoot.keeps fun _ _ hs => hs.1) fun root => ?_
  refine .bind (.modify fun volume hs => hs.withCache fun key id hpeek => ?_) fun _ => ?_
  . rw [DirCache.peek?_erase] at hpeek
    split at hpeek
    . cases hpeek
    . exact hs.knows (.inr (.inr ⟨key, hpeek⟩))
  . exact keeps_onStore fun volume =>
      (keptByCalls_anchored volume).rmdir _ _ stat.key.isDots_text

theorem anchored_withPrivateRoot {flags : MountFlags} {id : ObjectId} {store : MemStore}
    (hfind : findPrivateRoot flags volume.store = .ok id store) (h : volume.Anchored)
    (h' : Anchored { volume with store }) : Anchored { volume with store, privateRoot := some id } := by
  obtain ⟨middle, hfound, hmark⟩ := findPrivateRoot_eq_ok_iff.mp hfind
  have hmiddle : middle.Linked := by
    have hkeeps := @keeps_findDirectory _ _ _ _ _ ((keptByCalls_anchored volume).lookup rootId
      privateRootName) (!flags.readOnly) (fun _ => (keptByCalls_anchored volume).mkdir ..)
      privateRootNotFound
    exact ((Ensures.of_keeps hkeeps fun _ hs => hs).ok h hfound).linked
  have hgain : middle.Gain store := gain_markPrivate hmiddle (Action.update_eq_ok_iff.mp hmark)
  have hchild := keepsChildren_of_gain hmiddle hgain (by decide) (child?_of_findDirectory h.linked hfound)
  have hinner : WasInner id store := by
    obtain ⟨d, e, hdir, he, _, htarget⟩ := (h'.linked.child?_eq_some_iff (by decide)).mp hchild
    exact ⟨htarget ▸ h'.linked.target_lt hdir e he, fun _ _ => ⟨id, hchild, .top⟩⟩
  refine ⟨h'.linked, fun x hknows => ?_⟩
  obtain hpriv | hrest := hknows
  . cases hpriv
    exact hinner
  . exact h'.knows (.inr hrest)

theorem followedByParts_anchored : FollowedByParts id Anchored where
  looking volume := (keptByCalls_anchored volume).toKeptByLooking
  findDirectory stat := .of_keeps (keeps_openDirectory_anchored stat .looking)
  removeRecord stat name := .of_keeps (keeps_removeRecord_anchored stat name)
  prune stat dir := .of_keeps (keeps_prune_anchored stat dir)
  adding volume := (keptByCalls_anchored volume).toKeptByAdding
  options _ _ _ hs := ⟨hs.linked, hs.knows⟩
  privateRoot _ _ _ _ _ hfind hs hs' := anchored_withPrivateRoot hfind hs hs'
  openDirectory stat flags := .of_keeps (keeps_openDirectory_anchored stat flags)

theorem keeps_perform_anchored (op : Op) : Keeps Anchored op.perform := by
  refine op.keeps_of_parts followedByParts_anchored keptByCalls_anchored (fun volume op => ?_)
    (fun volume options capacity hs => ⟨hs.linked, fun id hknows => ?_⟩)
  . simpa only [anchored_withStore] using (keptInPlace_knows volume).perform op
  . obtain ⟨⟨⟩⟩ | ⟨⟨⟩⟩ | ⟨key, ⟨⟩⟩ := hknows

end Anchored

def Op.IsEditing : Op → Prop
  | setAttribute .. | writeValue .. | setHandled .. => True
  | removeAttribute .. | removeValue .. | deleteAttributes .. => True
  | _ => False

theorem sparesUserData_of_isEditing {op : Op} (hop : op.IsEditing) (h : volume.Anchored) :
    volume.store.SparesUserData (op.perform.after volume).store := by
  have hlinked := h.linked
  have hremoving := followedByRemoving_guarded hlinked
  have hwrite (obj : ObjectId) (name : String) (value : Bytes) (flags : SetFlags) :
      Follows (recached id) (Guarded volume.store) (writeValue obj name value flags) :=
    .of_keeps (keeps_writeValue_guarded hlinked obj name value flags)
  suffices hkeeps : Keeps (Guarded volume.store) op.perform from
    (hkeeps.holds volume ⟨.refl hlinked, fun _ hknows => (h.knows hknows).2⟩).spares.toSparesUserData
  cases op with
  | setAttribute registry obj name value flags =>
    exact (follows_setAttribute hremoving hwrite registry obj name value flags).keeps
  | removeAttribute registry obj name =>
    exact (follows_removeAttribute hremoving registry obj name).keeps
  | writeValue obj name value flags => exact (hwrite obj name value flags).keeps
  | removeValue obj name => exact (follows_removeValue hremoving obj name).keeps
  | setHandled handler obj name value flags =>
    exact (follows_setValue hremoving hwrite handler obj name value flags).keeps
  | deleteAttributes obj => exact keeps_deleteAttributes_guarded hlinked obj
  | _ => cases hop

theorem userData_spared (ops : List Op) (pageSize : Nat) (format : ObjectFormat)
    (h : Record.headerSize < pageSize) (options : MountOptions) (cacheCapacity : Nat) :
    let volume := run ops (initial pageSize format h options cacheCapacity)
    (∀ op : Op, op.IsReading → volume.OnlyLooked (op.perform.after volume))
    ∧ ∀ op : Op, op.IsEditing → volume.store.SparesUserData (op.perform.after volume).store := by
  intro volume
  have hstart : Anchored (initial pageSize format h options cacheCapacity) := by
    refine ⟨linked_empty .., fun id hknows => ?_⟩
    obtain ⟨⟨⟩⟩ | ⟨⟨⟩⟩ | ⟨key, ⟨⟩⟩ := hknows
  have hvolume : volume.Anchored := run_of_keeps (fun op _ => keeps_perform_anchored op) hstart
  exact ⟨fun op hop => onlyLooked_of_isReading hop volume,
    fun op hop => sparesUserData_of_isEditing hop hvolume⟩

def foreignLinkRun : List Op :=
  [.mount ⟨false⟩, .store (.create 1 "f" 0o644), .writeValue 3 "user.x" [1] .none,
    .store (.create 1 "g" 0o644), .store (.link 7 5 "user.y")]

theorem userData_spared_foreignLink :
    let volume := run foreignLinkRun (initial 16 .current (by decide) .optional 64)
    volume.store.child? 1 "g" = some 7
    ∧ (existingRecord 3 "user.y").succeeds volume = true
    ∧ volume.OnlyLooked ((Op.readValue 3 "user.y" none).perform.after volume)
    ∧ volume.store.SparesUserData
      ((Op.writeValue 3 "user.y" [2] .none).perform.after volume).store
    ∧ volume.store.SparesUserData ((Op.deleteAttributes 3).perform.after volume).store := by
  obtain ⟨hreading, hediting⟩ := userData_spared foreignLinkRun 16 .current (by decide) .optional 64
  exact ⟨by decide +kernel, by decide +kernel, hreading _ trivial, hediting _ trivial,
    hediting _ trivial⟩

end Volume

end AttrTree
