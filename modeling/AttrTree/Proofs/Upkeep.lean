import AttrTree.Proofs.Coherence
import AttrTree.Proofs.Intact
import AttrTree.Proofs.Mounting
import AttrTree.Proofs.Usability

/-!
This module contains what a mount can rely on. If nobody tampers with the private tree, whatever is found
as the private root is the root of a tree in order, as soon as it is marked.
-/

namespace AttrTree

open Action

namespace MemStore

variable {store store' : MemStore} {priv id : ObjectId} {name n : String} {d : Directory} {op : Op}

section OpEffect

theorem child?_mapObject {f : MemObject → MemObject} (hf : ∀ object, (f object).id = object.id)
    (hchild : ∀ object, (f object).body.child? n = object.body.child? n) (x : ObjectId) :
    (store.mapObject id f).child? x n = store.child? x n := by
  rw [child?_eq, child?_eq, object?_mapObject _ _ hf]
  split
  . rw [Option.bind_map]
    congr
    funext object
    exact hchild object
  . rfl

variable (hlinked : store.Linked) (heffect : store.OpEffect op store')
include hlinked heffect

theorem OpEffect.directory?_eq_none (hid : id < store.nextId) (hnone : store.directory? id = none) :
    store'.directory? id = none := by
  -- What is no directory does not become one.
  have hlinked' := heffect.linked hlinked
  cases heffect with
  | idle => exact hnone
  | @changed x f _ _ hkey hchild =>
    -- A directory has an entry for what it lies in.
    have hf (object : MemObject) : (f object).id = object.id := congrArg ObjectKey.id (hkey object)
    cases hdir : (store.mapObject x f).directory? id with
    | none => rfl
    | some d =>
      obtain ⟨parent, hwf, _⟩ := hlinked'.placed hdir
      have hparent : (store.mapObject x f).child? id ".." = some parent := by
        obtain ⟨_, hfind⟩ := hwf.find?_parent
        rw [child?_of_directory? hdir, hfind]
        rfl
      rw [child?_mapObject hf (fun object => hchild object _), child?_of_none hnone] at hparent
      cases hparent
  | attach _ hnew howner hbody _ _ =>
    rw [directory?_attach hlinked hnew.id_eq howner hbody, if_neg (Nat.ne_of_lt hid), if_neg, hnone]
    rintro rfl
    rw [directory?_of_object? howner hbody] at hnone
    cases hnone
  | addLink _ htarget hkind howner hbody _ _ =>
    rw [directory?_addLink htarget hkind howner hbody, if_neg, hnone]
    rintro rfl
    rw [directory?_of_object? howner hbody] at hnone
    cases hnone
  | detach _ hleaf =>
    rw [hleaf.directory?_detach]
    split
    . rfl
    . rw [if_neg, hnone]
      rintro rfl
      rw [hleaf.directory?] at hnone
      cases hnone
  | erase _ howner hbody _ =>
    rw [directory?, object?_eraseObject]
    split
    . rfl
    . exact hnone

theorem OpEffect.child?_gained (hn : EntryName.isDots n = false) {parent : ObjectId}
    (hbefore : store.child? parent n ≠ some id) (hafter : store'.child? parent n = some id)
    (hlive : store'.directory? id ≠ none) {m : String} (hm : EntryName.isDots m = false) :
    store'.child? id m = none := by
  -- A directory that a name leads to only now is a new one, with nothing in it.
  have hstays {x : ObjectId} := @OpEffect.directory?_eq_none _ _ x _ hlinked heffect
  cases heffect with
  | idle => exact absurd hafter hbefore
  | changed _ _ hkey hchild =>
    rw [child?_mapObject (fun object => congrArg ObjectKey.id (hkey object)) fun object => hchild object _]
      at hafter
    exact absurd hafter hbefore
  | @attach parent' name made extra owner d _ hnew howner hbody _ hfree =>
    have hchild {m : String} (hm : EntryName.isDots m = false) :=
      child?_attach hlinked hnew howner hbody (Directory.find?_of_contains hfree) hm
    rw [hchild hn] at hafter
    split at hafter
    . obtain rfl := Option.some.inj hafter
      rw [hchild hm, if_neg fun hplace => hlinked.ne_nextId howner hplace.1.symm]
      exact child?_of_none (by simp [directory?, hlinked.object?_nextId]) m
    . exact absurd hafter hbefore
  | @addLink target parent' name object owner d _ htarget hkind howner hbody _ hfree =>
    rw [child?_addLink htarget hkind howner hbody hfree] at hafter
    split at hafter
    . obtain rfl := Option.some.inj hafter
      have hnone : store.directory? target = none := by
        rw [directory?, htarget, Option.bind_some]
        rw [Body.isDirectory_eq_isSome, Option.isSome_eq_false_iff, Option.isNone_iff_eq_none] at hkind
        exact hkind
      exact absurd (hstays (hlinked.id_lt htarget) hnone) hlive
    . exact absurd hafter hbefore
  | detach _ hleaf =>
    rw [child?_detach hlinked hleaf hn] at hafter
    split at hafter
    . cases hafter
    . exact absurd hafter hbefore
  | erase _ howner hbody _ =>
    rw [child?_eq, object?_eraseObject] at hafter
    split at hafter
    . cases hafter
    . rw [← child?_eq] at hafter
      exact absurd hafter hbefore

omit heffect in
theorem Linked.directory?_eq_none (op : Op) (hid : id < store.nextId)
    (hnone : store.directory? id = none) : (op.perform.after store).directory? id = none := by
  obtain ⟨middle, heffect, hsame⟩ := (hlinked.opOutcome op).effect
  rw [directory?, object?_congr hsame.objects_eq, ← directory?]
  exact heffect.directory?_eq_none hlinked hid hnone

end OpEffect

section Kempt

/-- The tree of `priv` is `Tidy` once it is `marked` and `mended`. -/
structure Kempt (store : MemStore) (priv : ObjectId) : Prop where
  tidy : (store.marked priv).mended.Tidy priv
  names : ∀ ⦃key n⦄, EntryName.isDots n = false → store.attrRecord? priv key n ≠ none →
    isAttrName n = true

def Ready (store : MemStore) : Prop :=
  ∀ ⦃priv⦄, store.child? rootId Volume.privateRootName = some priv → store.directory? priv ≠ none →
    store.Kempt priv

theorem ClosedTree.congr (h : store'.ClosedTree priv) (hlinked : store.Linked)
    (hchild : ∀ x n, store'.child? x n = store.child? x n)
    (hlive : ∀ x, (store'.object? x).isSome = (store.object? x).isSome) : store.ClosedTree priv := by
  refine ⟨hlinked, (hchild ..).symm.trans h.root, fun x hx => ?_, fun x parent n hx hn hplace => ?_⟩
  . obtain ⟨object', hobject'⟩ := h.live ((inTree_congr hchild).mpr hx)
    rw [← Option.isSome_iff_exists, ← hlive, hobject']
    rfl
  . rw [← inTree_congr hchild]
    exact h.border ((inTree_congr hchild).mpr hx) hn ((hchild ..).trans hplace)

theorem Kempt.closedTree (h : store.Kempt priv) (hlinked : store.Linked) : store.ClosedTree priv := by
  refine h.tidy.closedTree.congr hlinked (fun x n => ?_) fun x => ?_
  . rw [child?_mended, child?_marked]
  . rw [object?_mended, object?_marked]
    split <;> simp

section Untouched

variable (h : store.Untouched store' priv)
include h

theorem Untouched.keepsTree_mended : store.mended.KeepsTree store'.mended priv := by
  intro x object hx hobject
  rw [object?_mended] at hobject
  exact ⟨object, by rw [object?_mended, h.objects (inTree_mended_iff.mp hx), hobject], .refl object⟩

theorem Untouched.tidy_mended (htidy : store.mended.Tidy priv) : store'.mended.Tidy priv := by
  refine htidy.of_keepsTree h.keepsTree_mended (linked_mended_iff.mpr h.linked) rfl rfl ?_ h.keys.nextId_le
  rw [child?_mended, h.root_eq, ← child?_mended]
  exact htidy.root

theorem Untouched.attrRecord?_eq (htidy : store.mended.Tidy priv) (key : ObjectKey) (n : String) :
    store'.attrRecord? priv key n = store.attrRecord? priv key n := by
  rw [← attrRecord?_mended, (htidy.sameTree h.keepsTree_mended).attrRecord_eq, attrRecord?_mended]

theorem Untouched.marked : (store.marked priv).Untouched (store'.marked priv) priv where
  linked := h.linked.marked priv
  objects x hx := by
    rw [inTree_congr (child?_marked store priv)] at hx
    simp only [object?_marked, h.objects hx]
  root_eq := by rw [child?_marked, child?_marked, h.root_eq]
  keys := by
    refine ⟨h.keys.format_eq, h.keys.nextId_le, fun x object' hobject' => ?_⟩
    rw [object?_marked] at hobject' ⊢
    split at hobject'
    . next heq =>
      obtain ⟨object'', hobject'', rfl⟩ := Option.map_eq_some_iff.mp hobject'
      refine (h.keys.key_eq hobject'').imp_right fun ⟨object, hobject, hkey⟩ => ?_
      exact ⟨object.marked, by rw [if_pos heq, hobject, Option.map_some], hkey⟩
    . next hne =>
      rw [if_neg hne]
      exact h.keys.key_eq hobject'

theorem Kempt.of_untouched (hkempt : store.Kempt priv) : store'.Kempt priv := by
  refine ⟨h.marked.tidy_mended hkempt.tidy, fun key n hn hrecord => @Kempt.names _ _ hkempt key n hn ?_⟩
  have hsame := h.marked.attrRecord?_eq hkempt.tidy key n
  rw [attrRecord?_congr (child?_marked store' priv), attrRecord?_congr (child?_marked store priv)]
    at hsame
  rwa [← hsame]

end Untouched

theorem Kempt.of_vacant (hlinked : store.Linked)
    (hroot : store.child? rootId Volume.privateRootName = some priv)
    (hdir : store.directory? priv ≠ none) (hvacant : store.attrRoot? priv = none) :
    store.Kempt priv := by
  have hnoDir (key : ObjectKey) : store.attrDir? priv key = none := by
    rw [attrDir?, hvacant]
    rfl
  have hnoRecord (key : ObjectKey) (n : String) : store.attrRecord? priv key n = none := by
    rw [attrRecord?, hnoDir]
    rfl
  refine ⟨⟨linked_mended_iff.mpr (hlinked.marked priv), rfl, rfl, ?_, ?_, ?_, ?_, ?_⟩, ?_⟩
  . rw [child?_mended, child?_marked, hroot]
  . obtain ⟨d, hdir⟩ := Option.ne_none_iff_exists'.mp hdir
    obtain ⟨object, hobject, hbody⟩ := directory?_eq_some_iff.mp hdir
    refine ⟨object.marked.mended, ?_, rfl, ?_⟩
    . rw [object?_mended, object?_marked, if_pos rfl, hobject]
      rfl
    . rw [MemObject.isDirectory_mended, MemObject.marked, hbody]
      rfl
  . intro root hfound
    rw [attrRoot?_mended, attrRoot?, child?_marked, ← attrRoot?, hvacant] at hfound
    cases hfound
  . intro key dir hfound
    rw [attrDir?_mended, attrDir?_congr (child?_marked store priv), hnoDir] at hfound
    cases hfound
  . intro key n record _ hfound
    rw [attrRecord?_mended, attrRecord?_congr (child?_marked store priv), hnoRecord] at hfound
    cases hfound
  . intro key n _ hfound
    exact absurd (hnoRecord key n) hfound

end Kempt

section Ready

def Op.Careful (store : MemStore) (op : Op) : Prop :=
  op.plansFault = true
    ∨ ∀ ⦃priv⦄, store.child? rootId Volume.privateRootName = some priv → op.Spares store priv

theorem Untouched.of_sameObjects (hlinked : store.Linked) (hsame : store.SameObjects store') :
    store.Untouched store' priv :=
  Untouched.trans_same ⟨hlinked, fun _ _ => rfl, rfl, .refl store⟩ hsame

theorem sameObjects_of_plansFault (hplans : op.plansFault = true) :
    store.SameObjects (op.perform.after store) := by
  cases op with
  | planWriteFault count => exact ⟨rfl, rfl, rfl⟩
  | planRmdirFault => exact ⟨rfl, rfl, rfl⟩
  | _ => cases hplans

theorem ClosedTree.untouched_perform (h : store.ClosedTree priv) (hop : op.Careful store) :
    store.Untouched (op.perform.after store) priv := by
  obtain hplans | hspares := hop
  . exact .of_sameObjects h.linked (sameObjects_of_plansFault hplans)
  . exact (h.perform (hspares h.root)).1

variable (h : store.Ready) (hlinked : store.Linked)
include h hlinked

theorem Ready.cases_of_opEffect
    (hspares : ∀ ⦃priv⦄, store.child? rootId Volume.privateRootName = some priv → op.Spares store priv)
    (heffect : store.OpEffect op store') (hroot : store'.child? rootId Volume.privateRootName = some priv)
    (hlive : store'.directory? priv ≠ none) :
    (store.child? rootId Volume.privateRootName = some priv ∧ store.directory? priv ≠ none
        ∧ store.Untouched store' priv)
      ∨ store'.attrRoot? priv = none := by
  by_cases hbefore : store.child? rootId Volume.privateRootName = some priv
  . have hdir : store.directory? priv ≠ none := by
      obtain ⟨d, e, hdir, hfind, rfl⟩ := child?_eq_some_iff.mp hbefore
      exact fun hnone =>
        hlive (heffect.directory?_eq_none hlinked (hlinked.target_lt_of_find? hdir hfind) hnone)
    exact .inl ⟨hbefore, hdir, ((h hbefore hdir).closedTree hlinked).untouched (hspares hbefore) heffect⟩
  . exact .inr (heffect.child?_gained hlinked (by decide) hbefore hroot hlive (by decide))

theorem Ready.cases_perform (hop : op.Careful store)
    (hroot : (op.perform.after store).child? rootId Volume.privateRootName = some priv)
    (hlive : (op.perform.after store).directory? priv ≠ none) :
    (store.child? rootId Volume.privateRootName = some priv ∧ store.directory? priv ≠ none
        ∧ store.Untouched (op.perform.after store) priv)
      ∨ (op.perform.after store).attrRoot? priv = none := by
  have hbefore {middle : MemStore} (hsame : middle.SameObjects (op.perform.after store)) :
      middle.child? rootId Volume.privateRootName = some priv ∧ middle.directory? priv ≠ none := by
    rw [child?_of_objects_eq hsame.objects_eq] at hroot
    rw [directory?, object?_congr hsame.objects_eq, ← directory?] at hlive
    exact ⟨hroot, hlive⟩
  obtain hplans | hspares := hop
  . have hsame : store.SameObjects (op.perform.after store) := sameObjects_of_plansFault hplans
    exact .inl ⟨(hbefore hsame).1, (hbefore hsame).2, .of_sameObjects hlinked hsame⟩
  . obtain ⟨middle, heffect, hsame⟩ := (hlinked.opOutcome op).effect
    obtain ⟨hroot', hlive'⟩ := hbefore hsame
    obtain ⟨hroot₀, hlive₀, huntouched⟩ | hvacant := h.cases_of_opEffect hlinked hspares heffect hroot' hlive'
    . exact .inl ⟨hroot₀, hlive₀, huntouched.trans_same hsame⟩
    . exact .inr ((child?_of_objects_eq hsame.objects_eq ..).trans hvacant)

theorem Ready.of_opEffect
    (hspares : ∀ ⦃priv⦄, store.child? rootId Volume.privateRootName = some priv → op.Spares store priv)
    (heffect : store.OpEffect op store') : store'.Ready := by
  intro priv hroot hlive
  obtain ⟨hroot', hlive', huntouched⟩ | hvacant := h.cases_of_opEffect hlinked hspares heffect hroot hlive
  . exact (h hroot' hlive').of_untouched huntouched
  . exact .of_vacant (heffect.linked hlinked) hroot hlive hvacant

theorem Ready.perform (hop : op.Careful store) : (op.perform.after store).Ready := by
  intro priv hroot hlive
  obtain ⟨hroot', hlive', huntouched⟩ | hvacant := h.cases_perform hlinked hop hroot hlive
  . exact (h hroot' hlive').of_untouched huntouched
  . obtain ⟨middle, heffect, hsame⟩ := (hlinked.opOutcome op).effect
    exact .of_vacant (hsame.linked (heffect.linked hlinked)) hroot hlive hvacant

end Ready

section Mount

variable {flags : MountFlags}

theorem findPrivateRoot_error (hlinked : store.Linked) {err : Error}
    (h : Volume.findPrivateRoot flags store = .error err store') : store' = store := by
  have hmark {middle : MemStore} {found : ObjectId}
      (hfind : Volume.findDirectory rootId Volume.privateRootName (!flags.readOnly)
        Volume.privateRootNotFound store = .ok found middle) :
      store' = middle ∧ middle.object? found = none := by
    simp only [Volume.findPrivateRoot, ObjectStore.root, bind_apply, get_apply, hfind] at h
    cases hobject : middle.object? found with
    | some object => simp [markPrivate_eq hobject] at h
    | none =>
      cases hrun : ObjectStore.markPrivate found middle with
      | ok u later => simp [hrun] at h
      | error err' later =>
        simp only [hrun, EStateM.Result.error.injEq] at h
        exact ⟨h.2.symm.trans (store_of_update_error hrun), rfl⟩
  cases hdir : store.directory? rootId with
  | none =>
    obtain ⟨err', _, hfind⟩ := findDirectory_broken hdir
    simp only [Volume.findPrivateRoot, ObjectStore.root, bind_apply, get_apply, hfind,
      EStateM.Result.error.injEq] at h
    exact h.2.symm
  | some d =>
    cases hfree : d.find? Volume.privateRootName with
    | some e => exact (hmark (findDirectory_found hdir hfree)).1
    | none =>
      cases hreadOnly : flags.readOnly with
      | true =>
        have hfind := @findDirectory_absent _ _ _ _ Volume.privateRootNotFound hdir hfree
        simp only [Volume.findPrivateRoot, ObjectStore.root, bind_apply, get_apply, hreadOnly, Bool.not_true,
          hfind, EStateM.Result.error.injEq] at h
        exact h.2.symm
      | false =>
        obtain ⟨_, hnone⟩ := hmark (by
          rw [hreadOnly]
          exact findDirectory_made hdir hfree (by decide))
        obtain ⟨owner, howner, _⟩ := directory?_eq_some_iff.mp hdir
        rw [object?_madeDirectory hlinked howner, if_pos rfl] at hnone
        cases hnone

theorem findPrivateRoot_ok (hlinked : store.Linked)
    (h : Volume.findPrivateRoot flags store = .ok priv store') :
    ∃ middle : MemStore, middle.child? rootId Volume.privateRootName = some priv
      ∧ store' = middle.marked priv
      ∧ (middle = store ∨ store.child? rootId Volume.privateRootName = none
        ∧ store.OpEffect (.mkdir rootId Volume.privateRootName Volume.privateMode) middle) := by
  obtain ⟨middle, hfind, hmark⟩ := Volume.findPrivateRoot_eq_ok_iff.mp h
  have hchild := child?_of_findDirectory hlinked hfind
  have hmarked : store' = middle.marked priv := by
    have hmark := update_eq_ok_iff.mp hmark
    simp only [MemStore.markPrivate, exceptBind_eq_ok_iff, exceptPure_eq_ok_iff] at hmark
    obtain ⟨_, _, rfl⟩ := hmark
    rfl
  obtain rfl | ⟨rfl, d, hdir, hfree⟩ := Volume.findDirectory_root_cases hfind
  . exact ⟨_, hchild, hmarked, .inl rfl⟩
  . obtain ⟨owner, howner, hbody⟩ := directory?_eq_some_iff.mp hdir
    have hnone : store.child? rootId Volume.privateRootName = none := by
      rw [child?_of_directory? hdir, hfree]
      rfl
    have heffect : store.OpEffect (.mkdir rootId Volume.privateRootName Volume.privateMode)
        (store.madeDirectory rootId Volume.privateRootName) :=
      .attach (fun _ hop => hop) (isNew_directory ..) howner hbody (by decide)
        (by simp [Directory.contains, hfree])
    exact ⟨_, hchild, hmarked, .inr ⟨hnone, heffect⟩⟩

theorem quiet_findPrivateRoot (hlinked : store.Linked)
    (h : Volume.findPrivateRoot flags store = .ok priv store') : store.KeepsQuiet store' := by
  obtain ⟨middle, _, rfl, rfl | ⟨_, heffect⟩⟩ := findPrivateRoot_ok hlinked h
  . exact ⟨id, id⟩
  . exact heffect.quiet.trans ⟨id, id⟩

theorem findPrivateRoot_ready (hready : store.Ready) (hlinked : store.Linked)
    (h : Volume.findPrivateRoot flags store = .ok priv store') :
    ∃ middle : MemStore, middle.Linked ∧ middle.Ready
      ∧ middle.child? rootId Volume.privateRootName = some priv ∧ store' = middle.marked priv := by
  obtain ⟨middle, hchild, hmarked, rfl | ⟨hnone, heffect⟩⟩ := findPrivateRoot_ok hlinked h
  . exact ⟨middle, hlinked, hready, hchild, hmarked⟩
  . exact ⟨middle, heffect.linked hlinked, hready.of_opEffect hlinked (by simp [hnone]) heffect, hchild, hmarked⟩

end Mount

end MemStore

end AttrTree
