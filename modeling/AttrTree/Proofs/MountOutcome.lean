import AttrTree.Proofs.Linked
import AttrTree.Store.Memory
import AttrTree.Volume.Mount

/-!
This module contains what a mount comes to over a store of any kind, whatever the store answers and
whatever the volume was before: which classes of attributes are on, when the mount fails, and that
mounting again changes nothing.
-/

namespace AttrTree

open Action

namespace MountOptions

theorem settle_of_settled {options : MountOptions} (hnoUser : options.noUser = false)
    (hnoAcl : options.noAcl = false) (hclasses : options.attributes = (options.user || options.acl)) :
    options.settle = options := by
  obtain ⟨attributes, user, noUser, acl, noAcl⟩ := options
  simp only at hnoUser hnoAcl hclasses
  subst hnoUser hnoAcl hclasses
  simp [settle]

end MountOptions

namespace Volume

section Offers

variable {σ : Type} {volume rest : Volume σ}

structure Offers (rest volume : Volume σ) : Prop where
  noUser_eq : rest.options.noUser = false
  noAcl_eq : rest.options.noAcl = false
  attributes_eq : rest.options.attributes = (rest.options.user || rest.options.acl)
  aclFlag_eq : rest.aclFlag = rest.options.acl
  privateRoot : rest.options.attributes = true → rest.privateRoot.isSome = true
  user : rest.options.user = true → volume.options.user = true ∧ volume.options.noUser = false
  acl : rest.options.acl = true → volume.options.acl = true ∧ volume.options.noAcl = false

theorem offers_settle
    (hroot : volume.options.settle.attributes = true → rest.privateRoot.isSome = true) :
    (rest.adopt volume.options.settle).Offers volume where
  noUser_eq := rfl
  noAcl_eq := rfl
  attributes_eq := rfl
  aclFlag_eq := rfl
  privateRoot := hroot
  user h := by simpa [adopt, MountOptions.settle] using h
  acl h := by simpa [adopt, MountOptions.settle] using h

theorem offers_nothing :
    (rest.adopt volume.options.settle.withoutAttributes).Offers volume where
  noUser_eq := rfl
  noAcl_eq := rfl
  attributes_eq := rfl
  aclFlag_eq := rfl
  privateRoot := nofun
  user := nofun
  acl := nofun

theorem requested_iff :
    (volume.options.user = true ∧ volume.options.noUser = false
      ∨ volume.options.acl = true ∧ volume.options.noAcl = false)
      ↔ volume.options.settle.attributes = true := by
  simp [MountOptions.settle]

end Offers

variable {σ : Type} [ObjectStore σ] {volume rest : Volume σ} {flags : MountFlags} {store after : σ}
  {id : ObjectId}

/-- What the store answers when the private root is looked for: it has one, makes one, or turns out to have one
that someone else was faster to make. -/
inductive OffersRoot (store : σ) : ObjectId → σ → Prop
  | found {after : σ} {id : ObjectId}
    (hlookup : ObjectStore.lookup (ObjectStore.root store) privateRootName store =
      .ok (some id) after) : OffersRoot store id after
  | made {middle after : σ} {id : ObjectId}
    (hlookup : ObjectStore.lookup (ObjectStore.root store) privateRootName store = .ok none middle)
    (hmkdir : ObjectStore.mkdir (ObjectStore.root store) privateRootName privateMode middle =
      .ok id after) : OffersRoot store id after
  | lost {middle later after : σ} {id : ObjectId} {err : Error}
    (hlookup : ObjectStore.lookup (ObjectStore.root store) privateRootName store = .ok none middle)
    (hmkdir : ObjectStore.mkdir (ObjectStore.root store) privateRootName privateMode middle =
      .error err later) (htaken : err.kind = .alreadyExists)
    (hagain : ObjectStore.lookup (ObjectStore.root store) privateRootName later =
      .ok (some id) after) : OffersRoot store id after

def CanHaveRoot (store : σ) : Prop :=
  ∃ id middle after, OffersRoot store id middle ∧ ObjectStore.markPrivate id middle = .ok () after

def OnlyMarked (store after : σ) : Prop :=
  ∀ P : σ → Prop, (∀ dir name, Keeps P (ObjectStore.lookup dir name)) →
    (∀ id, Keeps P (ObjectStore.markPrivate id)) → P store → P after

theorem OnlyMarked.refl (store : σ) : OnlyMarked store store :=
  fun _ _ _ h => h

theorem OnlyMarked.ids_eq {store after : MemStore} (h : OnlyMarked store after) :
    after.objects.map (·.id) = store.objects.map (·.id) := by
  refine h (·.objects.map (·.id) = store.objects.map (·.id)) (fun _ _ => .query _)
    (fun id => .update fun before later hok hids => ?_) rfl
  simp only [MemStore.markPrivate, exceptBind_eq_ok_iff, exceptPure_eq_ok_iff] at hok
  obtain ⟨_, _, rfl⟩ := hok
  rw [MemStore.map_id_mapObject before id (by exact fun _ => rfl), hids]

section Root

theorem makeOrFind_eq_ok_iff {make : Action σ ObjectId} {parent : ObjectId} {name : String}
    {vanished : Error} :
    makeOrFind make parent name vanished store = .ok id after ↔
      make store = .ok id after
      ∨ ∃ err later, make store = .error err later
        ∧ err.kind = .alreadyExists ∧ ObjectStore.lookup parent name later = .ok (some id) after := by
  unfold makeOrFind
  rw [bind_apply]
  cases hmake : make store with
  | ok made later => simp [attempt, hmake]
  | error err later =>
    simp only [attempt, hmake, EStateM.Result.error.injEq, reduceCtorEq, false_or]
    constructor
    . intro h
      split at h
      . next htaken =>
        obtain ⟨found, last, hagain, hfound⟩ := bind_eq_ok_iff.mp h
        cases found with
        | none => cases hfound
        | some id' =>
          cases hfound
          exact ⟨err, later, ⟨rfl, rfl⟩, htaken, hagain⟩
      . cases h
    . rintro ⟨_, _, ⟨rfl, rfl⟩, htaken, hagain⟩
      rw [if_pos htaken]
      exact bind_eq_ok_iff.mpr ⟨some id, after, hagain, rfl⟩

theorem makeDirectory_eq_ok_iff {parent : ObjectId} {name : String} :
    makeDirectory parent name store = .ok id after ↔
      ObjectStore.mkdir parent name privateMode store = .ok id after
      ∨ ∃ err later, ObjectStore.mkdir parent name privateMode store = .error err later
        ∧ err.kind = .alreadyExists ∧ ObjectStore.lookup parent name later = .ok (some id) after :=
  makeOrFind_eq_ok_iff

theorem findDirectory_eq_ok_iff :
    findDirectory (ObjectStore.root store) privateRootName true privateRootNotFound store =
        .ok id after ↔ OffersRoot store id after := by
  unfold findDirectory
  rw [bind_apply]
  cases hlookup : ObjectStore.lookup (ObjectStore.root store) privateRootName store with
  | error err middle =>
    constructor
    . intro h
      cases h
    . intro h
      cases h <;> simp_all
  | ok found middle =>
    cases found with
    | some id' =>
      constructor
      . rintro ⟨⟩
        exact .found hlookup
      . intro h
        cases h <;> simp_all
    | none =>
      simp only [if_true, makeDirectory_eq_ok_iff]
      constructor
      . rintro (hmkdir | ⟨err, later, hmkdir, htaken, hagain⟩)
        . exact .made hlookup hmkdir
        . exact .lost hlookup hmkdir htaken hagain
      . intro h
        cases h with
        | found hlookup' => simp_all
        | made hlookup' hmkdir =>
          rw [hlookup] at hlookup'
          cases hlookup'
          exact .inl hmkdir
        | lost hlookup' hmkdir htaken hagain =>
          rw [hlookup] at hlookup'
          cases hlookup'
          exact .inr ⟨_, _, hmkdir, htaken, hagain⟩

theorem findPrivateRoot_eq_ok_iff :
    findPrivateRoot flags store = .ok id after ↔
      ∃ middle, findDirectory (ObjectStore.root store) privateRootName (!flags.readOnly)
          privateRootNotFound store = .ok id middle
        ∧ ObjectStore.markPrivate id middle = .ok () after := by
  unfold findPrivateRoot
  simp only [bind_eq_ok_iff, get_apply]
  constructor
  . rintro ⟨_, _, ⟨⟩, _, middle, hfind, _, _, hmark, ⟨⟩⟩
    exact ⟨middle, hfind, hmark⟩
  . rintro ⟨middle, hfind, hmark⟩
    exact ⟨store, store, rfl, id, middle, hfind, (), after, hmark, rfl⟩

theorem findPrivateRoot_iff (hwritable : flags.readOnly = false) :
    (∃ id after, findPrivateRoot flags store = .ok id after) ↔ CanHaveRoot store := by
  simp only [findPrivateRoot_eq_ok_iff, hwritable, Bool.not_false, findDirectory_eq_ok_iff]
  constructor
  . rintro ⟨id, after, middle, hoffer, hmark⟩
    exact ⟨id, middle, after, hoffer, hmark⟩
  . rintro ⟨id, middle, after, hoffer, hmark⟩
    exact ⟨id, after, middle, hoffer, hmark⟩

end Root

inductive RootExit (volume : Volume σ) (flags : MountFlags) :
    EStateM.Result Error (Volume σ) Bool → Prop
  | legacy (hformat : ObjectStore.format volume.store = .legacy) :
    RootExit volume flags (.error legacyFormat volume)
  | known {id : ObjectId} (hformat : ObjectStore.format volume.store ≠ .legacy)
    (hroot : volume.privateRoot = some id) : RootExit volume flags (.ok true volume)
  | found {id : ObjectId} {store : σ} (hformat : ObjectStore.format volume.store ≠ .legacy)
    (hroot : volume.privateRoot = none)
    (hfind : findPrivateRoot flags volume.store = .ok id store) :
    RootExit volume flags (.ok true { volume with store, privateRoot := some id })
  | absent {err : Error} {store : σ} (hformat : ObjectStore.format volume.store ≠ .legacy)
    (hroot : volume.privateRoot = none) (hreadOnly : flags.readOnly = true)
    (hfind : findPrivateRoot flags volume.store = .error err store) :
    RootExit volume flags (.ok false { volume with store })
  | unavailable {err : Error} {store : σ} (hformat : ObjectStore.format volume.store ≠ .legacy)
    (hroot : volume.privateRoot = none) (hwritable : flags.readOnly = false)
    (hfind : findPrivateRoot flags volume.store = .error err store) :
    RootExit volume flags (.error privateRootUnavailable { volume with store })

theorem rootExit (volume : Volume σ) (flags : MountFlags) :
    RootExit volume flags (setUpPrivateRoot flags volume) := by
  by_cases hformat : ObjectStore.format volume.store = .legacy
  . have hrun : setUpPrivateRoot flags volume = .error legacyFormat volume := by
      simp [setUpPrivateRoot, hformat]
    exact hrun ▸ .legacy hformat
  . cases hroot : volume.privateRoot with
    | some id =>
      have hrun : setUpPrivateRoot flags volume = .ok true volume := by
        simp [setUpPrivateRoot, hformat, hroot]
      exact hrun ▸ .known hformat hroot
    | none =>
      cases hfind : findPrivateRoot flags volume.store with
      | ok id store =>
        have hrun : setUpPrivateRoot flags volume =
            .ok true { volume with store, privateRoot := some id } := by
          simp [setUpPrivateRoot, hformat, hroot, onStore, focus, attempt, hfind]
        exact hrun ▸ .found hformat hroot hfind
      | error err store =>
        cases hflags : flags.readOnly with
        | true =>
          have hrun : setUpPrivateRoot flags volume = .ok false { volume with store } := by
            simp [setUpPrivateRoot, hformat, hroot, onStore, focus, attempt, hfind, hflags]
          exact hrun ▸ .absent hformat hroot hflags hfind
        | false =>
          have hrun : setUpPrivateRoot flags volume =
              .error privateRootUnavailable { volume with store } := by
            simp [setUpPrivateRoot, hformat, hroot, onStore, focus, attempt, hfind, hflags]
          exact hrun ▸ .unavailable hformat hroot hflags hfind

theorem mount_off (hoff : volume.options.settle.attributes = false) :
    mount flags volume = .ok () (volume.adopt volume.options.settle) := by
  simp [mount, hoff]

theorem mount_on (hon : volume.options.settle.attributes = true) :
    mount flags volume =
      match setUpPrivateRoot flags volume with
      | .ok true rest => .ok () (rest.adopt volume.options.settle)
      | .ok false rest => .ok () (rest.adopt volume.options.settle.withoutAttributes)
      | .error err rest => .error err (rest.adopt volume.options.settle.withoutAttributes) := by
  simp only [mount, bind_apply, get_apply, hon, if_true, attempt]
  cases setUpPrivateRoot flags volume with
  | ok can rest => cases can <;> rfl
  | error err rest => rfl

structure MountOutcome (volume : Volume σ) (flags : MountFlags) (rest : Volume σ) : Prop where
  offers : rest.Offers volume
  error : ∀ ⦃err⦄, mount flags volume = .error err rest →
    err.kind = .unsupported ∧ rest.options = .none
  /-- A class is left that was asked for, and the format is too old or a mount for writing has no
  private root. -/
  fails_iff : (mount flags).succeeds volume = false ↔
    (volume.options.user = true ∧ volume.options.noUser = false
      ∨ volume.options.acl = true ∧ volume.options.noAcl = false)
    ∧ (ObjectStore.format volume.store = .legacy
      ∨ flags.readOnly = false ∧ volume.privateRoot = none ∧ ¬ CanHaveRoot volume.store)
  readOnly : flags.readOnly = true → OnlyMarked volume.store rest.store
  again : ObjectStore.format rest.store = ObjectStore.format volume.store →
    mount flags rest = .ok () rest

theorem onlyMarked_findPrivateRoot (hreadOnly : flags.readOnly = true) (store : σ) :
    OnlyMarked store ((findPrivateRoot flags).after store) := by
  intro P hlookup hmark h
  suffices hkeeps : Keeps P (findPrivateRoot flags) from hkeeps.holds store h
  unfold findPrivateRoot findDirectory
  simp only [hreadOnly, Bool.not_true, Bool.false_eq_true, if_false]
  refine .bind .get fun store => .bind (.bind (hlookup _ _) fun found => ?_) fun id =>
    .bind (hmark id) fun _ => .pure id
  cases found with
  | none => exact .throw _
  | some id => exact .pure id

theorem mount_again (hoffers : rest.Offers volume)
    (hformat : rest.options.attributes = true → ObjectStore.format rest.store ≠ .legacy) :
    mount flags rest = .ok () rest := by
  have hsettle :=
    MountOptions.settle_of_settled hoffers.noUser_eq hoffers.noAcl_eq hoffers.attributes_eq
  have hadopt : rest.adopt rest.options = rest := by
    rw [adopt, ← hoffers.aclFlag_eq]
  cases hon : rest.options.attributes with
  | false => rw [mount_off (by rw [hsettle, hon]), hsettle, hadopt]
  | true =>
    have hroot : setUpPrivateRoot flags rest = .ok true rest := by
      simp [setUpPrivateRoot, hformat hon, hoffers.privateRoot hon]
    rw [mount_on (by rw [hsettle, hon]), hroot, hsettle]
    simp only [hadopt]

theorem mountOutcome_on (hformat : ObjectStore.format volume.store ≠ .legacy)
    (hrun : mount flags volume = .ok () (rest.adopt volume.options.settle))
    (hroot : rest.privateRoot.isSome = true)
    (hcan : flags.readOnly = false → volume.privateRoot = none → CanHaveRoot volume.store)
    (hkept : flags.readOnly = true → OnlyMarked volume.store rest.store) :
    volume.MountOutcome flags (rest.adopt volume.options.settle) where
  offers := offers_settle fun _ => hroot
  error err h := by
    rw [hrun] at h
    cases h
  fails_iff := by
    simp only [Action.succeeds, hrun, Bool.true_eq_false, false_iff, not_and, not_or]
    exact fun _ => ⟨hformat, fun hwritable hnone hcannot => hcannot (hcan hwritable hnone)⟩
  readOnly := hkept
  again heq := mount_again (offers_settle fun _ => hroot) fun _ => heq ▸ hformat

theorem mountOutcome_off (hon : volume.options.settle.attributes = true)
    (herror : ∀ err, mount flags volume =
      .error err (rest.adopt volume.options.settle.withoutAttributes) → err.kind = .unsupported)
    (hfails : (mount flags).succeeds volume = false ↔
      ObjectStore.format volume.store = .legacy
        ∨ flags.readOnly = false ∧ volume.privateRoot = none ∧ ¬ CanHaveRoot volume.store)
    (hkept : flags.readOnly = true → OnlyMarked volume.store rest.store) :
    volume.MountOutcome flags (rest.adopt volume.options.settle.withoutAttributes) where
  offers := offers_nothing
  error err h := ⟨herror err h, rfl⟩
  fails_iff := by rw [requested_iff, hfails, and_iff_right hon]
  readOnly := hkept
  again _ := mount_again offers_nothing nofun

theorem mountOutcome_unasked (hoff : volume.options.settle.attributes = false) :
    volume.MountOutcome flags ((mount flags).after volume) := by
  have hrun : mount flags volume = .ok () (volume.adopt volume.options.settle) := mount_off hoff
  have hoffers : (volume.adopt volume.options.settle).Offers volume :=
    offers_settle fun hon => by rw [hoff] at hon; cases hon
  rw [after_of_ok hrun]
  refine ⟨hoffers, fun err h => ?_, ?_, fun _ => .refl _, fun _ => mount_again hoffers ?_⟩
  . rw [hrun] at h
    cases h
  . rw [requested_iff, hoff]
    simp [Action.succeeds, hrun]
  . intro hon
    rw [show (volume.adopt volume.options.settle).options.attributes = false from hoff] at hon
    cases hon

theorem mountOutcome (volume : Volume σ) (flags : MountFlags) :
    volume.MountOutcome flags ((mount flags).after volume) := by
  cases hon : volume.options.settle.attributes with
  | false => exact mountOutcome_unasked hon
  | true =>
    have hexit := rootExit volume flags
    have hrun := @mount_on σ _ volume flags hon
    generalize setUpPrivateRoot flags volume = result at hrun hexit
    cases hexit with
    | legacy hformat =>
      rw [after_of_error hrun]
      refine mountOutcome_off hon (fun err h => ?_) ?_ fun _ => .refl _
      . rw [hrun] at h
        cases h
        rfl
      . simp [Action.succeeds, hrun, hformat]
    | known hformat hroot =>
      rw [after_of_ok hrun]
      refine mountOutcome_on hformat hrun (by simp [hroot]) (fun _ hnone => ?_) fun _ => .refl _
      rw [hroot] at hnone
      cases hnone
    | found hformat hroot hfind =>
      rw [after_of_ok hrun]
      refine mountOutcome_on hformat hrun rfl
        (fun hwritable _ => (findPrivateRoot_iff hwritable).mp ⟨_, _, hfind⟩) fun hreadOnly => ?_
      have hmarked := onlyMarked_findPrivateRoot hreadOnly volume.store
      rwa [after_of_ok hfind] at hmarked
    | absent hformat hroot hreadOnly hfind =>
      rw [after_of_ok hrun]
      refine mountOutcome_off hon (fun err h => ?_) ?_ fun hreadOnly => ?_
      . rw [hrun] at h
        cases h
      . simp [Action.succeeds, hrun, hformat, hreadOnly]
      . have hmarked := onlyMarked_findPrivateRoot hreadOnly volume.store
        rwa [after_of_error hfind] at hmarked
    | unavailable hformat hroot hwritable hfind =>
      rw [after_of_error hrun]
      refine mountOutcome_off hon (fun err h => ?_) ?_ fun hreadOnly => ?_
      . rw [hrun] at h
        cases h
        rfl
      . -- A root that the store can have would have been found.
        have hcannot : ¬ CanHaveRoot volume.store := by
          rw [← findPrivateRoot_iff hwritable]
          rintro ⟨id, after, hfound⟩
          rw [hfind] at hfound
          cases hfound
        simp [Action.succeeds, hrun, hformat, hwritable, hroot, hcannot]
      . rw [hwritable] at hreadOnly
        cases hreadOnly

theorem mount_outcome (volume : Volume σ) (word flagWord : UInt32) :
    (volume.setOptions (.ofBits word)).MountOutcome (.ofBits flagWord)
      ((mount (.ofBits flagWord)).after (volume.setOptions (.ofBits word))) :=
  mountOutcome _ _

end Volume

end AttrTree
