import AttrTree.Attribute.Access
import AttrTree.Proofs.Isolation

/-!
This module contains what a failed call that sets an attribute leaves behind. Most failures change
nothing. Two do: an attribute directory is made before it turns out that no record may be made, and
a record is left to its other links before it turns out that no new one may be made.
-/

namespace AttrTree

namespace Acl

open Action

theorem failsWith_validate (bytes : Bytes) :
    FailsWith (·.kind = .invalidInput) (validate bytes) := by
  -- All that can be wrong with a list is its form.
  have hentry (chunk : Bytes) : FailsWith (·.kind = .invalidInput) (Entry.ofBytes chunk) := by
    refine .ite (.throw rfl) ?_
    split
    . exact .throw rfl
    . exact .pure _
  refine .bind (.throwIf rfl (.throwIf rfl (.bind (.mapM hentry _) fun entries => ?_)))
    fun _ => .pure _
  exact .ite (.pure _) (.throw rfl)

end Acl

namespace Handler

open Action

theorem failsWith_check {σ : Type} (handler : Handler) (volume : Volume σ) (name : String) :
    FailsWith (·.kind ≠ .noAttribute) (handler.check volume name) := by
  -- That an attribute cannot be had is no sign of its absence.
  have hsuffix (start : String) : FailsWith (·.kind ≠ .noAttribute) (checkSuffix start name) :=
    .ite (.throw (by decide)) (.pure _)
  cases handler with
  | user => exact .bind (hsuffix _) fun _ => .ite (.pure _) (.throw (by decide))
  | plain start => exact hsuffix start
  | acl kind => exact .throwUnless (by decide) (.ite (.pure _) (.throw (by decide)))
  | fixed start answers => exact .pure _

end Handler

theorem SetFlags.allowsCreate_and_onlyExisting {flags : SetFlags}
    (h : flags.allowsCreate = true ∧ flags.onlyExisting = true) :
    flags.create = true ∧ flags.replace = true ∧ flags.readOnly = false := by
  obtain ⟨create, replace, readOnly, other⟩ := flags
  revert h
  cases create <;> cases replace <;> cases readOnly <;> cases other <;> decide

namespace Volume

open Action MemStore

variable {volume rest : Volume MemStore} {name : String} {flags : SetFlags} {value : Bytes}
  {obj dir : ObjectId} {err : Error} {registry : Registry} {stat : ObjectStat}

section Removal

theorem store_of_removeEntry_error {store store' : MemStore} (hlinked : store.Linked)
    (h : removeEntry dir name store = .error err store') : store' = store := by
  have hremoval := entryRemoval hlinked dir name
  rw [h] at hremoval
  cases hremoval
  rfl

theorem store_of_removeRecord_error (hlinked : volume.store.Linked)
    (h : removeRecord stat name volume = .error err rest) : rest.store = volume.store := by
  cases hvalid : isValidName name with
  | false =>
    obtain ⟨err', hcheck, _⟩ := checkAttrName_of_invalid hvalid
    rw [removeRecord, bind_apply, hcheck] at h
    cases h
    rfl
  | true =>
    cases hopen : openDirectory stat .looking volume with
    | ok dir middle =>
      obtain ⟨_, rfl⟩ := directory?_of_openDirectory rfl hopen
      rw [removeRecord_eq hvalid hopen] at h
      simp only [onStore, focus, store_opened] at h
      split at h
      . cases h
      . next hremove =>
        cases h
        exact store_of_removeEntry_error hlinked hremove
    | error err' middle =>
      simp only [removeRecord, bind_apply, checkAttrName_of_valid hvalid, ofExcept_ok, hopen] at h
      cases h
      exact store_of_openDirectory_error hopen

theorem store_of_removeValue_error (hlinked : volume.store.Linked)
    (h : removeValue obj name volume = .error err rest) : rest.store = volume.store := by
  cases hobject : volume.store.object? obj with
  | none =>
    simp only [removeValue, bind_apply, onStore, focus, stat_of_none hobject] at h
    cases h
    rfl
  | some object =>
    simp only [removeValue, bind_apply, onStore, focus, stat_of_object? hobject] at h
    exact store_of_removeRecord_error hlinked h

end Removal

section SetAttribute

def Refused (volume rest : Volume MemStore) (err : Error) : Prop :=
  rest.store = volume.store ∧ err ≠ attrNotFound

theorem refused_of_kind (hkind : err.kind ≠ .noAttribute) : volume.Refused volume err := by
  refine ⟨rfl, ?_⟩
  rintro rfl
  exact hkind rfl

theorem refused_of_removeAcl (hlinked : volume.store.Linked)
    (h : Handler.removeAcl obj name volume = .error err rest) : volume.Refused rest err := by
  unfold Handler.removeAcl at h
  cases hremove : removeValue obj name volume with
  | ok _ middle =>
    simp only [bind_apply, attempt, hremove] at h
    cases h
  | error err' middle =>
    simp only [bind_apply, attempt, hremove] at h
    cases habsent : err'.isNoAttribute with
    | true =>
      simp only [habsent] at h
      cases h
    | false =>
      simp only [habsent] at h
      cases h
      refine ⟨store_of_removeValue_error hlinked hremove, ?_⟩
      rintro rfl
      cases habsent

theorem writeAcl_error {kind : AclKind}
    (h : Handler.writeAcl kind obj name value flags volume = .error err rest) :
    volume.Refused rest err ∨ writeValue obj name value flags volume = .error err rest := by
  have hvalidate : ((do
      let _ ← Action.ofExcept (Acl.validate value)
      writeValue obj name value flags) : Action (Volume MemStore) Unit) volume =
        .error err rest →
      volume.Refused rest err ∨ writeValue obj name value flags volume = .error err rest := by
    intro h
    cases hlist : Acl.validate value with
    | ok count =>
      simp only [bind_apply, hlist, ofExcept_ok] at h
      exact .inr h
    | error err' =>
      simp only [bind_apply, hlist, ofExcept_error] at h
      cases h
      exact .inl (refused_of_kind (by rw [Acl.failsWith_validate value _ hlist]; decide))
  cases kind with
  | access => exact hvalidate h
  | default =>
    cases hobject : volume.store.object? obj with
    | none =>
      simp only [Handler.writeAcl, if_true, bind_apply, onStore, focus, stat_of_none hobject] at h
      cases h
      exact .inl (refused_of_kind (by decide))
    | some object =>
      simp only [Handler.writeAcl, if_true, bind_apply, onStore, focus, stat_of_object? hobject] at h
      split at h
      . exact hvalidate h
      . cases h
        exact .inl (refused_of_kind (by decide))

theorem setValue_error (hlinked : volume.store.Linked) {handler : Handler}
    (h : handler.setValue obj name (some value) flags volume = .error err rest) :
    volume.Refused rest err ∨ writeValue obj name value flags volume = .error err rest := by
  unfold Handler.setValue at h
  cases hcheck : handler.check volume name with
  | error err' =>
    simp only [bind_apply, get_apply, hcheck, ofExcept_error] at h
    cases h
    exact .inl (refused_of_kind (handler.failsWith_check volume name _ hcheck))
  | ok _ =>
    simp only [bind_apply, get_apply, hcheck, ofExcept_ok] at h
    cases handler with
    | user => exact .inr h
    | plain start => exact .inr h
    | fixed start answers => cases h
    | acl kind =>
      cases value with
      | nil => exact .inl (refused_of_removeAcl hlinked h)
      | cons b value => exact writeAcl_error h

theorem checkObject_cases (volume : Volume MemStore) (obj : ObjectId) :
    (checkObject obj volume = .ok () volume ∧ volume.attributesEnabled = true
        ∧ ∃ object, volume.store.object? obj = some object ∧ object.format ≠ .legacy)
      ∨ ∃ err, checkObject obj volume = .error err volume ∧ err.kind ≠ .noAttribute := by
  cases henabled : volume.attributesEnabled with
  | false => exact .inr ⟨attributesDisabled, by simp [checkObject, henabled], by decide⟩
  | true =>
    by_cases hlegacy : ∀ object, volume.store.object? obj = some object → object.format = .legacy
    . obtain ⟨err, herr, hstat⟩ := statWithAttributes_of_error hlegacy
      refine .inr ⟨err, by simp [checkObject, henabled, onStore, focus, hstat], ?_⟩
      obtain rfl | rfl := herr
      . decide
      . decide
    . simp only [not_forall] at hlegacy
      obtain ⟨object, hobject, hformat⟩ := hlegacy
      refine .inl ⟨?_, rfl, object, hobject, hformat⟩
      simp [checkObject, henabled, onStore, focus, statWithAttributes_eq hobject hformat]

theorem setAttribute_error (hlinked : volume.store.Linked)
    (h : setAttribute registry obj name value flags volume = .error err rest) :
    volume.Refused rest err ∨ writeValue obj name value flags volume = .error err rest := by
  cases hresolve : registry.resolve? name with
  | none =>
    simp only [setAttribute, handlerFor, bind_apply, hresolve, ofOption_none] at h
    cases h
    exact .inl (refused_of_kind (by decide))
  | some link =>
    obtain ⟨hcheck, _⟩ | ⟨err', hcheck, hkind⟩ := checkObject_cases volume obj
    . simp only [setAttribute, handlerFor, bind_apply, hresolve, ofOption_some, hcheck,
        pure_apply] at h
      exact setValue_error hlinked h
    . simp only [setAttribute, handlerFor, bind_apply, hresolve, ofOption_some, hcheck] at h
      cases h
      exact .inl (refused_of_kind hkind)

end SetAttribute

section Failure

/-- `allowsCreate` lets the directory be made, but `onlyExisting` asks for a record that is there. -/
def MakesInVain (volume : Volume MemStore) (obj : ObjectId) (name : String) (flags : SetFlags) :
    Prop :=
  flags.create = true ∧ flags.replace = true ∧ flags.readOnly = false
    ∧ ∃ err rest, (err = noAttrRoot ∨ err = noDirectory)
      ∧ existingRecord obj name volume = .error err rest

/-- `unsharedRecord` leaves the record to its other links, but may not make a new one. -/
def DropsRecord (volume : Volume MemStore) (obj : ObjectId) (name : String) (flags : SetFlags) :
    Prop :=
  flags.readOnly = true ∧ flags.create = false
    ∧ ∃ record rest target, existingRecord obj name volume = .ok record rest
      ∧ volume.store.object? record = some target ∧ target.isPrivate = true ∧ 1 < target.nlink

theorem writeValue_error (hlinked : volume.store.Linked) (hobj : obj < 2 ^ 64)
    (hfault : volume.store.writeFault = none)
    (hname : ∀ ⦃record after target⦄, existingRecord obj name volume = .ok record after →
      volume.store.object? record = some target → target.body.isDirectory = false)
    (h : writeValue obj name value flags volume = .error err rest) :
    let changes := err = attrNotFound
      ∧ (volume.MakesInVain obj name flags ∨ volume.DropsRecord obj name flags)
    (changes → rest.store.objects ≠ volume.store.objects)
      ∧ (¬ changes → rest.store = volume.store) := by
  intro changes
  have hwritten := written hlinked hobj hfault hname value flags
  rw [h] at hwritten
  cases hwritten with
  | failed hstore herr hfound =>
    refine ⟨fun hchanges => ?_, fun _ => hstore⟩
    obtain ⟨rfl, hchanges⟩ := hchanges
    obtain ⟨rest', hlooking⟩ := hfound rfl
    obtain ⟨_, _, _, err', rest'', herr', hlooking'⟩ | ⟨_, _, record, rest'', _, hlooking', _⟩ :=
      hchanges
    . rw [hlooking] at hlooking'
      injection hlooking' with herr''
      obtain rfl | rfl := herr'
      . exact absurd herr'' (by decide)
      . exact absurd herr'' (by decide)
    . rw [hlooking] at hlooking'
      cases hlooking'
  | inVain hobjects hflags hlooking =>
    obtain ⟨hcreate, hreplace, hreadOnly⟩ := SetFlags.allowsCreate_and_onlyExisting hflags
    have hvain : changes := ⟨rfl, .inl ⟨hcreate, hreplace, hreadOnly, hlooking⟩⟩
    exact ⟨fun _ => hobjects, fun hnot => absurd hvain hnot⟩
  | dropped hobjects hold hflags =>
    have hdrops : changes := ⟨rfl, .inr ⟨hflags.2, hflags.1, hold⟩⟩
    exact ⟨fun _ => hobjects, fun hnot => absurd hdrops hnot⟩

variable {pageSize cacheCapacity : Nat} {format : ObjectFormat}
  {hpage : Record.headerSize < pageSize} {options : MountOptions} {ops : List Op}
  {act : Action (Volume MemStore) Unit}

theorem set_error_run
    (hfault : (run ops (initial pageSize format hpage options cacheCapacity)).store.writeFault = none)
    (hobj : obj < 2 ^ 64)
    (hname : ∀ ⦃record after target⦄,
      existingRecord obj name (run ops (initial pageSize format hpage options cacheCapacity)) =
        .ok record after →
      (run ops (initial pageSize format hpage options cacheCapacity)).store.object? record =
        some target → target.body.isDirectory = false)
    (hact : act = writeValue obj name value flags
      ∨ ∃ registry, act = setAttribute registry obj name value flags)
    (h : act (run ops (initial pageSize format hpage options cacheCapacity)) = .error err rest) :
    let volume := run ops (initial pageSize format hpage options cacheCapacity)
    let changes := err = attrNotFound
      ∧ (volume.MakesInVain obj name flags ∨ volume.DropsRecord obj name flags)
    (changes → rest.store.objects ≠ volume.store.objects)
      ∧ (¬ changes → rest.store = volume.store) := by
  intro volume changes
  have hlinked : volume.store.Linked := linked_run ops (linked_empty pageSize format hpage)
  have hcases : volume.Refused rest err ∨ writeValue obj name value flags volume = .error err rest := by
    obtain rfl | ⟨registry, rfl⟩ := hact
    . exact .inr h
    . exact setAttribute_error hlinked h
  obtain ⟨hstore, herr⟩ | hwrite := hcases
  . exact ⟨fun hchanges => absurd hchanges.1 herr, fun _ => hstore⟩
  . exact writeValue_error hlinked hobj hfault hname hwrite

def cannotBeSet (obj : ObjectId) (name : String) (value : Bytes) (flags : SetFlags)
    (volume : Volume MemStore) : Bool :=
  volume.store.writeFault.isNone && (existingRecord obj name volume matches .error _ _)
    && (writeValue obj name value flags volume matches .error _ _)

theorem cannotBeSet_spec (h : cannotBeSet obj name value flags volume = true) :
    volume.store.writeFault = none
    ∧ (∀ record after, existingRecord obj name volume ≠ .ok record after)
    ∧ ∃ err rest, writeValue obj name value flags volume = .error err rest := by
  simp only [cannotBeSet, Bool.and_eq_true, Option.isNone_iff_eq_none] at h
  obtain ⟨⟨hfault, hrecord⟩, hwrite⟩ := h
  refine ⟨hfault, fun record after hexisting => ?_, ?_⟩
  . rw [hexisting] at hrecord
    cases hrecord
  . cases hresult : writeValue obj name value flags volume with
    | error err rest => exact ⟨err, rest, rfl⟩
    | ok _ rest =>
      rw [hresult] at hwrite
      cases hwrite

def fileRun : List Op :=
  [.mount ⟨false⟩, .store (.create 1 "f" 0o644)]

theorem set_error_run_replace :
    let volume := run fileRun (initial 16 .current (by decide) .optional 64)
    let flags : SetFlags := { SetFlags.none with replace := true }
    cannotBeSet 3 "user.x" [1] flags volume = true
    ∧ ∃ err rest, writeValue 3 "user.x" [1] flags volume = .error err rest
      ∧ rest.store = volume.store := by
  have hcheck : cannotBeSet 3 "user.x" [1] { SetFlags.none with replace := true }
      (run fileRun (initial 16 .current (by decide) .optional 64)) = true := by
    decide +kernel
  obtain ⟨hfault, hnone, err, rest, hwrite⟩ := cannotBeSet_spec hcheck
  have hkept := (set_error_run hfault (by decide) (fun _ _ _ h => absurd h (hnone _ _)) (.inl rfl)
    hwrite).2
  refine ⟨hcheck, err, rest, hwrite, hkept ?_⟩
  rintro ⟨_, ⟨hcreate, _⟩ | ⟨hreadOnly, _⟩⟩
  . cases hcreate
  . cases hreadOnly

def failsChangingLinks (act : Action (Volume MemStore) Unit) (volume : Volume MemStore) : Bool :=
  match act volume with
  | .ok _ _ => false
  | .error _ rest => rest.store.objects.map (·.nlink) != volume.store.objects.map (·.nlink)

theorem failsChangingLinks_spec (h : failsChangingLinks act volume = true) :
    ∃ err rest, act volume = .error err rest ∧ rest.store.objects ≠ volume.store.objects := by
  unfold failsChangingLinks at h
  cases hact : act volume with
  | ok _ rest =>
    rw [hact] at h
    cases h
  | error err rest =>
    refine ⟨err, rest, rfl, fun hobjects => ?_⟩
    simp [hact, hobjects] at h

theorem failsChangingLinks_create_replace :
    failsChangingLinks
      (writeValue 3 "user.x" [1] { SetFlags.none with create := true, replace := true })
      (run fileRun (initial 16 .current (by decide) .optional 64)) = true := by
  decide +kernel

theorem failsChangingLinks_readOnly :
    failsChangingLinks (writeValue 3 "user.x" [2] .looking)
      (run linkRun (initial 16 .current (by decide) .optional 64)) = true := by
  decide +kernel

theorem set_error_changes :
    (∃ err rest,
      writeValue 3 "user.x" [1] { SetFlags.none with create := true, replace := true }
        (run fileRun (initial 16 .current (by decide) .optional 64)) = .error err rest
      ∧ rest.store.objects ≠
        (run fileRun (initial 16 .current (by decide) .optional 64)).store.objects)
    ∧ ∃ err rest, writeValue 3 "user.x" [2] .looking
        (run linkRun (initial 16 .current (by decide) .optional 64)) = .error err rest
      ∧ rest.store.objects ≠
        (run linkRun (initial 16 .current (by decide) .optional 64)).store.objects :=
  ⟨failsChangingLinks_spec failsChangingLinks_create_replace,
    failsChangingLinks_spec failsChangingLinks_readOnly⟩

end Failure

end Volume

end AttrTree
