import AttrTree.Proofs.Recording

/-!
This module contains what the calls on single attributes answer on an intact volume. The answers are told
by the options, by what the object is like and by its book, and nothing else of the store matters.
-/

namespace AttrTree

open Action MemStore

structure Subject where
  key : ObjectKey
  isLegacy : Bool
  isPrivate : Bool
  isDirectory : Bool
  deriving DecidableEq, Repr

def MemObject.subject (object : MemObject) : Subject where
  key := object.stat.key
  isLegacy := object.stat.isLegacy
  isPrivate := object.isPrivate
  isDirectory := object.body.isDirectory

def Action.answering {σ β α : Type} (b : β) (act : Action (σ × β) α) : Action σ (α × β) := fun s =>
  match act (s, b) with
  | .ok a (s, b) => .ok (a, b) s
  | .error e (s, _) => .error e s

theorem Action.answering_of_ok {σ β α : Type} {act : Action (σ × β) α} {s s' : σ} {a : α} {b b' : β}
    (h : act (s, b) = .ok a (s', b')) : act.answering b s = .ok (a, b') s' := by
  simp [answering, h]

theorem Action.answering_of_error {σ β α : Type} {act : Action (σ × β) α} {s s' : σ} {e : Error}
    {b b' : β} (h : act (s, b) = .error e (s', b')) : act.answering b s = .error e s' := by
  simp [answering, h]

theorem Action.after_answering {σ β α : Type} (act : Action (σ × β) α) (b : β) (s : σ) :
    (act.answering b).after s = (act.withSecond b).after s := by
  unfold after answering withSecond
  cases act (s, b) <;> rfl

namespace Handler

variable {volume volume' : Volume MemStore} {name : String}

theorem check_congr (h : volume'.options = volume.options) (handler : Handler) (name : String) :
    handler.check volume' name = handler.check volume name := by
  have huser : volume'.userEnabled = volume.userEnabled := by
    simp [Volume.userEnabled, h]
  have hacl : volume'.aclEnabled = volume.aclEnabled := by
    simp [Volume.aclEnabled, h]
  cases handler <;> simp [check, huser, hacl]

theorem allowRemoval_congr (h : volume'.options = volume.options) (handler : Handler) (name : String) :
    handler.allowRemoval volume' name = handler.allowRemoval volume name := by
  cases handler <;> simp [allowRemoval, check_congr h]

theorem isShown_congr (h : volume'.options = volume.options) (handler : Handler) :
    handler.isShown volume' = handler.isShown volume := by
  cases handler <;> simp [isShown, Volume.userEnabled, Volume.aclEnabled, h]

end Handler

namespace Volume

variable {volume rest : Volume MemStore} {priv obj : ObjectId} {object : MemObject} {name : String}
  {flags : SetFlags} {value : Bytes} {buffer : Buffer} {handler : Handler} {subject : Subject}
  {link : HandlerLink} {err : Error} {books : ObjectKey → Book}

def subject? (volume : Volume MemStore) (obj : ObjectId) : Option Subject :=
  (volume.store.object? obj).map MemObject.subject

theorem subject?_of_object? (h : volume.store.object? obj = some object) :
    volume.subject? obj = some object.subject := by
  rw [subject?, h, Option.map_some]

section Gate

def checkedSubject (volume : Volume MemStore) (obj : ObjectId) : Except Error Subject :=
  if volume.attributesEnabled then
    match volume.subject? obj with
    | none => .error objectNotFound
    | some subject => if subject.isLegacy then .error legacyObject else .ok subject
  else
    .error attributesDisabled

theorem checkObject_checkedSubject (volume : Volume MemStore) (obj : ObjectId) :
    checkObject obj volume =
      match volume.checkedSubject obj with
      | .ok _ => .ok () volume
      | .error err => .error err volume := by
  cases henabled : volume.attributesEnabled with
  | false => simp [checkObject, checkedSubject, henabled]
  | true =>
    cases hobject : volume.store.object? obj with
    | none =>
      simp [checkObject, checkedSubject, henabled, subject?, hobject, onStore, focus, statWithAttributes,
        stat_of_none hobject]
    | some object =>
      have hlegacy : object.subject.isLegacy = object.stat.isLegacy := rfl
      cases hformat : object.stat.isLegacy <;>
        simp [checkObject, checkedSubject, henabled, subject?, hobject, onStore, focus, statWithAttributes,
          stat_of_object? hobject, hlegacy, hformat]

def gate (volume : Volume MemStore) (obj : ObjectId) (name : String) :
    Except Error (Handler × Subject) :=
  match Registry.standard.resolve? name with
  | none => .error noHandler
  | some link => (volume.checkedSubject obj).map fun subject => (link.handler, subject)

theorem handlerFor_gate (volume : Volume MemStore) (obj : ObjectId) (name : String) :
    handlerFor .standard obj name volume =
      match volume.gate obj name with
      | .ok (handler, _) => .ok handler volume
      | .error err => .error err volume := by
  cases hlink : Registry.standard.resolve? name with
  | none => simp [handlerFor, gate, hlink]
  | some link =>
    cases hchecked : volume.checkedSubject obj with
    | ok subject => simp [handlerFor, gate, hlink, checkObject_checkedSubject, hchecked, Except.map]
    | error err => simp [handlerFor, gate, hlink, checkObject_checkedSubject, hchecked, Except.map]

theorem checkedSubject_eq_ok_iff : volume.checkedSubject obj = .ok subject ↔
    volume.attributesEnabled = true ∧ ∃ object, volume.store.object? obj = some object
      ∧ object.format ≠ .legacy ∧ object.subject = subject := by
  cases henabled : volume.attributesEnabled with
  | false => simp [checkedSubject, henabled]
  | true =>
    cases hobject : volume.store.object? obj with
    | none => simp [checkedSubject, henabled, subject?, hobject]
    | some object =>
      have hlegacy : object.subject.isLegacy = true ↔ object.format = .legacy := by
        simp [MemObject.subject, ObjectStat.isLegacy, MemObject.stat]
      by_cases hformat : object.format = .legacy
      . simp [checkedSubject, henabled, subject?, hobject, hlegacy, hformat]
      . simp [checkedSubject, henabled, subject?, hobject, hlegacy, hformat]

theorem gate_eq_ok_iff : volume.gate obj name = .ok (handler, subject) ↔
    (∃ link, Registry.standard.resolve? name = some link ∧ link.handler = handler)
      ∧ volume.checkedSubject obj = .ok subject := by
  cases hlink : Registry.standard.resolve? name with
  | none => simp [gate, hlink]
  | some link =>
    cases hchecked : volume.checkedSubject obj with
    | ok subject' => simp [gate, hlink, hchecked, Except.map]
    | error err => simp [gate, hlink, hchecked, Except.map]

end Gate

theorem Intact.id_lt (h : volume.Intact priv) (hobject : volume.store.object? obj = some object) :
    object.stat.id < volume.store.nextId := by
  rw [show object.stat.id = object.id from rfl, id_of_object? hobject]
  exact h.linked.id_lt hobject

theorem Yields.failed {α : Type} (h : volume.Intact priv) (err : Error) :
    volume.Yields priv books (.error err volume : EStateM.Result Error (Volume MemStore) α)
      (.error err) :=
  .refused rfl (.refl h)

theorem Acts.failed {α : Type} (h : volume.Intact priv) (err : Error) :
    volume.Acts priv books (.error err volume : EStateM.Result Error (Volume MemStore) α)
      (.error err) :=
  .undisturbed (.failed h err)

theorem isAttrName_of_check (hlink : Registry.standard.resolve? name = some link)
    (hcheck : link.handler.check volume name = .ok ()) (hvalid : isValidName name = true) :
    isAttrName name = true := by
  refine isAttrName_eq_true_iff.mpr ⟨hvalid, link, hlink, ?_⟩
  obtain heq | ⟨start, heq⟩ | ⟨kind, heq⟩ := Registry.handler_cases hlink
  . rw [heq] at hcheck ⊢
    by_cases hsize : EntryName.size name ≤ EntryName.size Handler.user.start
    . simp [Handler.check, Handler.checkSuffix, hsize, bind, Except.bind] at hcheck
    . exact decide_eq_true (Nat.lt_of_not_le hsize)
  . rw [heq] at hcheck ⊢
    by_cases hsize : EntryName.size name ≤ EntryName.size start
    . simp [Handler.check, Handler.checkSuffix, hsize] at hcheck
    . exact decide_eq_true (Nat.lt_of_not_le hsize)
  . rw [heq] at hcheck ⊢
    by_cases hname : name = kind.attrName
    . simpa [Handler.serves] using hname
    . simp [Handler.check, hname, bind, Except.bind, throw, throwThe, MonadExceptOf.throw] at hcheck

def Stopped {α : Type} (volume : Volume MemStore)
    (result : EStateM.Result Error (Volume MemStore) α)
    (answer : Except Error (ObjectKey → Book) → Except Error α) : Prop :=
  ∃ err err', err.kind = err'.kind ∧ result = .error err volume ∧ ∀ books, answer books = .error err'

theorem Stopped.yields {α : Type} {result : EStateM.Result Error (Volume MemStore) α}
    {answer : Except Error (ObjectKey → Book) → Except Error α} (hstopped : volume.Stopped result answer)
    (h : volume.Intact priv) (opened : Except Error (ObjectKey → Book)) :
    volume.Yields priv books result (answer opened) := by
  obtain ⟨err, err', hkind, rfl, hanswer⟩ := hstopped
  rw [hanswer]
  exact .refused hkind (.refl h)

theorem serves_of_isAttrName (hname : isAttrName name = true)
    (hlink : Registry.standard.resolve? name = some link) : link.handler.serves name = true := by
  obtain ⟨_, link', hlink', hserves⟩ := isAttrName_eq_true_iff.mp hname
  obtain rfl : link = link' := Option.some.inj (hlink.symm.trans hlink')
  exact hserves

section Get

def getAnswer (volume : Volume MemStore) (books : Except Error (ObjectKey → Book)) (obj : ObjectId)
    (name : String) (buffer : Buffer) : Except Error (Nat × Buffer) := do
  let (handler, subject) ← volume.gate obj name
  handler.check volume name
  checkAttrName name
  match (← books) subject.key |>.content? name with
  | none => .error attrNotFound
  | some content => (readOutcome content buffer).1.map (·, (readOutcome content buffer).2)

theorem getAttribute_gate (hgate : volume.gate obj name = .ok (handler, subject)) (buffer : Buffer) :
    getAttribute .standard obj name (volume, buffer) =
      match handler.check volume name with
      | .ok _ => readValue obj name (volume, buffer)
      | .error err => .error err (volume, buffer) := by
  obtain ⟨⟨link, hlink, rfl⟩, _⟩ := gate_eq_ok_iff.mp hgate
  have hhandler := handlerFor_gate volume obj name
  cases hcheck : link.handler.check volume name with
  | error err => simp [getAttribute, onFirst, hhandler, hgate, Handler.getValue, hcheck]
  | ok _ =>
    obtain heq | ⟨start, heq⟩ | ⟨kind, heq⟩ := Registry.handler_cases hlink
    all_goals
      rw [heq] at hcheck hgate
      simp [getAttribute, onFirst, hhandler, hgate, Handler.getValue, hcheck]

theorem getAttribute_cases (obj : ObjectId) (name : String) (buffer : Buffer) :
    volume.Stopped ((getAttribute .standard obj name).answering buffer volume)
        (volume.getAnswer · obj name buffer)
      ∨ ∃ object, volume.store.object? obj = some object ∧ object.format ≠ .legacy
        ∧ isValidName name = true
        ∧ getAttribute .standard obj name (volume, buffer) = readValue obj name (volume, buffer)
        ∧ ∀ books, volume.getAnswer books obj name buffer = books.bind fun books =>
          match (books object.stat.key).content? name with
          | none => .error attrNotFound
          | some content => (readOutcome content buffer).1.map (·, (readOutcome content buffer).2) := by
  cases hgate : volume.gate obj name with
  | error err =>
    have hget : getAttribute .standard obj name (volume, buffer) = .error err (volume, buffer) := by
      simp [getAttribute, onFirst, handlerFor_gate, hgate]
    refine .inl ⟨err, err, rfl, answering_of_error hget, fun books => ?_⟩
    simp [getAnswer, hgate, bind, Except.bind]
  | ok passed =>
    obtain ⟨handler, subject⟩ := passed
    have hget := getAttribute_gate hgate buffer
    obtain ⟨_, object, hobject, hformat, rfl⟩ := checkedSubject_eq_ok_iff.mp (gate_eq_ok_iff.mp hgate).2
    cases hcheck : handler.check volume name with
    | error err =>
      rw [hcheck] at hget
      refine .inl ⟨err, err, rfl, answering_of_error hget, fun books => ?_⟩
      simp [getAnswer, hgate, hcheck, bind, Except.bind]
    | ok _ =>
      rw [hcheck] at hget
      cases hvalid : isValidName name with
      | false =>
        obtain ⟨err, hname, _⟩ := checkAttrName_of_invalid hvalid
        have hget : getAttribute .standard obj name (volume, buffer) = .error err (volume, buffer) := by
          simp [hget, readValue, onFirst, existingRecord_eq hobject hformat, openRecord, hname]
        refine .inl ⟨err, err, rfl, answering_of_error hget, fun books => ?_⟩
        simp [getAnswer, hgate, hcheck, hname, bind, Except.bind]
      | true =>
        refine .inr ⟨object, hobject, hformat, rfl, hget, fun books => ?_⟩
        simp only [getAnswer, hgate, hcheck, checkAttrName_of_valid hvalid, bind, Except.bind]
        rfl

theorem Intact.yields_getAttribute (h : volume.Intact priv) (hbound : volume.store.nextId ≤ 2 ^ 64)
    (obj : ObjectId) (name : String) (buffer : Buffer) :
    volume.Yields priv (volume.store.book priv)
      ((getAttribute .standard obj name).answering buffer volume)
      (volume.getAnswer (.ok (volume.store.book priv)) obj name buffer) := by
  obtain hstopped | ⟨object, hobject, hformat, hvalid, hget, hanswer⟩ :=
    getAttribute_cases obj name buffer
  . exact hstopped.yields h _
  . rw [hanswer, Except.bind]
    have hexisting := existingRecord_eq hobject hformat name
    cases hrecord : volume.store.attrRecord? priv object.stat.key name with
    | none =>
      obtain ⟨err, rest, herr, hopen, hrevises⟩ := h.openRecord_absent hvalid hrecord
        (h.id_lt hobject) hbound (show SetFlags.looking.onlyExisting = true from rfl)
      have hrun : getAttribute .standard obj name (volume, buffer) = .error err (rest, buffer) := by
        simp [hget, readValue, onFirst, hexisting, hopen]
      rw [answering_of_error hrun, (h.content?_eq_none_iff hvalid object.stat.key).mpr hrecord]
      exact .refused herr hrevises
    | some record =>
      have hdots := isDots_of_isValidName hvalid
      obtain ⟨rest, hrevises, hstore, hopen⟩ := h.openRecord_found hvalid hrecord .looking
      rw [if_neg (by simp [SetFlags.looking, SetFlags.none])] at hopen
      obtain ⟨file, content, hfile, _, _, hbody, _⟩ := h.file_of_record hdots hrecord
      have hread := readRecord_eq (hstore ▸ hfile) hbody buffer
      rw [h.content?_book hdots, hrecord, Option.bind_some, content?_of_object? hfile hbody]
      cases houtcome : readOutcome content buffer with
      | mk result buffer' =>
        rw [houtcome] at hread
        cases result with
        | ok n =>
          have hrun : getAttribute .standard obj name (volume, buffer) = .ok n (rest, buffer') := by
            simp [hget, readValue, onFirst, hexisting, hopen, onStoreWith, focus, hread]
          simp only [answering_of_ok hrun, houtcome]
          exact .done hrevises
        | error err =>
          have hrun : getAttribute .standard obj name (volume, buffer) = .error err (rest, buffer') := by
            simp [hget, readValue, onFirst, hexisting, hopen, onStoreWith, focus, hread]
          simp only [answering_of_error hrun, houtcome]
          exact .refused rfl hrevises

end Get

def withBookOf (volume : Volume MemStore) (books : ObjectKey → Book) (obj : ObjectId)
    (f : Book → Book) : ObjectKey → Book :=
  match volume.subject? obj with
  | none => books
  | some subject => withBook books subject.key (f (books subject.key))

theorem withBookOf_of_object? (h : volume.store.object? obj = some object)
    (books : ObjectKey → Book) (f : Book → Book) :
    volume.withBookOf books obj f = withBook books object.stat.key (f (books object.stat.key)) := by
  rw [withBookOf, subject?_of_object? h]
  rfl

section Set

def setAnswer (volume : Volume MemStore) (books : Except Error (ObjectKey → Book)) (obj : ObjectId)
    (name : String) (value : Bytes) (flags : SetFlags) : Except Error Unit := do
  let (handler, subject) ← volume.gate obj name
  handler.check volume name
  checkAttrName name
  let written := books.bind fun books => writeAnswer flags ((books subject.key).content? name)
  match handler.aclKind? with
  | none => written
  | some kind =>
    if value.isEmpty then
      books.map fun _ => ()
    else do
      if kind == .default && !subject.isDirectory then
        throw Handler.defaultAclOnFile
      let _ ← Acl.validate value
      written

def setBook (name : String) (value : Bytes) (book : Book) : Book :=
  match keptValue name value with
  | none => book.without name
  | some value => book.put name (Record.image value)

section Acl

theorem writeAcl_eq (hlinked : volume.store.Linked) (hobject : volume.store.object? obj = some object)
    (kind : AclKind) (value : Bytes) :
    Handler.writeAcl kind obj name value flags volume =
      if kind == .default && !object.body.isDirectory then .error Handler.defaultAclOnFile volume
      else
        match Acl.validate value with
        | .error err => .error err volume
        | .ok _ => writeValue obj name value flags volume := by
  have hdirectory := hlinked.isDirectory_stat hobject
  cases hbody : object.body.isDirectory <;> cases kind <;> cases hlist : Acl.validate value <;>
    simp_all [Handler.writeAcl, onStore, focus, stat_of_object? hobject]

variable (h : volume.Intact priv) (hobject : volume.store.object? obj = some object)
include h hobject

theorem Intact.yields_removeAcl (hvalid : isValidName name = true) :
    volume.Yields priv (withBook (volume.store.book priv) object.stat.key
        ((volume.store.book priv object.stat.key).without name))
      (Handler.removeAcl obj name volume) (.ok ()) := by
  have hremove : removeValue obj name volume = removeRecord object.stat name volume := by
    simp [removeValue, onStore, focus, stat_of_object? hobject]
  by_cases hknown : (volume.store.book priv object.stat.key).content? name = none
  . obtain ⟨err, rest, herr, hrecord, hrevises⟩ := h.removeRecord_absent hvalid hknown
    have habsent : err.isNoAttribute = true := by
      simpa [Error.isNoAttribute] using herr
    have hrun : Handler.removeAcl obj name volume = .ok () rest := by
      simp [Handler.removeAcl, attempt, hremove, hrecord, habsent]
    rw [hrun]
    exact .done (hrevises.congr fun key =>
      (withBook_eq_self (Book.without_eq_self hknown) key).symm)
  . obtain ⟨rest, hrecord, hrevises, _⟩ := h.removeRecord_found hvalid hknown
    have hrun : Handler.removeAcl obj name volume = .ok () rest := by
      simp [Handler.removeAcl, attempt, hremove, hrecord]
    rw [hrun]
    exact .done hrevises

theorem Intact.acts_writeAcl (hname : isAttrName name = true) (hformat : object.format ≠ .legacy)
    (hother : flags.other = false) (hbound : volume.store.nextId ≤ 2 ^ 64) (kind : AclKind)
    (value : Bytes) :
    volume.Acts priv (withBook (volume.store.book priv) object.stat.key
        ((volume.store.book priv object.stat.key).put name (Record.image value)))
      (Handler.writeAcl kind obj name value flags volume)
      (if kind == .default && !object.body.isDirectory then .error Handler.defaultAclOnFile
        else do
          let _ ← Acl.validate value
          writeAnswer flags ((volume.store.book priv object.stat.key).content? name)) := by
  rw [writeAcl_eq h.linked hobject]
  split
  . exact .failed h _
  . cases hlist : Acl.validate value with
    | error err => exact .failed h err
    | ok count => exact h.acts_writeValue hname hobject hformat hother hbound value

end Acl

theorem setAttribute_gate (hgate : volume.gate obj name = .ok (handler, subject)) :
    setAttribute .standard obj name value flags volume =
      match handler.check volume name with
      | .error err => .error err volume
      | .ok _ =>
        match handler.aclKind? with
        | none => writeValue obj name value flags volume
        | some kind =>
          if value.isEmpty then Handler.removeAcl obj name volume
          else Handler.writeAcl kind obj name value flags volume := by
  obtain ⟨⟨link, hlink, rfl⟩, _⟩ := gate_eq_ok_iff.mp hgate
  have hhandler := handlerFor_gate volume obj name
  cases hcheck : link.handler.check volume name with
  | error err => simp [setAttribute, hhandler, hgate, Handler.setValue, hcheck]
  | ok _ =>
    obtain heq | ⟨start, heq⟩ | ⟨kind, heq⟩ := Registry.handler_cases hlink
    . rw [heq] at hcheck hgate ⊢
      simp [setAttribute, hhandler, hgate, Handler.setValue, hcheck, Handler.aclKind?]
    . rw [heq] at hcheck hgate ⊢
      simp [setAttribute, hhandler, hgate, Handler.setValue, hcheck, Handler.aclKind?]
    . rw [heq] at hcheck hgate ⊢
      cases value <;>
        simp [setAttribute, hhandler, hgate, Handler.setValue, hcheck, Handler.aclKind?]

theorem stopped_setAttribute (hgate : volume.gate obj name = .ok (handler, subject))
    (hcheck : handler.check volume name = .ok ()) (hvalid : isValidName name = false) (value : Bytes)
    (flags : SetFlags) :
    volume.Stopped (setAttribute .standard obj name value flags volume)
      (volume.setAnswer · obj name value flags) := by
  obtain ⟨_, object, hobject, hformat, rfl⟩ := checkedSubject_eq_ok_iff.mp (gate_eq_ok_iff.mp hgate).2
  obtain ⟨err', hname, hkind'⟩ := checkAttrName_of_invalid hvalid
  obtain ⟨err, hkind, hopen⟩ := openRecord_of_invalid hvalid object.stat flags volume
  refine ⟨err, err', hkind.trans hkind'.symm, ?_, fun books => ?_⟩
  . rw [setAttribute_gate hgate, hcheck]
    cases hacl : handler.aclKind? with
    | none => exact Settled.writeValue_of_error hobject hformat hopen value
    | some kind =>
      -- The names of lists are valid.
      rw [Handler.aclKind?_eq_some_iff.mp hacl] at hcheck
      have hsame : name = kind.attrName := by
        by_contra hne
        simp [Handler.check, hne, bind, Except.bind, throw, throwThe, MonadExceptOf.throw] at hcheck
      rw [hsame] at hvalid
      cases kind <;> exact absurd hvalid (by decide)
  . simp [setAnswer, hgate, hcheck, hname, bind, Except.bind]

theorem setAttribute_cases (obj : ObjectId) (name : String) (value : Bytes) (flags : SetFlags) :
    volume.Stopped (setAttribute .standard obj name value flags volume)
        (volume.setAnswer · obj name value flags)
      ∨ ∃ object, volume.store.object? obj = some object ∧ object.format ≠ .legacy
        ∧ isAttrName name = true
        ∧ (setAttribute .standard obj name value flags volume =
          match aclKind? name with
          | none => writeValue obj name value flags volume
          | some kind =>
            if value.isEmpty then Handler.removeAcl obj name volume
            else Handler.writeAcl kind obj name value flags volume)
        ∧ ∀ books, volume.setAnswer books obj name value flags =
          match aclKind? name with
          | none => books.bind fun books => writeAnswer flags ((books object.stat.key).content? name)
          | some kind =>
            if value.isEmpty then books.map fun _ => ()
            else if kind == .default && !object.body.isDirectory then .error Handler.defaultAclOnFile
            else Acl.validate value >>= fun _ =>
              books.bind fun books => writeAnswer flags ((books object.stat.key).content? name) := by
  cases hgate : volume.gate obj name with
  | error err =>
    refine .inl ⟨err, err, rfl, ?_, fun books => ?_⟩
    . simp [setAttribute, handlerFor_gate, hgate]
    . simp [setAnswer, hgate, bind, Except.bind]
  | ok passed =>
    obtain ⟨handler, subject⟩ := passed
    have hset := @setAttribute_gate _ _ _ flags value _ _ hgate
    cases hcheck : handler.check volume name with
    | error err =>
      rw [hcheck] at hset
      refine .inl ⟨err, err, rfl, hset, fun books => ?_⟩
      simp [setAnswer, hgate, hcheck, bind, Except.bind]
    | ok _ =>
      cases hvalid : isValidName name with
      | false => exact .inl (stopped_setAttribute hgate hcheck hvalid value flags)
      | true =>
        obtain ⟨⟨link, hlink, rfl⟩, hchecked⟩ := gate_eq_ok_iff.mp hgate
        obtain ⟨_, object, hobject, hformat, rfl⟩ := checkedSubject_eq_ok_iff.mp hchecked
        have hname := isAttrName_of_check hlink hcheck hvalid
        have hkind := Registry.aclKind?_eq hlink (serves_of_isAttrName hname hlink)
        rw [hcheck] at hset
        refine .inr ⟨object, hobject, hformat, hname, by rw [hkind, hset], fun books => ?_⟩
        simp only [setAnswer, hgate, hcheck, checkAttrName_of_valid hvalid, hkind, bind, Except.bind]
        rfl

theorem Intact.acts_setAttribute (h : volume.Intact priv) (hother : flags.other = false)
    (hbound : volume.store.nextId ≤ 2 ^ 64) (obj : ObjectId) (name : String) (value : Bytes) :
    volume.Acts priv (volume.withBookOf (volume.store.book priv) obj (setBook name value))
      (setAttribute .standard obj name value flags volume)
      (volume.setAnswer (.ok (volume.store.book priv)) obj name value flags) := by
  obtain hstopped | ⟨object, hobject, hformat, hname, hset, hanswer⟩ :=
    setAttribute_cases obj name value flags
  . exact .undisturbed (hstopped.yields h _)
  . rw [withBookOf_of_object? hobject, hset, hanswer]
    have hvalid := (isAttrName_eq_true_iff.mp hname).1
    cases hacl : aclKind? name with
    | none =>
      have hkept : keptValue name value = some value := by
        simp [keptValue, hacl]
      simp only [setBook, hkept, Except.bind]
      exact h.acts_writeValue hname hobject hformat hother hbound value
    | some kind =>
      cases value with
      | nil =>
        have hkept : keptValue name [] = none := by
          simp [keptValue, hacl]
        simp only [setBook, hkept]
        exact .undisturbed (h.yields_removeAcl hobject hvalid)
      | cons b value =>
        have hkept : keptValue name (b :: value) = some (b :: value) := by
          simp [keptValue]
        simp only [setBook, hkept]
        exact h.acts_writeAcl hobject hname hformat hother hbound kind (b :: value)

end Set

section Remove

def removeAnswer (volume : Volume MemStore) (books : Except Error (ObjectKey → Book)) (obj : ObjectId)
    (name : String) : Except Error Unit := do
  let (handler, subject) ← volume.gate obj name
  handler.allowRemoval volume name
  checkAttrName name
  match (← books) subject.key |>.content? name with
  | none => .error attrNotFound
  | some _ => .ok ()

theorem Intact.pruneDirectory (h : volume.Intact priv) (hbound : volume.store.nextId ≤ 2 ^ 63)
    (stat : ObjectStat) :
    ∃ result rest, (pruneDirectory stat).attempt volume = .ok result rest
      ∧ volume.Revises rest priv (volume.store.book priv) := by
  -- Whatever comes of it, it does no harm to look whether the directory can go.
  cases hdir : volume.store.attrDir? priv stat.key with
  | none =>
    obtain ⟨err, rest, _, hopen, hrevises⟩ :=
      h.openDirectory_absent hdir (show SetFlags.looking.allowsCreate = false from rfl)
    exact ⟨.error err, rest, by simp [attempt, Volume.pruneDirectory, hopen], hrevises⟩
  | some dir =>
    have hopen := h.openDirectory_found hdir .looking
    have hopened := h.opened hdir
    obtain ⟨rest, hrevises, hprune | ⟨err, _, hprune⟩⟩ := hopened.intact.prune
      (by rw [store_opened, hdir]) (by rw [store_opened]; exact hbound)
    . exact ⟨.ok (), rest, by simp [attempt, Volume.pruneDirectory, hopen, hprune],
        hopened.trans_same hrevises⟩
    . exact ⟨.error err, rest, by simp [attempt, Volume.pruneDirectory, hopen, hprune],
        hopened.trans_same hrevises⟩

theorem removeAttribute_cases (obj : ObjectId) (name : String) :
    volume.Stopped (removeAttribute .standard obj name volume) (volume.removeAnswer · obj name)
      ∨ ∃ object, volume.store.object? obj = some object ∧ isValidName name = true
        ∧ removeAttribute .standard obj name volume = (do
          removeRecord object.stat name
          let _ ← (Volume.pruneDirectory object.stat).attempt) volume
        ∧ ∀ books, volume.removeAnswer books obj name = books.bind fun books =>
          match (books object.stat.key).content? name with
          | none => .error attrNotFound
          | some _ => .ok () := by
  have hhandler := handlerFor_gate volume obj name
  cases hgate : volume.gate obj name with
  | error err =>
    refine .inl ⟨err, err, rfl, ?_, fun books => ?_⟩
    . simp [removeAttribute, hhandler, hgate]
    . simp [removeAnswer, hgate, bind, Except.bind]
  | ok passed =>
    obtain ⟨handler, subject⟩ := passed
    obtain ⟨_, object, hobject, hformat, rfl⟩ := checkedSubject_eq_ok_iff.mp (gate_eq_ok_iff.mp hgate).2
    cases hallow : handler.allowRemoval volume name with
    | error err =>
      refine .inl ⟨err, err, rfl, ?_, fun books => ?_⟩
      . simp [removeAttribute, hhandler, hgate, hallow]
      . simp [removeAnswer, hgate, hallow, bind, Except.bind]
    | ok _ =>
      have hremove : removeAttribute .standard obj name volume = (do
          removeRecord object.stat name
          let _ ← (Volume.pruneDirectory object.stat).attempt) volume := by
        simp [removeAttribute, hhandler, hgate, hallow, onStore, focus, stat_of_object? hobject]
      cases hvalid : isValidName name with
      | false =>
        obtain ⟨err, hname, _⟩ := checkAttrName_of_invalid hvalid
        refine .inl ⟨err, err, rfl, ?_, fun books => ?_⟩
        . rw [hremove]
          simp only [bind_apply, removeRecord, hname, ofExcept_error]
        . simp [removeAnswer, hgate, hallow, hname, bind, Except.bind]
      | true =>
        refine .inr ⟨object, hobject, rfl, hremove, fun books => ?_⟩
        simp only [removeAnswer, hgate, hallow, checkAttrName_of_valid hvalid, bind, Except.bind]
        rfl

theorem Intact.yields_removeAttribute (h : volume.Intact priv) (hbound : volume.store.nextId ≤ 2 ^ 63)
    (obj : ObjectId) (name : String) :
    volume.Yields priv (volume.withBookOf (volume.store.book priv) obj (·.without name))
      (removeAttribute .standard obj name volume)
      (volume.removeAnswer (.ok (volume.store.book priv)) obj name) := by
  obtain hstopped | ⟨object, hobject, hvalid, hremove, hanswer⟩ := removeAttribute_cases obj name
  . exact hstopped.yields h _
  . rw [withBookOf_of_object? hobject, hremove, hanswer, Except.bind]
    cases hknown : (volume.store.book priv object.stat.key).content? name with
    | none =>
      obtain ⟨err, rest, herr, hrecord, hrevises⟩ := h.removeRecord_absent hvalid hknown
      simp only [bind_apply, hrecord]
      exact .refused herr hrevises
    | some content =>
      obtain ⟨middle, hrecord, hrevises, hnext⟩ :=
        h.removeRecord_found hvalid (by rw [hknown]; nofun)
      obtain ⟨result, rest, hprune, hpruned⟩ :=
        hrevises.intact.pruneDirectory (by rw [hnext]; exact hbound) object.stat
      simp only [bind_apply, hrecord, hprune]
      exact .done (hrevises.trans_same hpruned)

end Remove

end Volume

end AttrTree
