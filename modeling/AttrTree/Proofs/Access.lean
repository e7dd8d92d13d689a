import AttrTree.Proofs.Failure
import AttrTree.Proofs.Listing

/-!
This module contains what the access to attributes by their full names answers and does on a volume in
order. Which names can be had the standard handlers say, and which calls succeed the values.
-/

namespace AttrTree

open MemStore

namespace Handler

def serves (handler : Handler) (name : String) : Bool :=
  match handler with
  | acl kind => name == kind.attrName
  | fixed _ _ => false
  | _ => EntryName.size handler.start < EntryName.size name

theorem aclKind?_eq_some_iff {handler : Handler} {kind : AclKind} :
    handler.aclKind? = some kind ↔ handler = .acl kind := by
  cases handler <;> simp [aclKind?]

end Handler

def isAttrName (name : String) : Bool :=
  isValidName name && (Registry.standard.resolve? name).any (·.handler.serves name)

def aclKind? (name : String) : Option AclKind :=
  if name = AclKind.access.attrName then some .access
  else if name = AclKind.default.attrName then some .default
  else none

def keptValue (name : String) (value : Bytes) : Option Bytes :=
  if (aclKind? name).isSome && value.isEmpty then none else some value

def SetFlags.permits (flags : SetFlags) (old : Option Bytes) : Bool :=
  if old.isSome then !flags.create else !flags.onlyExisting

def AclKind.fits (kind : AclKind) (isDirectory : Bool) (value : Bytes) : Bool :=
  (kind != .default || isDirectory) && (Acl.validate value).isOk

def canSet (isDirectory : Bool) (name : String) (value : Bytes) (flags : SetFlags)
    (old : Option Bytes) : Bool :=
  isAttrName name && match aclKind? name with
    | none => flags.permits old
    | some kind => value.isEmpty || (kind.fits isDirectory value && flags.permits old)

namespace Registry

variable {link : HandlerLink} {name : String}

theorem handler_cases (hlink : standard.resolve? name = some link) :
    link.handler = .user ∨ (∃ start, link.handler = .plain start)
      ∨ ∃ kind, link.handler = .acl kind := by
  have hmem : link ∈ standard.links := List.mem_of_find?_eq_some hlink
  simp only [standard, standardHandlers, List.mapIdx_cons, List.mapIdx_nil, List.mem_cons,
    List.not_mem_nil, or_false] at hmem
  rcases hmem with rfl | rfl | rfl | rfl | rfl
  . exact .inl rfl
  . exact .inr (.inl ⟨_, rfl⟩)
  . exact .inr (.inl ⟨_, rfl⟩)
  . exact .inr (.inr ⟨_, rfl⟩)
  . exact .inr (.inr ⟨_, rfl⟩)

theorem aclKind?_eq (hlink : standard.resolve? name = some link)
    (hserves : link.handler.serves name = true) : aclKind? name = link.handler.aclKind? := by
  -- The names of lists are left to their handlers.
  have hacl (kind : AclKind) (hname : name = kind.attrName) : link.handler = .acl kind := by
    subst hname
    have hfound : (standard.resolve? kind.attrName).map (·.handler) = some (.acl kind) := by
      cases kind <;> decide
    rw [hlink] at hfound
    simpa using hfound
  unfold aclKind?
  split
  . next hname => rw [hacl .access hname]; rfl
  . split
    . next hname => rw [hacl .default hname]; rfl
    . next haccess hdefault =>
      obtain heq | ⟨start, heq⟩ | ⟨kind, heq⟩ := handler_cases hlink
      . rw [heq]; rfl
      . rw [heq]; rfl
      . rw [heq] at hserves
        have hname : name = kind.attrName := by simpa [Handler.serves] using hserves
        cases kind
        . exact absurd hname haccess
        . exact absurd hname hdefault

theorem canSet_eq (hlink : standard.resolve? name = some link)
    (hserves : link.handler.serves name = true) (isDirectory : Bool) (value : Bytes)
    (flags : SetFlags) (old : Option Bytes) :
    canSet isDirectory name value flags old =
      (isValidName name && match link.handler.aclKind? with
        | none => flags.permits old
        | some kind => value.isEmpty || (kind.fits isDirectory value && flags.permits old)) := by
  simp [canSet, isAttrName, hlink, hserves, aclKind?_eq hlink hserves]

theorem keptValue_eq (hlink : standard.resolve? name = some link)
    (hserves : link.handler.serves name = true) (value : Bytes) :
    keptValue name value =
      if link.handler.aclKind?.isSome && value.isEmpty then none else some value := by
  rw [keptValue, aclKind?_eq hlink hserves]

theorem setValue_plain (hlink : standard.resolve? name = some link)
    (hkind : link.handler.aclKind? = none) {volume : Volume MemStore}
    (hcheck : link.handler.check volume name = .ok ()) (obj : ObjectId) (value : Bytes)
    (flags : SetFlags) :
    link.handler.setValue obj name (some value) flags volume =
      Volume.writeValue obj name value flags volume := by
  obtain heq | ⟨start, heq⟩ | ⟨kind, heq⟩ := handler_cases hlink
  . rw [heq] at hcheck ⊢
    simp [Handler.setValue, hcheck]
  . rw [heq] at hcheck ⊢
    simp [Handler.setValue, hcheck]
  . rw [heq] at hkind
    cases hkind

end Registry

theorem isAttrName_eq_true_iff {name : String} :
    isAttrName name = true ↔ isValidName name = true
      ∧ ∃ link, Registry.standard.resolve? name = some link ∧ link.handler.serves name = true := by
  simp [isAttrName, Option.any_eq_true]

namespace Volume

open Action

variable {volume rest : Volume MemStore} {priv obj : ObjectId} {object : MemObject} {name : String}
  {link : HandlerLink} {flags : SetFlags} {value : Bytes} {stat : ObjectStat}

theorem handlerFor_of_enabled {registry : Registry} (hlink : registry.resolve? name = some link)
    (henabled : volume.attributesEnabled = true) (hobject : volume.store.object? obj = some object)
    (hformat : object.format ≠ .legacy) :
    handlerFor registry obj name volume = .ok link.handler volume := by
  simp [handlerFor, hlink, checkObject_of_enabled henabled hobject hformat]

namespace Settled

section Handler

variable (h : volume.Settled priv) (hlink : Registry.standard.resolve? name = some link)
include h hlink

theorem check_cases :
    (link.handler.serves name = true ∧ link.handler.check volume name = .ok ())
      ∨ (link.handler.serves name = false ∧ ∃ err, link.handler.check volume name = .error err) := by
  have huser : volume.userEnabled = true := by
    simp [userEnabled, h.attributes_eq, h.user_eq]
  have hacl : volume.aclEnabled = true := by
    simp [aclEnabled, h.attributes_eq, h.acl_eq]
  obtain heq | ⟨start, heq⟩ | ⟨kind, heq⟩ := Registry.handler_cases hlink
  . rw [heq]
    by_cases hsize : EntryName.size name ≤ EntryName.size Handler.user.start
    . refine .inr ⟨decide_eq_false (Nat.not_lt.mpr hsize), Handler.noSuffix, ?_⟩
      simp [Handler.check, Handler.checkSuffix, hsize, bind, Except.bind]
    . refine .inl ⟨decide_eq_true (Nat.lt_of_not_le hsize), ?_⟩
      simp [Handler.check, Handler.checkSuffix, hsize, huser, bind, Except.bind, pure, Except.pure]
  . rw [heq]
    by_cases hsize : EntryName.size name ≤ EntryName.size start
    . refine .inr ⟨decide_eq_false (Nat.not_lt.mpr hsize), Handler.noSuffix, ?_⟩
      simp [Handler.check, Handler.checkSuffix, hsize]
    . refine .inl ⟨decide_eq_true (Nat.lt_of_not_le hsize), ?_⟩
      simp [Handler.check, Handler.checkSuffix, hsize]
  . rw [heq]
    by_cases hname : name = kind.attrName
    . refine .inl ⟨by simpa [Handler.serves] using hname, ?_⟩
      simp [Handler.check, hname, hacl, pure, Except.pure]
    . refine .inr ⟨by simpa [Handler.serves] using hname, Handler.badAclName, ?_⟩
      simp [Handler.check, hname, bind, Except.bind, throw, throwThe, MonadExceptOf.throw]

variable (hobject : volume.store.object? obj = some object) (hformat : object.format ≠ .legacy)
include hobject hformat

theorem handlerFor_eq : handlerFor .standard obj name volume = .ok link.handler volume :=
  handlerFor_of_enabled hlink h.attributes_eq hobject hformat

end Handler

section Get

variable (h : volume.Settled priv) (hobject : volume.store.object? obj = some object)
  (hformat : object.format ≠ .legacy)
include h hobject hformat

theorem getAttribute_eq (hname : isAttrName name = true) (buffer : Buffer) :
    getAttribute .standard obj name (volume, buffer) = Volume.readValue obj name (volume, buffer) := by
  obtain ⟨_, link, hlink, hserves⟩ := isAttrName_eq_true_iff.mp hname
  have hhandler := h.handlerFor_eq hlink hobject hformat
  obtain ⟨_, hcheck⟩ | ⟨hserves', _⟩ := h.check_cases hlink
  . obtain heq | ⟨start, heq⟩ | ⟨kind, heq⟩ := Registry.handler_cases hlink
    all_goals
      rw [heq] at hcheck hhandler
      simp [Volume.getAttribute, onFirst, hhandler, Handler.getValue, hcheck]
  . rw [hserves] at hserves'
    cases hserves'

theorem getAttribute (hbound : volume.store.nextId ≤ 2 ^ 64) (hname : isAttrName name = true)
    (buffer : Buffer) :
    ∃ rest, volume.Becomes rest priv (volume.store.attrValue? priv)
      ∧ Answers (getAttribute .standard obj name (volume, buffer)) rest
        (readAnswer (volume.store.attrValue? priv object.stat.key name) buffer) := by
  rw [h.getAttribute_eq hobject hformat hname]
  exact h.readValue hobject hformat (isAttrName_eq_true_iff.mp hname).1 hbound buffer

theorem getAttribute_other (hname : isAttrName name = false) (buffer : Buffer) :
    ∃ err, Volume.getAttribute .standard obj name (volume, buffer) = .error err (volume, buffer) := by
  cases hresolve : Registry.standard.resolve? name with
  | none => exact ⟨noHandler, by simp [Volume.getAttribute, onFirst, handlerFor, hresolve]⟩
  | some link =>
    have hhandler := h.handlerFor_eq hresolve hobject hformat
    obtain ⟨hserves, hcheck⟩ | ⟨_, err, hcheck⟩ := h.check_cases hresolve
    . have hinvalid : isValidName name = false := by
        simpa [isAttrName, hresolve, hserves] using hname
      obtain ⟨err, _, hopen⟩ := openRecord_of_invalid hinvalid object.stat .looking volume
      have hexisting := existingRecord_eq hobject hformat name
      obtain heq | ⟨start, heq⟩ | ⟨kind, heq⟩ := Registry.handler_cases hresolve
      all_goals
        rw [heq] at hcheck hhandler
        exact ⟨err, by simp [Volume.getAttribute, onFirst, hhandler, Handler.getValue, hcheck,
          Volume.readValue, hexisting, hopen]⟩
    . exact ⟨err, by simp [Volume.getAttribute, onFirst, hhandler, Handler.getValue, hcheck]⟩

end Get

end Settled

def OnlyAttrNames (volume : Volume MemStore) (priv : ObjectId) : Prop :=
  ∀ ⦃key n⦄, EntryName.isDots n = false → volume.store.attrValue? priv key n ≠ none →
    isAttrName n = true

def Does (volume : Volume MemStore) (priv : ObjectId)
    (result : EStateM.Result Error (Volume MemStore) Unit) (can : Bool)
    (values : ObjectKey → String → Option Bytes) : Prop :=
  match result with
  | .ok _ rest => can = true ∧ volume.Becomes rest priv values
  | .error _ rest => can = false ∧ volume.Becomes rest priv (volume.store.attrValue? priv)

namespace Settled

section Set

variable (h : volume.Settled priv) (hobject : volume.store.object? obj = some object)
include h hobject

theorem writeValue_does (hformat : object.format ≠ .legacy) (hbound : volume.store.nextId ≤ 2 ^ 64)
    (hvalid : isValidName name = true) (hflags : flags.other = false) (value : Bytes) :
    volume.Does priv (writeValue obj name value flags volume)
      (flags.permits (volume.store.attrValue? priv object.stat.key name))
      (withValue (volume.store.attrValue? priv) object.stat.key name (some value)) := by
  cases hvalue : volume.store.attrValue? priv object.stat.key name with
  | some old =>
    have hvalue' : volume.store.attrValue? priv object.stat.key name ≠ none := by
      simp [hvalue]
    cases hcreate : flags.create with
    | true =>
      obtain ⟨rest, hwrite, hbecomes⟩ :=
        h.writeValue_exists hobject hformat hvalid hvalue' hcreate value
      rw [hwrite]
      exact ⟨by simp [SetFlags.permits, hcreate], hbecomes⟩
    | false =>
      obtain ⟨rest, hwrite, hbecomes⟩ :=
        h.writeValue_found hobject hformat hvalid hvalue' hcreate value
      rw [hwrite]
      exact ⟨by simp [SetFlags.permits, hcreate], hbecomes⟩
  | none =>
    cases honly : flags.onlyExisting with
    | true =>
      obtain ⟨err, rest, _, hwrite, hbecomes⟩ :=
        h.writeValue_absent hobject hformat hvalid hbound hvalue honly value
      rw [hwrite]
      exact ⟨by simp [SetFlags.permits, honly], hbecomes⟩
    | false =>
      have hcreate : flags.allowsCreate = true := by
        obtain ⟨create, replace, readOnly, other⟩ := flags
        simp only [SetFlags.onlyExisting, Bool.or_eq_false_iff] at honly
        obtain ⟨rfl, rfl⟩ := honly
        obtain rfl : other = false := hflags
        cases create <;> rfl
      obtain ⟨rest, hwrite, hbecomes⟩ :=
        h.writeValue_made hobject hformat hvalid hbound hvalue honly hcreate value
      rw [hwrite]
      exact ⟨by simp [SetFlags.permits, honly], hbecomes⟩

theorem removeAcl_does (hvalid : isValidName name = true) :
    volume.Does priv (Handler.removeAcl obj name volume) true
      (withValue (volume.store.attrValue? priv) object.stat.key name none) := by
  have hremove : removeValue obj name volume = removeRecord object.stat name volume := by
    simp [removeValue, onStore, focus, stat_of_object? hobject]
  by_cases hvalue : volume.store.attrValue? priv object.stat.key name = none
  . obtain ⟨err, rest, herr, hrecord, hbecomes⟩ := h.removeRecord_absent hvalid hvalue
    have hrun : Handler.removeAcl obj name volume = .ok () rest := by
      simp [Handler.removeAcl, attempt, hremove, hrecord, herr]
    rw [hrun]
    refine ⟨rfl, hbecomes.congr fun n _ key => ?_⟩
    simp only [withValue]
    split
    . next heq => rw [heq.1, heq.2, hvalue]
    . rfl
  . obtain ⟨rest, hrecord, hbecomes, _⟩ := h.removeRecord_found hvalid hvalue
    have hrun : Handler.removeAcl obj name volume = .ok () rest := by
      simp [Handler.removeAcl, attempt, hremove, hrecord]
    rw [hrun]
    exact ⟨rfl, hbecomes⟩

theorem writeAcl_does (hformat : object.format ≠ .legacy) (hbound : volume.store.nextId ≤ 2 ^ 64)
    (hvalid : isValidName name = true) (hflags : flags.other = false) (kind : AclKind)
    (value : Bytes) :
    volume.Does priv (Handler.writeAcl kind obj name value flags volume)
      (kind.fits object.body.isDirectory value
        && flags.permits (volume.store.attrValue? priv object.stat.key name))
      (withValue (volume.store.attrValue? priv) object.stat.key name (some value)) := by
  have hdirectory := h.tidy.linked.isDirectory_stat hobject
  by_cases hkind : kind = .default ∧ object.body.isDirectory = false
  . obtain ⟨rfl, hfile⟩ := hkind
    have hrun : Handler.writeAcl .default obj name value flags volume =
        .error Handler.defaultAclOnFile volume := by
      simp [Handler.writeAcl, onStore, focus, stat_of_object? hobject, hdirectory, hfile]
    rw [hrun]
    exact ⟨by simp [AclKind.fits, hfile], .refl h⟩
  . cases hlist : Acl.validate value with
    | error err =>
      have hrun : Handler.writeAcl kind obj name value flags volume = .error err volume := by
        cases kind <;> simp_all [Handler.writeAcl, onStore, focus, stat_of_object? hobject]
      rw [hrun]
      exact ⟨by simp [AclKind.fits, hlist, Except.isOk, Except.toBool], .refl h⟩
    | ok count =>
      have hfits : kind.fits object.body.isDirectory value = true := by
        cases kind <;> simp_all [AclKind.fits, Except.isOk, Except.toBool]
      have hrun : Handler.writeAcl kind obj name value flags volume =
          writeValue obj name value flags volume := by
        cases kind <;> simp_all [Handler.writeAcl, onStore, focus, stat_of_object? hobject]
      rw [hrun, hfits, Bool.true_and]
      exact h.writeValue_does hobject hformat hbound hvalid hflags value

theorem writeServed_does (hformat : object.format ≠ .legacy)
    (hbound : volume.store.nextId ≤ 2 ^ 64) (hflags : flags.other = false) (value : Bytes) :
    volume.Does priv (writeValue obj name value flags volume)
      (isValidName name && flags.permits (volume.store.attrValue? priv object.stat.key name))
      (withValue (volume.store.attrValue? priv) object.stat.key name (some value)) := by
  -- A name that no entry can have is refused as late as the record is looked for.
  cases hvalid : isValidName name with
  | true =>
    rw [Bool.true_and]
    exact h.writeValue_does hobject hformat hbound hvalid hflags value
  | false =>
    obtain ⟨err, _, hopen⟩ := openRecord_of_invalid hvalid object.stat flags volume
    rw [writeValue_of_error hobject hformat hopen]
    exact ⟨rfl, .refl h⟩

theorem setAcl_does (hformat : object.format ≠ .legacy) (hbound : volume.store.nextId ≤ 2 ^ 64)
    (hflags : flags.other = false) {kind : AclKind}
    (hcheck : (Handler.acl kind).check volume kind.attrName = .ok ()) (value : Bytes) :
    volume.Does priv ((Handler.acl kind).setValue obj kind.attrName (some value) flags volume)
      (value.isEmpty || (kind.fits object.body.isDirectory value
        && flags.permits (volume.store.attrValue? priv object.stat.key kind.attrName)))
      (withValue (volume.store.attrValue? priv) object.stat.key kind.attrName
        (if value.isEmpty then none else some value)) := by
  -- An empty list means that there is none, so the flags are not asked.
  have hvalid : isValidName kind.attrName = true := by
    cases kind <;> decide
  cases value with
  | nil =>
    have hrun : (Handler.acl kind).setValue obj kind.attrName (some []) flags volume =
        Handler.removeAcl obj kind.attrName volume := by
      simp [Handler.setValue, hcheck]
    rw [hrun]
    exact h.removeAcl_does hobject hvalid
  | cons b value =>
    have hrun : (Handler.acl kind).setValue obj kind.attrName (some (b :: value)) flags volume =
        Handler.writeAcl kind obj kind.attrName (b :: value) flags volume := by
      simp [Handler.setValue, hcheck]
    rw [hrun]
    exact h.writeAcl_does hobject hformat hbound hvalid hflags kind (b :: value)

theorem setAttribute_does (hformat : object.format ≠ .legacy)
    (hbound : volume.store.nextId ≤ 2 ^ 64) (hflags : flags.other = false) (value : Bytes) :
    volume.Does priv (setAttribute .standard obj name value flags volume)
      (canSet object.body.isDirectory name value flags
        (volume.store.attrValue? priv object.stat.key name))
      (withValue (volume.store.attrValue? priv) object.stat.key name (keptValue name value)) := by
  cases hresolve : Registry.standard.resolve? name with
  | none =>
    have hrun : setAttribute .standard obj name value flags volume = .error noHandler volume := by
      simp [setAttribute, handlerFor, hresolve]
    rw [hrun]
    exact ⟨by simp [canSet, isAttrName, hresolve], .refl h⟩
  | some link =>
    have hrun : setAttribute .standard obj name value flags volume =
        link.handler.setValue obj name (some value) flags volume := by
      simp [setAttribute, h.handlerFor_eq hresolve hobject hformat]
    rw [hrun]
    obtain ⟨hserves, hcheck⟩ | ⟨hserves, err, hcheck⟩ := h.check_cases hresolve
    . rw [Registry.canSet_eq hresolve hserves, Registry.keptValue_eq hresolve hserves]
      cases hacl : link.handler.aclKind? with
      | none =>
        rw [Registry.setValue_plain hresolve hacl hcheck]
        simp only [Option.isSome_none, Bool.false_and, Bool.false_eq_true, if_false]
        exact h.writeServed_does hobject hformat hbound hflags value
      | some kind =>
        have heq := Handler.aclKind?_eq_some_iff.mp hacl
        rw [heq] at hcheck hserves ⊢
        obtain rfl : name = kind.attrName := by
          simpa [Handler.serves] using hserves
        have hvalid : isValidName kind.attrName = true := by
          cases kind <;> decide
        simp only [hvalid, Option.isSome_some, Bool.true_and]
        exact h.setAcl_does hobject hformat hbound hflags hcheck value
    . have hrefused : link.handler.setValue obj name (some value) flags volume = .error err volume := by
        simp [Handler.setValue, hcheck]
      rw [hrefused]
      exact ⟨by simp [canSet, isAttrName, hresolve, hserves], .refl h⟩

end Set

section Remove

theorem pruneDirectory (h : volume.Settled priv) (hbound : volume.store.nextId ≤ 2 ^ 63)
    (stat : ObjectStat) :
    ∃ result rest, (pruneDirectory stat).attempt volume = .ok result rest
      ∧ volume.Becomes rest priv (volume.store.attrValue? priv) := by
  cases hdir : volume.store.attrDir? priv stat.key with
  | none =>
    obtain ⟨err, rest, _, hopen, _, hbecomes⟩ :=
      h.openDirectory_absent hdir (show SetFlags.looking.allowsCreate = false from rfl)
    exact ⟨.error err, rest, by simp [attempt, Volume.pruneDirectory, hopen], hbecomes⟩
  | some dir =>
    have hopen := openDirectory_found ((h.directory?_eq stat.key).trans hdir) .looking
    have hopened := h.opened hdir
    have hdir' : (volume.opened stat.key dir).store.attrDir? priv stat.key = some dir := by
      rw [store_opened, hdir]
    obtain ⟨rest, hprune, hbecomes⟩ :=
      hopened.settled.prune hdir' (by rw [store_opened]; exact hbound)
    exact ⟨.ok (), rest, by simp [attempt, Volume.pruneDirectory, hopen, hprune],
      hopened.trans_same hbecomes⟩

variable (h : volume.Settled priv) (hobject : volume.store.object? obj = some object)
  (hformat : object.format ≠ .legacy)
include h hobject hformat

theorem removeAllowed_does (hlink : Registry.standard.resolve? name = some link)
    (hallow : link.handler.allowRemoval volume name = .ok ())
    (hbound : volume.store.nextId ≤ 2 ^ 63) :
    volume.Does priv (removeAttribute .standard obj name volume)
      (isValidName name && (volume.store.attrValue? priv object.stat.key name).isSome)
      (withValue (volume.store.attrValue? priv) object.stat.key name none) := by
  -- Once the handler allows it, the removal is up to the record.
  have hhandler := h.handlerFor_eq hlink hobject hformat
  cases hvalid : isValidName name with
  | false =>
    obtain ⟨err, hcheck, _⟩ := checkAttrName_of_invalid hvalid
    have hrun : removeAttribute .standard obj name volume = .error err volume := by
      simp [removeAttribute, hhandler, hallow, onStore, focus, stat_of_object? hobject, removeRecord,
        hcheck]
    rw [hrun]
    exact ⟨rfl, .refl h⟩
  | true =>
    cases hvalue : volume.store.attrValue? priv object.stat.key name with
    | none =>
      obtain ⟨err, rest, _, hrecord, hbecomes⟩ := h.removeRecord_absent hvalid hvalue
      have hrun : removeAttribute .standard obj name volume = .error err rest := by
        simp [removeAttribute, hhandler, hallow, onStore, focus, stat_of_object? hobject, hrecord]
      rw [hrun]
      exact ⟨rfl, hbecomes⟩
    | some old =>
      have hvalue' : volume.store.attrValue? priv object.stat.key name ≠ none := by
        simp [hvalue]
      obtain ⟨middle, hrecord, hbecomes, hnext⟩ := h.removeRecord_found hvalid hvalue'
      obtain ⟨result, rest, hprune, hpruned⟩ :=
        hbecomes.settled.pruneDirectory (by rw [hnext]; exact hbound) object.stat
      have hrun : removeAttribute .standard obj name volume = .ok () rest := by
        simp [removeAttribute, hhandler, hallow, onStore, focus, stat_of_object? hobject, hrecord,
          hprune]
      rw [hrun]
      exact ⟨rfl, hbecomes.trans_same hpruned⟩

theorem removeAttribute_does (hnames : volume.OnlyAttrNames priv)
    (hbound : volume.store.nextId ≤ 2 ^ 63) :
    volume.Does priv (removeAttribute .standard obj name volume)
      (isAttrName name && (volume.store.attrValue? priv object.stat.key name).isSome)
      (withValue (volume.store.attrValue? priv) object.stat.key name none) := by
  cases hresolve : Registry.standard.resolve? name with
  | none =>
    have hrun : removeAttribute .standard obj name volume = .error noHandler volume := by
      simp [removeAttribute, handlerFor, hresolve]
    rw [hrun]
    exact ⟨by simp [isAttrName, hresolve], .refl h⟩
  | some link =>
    cases hallow : link.handler.allowRemoval volume name with
    | error err =>
      have hhandler := h.handlerFor_eq hresolve hobject hformat
      have hrun : removeAttribute .standard obj name volume = .error err volume := by
        simp [removeAttribute, hhandler, hallow]
      rw [hrun]
      refine ⟨?_, .refl h⟩
      obtain ⟨_, hcheck⟩ | ⟨hserves, _⟩ := h.check_cases hresolve
      . obtain heq | ⟨start, heq⟩ | ⟨kind, heq⟩ := Registry.handler_cases hresolve
        all_goals
          rw [heq] at hallow hcheck
          simp [Handler.allowRemoval, hcheck] at hallow
      . simp [isAttrName, hresolve, hserves]
    | ok _ =>
      have hdoes := h.removeAllowed_does hobject hformat hresolve hallow hbound
      -- The handler does not look at the rest of the name, but no other names have values.
      have hcan : (isAttrName name && (volume.store.attrValue? priv object.stat.key name).isSome) =
          (isValidName name && (volume.store.attrValue? priv object.stat.key name).isSome) := by
        cases hvalid : isValidName name with
        | false => simp [isAttrName, hvalid]
        | true =>
          cases hvalue : volume.store.attrValue? priv object.stat.key name with
          | none => simp
          | some old =>
            have hname := hnames (isDots_of_isValidName hvalid) (by rw [hvalue]; simp)
            simp [hname]
      rw [hcan]
      exact hdoes

end Remove

end Settled

end Volume

end AttrTree
