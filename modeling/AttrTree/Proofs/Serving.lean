import AttrTree.Proofs.Policy
import AttrTree.Proofs.Reliable

/-!
This module contains volumes that have found the way to the attributes of an object: whether its directory
is still there or not, an attribute can be set and read.
-/

namespace AttrTree

namespace Handler

def stores (handler : Handler) (isDirectory : Bool) (value : Bytes) : Bool :=
  match handler with
  | fixed _ _ => false
  | acl kind => !value.isEmpty && kind.fits isDirectory value
  | _ => true

end Handler

namespace Volume

open Action MemStore

variable {volume rest : Volume MemStore} {root dir obj record : ObjectId} {key : ObjectKey} {name : String}
  {stat : ObjectStat} {d : Directory} {object : MemObject} {registry : Registry} {link : HandlerLink}
  {value : Bytes}

section Serving

structure Serving (volume : Volume MemStore) (root : ObjectId) (key : ObjectKey) : Prop where
  enabled : volume.attributesEnabled = true
  privateRoot : volume.privateRoot.isSome = true
  attrRoot : volume.attrRoot = some root
  cached : ∀ ⦃dir⦄, volume.cache.peek? key = some dir → volume.store.child? root key.text = some dir

namespace Serving

variable (h : volume.Serving root key)
include h

theorem attrRoot?_eq : volume.attrRoot? = some root := by
  obtain ⟨priv, hpriv⟩ := Option.isSome_iff_exists.mp h.privateRoot
  simp [Volume.attrRoot?, hpriv, h.attrRoot]

theorem directory?_eq : volume.directory? key = volume.store.child? root key.text := by
  rw [Volume.directory?, h.attrRoot?_eq, DirCache.get?_fst]
  split
  . rfl
  . cases hpeek : volume.cache.peek? key with
    | none => rfl
    | some dir => exact (h.cached hpeek).symm

theorem openAttrRoot_eq (mayCreate : Bool) : openAttrRoot mayCreate volume = .ok root volume := by
  have hsame : { volume with attrRoot := some root } = volume := by
    rw [← h.attrRoot]
  rw [Volume.openAttrRoot_eq volume h.attrRoot?_eq, hsame]

theorem looked : Serving { volume with cache := (volume.cache.get? key).2 } root key :=
  ⟨h.enabled, h.privateRoot, h.attrRoot, fun _ hpeek => h.cached (by simpa using hpeek)⟩

theorem withStore {store : MemStore} (hchild : store.child? root key.text = volume.store.child? root key.text) :
    Serving { volume with store } root key :=
  ⟨h.enabled, h.privateRoot, h.attrRoot, fun _ hpeek => hchild.trans (h.cached hpeek)⟩

theorem erased (store : MemStore) :
    Serving { volume with store, cache := volume.cache.erase key } root key :=
  ⟨h.enabled, h.privateRoot, h.attrRoot, fun _ hpeek => by simp at hpeek⟩

theorem opened (hfound : volume.directory? key = some dir) : (volume.opened key dir).Serving root key := by
  unfold Volume.opened
  split
  . exact h.looked
  . refine ⟨h.enabled, h.privateRoot, ?_, fun dir' hpeek => ?_⟩
    . exact congrArg (Option.or · volume.attrRoot) h.attrRoot?_eq
    . rw [DirCache.peek?_insert_self] at hpeek
      split at hpeek
      . cases hpeek
      . cases hpeek
        exact h.directory?_eq ▸ hfound

end Serving

theorem Reliable.serving_opened (h : volume.Reliable) (henabled : volume.attributesEnabled = true)
    (hfound : volume.directory? key = some dir) (hdir : volume.store.directory? dir = some d) :
    ∃ root, volume.attrRoot? = some root ∧ (volume.opened key dir).Serving root key
      ∧ volume.store.child? root key.text = some dir := by
  -- A directory that is there was found in the attribute root.
  cases hcache : (volume.cache.get? key).1 with
  | some dir' =>
    obtain rfl : dir' = dir := by simpa [directory?, hcache] using hfound
    have hknown : volume.cache.peek? key = some dir' := by
      rw [DirCache.get?_fst] at hcache
      split at hcache
      . cases hcache
      . exact hcache
    obtain ⟨hpriv, root, hroot, _, hhome⟩ := h.cached hknown
    have hroot? : volume.attrRoot? = some root := by
      obtain ⟨priv, hpriv⟩ := Option.isSome_iff_exists.mp hpriv
      simp [Volume.attrRoot?, hpriv, hroot]
    refine ⟨root, hroot?, ?_, hhome d hdir⟩
    rw [Volume.opened, hcache]
    refine ⟨henabled, hpriv, hroot, fun dir hpeek => ?_⟩
    rw [DirCache.peek?_get?, hknown] at hpeek
    cases hpeek
    exact hhome d hdir
  | none =>
    have hway : (volume.attrRoot?.bind fun root => volume.store.child? root key.text) = some dir := by
      simpa [directory?, hcache] using hfound
    obtain ⟨root, hroot, hchild⟩ := Option.bind_eq_some_iff.mp hway
    obtain ⟨priv, hpriv, _⟩ := Option.bind_eq_some_iff.mp hroot
    refine ⟨root, hroot, ?_, hchild⟩
    rw [Volume.opened, hcache]
    refine ⟨henabled, by simp [Volume.looked, hpriv], by simp [Volume.looked, hroot], fun dir' hpeek => ?_⟩
    rw [DirCache.peek?_insert_self] at hpeek
    split at hpeek <;> cases hpeek
    exact hchild

end Serving

section Settable

def Settable (volume : Volume MemStore) (registry : Registry) (obj : ObjectId) (name : String)
    (value : Bytes) : Prop :=
  ∃ written, setAttribute registry obj name value .none volume = .ok () written
    ∧ ∀ buffer, ∃ last,
      Answers (getAttribute registry obj name (written, buffer)) last (readAnswer (some value) buffer)

def Accepts (volume : Volume MemStore) (key : ObjectKey) (name : String) : Prop :=
  ∀ ⦃record⦄, volume.record? key name = some record → volume.store.Has record fun target =>
    target.body.isDirectory = false ∧ (target.isPrivate = true ∨ target.nlink ≤ 1)

section Options

variable {options : MountOptions}

theorem keeps_onStore_options {α : Type} (act : Action MemStore α) :
    Keeps (fun volume => volume.options = options) (onStore act) :=
  keeps_onStore fun _ => ⟨fun _ hs => hs⟩

theorem keeps_openDirectory_options (stat : ObjectStat) (flags : SetFlags) :
    Keeps (fun volume : Volume MemStore => volume.options = options) (openDirectory stat flags) := by
  have hopening : KeptByOpening flags.allowsCreate (fun volume : Volume MemStore => volume.options = options)
      fun _ _ => True := {
    known := fun _ _ _ _ => trivial
    find := fun _ _ _ _ _ => .mono (.of_keeps ⟨fun _ hs => hs⟩ fun _ hs => hs) (fun _ hs => hs.1)
      fun _ _ hs => ⟨hs, trivial⟩
    attrRoot := fun _ _ hs _ => hs
    cache := fun _ _ hs _ => hs }
  exact (hopening.openDirectory rfl).keeps fun _ _ hs => hs.1

theorem keeps_unsharedRecord_options (stat : ObjectStat) (name : String) (rounds : Nat) (flags : SetFlags) :
    Keeps (fun volume : Volume MemStore => volume.options = options)
      (unsharedRecord stat name rounds flags) := by
  induction rounds generalizing flags with
  | zero => exact .throw _
  | succ rounds ih =>
    have hopen : Keeps (fun volume : Volume MemStore => volume.options = options)
        (openRecord stat name flags) := by
      refine .bind (.ofExcept _) fun _ => .bind (keeps_openDirectory_options stat flags) fun dir =>
        .bind (keeps_onStore_options _) fun found => ?_
      cases found with
      | some id => exact .ite (.throw _) (.pure id)
      | none => exact .ite (.throw _) (keeps_onStore_options _)
    have hremove : Keeps (fun volume : Volume MemStore => volume.options = options)
        (removeRecord stat name) :=
      .bind (.ofExcept _) fun _ => .bind (keeps_openDirectory_options stat .looking) fun _ =>
        keeps_onStore_options _
    exact .bind hopen fun record => .bind (keeps_onStore_options _) fun _ =>
      .ite (.pure record) (.bind hremove fun _ => ih _)

end Options

theorem setValue_of_stores (hlinked : volume.store.Linked) (hobject : volume.store.object? obj = some object)
    {handler : Handler} (hcheck : handler.check volume name = .ok ())
    (hstores : handler.stores object.body.isDirectory value = true) (flags : SetFlags) :
    handler.setValue obj name (some value) flags volume = writeValue obj name value flags volume := by
  have hdirectory := hlinked.isDirectory_stat hobject
  cases handler with
  | user | plain start => simp [Handler.setValue, hcheck]
  | fixed start answers => cases hstores
  | acl kind =>
    simp only [Handler.stores, Bool.and_eq_true, Bool.not_eq_true'] at hstores
    obtain ⟨hvalue, hfits⟩ := hstores
    have hwrite : Handler.writeAcl kind obj name value flags volume =
        writeValue obj name value flags volume := by
      cases hlist : Acl.validate value with
      | error err => simp [AclKind.fits, hlist, Except.isOk, Except.toBool] at hfits
      | ok count =>
        cases kind <;> simp_all [AclKind.fits, Handler.writeAcl, onStore, focus, stat_of_object? hobject]
    cases value with
    | nil => cases hvalue
    | cons b value => simp [Handler.setValue, hcheck, hwrite]

theorem getValue_of_stores {handler : Handler} (hcheck : handler.check volume name = .ok ())
    {isDirectory : Bool} (hstores : handler.stores isDirectory value = true) (buffer : Buffer) :
    handler.getValue obj name (volume, buffer) = readValue obj name (volume, buffer) := by
  cases handler with
  | user | plain start | acl kind => simp [Handler.getValue, hcheck]
  | fixed start answers => cases hstores

theorem check_congr (h : rest.options = volume.options) (handler : Handler) (name : String) :
    handler.check rest name = handler.check volume name := by
  cases handler <;> simp [Handler.check, userEnabled, aclEnabled, h]

theorem Stored.getAttribute (h : volume.Stored rest obj name value dir record)
    (hlink : registry.resolve? name = some link) (henabled : rest.attributesEnabled = true)
    (hcheck : link.handler.check rest name = .ok ()) {isDirectory : Bool}
    (hstores : link.handler.stores isDirectory value = true) (buffer : Buffer) :
    ∃ last, Answers (Volume.getAttribute registry obj name (rest, buffer)) last
      (readAnswer (some value) buffer) := by
  obtain ⟨last, hlast⟩ := h.read buffer
  obtain ⟨after, hexisting⟩ := h.found
  obtain ⟨_, object, _, _, _, hobject, hformat, _⟩ := existingRecord_eq_ok_iff.mp hexisting
  have hhandler := handlerFor_of_enabled hlink henabled hobject hformat
  have hread := @getValue_of_stores rest obj name value _ hcheck isDirectory hstores buffer
  refine ⟨last, ?_⟩
  simp only [Volume.getAttribute, bind_apply, onFirst, hhandler]
  rw [hread]
  exact hlast

namespace Serving

variable (hlinked : volume.store.Linked) (hlive : (volume.store.directory? root).isSome = true)
  (hplace : ∀ ⦃dir⦄, volume.store.child? root key.text = some dir →
    (volume.store.directory? dir).isSome = true)
include hlinked hlive hplace

theorem obtains (hkey : stat.key = key) (h : volume.Serving root key) (hid : stat.id < 2 ^ 64)
    (hvalid : isValidName name = true) (haccepts : volume.Accepts key name) :
    volume.Obtains stat name .none (.ok ()) := by
  subst hkey
  cases hfound : volume.directory? stat.key with
  | none =>
    refine obtains_absent hlinked hid hvalid ?_ hfound
    rintro ⟨_, hpriv | ⟨_, _, hroot, _⟩ | ⟨root', hroot, hdead⟩⟩
    . exact absurd h.privateRoot (by simp [hpriv])
    . exact absurd h.attrRoot (by simp [hroot])
    . rw [h.attrRoot?_eq] at hroot
      cases hroot
      simp [hdead] at hlive
  | some dir =>
    obtain ⟨d, hdir⟩ := Option.isSome_iff_exists.mp (hplace (h.directory?_eq ▸ hfound))
    cases hchild : volume.store.child? dir name with
    | none => exact obtains_directory hlinked hvalid hfound hdir hchild
    | some record =>
      have hrecord : volume.record? stat.key name = some record := by
        simp [record?, hfound, hchild]
      obtain ⟨target, htarget, hkind, hown⟩ := haccepts hrecord
      by_cases hshared : 1 < target.nlink
      . have hprivate := hown.resolve_right (Nat.not_le.mpr hshared)
        exact obtains_present hlinked hvalid hfound hchild htarget ⟨hprivate, hkind, fun _ h => Bool.noConfusion h⟩
      . obtain ⟨d', e, hdir', hfind, rfl⟩ := child?_eq_some_iff.mp hchild
        obtain ⟨hready, hrounds⟩ := unsharedRecord_alone hlinked hvalid hfound hdir' hfind htarget hkind
          (Nat.le_of_not_lt hshared) (show SetFlags.none.create = false from rfl)
        exact ⟨dir, _, _, hready, fun rounds => hrounds (rounds + 1)⟩

theorem settable (h : volume.Serving root key) (hobj : obj < 2 ^ 64)
    (hobject : volume.store.object? obj = some object) (hkey : object.stat.key = key)
    (hformat : object.format ≠ .legacy) (hfault : volume.store.writeFault = none)
    (hlink : registry.resolve? name = some link) (hcheck : link.handler.check volume name = .ok ())
    (hvalid : isValidName name = true) (haccepts : volume.Accepts key name)
    (hstores : link.handler.stores object.body.isDirectory value = true) :
    volume.Settable registry obj name value := by
  subst hkey
  have hid : object.stat.id < 2 ^ 64 := by
    rw [show object.stat.id = object.id from rfl, id_of_object? hobject]
    exact hobj
  obtain ⟨dir, record, rest, hready, hrounds⟩ := obtains hlinked hlive hplace rfl h hid hvalid haccepts
  have hnoDir : volume.IsNoDirectory object.stat.key name := by
    intro _ old target hold htarget
    obtain ⟨target', htarget', hkind, _⟩ := haccepts hold
    rw [htarget] at htarget'
    cases htarget'
    exact hkind
  have hoptions : rest.options = volume.options := by
    have hkeeps := (@keeps_unsharedRecord_options volume.options object.stat name 2 .none).holds volume rfl
    rwa [after_of_ok (hrounds 0)] at hkeeps
  have hstored := hready.stored hobject hformat hlinked hnoDir value
  refine ⟨{ rest with store := rest.store.setContent record (Record.image value) }, ?_, fun buffer => ?_⟩
  . simp only [setAttribute, bind_apply, handlerFor_of_enabled hlink h.enabled hobject hformat,
      setValue_of_stores hlinked hobject hcheck hstores]
    exact writeValue_of_ready hready hobject hformat hfault hrounds
  . have henabled : rest.attributesEnabled = true := by
      rw [attributesEnabled, hoptions]
      exact h.enabled
    exact hstored.getAttribute hlink henabled ((check_congr hoptions link.handler name).trans hcheck) hstores
      buffer

end Serving

end Settable

end Volume

end AttrTree
