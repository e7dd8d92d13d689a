import AttrTree.Proofs.Access
import AttrTree.Proofs.Rooted
import AttrTree.Proofs.Storing

/-!
This module contains what setting an attribute comes to. The flags decide it, and whether the attribute is there. If
a bit without a meaning is set, it also matters whether the object has a directory for attributes. Which attributes
are in that directory, how the directories on the way come about and who else has the record makes no difference.
-/

namespace AttrTree

namespace SetFlags

def matrix (flags : SetFlags) (present : Bool) : Except ErrorKind Unit :=
  if present then
    if flags.create then .error .alreadyExists else .ok ()
  else
    if flags.replace || flags.readOnly then .error .noAttribute else .ok ()

/-- `matrix`, but that a directory is not made if `other` bits are set without `create`. -/
def verdict (flags : SetFlags) (hasDirectory present : Bool) : Except ErrorKind Unit :=
  if flags.other && !flags.create && !hasDirectory && !present then .error .noAttribute else flags.matrix present

variable (flags : SetFlags)

theorem verdict_present (hasDirectory : Bool) :
    flags.verdict hasDirectory true = if flags.create then .error .alreadyExists else .ok () := by
  simp [verdict, matrix]

theorem verdict_directory :
    flags.verdict true false = if flags.onlyExisting then .error .noAttribute else .ok () := by
  simp [verdict, matrix, onlyExisting]

theorem verdict_absent : flags.verdict false false =
    if flags.onlyExisting || !flags.allowsCreate then .error .noAttribute else .ok () := by
  obtain ⟨create, replace, readOnly, other⟩ := flags
  cases create <;> cases replace <;> cases readOnly <;> cases other <;> rfl

end SetFlags

namespace Volume

open Action MemStore

variable {volume rest : Volume MemStore} {stat : ObjectStat} {key : ObjectKey} {name : String} {flags : SetFlags}
  {priv root dir record obj : ObjectId} {object target : MemObject} {value : Bytes}

namespace Rooted

section Places

variable (h : volume.Rooted) (hpriv : volume.privateRoot = some priv)
include h hpriv

theorem attrRoot?_eq : volume.attrRoot? = volume.store.attrRoot? priv := by
  rw [Volume.attrRoot?, hpriv]
  cases hroot : volume.attrRoot with
  | none => rfl
  | some root =>
    obtain ⟨priv', hpriv', hplace⟩ := h.attrRoot hroot
    rw [hpriv] at hpriv'
    cases hpriv'
    exact hplace.symm

theorem directory?_eq (key : ObjectKey) : volume.directory? key = volume.store.attrDir? priv key := by
  rw [Volume.directory?, attrDir?, ← h.attrRoot?_eq hpriv]
  cases hcache : (volume.cache.get? key).1 with
  | none => rfl
  | some dir =>
    obtain ⟨_, root, hroot, hchild⟩ := h.knows.of_get? hcache
    simp [Volume.attrRoot?, hpriv, hroot, hchild]

theorem record?_eq (key : ObjectKey) (name : String) :
    volume.record? key name = volume.store.attrRecord? priv key name := by
  rw [Volume.record?, h.directory?_eq hpriv, attrRecord?]

theorem live_attrRoot (hroot : volume.store.attrRoot? priv = some root) :
    ∃ d, volume.store.directory? root = some d :=
  h.upright (.attrRoot (h.privateRoot hpriv)) hroot

theorem live_attrDir (hdir : volume.store.attrDir? priv key = some dir) :
    ∃ d, volume.store.directory? dir = some d := by
  obtain ⟨root, hroot, hchild⟩ := attrDir?_eq_some_iff.mp hdir
  exact h.upright (.attrDir (h.privateRoot hpriv) hroot key) hchild

theorem not_isBroken (key : ObjectKey) : ¬ volume.IsBroken key := by
  rintro ⟨_, hnone | ⟨priv', hpriv', _, hdead⟩ | ⟨root, hroot, hdead⟩⟩
  . rw [hpriv] at hnone
    cases hnone
  . rw [hpriv] at hpriv'
    cases hpriv'
    obtain ⟨d, hdir⟩ := h.upright .privateRoot (h.privateRoot hpriv)
    rw [hdir] at hdead
    cases hdead
  . rw [h.attrRoot?_eq hpriv] at hroot
    obtain ⟨d, hdir⟩ := h.live_attrRoot hpriv hroot
    rw [hdir] at hdead
    cases hdead

end Places

end Rooted

section Record

def Obtains (volume : Volume MemStore) (stat : ObjectStat) (name : String) (flags : SetFlags) :
    Except ErrorKind Unit → Prop
  | .ok _ => ∃ dir record rest, volume.Ready rest stat.key dir name record
    ∧ ∀ rounds, unsharedRecord stat name (rounds + 2) flags volume = .ok record rest
  | .error kind => ∃ err rest, err.kind = kind
    ∧ ∀ rounds, unsharedRecord stat name (rounds + 2) flags volume = .error err rest

theorem obtains_error {err : Error} (h : openRecord stat name flags volume = .error err rest) :
    volume.Obtains stat name flags (.error err.kind) :=
  ⟨err, rest, rfl, fun _ => unsharedRecord_of_error h _⟩

structure IsOwn (flags : SetFlags) (target : MemObject) : Prop where
  isPrivate : target.isPrivate = true
  isFile : target.body.isDirectory = false
  alone : flags.create = false → flags.readOnly = true → target.nlink ≤ 1

variable {d : Directory}

theorem obtains_present (hlinked : volume.store.Linked) (hvalid : isValidName name = true)
    (hfound : volume.directory? stat.key = some dir) (hchild : volume.store.child? dir name = some record)
    (htarget : volume.store.object? record = some target) (hown : IsOwn flags target) :
    volume.Obtains stat name flags (flags.verdict true true) := by
  obtain ⟨d, e, hdir, hfind, rfl⟩ := child?_eq_some_iff.mp hchild
  have hopen := openRecord_eq hvalid (openDirectory_found hfound flags) (by simpa using hdir)
  rw [SetFlags.verdict_present]
  cases hcreate : flags.create with
  | true =>
    simp only [hfind, hcreate, if_true] at hopen
    exact obtains_error hopen
  | false =>
    rw [if_neg Bool.false_ne_true]
    by_cases hshared : 1 < target.nlink
    . have hreadOnly : flags.readOnly = false := by
        cases hreadOnly : flags.readOnly with
        | false => rfl
        | true => exact absurd (hown.alone hcreate hreadOnly) (Nat.not_le.mpr hshared)
      obtain ⟨rest, hvacated, hfirst⟩ := unsharedRecord_vacated hlinked hvalid hfound hdir hfind htarget
        hown.isFile hown.isPrivate hshared hcreate
      obtain ⟨record, made, hready, hmade⟩ := hvacated.remade hvalid hreadOnly
      exact ⟨dir, record, made, hready, fun rounds => (hfirst _).trans (hmade rounds)⟩
    . obtain ⟨hready, hrounds⟩ := unsharedRecord_alone hlinked hvalid hfound hdir hfind htarget hown.isFile
        (Nat.le_of_not_lt hshared) hcreate
      exact ⟨dir, _, _, hready, fun rounds => hrounds (rounds + 1)⟩

theorem obtains_directory (hlinked : volume.store.Linked) (hvalid : isValidName name = true)
    (hfound : volume.directory? stat.key = some dir) (hdir : volume.store.directory? dir = some d)
    (hnone : volume.store.child? dir name = none) :
    volume.Obtains stat name flags (flags.verdict true false) := by
  have hfree : d.find? name = none := by
    simpa [child?_of_directory? hdir] using hnone
  rw [SetFlags.verdict_directory]
  cases hflags : flags.onlyExisting with
  | true =>
    have hopen := openRecord_eq hvalid (openDirectory_found hfound flags) (by simpa using hdir)
    simp only [hfree, hflags, if_true] at hopen
    exact obtains_error hopen
  | false =>
    have hparted : volume.Parted volume stat.key name volume.store.nextId := by
      intro old target hold
      simp [record?, hfound, hnone] at hold
    obtain ⟨made, hready, hmade⟩ := unsharedRecord_made hfound (changedAt_opened hlinked hfound name) hdir hfree
      hvalid hparted hflags
    exact ⟨dir, _, made, hready, fun rounds => hmade (rounds + 1)⟩

theorem obtains_absent (hlinked : volume.store.Linked) (hid : stat.id < 2 ^ 64) (hvalid : isValidName name = true)
    (hbroken : ¬ volume.IsBroken stat.key) (hnone : volume.directory? stat.key = none) :
    volume.Obtains stat name flags (flags.verdict false false) := by
  rw [SetFlags.verdict_absent]
  cases opening hlinked hid flags with
  | failed err rest _ _ _ h => exact absurd h hbroken
  | found dir hfound => rw [hnone] at hfound; cases hfound
  | absent err rest herr _ hopen _ hflags =>
    rw [hflags, Bool.not_false, Bool.or_true, if_pos rfl]
    have hkind : err.kind = .noAttribute := by
      obtain rfl | rfl := herr <;> rfl
    exact hkind ▸ obtains_error (openRecord_of_error hvalid hopen)
  | grown dir rest _ hgrown hallows hopenDir _ =>
    rw [hallows, Bool.not_true, Bool.or_false]
    cases hflags : flags.onlyExisting with
    | true =>
      obtain ⟨parent, hdir⟩ := hgrown.directory
      have hopen := openRecord_eq hvalid hopenDir hdir
      simp only [Directory.find?_fresh (isDots_of_isValidName hvalid), hflags, if_true] at hopen
      exact obtains_error hopen
    | false =>
      obtain ⟨made, hready, hmade⟩ := unsharedRecord_grown hvalid hnone hgrown hopenDir hflags
      exact ⟨dir, _, made, hready, fun rounds => hmade (rounds + 1)⟩

theorem Rooted.obtains (h : volume.Rooted) (hpriv : volume.privateRoot = some priv) (hid : stat.id < 2 ^ 64)
    (hvalid : isValidName name = true)
    (hown : ∀ record, volume.store.attrRecord? priv stat.key name = some record →
      volume.store.Has record (IsOwn flags)) :
    volume.Obtains stat name flags (flags.verdict (volume.store.attrDir? priv stat.key).isSome
      (volume.store.attrRecord? priv stat.key name).isSome) := by
  have hfound := h.directory?_eq hpriv stat.key
  cases hplace : volume.store.attrDir? priv stat.key with
  | none =>
    rw [hplace] at hfound
    rw [attrRecord?, hplace]
    exact obtains_absent h.linked hid hvalid (h.not_isBroken hpriv stat.key) hfound
  | some dir =>
    rw [hplace] at hfound
    rw [attrRecord?_of_attrDir? hplace] at hown ⊢
    cases hchild : volume.store.child? dir name with
    | none =>
      obtain ⟨d, hdir⟩ := h.live_attrDir hpriv hplace
      exact obtains_directory h.linked hvalid hfound hdir hchild
    | some record =>
      obtain ⟨target, htarget, hown⟩ := hown record hchild
      exact obtains_present h.linked hvalid hfound hchild htarget hown

end Record

section Set

def EndsAs (priv : ObjectId) (key : ObjectKey) (obj : ObjectId) (name : String) (value : Bytes)
    (result : EStateM.Result Error (Volume MemStore) Unit) : Except ErrorKind Unit → Prop
  | .ok _ => ∃ rest, result = .ok () rest ∧ rest.store.attrValue? priv key name = some value
    ∧ ∀ buffer, ∃ after, Answers (readValue obj name (rest, buffer)) after (readAnswer (some value) buffer)
  | .error kind => ∃ err rest, result = .error err rest ∧ err.kind = kind

theorem Ready.attrValue?_eq (h : volume.Ready rest key dir name record) (hpriv : rest.privateRoot = some priv)
    (hrooted : Rooted { rest with store := rest.store.setContent record (Record.image value) }) :
    (rest.store.setContent record (Record.image value)).attrValue? priv key name = some value := by
  obtain ⟨file, old, hfile, hbody, hnlink⟩ := h.file
  have hchanged := h.changed.setContent h.child hfile hbody (Nat.le_of_eq hnlink) (Record.image value)
  have hchild : (rest.store.setContent record (Record.image value)).child? dir name = some record := by
    rw [child?_setContent hfile (by simp [hbody, Body.isDirectory])]
    exact h.child
  have hrecord := hrooted.record?_eq hpriv key name
  rw [record?, hchanged.remembers.directory?_eq] at hrecord
  have hcontent := object?_setContent hfile (Record.image value) record
  rw [if_pos rfl] at hcontent
  rw [attrValue?, ← hrecord]
  simp only [Option.bind_some, hchild]
  exact payload?_of_image hcontent rfl

theorem Rooted.writeValue_endsAs (h : volume.Rooted) (hpriv : volume.privateRoot = some priv) (hobj : obj < 2 ^ 64)
    (hobject : volume.store.object? obj = some object) (hformat : object.format ≠ .legacy)
    (hvalid : isValidName name = true) (hfault : volume.store.writeFault = none)
    (hown : ∀ record, volume.store.attrRecord? priv object.stat.key name = some record →
      volume.store.Has record (IsOwn flags)) (value : Bytes) :
    EndsAs priv object.stat.key obj name value (writeValue obj name value flags volume)
      (flags.verdict (volume.store.attrDir? priv object.stat.key).isSome
        (volume.store.attrRecord? priv object.stat.key name).isSome) := by
  have hid : object.stat.id < 2 ^ 64 := by
    rw [show object.stat.id = object.id from rfl, id_of_object? hobject]
    exact hobj
  have hobtains := h.obtains hpriv hid hvalid hown
  generalize flags.verdict _ _ = verdict at hobtains ⊢
  cases verdict with
  | error kind =>
    obtain ⟨err, rest, hkind, hrounds⟩ := hobtains
    exact ⟨err, rest, by rw [writeValue_eq hobject hformat, bind_apply, hrounds], hkind⟩
  | ok _ =>
    obtain ⟨dir, record, made, hready, hrounds⟩ := hobtains
    have hwrite := @writeValue_of_ready _ _ _ _ _ _ _ _ value hready hobject hformat hfault hrounds
    have hnoDir : volume.IsNoDirectory object.stat.key name := by
      intro _ old target hold htarget
      rw [h.record?_eq hpriv] at hold
      obtain ⟨target', htarget', hown⟩ := hown old hold
      rw [htarget] at htarget'
      cases htarget'
      exact hown.isFile
    have hrooted := (keeps_writeValue_rooted obj name value flags).holds volume h
    have hpriv' := ((follows_writeValue (isAside_privateRoot priv).followedByParts
      obj name value flags).keeps).holds volume hpriv
    rw [after_of_ok hwrite] at hrooted hpriv'
    exact ⟨_, hwrite, hready.attrValue?_eq hpriv' hrooted,
      (hready.stored hobject hformat h.linked hnoDir value).read⟩

variable {pageSize : Nat} {format : ObjectFormat} {hpage : Record.headerSize < pageSize} {options : MountOptions}
  {capacity : Nat} {ops : List Op} {registry : Registry} {link : HandlerLink}

theorem setAttribute_follows_policy
    (hspares : SparesReserved ops (initial pageSize format hpage options capacity))
    (hrun : run ops (initial pageSize format hpage options capacity) = volume)
    (hpriv : volume.privateRoot = some priv) (henabled : volume.attributesEnabled = true)
    (hobj : obj < 2 ^ 64) (hobject : volume.store.object? obj = some object) (hformat : object.format ≠ .legacy)
    (hlink : registry.resolve? name = some link)
    (hhandler : link.handler = .user ∨ ∃ start, link.handler = .plain start)
    (hcheck : link.handler.check volume name = .ok ()) (hvalid : isValidName name = true)
    (hfault : volume.store.writeFault = none)
    (hown : ∀ record, volume.store.attrRecord? priv object.stat.key name = some record →
      volume.store.Has record (IsOwn flags)) (value : Bytes) :
    EndsAs priv object.stat.key obj name value (setAttribute registry obj name value flags volume)
      (flags.verdict (volume.store.attrDir? priv object.stat.key).isSome
        (volume.store.attrRecord? priv object.stat.key name).isSome) := by
  have hrooted : volume.Rooted := hrun ▸ rooted_run (rooted_initial ..) hspares
  have hset : setAttribute registry obj name value flags volume = writeValue obj name value flags volume := by
    have hfor := handlerFor_of_enabled hlink henabled hobject hformat
    rcases hhandler with heq | ⟨start, heq⟩
    all_goals
      rw [heq] at hfor hcheck
      simp [setAttribute, hfor, Handler.setValue, hcheck]
  rw [hset]
  exact hrooted.writeValue_endsAs hpriv hobj hobject hformat hvalid hfault hown value

theorem setAttribute_follows_policy_shared :
    let volume := run linkRun (initial 16 .current (by decide) .optional 64)
    SparesReserved linkRun (initial 16 .current (by decide) .optional 64)
      ∧ volume.store.Has 6 (·.nlink = 2)
      ∧ EndsAs 2 ⟨3, 2⟩ 3 "user.x" [2] (setAttribute .standard 3 "user.x" [2] (.ofBits 0x02) volume) (.ok ()) := by
  intro volume
  have hspares : SparesReserved linkRun (initial 16 .current (by decide) .optional 64) := by
    refine sparesReserved_of_all (rooted_initial ..) ?_
    have hname : ¬ ReservedName "g" := not_reservedName (by decide) (by decide) ⟨'g', by decide, by decide⟩
    have hname' : ¬ ReservedName "f" := not_reservedName (by decide) (by decide) ⟨'f', by decide, by decide⟩
    simp [linkRun, Op.All, MemStore.Op.SparesReserved, hname, hname']
  have hlink : Registry.standard.resolve? "user.x" = some ⟨0, .user⟩ := by decide +kernel
  have hpriv : volume.privateRoot = some 2 := by decide +kernel
  have henabled : volume.attributesEnabled = true := by decide +kernel
  have hfault : volume.store.writeFault = none := by decide +kernel
  have hcheck : Handler.user.check volume "user.x" = .ok () := by decide +kernel
  have hfile : (volume.store.object? 3).any fun object =>
      object.format ≠ .legacy ∧ object.stat.key = ⟨3, 2⟩ := by
    decide +kernel
  have hshared : (volume.store.object? 6).any fun target =>
      target.isPrivate = true ∧ target.body.isDirectory = false ∧ target.nlink = 2 := by
    decide +kernel
  obtain ⟨object, hobject, hfacts⟩ := (Option.any_eq_true _ _).mp hfile
  obtain ⟨target, htarget, hrecordFacts⟩ := (Option.any_eq_true _ _).mp hshared
  obtain ⟨hformat, hkey⟩ := of_decide_eq_true hfacts
  obtain ⟨hprivate, hkind, hlinks⟩ := of_decide_eq_true hrecordFacts
  have hdir : volume.store.attrDir? 2 ⟨3, 2⟩ = some 5 := by decide +kernel
  have hrecord : volume.store.attrRecord? 2 ⟨3, 2⟩ "user.x" = some 6 := by decide +kernel
  have hown : ∀ record, volume.store.attrRecord? 2 object.stat.key "user.x" = some record →
      volume.store.Has record (IsOwn (.ofBits 0x02)) := by
    rw [hkey, hrecord]
    rintro _ ⟨⟩
    exact ⟨target, htarget, hprivate, hkind, fun _ hreadOnly => absurd hreadOnly (by decide)⟩
  have hends := setAttribute_follows_policy hspares rfl hpriv henabled (by decide) hobject hformat
    hlink (.inl rfl) hcheck (by decide) hfault hown [2]
  rw [hkey, hdir, hrecord] at hends
  exact ⟨hspares, ⟨target, htarget, hlinks⟩, hends⟩

def crossedRun : List Op :=
  linkRun ++ [.store (.create 1 "h" 0o644), .store (.link 6 4 "7.6")]

theorem setAttribute_differs :
    let plain := run fileRun (initial 16 .current (by decide) .optional 64)
    let shared := run linkRun (initial 16 .current (by decide) .optional 64)
    let crossed := run crossedRun (initial 16 .current (by decide) .optional 64)
    (plain.privateRoot = some 2 ∧ plain.store.attrRecord? 2 ⟨3, 2⟩ "user.x" = none
        ∧ (SetFlags.ofBits 0x04).matrix false = .ok ()
        ∧ (setAttribute .standard 3 "user.x" [2] (.ofBits 0x04)).result plain = .error noAttrRoot)
      ∧ (shared.privateRoot = some 2 ∧ shared.store.attrRecord? 2 ⟨3, 2⟩ "user.x" = some 6
        ∧ (SetFlags.ofBits 0x80).matrix true = .ok ()
        ∧ (setAttribute .standard 3 "user.x" [2] (.ofBits 0x80)).result shared = .error attrNotFound)
      ∧ (crossed.privateRoot = some 2 ∧ crossed.store.attrRecord? 2 ⟨7, 6⟩ "user.x" = none
        ∧ SetFlags.none.matrix false = .ok ()
        ∧ (setAttribute .standard 7 "user.x" [2] .none).result crossed = .error notDirectory) := by
  decide +kernel

end Set

end Volume

end AttrTree
