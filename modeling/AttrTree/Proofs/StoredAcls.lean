import AttrTree.Proofs.Checked

/-!
This module contains why every list of access control that is ever stored has passed the check. Whatever is
asked for, and with whatever flags, lists come into the books only through the handlers that check them.
-/

namespace AttrTree

open Action MemStore

def SetFlags.meant (flags : SetFlags) : SetFlags :=
  { flags with other := false }

theorem SetFlags.allowsCreate_meant (flags : SetFlags) :
    flags.meant.allowsCreate = flags.allowsCreate ∨ flags.allowsCreate = false := by
  obtain ⟨create, replace, readOnly, other⟩ := flags
  revert create replace readOnly other
  decide

namespace Volume

variable {volume rest : Volume MemStore} {priv obj : ObjectId} {name : String} {flags : SetFlags}
  {object : MemObject} {stat : ObjectStat} {books : ObjectKey → Book} {p : ObjectId → Prop} {α : Type}

section Flags

theorem openRecord_congr {flags' : SetFlags} (hcreate : flags'.create = flags.create)
    (honly : flags'.onlyExisting = flags.onlyExisting) (hallows : flags'.allowsCreate = flags.allowsCreate)
    (stat : ObjectStat) (name : String) :
    openRecord stat name flags' volume = openRecord stat name flags volume := by
  simp only [openRecord, openDirectory, hcreate, honly, hallows]

variable (h : volume.Intact priv)
include h

theorem Intact.openRecord_meant (hvalid : isValidName name = true) (stat : ObjectStat) (flags : SetFlags) :
    openRecord stat name flags volume = openRecord stat name flags.meant volume
      ∨ ∃ err rest, openRecord stat name flags volume = .error err rest
        ∧ volume.Revises rest priv (volume.store.book priv) := by
  obtain hsame | hnot := flags.allowsCreate_meant
  . exact .inl (@openRecord_congr volume flags.meant flags rfl rfl hsame.symm stat name)
  . cases hdir : volume.store.attrDir? priv stat.key with
    | none =>
      obtain ⟨err, rest, _, hopen, hrevises⟩ := h.openDirectory_absent hdir hnot
      exact .inr ⟨err, rest, openRecord_of_error hvalid hopen, hrevises⟩
    | some dir =>
      obtain ⟨_, d, _, _, _, _, hdirectory, _⟩ := h.attrDir_entry hdir
      have hopened : (volume.opened stat.key dir).store.directory? dir = some d := by
        rw [store_opened, hdirectory]
      refine .inl ?_
      rw [openRecord_eq hvalid (h.openDirectory_found hdir flags) hopened,
        openRecord_eq hvalid (h.openDirectory_found hdir flags.meant) hopened]
      rfl

theorem Intact.yields_writeValue (hname : isAttrName name = true)
    (hobject : volume.store.object? obj = some object) (hformat : object.format ≠ .legacy)
    (hbound : volume.store.nextId ≤ 2 ^ 64) (hfault : volume.store.writeFault = none) (value : Bytes)
    (flags : SetFlags) :
    ∃ answer, volume.Yields priv (withBook (volume.store.book priv) object.stat.key
        ((volume.store.book priv object.stat.key).put name (Record.image value)))
      (writeValue obj name value flags volume) answer := by
  rw [writeValue_eq hobject hformat, bind_apply]
  obtain hsame | ⟨err, rest, hopen, hrevises⟩ :=
    h.openRecord_meant (isAttrName_eq_true_iff.mp hname).1 object.stat flags
  . obtain ⟨err, err', rest, hopen, hkind, hrevises, _⟩ | ⟨record, rest, hopen, hwritable, _⟩ :=
      @Intact.openRecord_cases _ _ object.stat _ flags.meant h hname rfl (h.id_lt hobject) hbound
    . rw [unsharedRecord_of_error (hsame.trans hopen)]
      exact ⟨_, .refused hkind hrevises⟩
    . obtain ⟨file, _, hfile, _, hnlink⟩ := hwritable.file
      rw [unsharedRecord_single (hsame.trans hopen) hfile (Nat.le_of_eq hnlink)]
      exact ⟨_, hwritable.yields (hwritable.writeFault_eq hfault) value⟩
  . rw [unsharedRecord_of_error hopen]
    exact ⟨.error err, .refused rfl hrevises⟩

end Flags

section Books

def CheckedBooks (books : ObjectKey → Book) (p : ObjectId → Prop) : Prop :=
  ∀ key, (books key).Checked (p key.id)

theorem CheckedBooks.withBook (h : CheckedBooks books p) {key : ObjectKey} {book : Book}
    (hbook : book.Checked (p key.id)) : CheckedBooks (withBook books key book) p := by
  intro key'
  unfold Volume.withBook
  split
  . next heq => exact heq ▸ hbook
  . exact h key'

theorem CheckedBooks.withBookOf (h : CheckedBooks books p) {f : Book → Book}
    (hf : ∀ ⦃book q⦄, book.Checked q → (f book).Checked q) (volume : Volume MemStore) (obj : ObjectId) :
    CheckedBooks (volume.withBookOf books obj f) p := by
  unfold Volume.withBookOf
  split
  . exact h
  . exact h.withBook (hf (h _))

theorem CheckedBooks.deleteBooks (h : CheckedBooks books p) (volume : Volume MemStore) (obj : ObjectId) :
    CheckedBooks (volume.deleteBooks books obj) p := by
  unfold Volume.deleteBooks
  split
  . exact h
  . split
    . exact h.withBook (.nil _)
    . exact h

theorem Intact.checkedBooks (h : volume.Intact priv) (hchecked : volume.store.Checked p) :
    CheckedBooks (volume.store.book priv) p := by
  obtain ⟨_, d, _, _, _, hdir⟩ := h.tidy.privateRoot.directory?
  have hroot := h.tidy.root
  rw [child?_mended] at hroot
  rw [MemStore.directory?_mended] at hdir
  exact hchecked hroot (by rw [hdir]; nofun)

theorem Revises.checked (h : volume.Revises rest priv books) (hbooks : CheckedBooks books p) :
    rest.store.Checked p := by
  intro priv' hroot _ key
  have hroot' := h.intact.tidy.root
  rw [child?_mended, hroot] at hroot'
  rw [Option.some.inj hroot', h.book_eq]
  exact hbooks key

theorem Intact.stored?_eq (h : volume.Intact priv) (hname : EntryName.isDots name = false)
    (key : ObjectKey) : volume.store.stored? key name = (volume.store.book priv key).content? name := by
  have hroot := h.tidy.root
  rw [child?_mended] at hroot
  rw [h.content?_book hname, MemStore.stored?, hroot, Option.bind_some]

theorem Intact.yields_setAttribute (h : volume.Intact priv) (hbound : volume.store.nextId ≤ 2 ^ 64)
    (hfault : volume.store.writeFault = none) (hbooks : CheckedBooks (volume.store.book priv) p)
    (hp : ∀ ⦃id⦄, volume.store.NeverFile id → p id) (obj : ObjectId) (name : String) (value : Bytes)
    (flags : SetFlags) :
    ∃ books answer, CheckedBooks books p
      ∧ volume.Yields priv books (setAttribute .standard obj name value flags volume) answer := by
  obtain hstopped | ⟨object, hobject, hformat, hname, hset, _⟩ :=
    setAttribute_cases obj name value flags
  . exact ⟨_, _, hbooks, hstopped.yields h (.ok (volume.store.book priv))⟩
  . rw [hset]
    have hwrite := h.yields_writeValue hname hobject hformat hbound hfault value flags
    have hold := hbooks object.stat.key
    cases hacl : aclKind? name with
    | none =>
      obtain ⟨answer, hyields⟩ := hwrite
      exact ⟨_, answer, hbooks.withBook (hold.put (by simp [hacl])), hyields⟩
    | some kind =>
      cases hempty : value.isEmpty with
      | true =>
        exact ⟨_, _, hbooks.withBook (hold.without name),
          by simpa [hempty] using h.yields_removeAcl hobject (isAttrName_eq_true_iff.mp hname).1⟩
      | false =>
        simp only [Bool.false_eq_true, if_false]
        rw [writeAcl_eq h.linked hobject]
        split
        . exact ⟨_, _, hbooks, .failed h _⟩
        . next hkind =>
          cases hlist : Acl.validate value with
          | error err => exact ⟨_, _, hbooks, .failed h err⟩
          | ok count =>
            obtain ⟨answer, hyields⟩ := hwrite
            refine ⟨_, answer, hbooks.withBook (hold.put fun kind' hkind' => ⟨by rw [hlist]; rfl, ?_⟩), hyields⟩
            rintro rfl
            obtain rfl : kind = .default := Option.some.inj (hacl.symm.trans hkind')
            have hdirectory : object.body.isDirectory = true := by simpa using hkind
            rw [show object.stat.key.id = obj from id_of_object? hobject]
            exact hp (h.linked.neverFile hobject hdirectory)

end Books

section Calls

structure Orderly (volume : Volume MemStore) (p : ObjectId → Prop) : Prop where
  sound : volume.Sound
  writeFault_eq : volume.store.writeFault = none
  checked : volume.store.Checked p

variable {act : Action (Volume MemStore) α} {answer : Except Error α}

theorem Orderly.of_store_eq (h : volume.Orderly p) (hsound : rest.Sound) (hstore : rest.store = volume.store) :
    rest.Orderly p :=
  ⟨hsound, hstore ▸ h.writeFault_eq, hstore ▸ h.checked⟩

theorem Refuses.store_eq (h : volume.Refuses (act volume) answer) :
    (act.after volume).store = volume.store := by
  generalize hresult : act volume = result at h
  cases h with
  | done => rw [after_of_ok hresult]
  | refused => rw [after_of_error hresult]

theorem Orderly.refuses (h : volume.Orderly p) (hshut : volume.Shut)
    (hrefuses : volume.Refuses (act volume) answer) : (act.after volume).Orderly p :=
  h.of_store_eq (.shut (hshut.after hrefuses)) hrefuses.store_eq

theorem Orderly.acts (h : volume.Orderly p) (hlocks : volume.locks = .empty)
    (hacts : volume.Acts priv books (act volume) answer)
    (hold : CheckedBooks (volume.store.book priv) p) (hnew : CheckedBooks books p) :
    (act.after volume).Orderly p := by
  suffices hrevises : ∃ books, CheckedBooks books p ∧ volume.Revises (act.after volume) priv books by
    obtain ⟨_, hbooks, hrevises⟩ := hrevises
    exact ⟨.intact hrevises.intact (hrevises.locks_eq.trans hlocks),
      hrevises.quiet.writeFault_eq h.writeFault_eq, hrevises.checked hbooks⟩
  generalize hresult : act volume = result at hacts
  cases hacts with
  | undisturbed hyields =>
    cases hyields with
    | done hrevises => exact ⟨_, hnew, by rwa [after_of_ok hresult]⟩
    | refused _ hrevises => exact ⟨_, hold, by rwa [after_of_error hresult]⟩
  | disturbed hplanned => exact absurd h.writeFault_eq hplanned
  | unpruned _ hrevises => exact ⟨_, hnew, by rwa [after_of_error hresult]⟩

theorem Orderly.serves {answer : Except Error (ObjectKey → Book) → Except Error α}
    {change : (ObjectKey → Book) → ObjectKey → Book} (h : volume.Orderly p)
    (hserves : volume.Serves (act volume) answer change)
    (hchange : ∀ ⦃books⦄, CheckedBooks books p → CheckedBooks (change books) p) :
    (act.after volume).Orderly p := by
  cases hserves with
  | shut hshut hrefuses => exact h.refuses hshut hrefuses
  | intact hintact hlocks hacts =>
    have hold := hintact.checkedBooks h.checked
    exact h.acts hlocks hacts hold (hchange hold)

namespace Orderly

variable (h : volume.Orderly p)
include h

theorem setAttribute (hp : ∀ ⦃id⦄, volume.store.NeverFile id → p id)
    (hbound : volume.store.nextId ≤ 2 ^ 63) (obj : ObjectId) (name : String) (value : Bytes)
    (flags : SetFlags) : ((setAttribute .standard obj name value flags).after volume).Orderly p := by
  cases h.sound with
  | shut hshut => exact h.refuses hshut (hshut.refuses_setAttribute obj name value flags)
  | intact hintact hlocks =>
    have hold := hintact.checkedBooks h.checked
    obtain ⟨_, _, hnew, hyields⟩ := hintact.yields_setAttribute
      (Nat.le_trans hbound (by decide)) h.writeFault_eq hold hp obj name value flags
    exact h.acts hlocks (.undisturbed hyields) hold hnew

theorem mount (flags : MountFlags) : ((mount flags).after volume).Orderly p := by
  have hsound := h.sound.mount flags
  obtain ⟨rest, options, hfinds, heq⟩ := after_mount volume flags
  rw [heq] at hsound ⊢
  cases hfinds with
  | nothing => exact h.of_store_eq hsound rfl
  | missed _ hfind => exact h.of_store_eq hsound (findPrivateRoot_error h.sound.linked hfind)
  | found _ hfind =>
    exact ⟨hsound, (quiet_findPrivateRoot h.sound.linked hfind).writeFault_eq h.writeFault_eq,
      h.checked.findPrivateRoot h.sound.linked h.sound.ready hfind⟩

end Orderly

def Op.Regular (volume : Volume MemStore) : Op → Prop
  | .store op => op.Careful volume.store ∧ op.plansWriteFault = false
  | .renew .. | .setOptions _ | .mount _ => True
  | .getAttribute registry .. | .setAttribute registry .. => registry = .standard
  | .removeAttribute registry .. | .listAttributes registry .. => registry = .standard
  | .deleteAttributes _ | .chownAttributes .. => True
  | _ => False

theorem Orderly.perform (h : volume.Orderly p) (hp : ∀ ⦃id⦄, volume.store.NeverFile id → p id)
    (hbound : volume.store.nextId ≤ 2 ^ 63) {op : Op} (hop : op.Regular volume) :
    (op.perform.after volume).Orderly p := by
  -- What keeps the lists is one thing whatever they may be there for.
  cases op with
  | store op =>
    rw [Op.perform, after_onStore]
    exact ⟨h.sound.storeOp hop.1, h.sound.linked.writeFault_perform hop.2 h.writeFault_eq,
      h.checked.perform h.sound.linked h.sound.ready hop.1⟩
  | renew options cacheCapacity => exact h.of_store_eq (h.sound.renewed options cacheCapacity) rfl
  | setOptions options => exact h.of_store_eq (h.sound.withOptions options volume.aclFlag) rfl
  | mount flags => exact h.mount flags
  | getAttribute registry obj name buffer =>
    obtain rfl : registry = .standard := hop
    rw [Op.perform, after_discard, ← after_answering]
    exact h.serves (h.sound.serves_getAttribute hbound obj name buffer) fun _ hbooks => hbooks
  | setAttribute registry obj name value flags =>
    obtain rfl : registry = .standard := hop
    exact h.setAttribute hp hbound obj name value flags
  | removeAttribute registry obj name =>
    obtain rfl : registry = .standard := hop
    exact h.serves (h.sound.serves_removeAttribute hbound obj name) fun _ hbooks =>
      hbooks.withBookOf (fun _ _ hbook => hbook.without name) volume obj
  | listAttributes registry obj buffer =>
    obtain rfl : registry = .standard := hop
    rw [Op.perform, after_discard, ← after_answering]
    exact h.serves (h.sound.serves_listAttributes hbound obj buffer) fun _ hbooks => hbooks
  | deleteAttributes obj =>
    exact h.serves (h.sound.serves_deleteAttributes hbound obj) fun _ hbooks =>
      hbooks.deleteBooks volume obj
  | chownAttributes obj change =>
    exact h.serves (h.sound.serves_chownAttributes obj change) fun _ hbooks => hbooks
  | _ => exact hop.elim

end Calls

section Runs

inductive Regular : Volume MemStore → Prop
  | initial (pageSize : Nat) (format : ObjectFormat) (h : Record.headerSize < pageSize)
    (options : MountOptions) (cacheCapacity : Nat) :
    Regular (.initial pageSize format h options cacheCapacity)
  | step {volume : Volume MemStore} {op : Op} (h : Regular volume) (hop : op.Regular volume) :
    Regular (op.perform.after volume)

namespace Regular

variable (h : Regular volume)
include h

theorem linked : volume.store.Linked := by
  induction h with
  | initial pageSize format h => exact linked_empty pageSize format h
  | @step volume op _ _ ih => exact linked_run [op] ih

theorem orderly (hbound : volume.store.nextId ≤ 2 ^ 63) : volume.Orderly volume.store.NeverFile := by
  induction h with
  | initial pageSize format h options cacheCapacity =>
    refine ⟨Untampered.initial_sound .., rfl, fun priv hroot => ?_⟩
    cases (child?_empty pageSize format h (by decide)).symm.trans hroot
  | @step volume op h hop ih =>
    have hbefore : volume.store.nextId ≤ 2 ^ 63 :=
      Nat.le_trans (nextId_le_run [op] h.linked) hbound
    obtain ⟨hsound, hfault, hchecked⟩ := (ih hbefore).perform (fun _ hid => hid) hbefore hop
    exact ⟨hsound, hfault, hchecked.mono fun id hid => hid.run [op] h.linked⟩

theorem stored_acl (hbound : volume.store.nextId ≤ 2 ^ 63) :
    (∀ ⦃obj object name content⦄ (kind : AclKind), volume.store.object? obj = some object →
      volume.store.stored? object.stat.key name = some content →
      EntryName.startsWith name kind.attrName = true →
        name = kind.attrName
          ∧ (∃ value, content = Record.image value ∧ (Acl.validate value).isOk = true)
          ∧ (kind = .default → object.body.isDirectory = true))
      ∧ ∀ ⦃obj name value flags err rest⦄,
        setAttribute .standard obj name value flags volume = .error err rest →
          ∀ key (kind : AclKind),
            rest.store.stored? key kind.attrName = volume.store.stored? key kind.attrName := by
  have horderly := h.orderly hbound
  refine ⟨fun obj object name content kind hobject hstored hstart => ?_,
    fun obj name value flags err rest hset key kind => ?_⟩
  . have hdots := isDots_of_startsWith hstart
    obtain ⟨priv, hroot, hrecord⟩ := Option.bind_eq_some_iff.mp hstored
    obtain ⟨record, hrecord, hcontent⟩ := Option.bind_eq_some_iff.mp hrecord
    have hlive : volume.store.directory? priv ≠ none := by
      obtain ⟨_, hdir, _⟩ := attrRecord?_eq_some_iff.mp hrecord
      obtain ⟨_, hattrRoot, _⟩ := attrDir?_eq_some_iff.mp hdir
      obtain ⟨_, _, hpriv, _⟩ := MemStore.child?_eq_some_iff.mp hattrRoot
      rw [hpriv]
      nofun
    have hkempt := horderly.sound.ready hroot hlive
    obtain rfl := eq_attrName_of_startsWith (hkempt.names hdots (by rw [hrecord]; nofun)) hstart
    have hbook := horderly.sound.linked.content?_book hdots hrecord hcontent
    obtain ⟨value, himage, hvalid, hdefault⟩ := horderly.checked hroot hlive object.stat.key hbook
    refine ⟨rfl, ⟨value, himage, hvalid⟩, fun hkind => (hdefault hkind).2 ?_⟩
    rw [show object.stat.key.id = obj from id_of_object? hobject, hobject]
  . cases horderly.sound with
    | shut hshut =>
      have hsame := (hshut.refuses_setAttribute obj name value flags).store_eq
      rw [after_of_error hset] at hsame
      rw [hsame]
    | intact hintact =>
      obtain ⟨_, _, _, hyields⟩ := hintact.yields_setAttribute (Nat.le_trans hbound (by decide))
        horderly.writeFault_eq (hintact.checkedBooks horderly.checked) (fun _ hid => hid) obj name value flags
      rw [hset] at hyields
      cases hyields with
      | refused _ hrevises =>
        have hdots : EntryName.isDots kind.attrName = false := by cases kind <;> decide
        rw [hrevises.intact.stored?_eq hdots, hrevises.book_eq, hintact.stored?_eq hdots]

omit h in
theorem run (h : Regular volume) {ops : List Op} (hops : ∀ op ∈ ops, ∀ volume, op.Regular volume) :
    Regular (run ops volume) := by
  induction ops generalizing volume with
  | nil => exact h
  | cons op ops ih =>
    exact ih (h.step (hops op (by simp) volume)) fun op hmem => hops op (by simp [hmem])

end Regular

def modeList : Bytes :=
  [2, 0, 0, 0] ++ [1, 0, 6, 0, 255, 255, 255, 255] ++ [4, 0, 4, 0, 255, 255, 255, 255]
    ++ [32, 0, 0, 0, 255, 255, 255, 255]

def listed : Volume MemStore :=
  run [.store (.create 1 "f" 0o644), .store (.mkdir 1 "d" 0o755), .mount ⟨false⟩,
      .setAttribute .standard 2 AclKind.access.attrName modeList .none,
      .setAttribute .standard 3 AclKind.default.attrName modeList
        { SetFlags.none with create := true, other := true },
      .store .planRmdirFault]
    (initial 64 .current headerSize_lt_sixtyFour .optional 4)

theorem regular_listed : Regular listed := by
  -- Before the mount there is no private tree.
  have hstep {volume : Volume MemStore} (h : Regular volume) (op : MemStore.Op)
      (hop : op.plansWriteFault = false)
      (hnone : volume.store.child? rootId privateRootName = none) :
      Regular ((Op.store op).perform.after volume) :=
    h.step ⟨.inr fun priv hroot => by simp [hnone] at hroot, hop⟩
  have hstart := Regular.initial 64 .current headerSize_lt_sixtyFour .optional 4
  have hfile := hstep hstart (.create 1 "f" 0o644) rfl (by decide +kernel)
  have hdirectory := hstep hfile (.mkdir 1 "d" 0o755) rfl (by decide +kernel)
  refine hdirectory.run fun op hmem volume => ?_
  simp only [List.mem_cons, List.not_mem_nil, or_false] at hmem
  obtain rfl | rfl | rfl | rfl := hmem
  . trivial
  . rfl
  . rfl
  . exact ⟨.inl rfl, rfl⟩

theorem stored_acl_listed :
    Regular listed ∧ listed.store.nextId ≤ 2 ^ 63
      ∧ listed.store.stored? ⟨2, 1⟩ AclKind.access.attrName = some (Record.image modeList)
      ∧ listed.store.stored? ⟨3, 2⟩ AclKind.default.attrName = some (Record.image modeList)
      ∧ (∃ object, listed.store.object? 3 = some object ∧ object.body.isDirectory = true)
      ∧ ∃ err rest, setAttribute .standard 2 AclKind.access.attrName [2, 0, 0, 0] .none listed = .error err rest
        ∧ rest.store.stored? ⟨2, 1⟩ AclKind.access.attrName = some (Record.image modeList) := by
  have hbound : listed.store.nextId ≤ 2 ^ 63 := by decide +kernel
  have hfile : listed.store.stored? ⟨2, 1⟩ AclKind.access.attrName = some (Record.image modeList) := by
    decide +kernel
  have hdirectory : listed.store.stored? ⟨3, 2⟩ AclKind.default.attrName =
      some (Record.image modeList) := by
    decide +kernel
  obtain ⟨hstored, hfailed⟩ := regular_listed.stored_acl hbound
  obtain ⟨object, hobject⟩ := Option.isSome_iff_exists.mp
    (show (listed.store.object? 3).isSome = true by decide +kernel)
  have hkey : (listed.store.object? 3).all (·.stat.key = ⟨3, 2⟩) = true := by decide +kernel
  rw [hobject, Option.all_some, decide_eq_true_eq] at hkey
  obtain ⟨_, _, hkind⟩ := hstored .default hobject (hkey ▸ hdirectory) (by decide)
  refine ⟨regular_listed, hbound, hfile, hdirectory, ⟨object, hobject, hkind rfl⟩, ?_⟩
  have hrefused : (setAttribute .standard 2 AclKind.access.attrName [2, 0, 0, 0] .none).succeeds listed =
      false := by
    decide +kernel
  cases hset : setAttribute .standard 2 AclKind.access.attrName [2, 0, 0, 0] .none listed with
  | ok _ rest => simp [Action.succeeds, hset] at hrefused
  | error err rest => exact ⟨err, rest, rfl, (hfailed hset ⟨2, 1⟩ .access).trans hfile⟩

end Runs

end Volume

end AttrTree
