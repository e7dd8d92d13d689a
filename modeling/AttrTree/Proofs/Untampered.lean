import AttrTree.Proofs.Shut

/-!
This module contains the volumes over stores whose private tree nobody has tampered with. Whatever else is
done to them, they are intact, or cannot open their private tree.
-/

namespace AttrTree

open Action MemStore

namespace Volume

variable {volume : Volume MemStore} {priv : ObjectId} {store : MemStore} {flags : SetFlags}

section Mount

inductive Finds (volume : Volume MemStore) (flags : MountFlags) : Volume MemStore → Prop
  | nothing : Finds volume flags volume
  | missed {err : Error} {store : MemStore} (hroot : volume.privateRoot = none)
    (hfind : findPrivateRoot flags volume.store = .error err store) :
    Finds volume flags { volume with store }
  | found {priv : ObjectId} {store : MemStore} (hroot : volume.privateRoot = none)
    (hfind : findPrivateRoot flags volume.store = .ok priv store) :
    Finds volume flags { volume with store, privateRoot := some priv }

theorem after_mount (volume : Volume MemStore) (flags : MountFlags) :
    ∃ rest options, volume.Finds flags rest ∧ (mount flags).after volume = rest.adopt options := by
  cases hon : volume.options.settle.attributes with
  | false => exact ⟨volume, _, .nothing, after_of_ok (mount_off hon)⟩
  | true =>
    have hexit := rootExit volume flags
    have hrun := @mount_on _ _ volume flags hon
    generalize setUpPrivateRoot flags volume = result at hrun hexit
    cases hexit with
    | legacy => exact ⟨volume, _, .nothing, after_of_error hrun⟩
    | known => exact ⟨volume, _, .nothing, after_of_ok hrun⟩
    | absent _ hroot _ hfind => exact ⟨_, _, .missed hroot hfind, after_of_ok hrun⟩
    | unavailable _ hroot _ hfind => exact ⟨_, _, .missed hroot hfind, after_of_error hrun⟩
    | found _ hroot hfind => exact ⟨_, _, .found hroot hfind, after_of_ok hrun⟩

end Mount

section Intact

theorem Intact.marked_eq (h : volume.Intact priv) : volume.store.marked priv = volume.store := by
  obtain ⟨object, hobject, hprivate, _⟩ := h.tidy.privateRoot
  rw [object?_mended, Option.map_eq_some_iff] at hobject
  obtain ⟨object, hobject, rfl⟩ := hobject
  refine mapObject_eq_self h.linked.ids_distinct hobject ?_
  rw [MemObject.marked, ← show object.isPrivate = true from hprivate]

theorem Intact.kempt (h : volume.Intact priv) : volume.store.Kempt priv :=
  ⟨h.marked_eq.symm ▸ h.tidy, h.names⟩

theorem Intact.ready (h : volume.Intact priv) : volume.store.Ready := by
  intro priv' hroot _
  have hroot' := h.tidy.root
  rw [child?_mended, hroot] at hroot'
  exact Option.some.inj hroot' ▸ h.kempt

theorem intact_of_kempt (h : store.Kempt priv) (hstore : volume.store = store.marked priv)
    (hpriv : volume.privateRoot = some priv) (hroot : volume.attrRoot = none)
    (hcache : ∀ key, volume.cache.peek? key = none) : volume.Intact priv := by
  refine ⟨⟨?_, hpriv, rfl, rfl, rfl, ?_, ?_⟩, fun key n hn hrecord => @Kempt.names _ _ h key n hn ?_⟩
  . rw [mended, hstore]
    exact h.tidy
  . intro root hfound
    rw [show volume.mended.attrRoot = none from hroot] at hfound
    cases hfound
  . intro key dir hfound
    rw [show volume.mended.cache = volume.cache from rfl, hcache] at hfound
    cases hfound
  . rwa [hstore, attrRecord?_congr (child?_marked store priv)] at hrecord

theorem Intact.of_untouched (h : volume.Intact priv) (huntouched : volume.store.Untouched store priv) :
    ({ volume with store } : Volume MemStore).Intact priv := by
  have hkept := huntouched.keepsTree_mended
  have hsame := h.tidy.sameTree hkept
  refine ⟨⟨huntouched.tidy_mended h.tidy, h.privateRoot_eq, rfl, rfl, rfl, ?_, ?_⟩, ?_⟩
  . exact fun root hroot => hsame.attrRoot_eq.trans (h.settled.attrRoot hroot)
  . exact fun key dir hdir => (hsame.attrDir_eq key).trans (h.settled.cache hdir)
  . intro key n hn hrecord
    rw [show ({ volume with store } : Volume MemStore).store = store from rfl,
      huntouched.attrRecord?_eq h.tidy] at hrecord
    exact h.names hn hrecord

theorem Intact.withOptions (h : volume.Intact priv) (options : MountOptions) (aclFlag : Bool) :
    ({ volume with options, aclFlag } : Volume MemStore).Intact priv :=
  ⟨⟨h.tidy, h.privateRoot_eq, rfl, rfl, rfl, h.settled.attrRoot, h.settled.cache⟩, h.names⟩

end Intact

namespace Shut

variable (h : volume.Shut)
include h

theorem withOptions (options : MountOptions) (aclFlag : Bool) :
    ({ volume with options, aclFlag } : Volume MemStore).Shut :=
  ⟨h.linked, h.ready, h.privateRoot, h.attrRoot_eq, h.cache, h.locks_eq⟩

theorem storeOp {op : MemStore.Op} (hop : op.Careful volume.store) :
    ({ volume with store := op.perform.after volume.store } : Volume MemStore).Shut := by
  obtain ⟨⟨middle, heffect, hsame⟩, _⟩ := h.linked.opOutcome op
  refine ⟨hsame.linked (heffect.linked h.linked), h.ready.perform h.linked hop, fun priv hpriv => ?_,
    h.attrRoot_eq, h.cache, h.locks_eq⟩
  obtain ⟨hnone, hlt⟩ := h.privateRoot hpriv
  have hnext := nextId_le_run [.store op] h.linked
  rw [run, List.foldl_cons, List.foldl_nil, Op.perform, after_onStore] at hnext
  exact ⟨h.linked.directory?_eq_none op hlt hnone, Nat.lt_of_lt_of_le hlt hnext⟩

end Shut

/-- Of the private tree only calls on attributes by way of `Registry.standard` change anything. -/
def Op.Careful (volume : Volume MemStore) : Op → Prop
  | .store op => op.Careful volume.store
  | .renew .. | .setOptions _ | .mount _ => True
  | .getAttribute registry .. | .removeAttribute registry .. => registry = .standard
  | .setAttribute registry _ _ _ flags => registry = .standard ∧ flags.other = false
  | .listAttributes registry .. => registry = .standard
  | .deleteAttributes _ | .chownAttributes .. => True
  | _ => False

inductive Untampered : Volume MemStore → Prop
  | initial (pageSize : Nat) (format : ObjectFormat) (h : Record.headerSize < pageSize)
    (options : MountOptions) (cacheCapacity : Nat) :
    Untampered (.initial pageSize format h options cacheCapacity)
  | step {volume : Volume MemStore} {op : Op} (h : Untampered volume) (hop : op.Careful volume) :
    Untampered (op.perform.after volume)

inductive Sound (volume : Volume MemStore) : Prop
  | shut (h : volume.Shut)
  | intact {priv : ObjectId} (h : volume.Intact priv) (hlocks : volume.locks = .empty)

theorem Shut.sound_found (h : volume.Shut) {flags : MountFlags} (hfind : findPrivateRoot flags volume.store = .ok priv store) :
    ({ volume with store, privateRoot := some priv } : Volume MemStore).Sound := by
  obtain ⟨middle, hlinked, hready, hchild, rfl⟩ := findPrivateRoot_ready h.ready h.linked hfind
  cases hdir : middle.directory? priv with
  | none =>
    have hmarked := (middle.directory?_marked priv priv).trans hdir
    refine .shut ⟨hlinked.marked priv, ?_, ?_, h.attrRoot_eq, h.cache, h.locks_eq⟩
    . intro priv' hroot hlive
      rw [child?_marked, hchild] at hroot
      exact absurd (Option.some.inj hroot ▸ hmarked) hlive
    . rintro _ ⟨⟩
      obtain ⟨d, e, hroot, hentry, rfl⟩ := child?_eq_some_iff.mp hchild
      exact ⟨hmarked, hlinked.target_lt_of_find? hroot hentry⟩
  | some d =>
    have hkempt := hready hchild (by rw [hdir]; nofun)
    exact .intact (intact_of_kempt hkempt rfl rfl h.attrRoot_eq h.cache) h.locks_eq

section Serves

variable {α : Type} {act : Action (Volume MemStore) α} {books : ObjectKey → Book}
  {result : EStateM.Result Error (Volume MemStore) α}
  {answer : Except Error (ObjectKey → Book) → Except Error α}
  {change : (ObjectKey → Book) → ObjectKey → Book}

inductive Serves (volume : Volume MemStore) (result : EStateM.Result Error (Volume MemStore) α)
    (answer : Except Error (ObjectKey → Book) → Except Error α)
    (change : (ObjectKey → Book) → ObjectKey → Book) : Prop
  | shut (h : volume.Shut) (hrefuses : volume.Refuses result (answer volume.books))
  | intact {priv : ObjectId} (h : volume.Intact priv) (hlocks : volume.locks = .empty)
    (hacts : volume.Acts priv (change (volume.store.book priv)) result
      (answer (.ok (volume.store.book priv))))

theorem Acts.after {answer : Except Error α} (h : volume.Acts priv books (act volume) answer) :
    ∃ books', volume.Revises (act.after volume) priv books' := by
  generalize hresult : act volume = result at h
  cases h with
  | undisturbed h =>
    cases h with
    | done h => exact ⟨_, by rwa [after_of_ok hresult]⟩
    | refused _ h => exact ⟨_, by rwa [after_of_error hresult]⟩
  | disturbed _ h => exact ⟨_, by rwa [after_of_error hresult]⟩
  | unpruned _ h => exact ⟨_, by rwa [after_of_error hresult]⟩

theorem Serves.after (h : volume.Serves (act volume) answer change) : (act.after volume).Sound := by
  cases h with
  | shut h hrefuses => exact .shut (h.after hrefuses)
  | intact h hlocks hacts =>
    obtain ⟨_, hrevises⟩ := hacts.after
    exact .intact hrevises.intact (hrevises.locks_eq.trans hlocks)

end Serves

namespace Sound

theorem linked (h : volume.Sound) : volume.store.Linked := by
  cases h with
  | shut h => exact h.linked
  | intact h => exact h.linked

theorem withOptions (h : volume.Sound) (options : MountOptions) (aclFlag : Bool) :
    ({ volume with options, aclFlag } : Volume MemStore).Sound := by
  cases h with
  | shut h => exact .shut (h.withOptions options aclFlag)
  | intact h hlocks => exact .intact (h.withOptions options aclFlag) hlocks

theorem ready (h : volume.Sound) : volume.store.Ready := by
  cases h with
  | shut h => exact h.ready
  | intact h => exact h.ready

theorem renewed (h : volume.Sound) (options : MountOptions) (cacheCapacity : Nat) :
    (unmounted volume.store options cacheCapacity).Sound :=
  .shut ⟨h.linked, h.ready, nofun, rfl, fun _ => rfl, rfl⟩

theorem storeOp (h : volume.Sound) {op : MemStore.Op} (hop : op.Careful volume.store) :
    ({ volume with store := op.perform.after volume.store } : Volume MemStore).Sound := by
  cases h with
  | shut h => exact .shut (h.storeOp hop)
  | intact h hlocks =>
    exact .intact (h.of_untouched ((h.kempt.closedTree h.linked).untouched_perform hop)) hlocks

theorem mount (h : volume.Sound) (flags : MountFlags) : ((mount flags).after volume).Sound := by
  obtain ⟨rest, options, hfinds, heq⟩ := after_mount volume flags
  rw [heq]
  suffices hrest : rest.Sound from hrest.withOptions ..
  cases hfinds with
  | nothing => exact h
  | missed _ hfind =>
    obtain rfl := findPrivateRoot_error h.linked hfind
    exact h
  | found hroot hfind =>
    cases h with
    | shut h => exact h.sound_found hfind
    | intact h =>
      rw [h.privateRoot_eq] at hroot
      cases hroot

section Calls

variable (h : volume.Sound)
include h

theorem serves_chownAttributes (obj : ObjectId) (change : AttrChange) :
    volume.Serves (chownAttributes obj change volume) (volume.bulkAnswer · obj) id := by
  cases h with
  | shut h => exact .shut h (h.refuses_chownAttributes obj change)
  | intact h hlocks => exact .intact h hlocks (.undisturbed (h.yields_chownAttributes hlocks obj change))

variable (hbound : volume.store.nextId ≤ 2 ^ 63)
include hbound

theorem serves_getAttribute (obj : ObjectId) (name : String) (buffer : Buffer) :
    volume.Serves ((getAttribute .standard obj name).answering buffer volume)
      (volume.getAnswer · obj name buffer) id := by
  cases h with
  | shut h => exact .shut h (h.refuses_getAttribute obj name buffer)
  | intact h hlocks =>
    exact .intact h hlocks
      (.undisturbed (h.yields_getAttribute (Nat.le_trans hbound (by decide)) obj name buffer))

theorem serves_setAttribute (hother : flags.other = false) (obj : ObjectId) (name : String)
    (value : Bytes) :
    volume.Serves (setAttribute .standard obj name value flags volume)
      (volume.setAnswer · obj name value flags)
      (volume.withBookOf · obj (setBook name value)) := by
  cases h with
  | shut h => exact .shut h (h.refuses_setAttribute obj name value flags)
  | intact h hlocks =>
    exact .intact h hlocks
      (h.acts_setAttribute hother (Nat.le_trans hbound (by decide)) obj name value)

theorem serves_removeAttribute (obj : ObjectId) (name : String) :
    volume.Serves (removeAttribute .standard obj name volume) (volume.removeAnswer · obj name)
      (volume.withBookOf · obj (·.without name)) := by
  cases h with
  | shut h => exact .shut h (h.refuses_removeAttribute obj name)
  | intact h hlocks => exact .intact h hlocks (.undisturbed (h.yields_removeAttribute hbound obj name))

theorem serves_listAttributes (obj : ObjectId) (buffer : Buffer) :
    volume.Serves ((listAttributes .standard obj).answering buffer volume)
      (volume.listAnswer · obj buffer) id := by
  cases h with
  | shut h => exact .shut h (h.refuses_listAttributes obj buffer)
  | intact h hlocks =>
    exact .intact h hlocks (.undisturbed (h.yields_listAttributes hlocks hbound obj buffer))

theorem serves_deleteAttributes (obj : ObjectId) :
    volume.Serves (deleteAttributes obj volume) (volume.bulkAnswer · obj)
      (volume.deleteBooks · obj) := by
  cases h with
  | shut h => exact .shut h (h.refuses_deleteAttributes obj)
  | intact h hlocks => exact .intact h hlocks (h.acts_deleteAttributes hlocks hbound obj)

end Calls

theorem perform (h : volume.Sound) (hbound : volume.store.nextId ≤ 2 ^ 63) {op : Op}
    (hop : op.Careful volume) : (op.perform.after volume).Sound := by
  cases op with
  | store op =>
    rw [Op.perform, after_onStore]
    exact h.storeOp hop
  | renew options cacheCapacity => exact h.renewed options cacheCapacity
  | setOptions options => exact h.withOptions options volume.aclFlag
  | mount flags => exact h.mount flags
  | getAttribute registry obj name buffer =>
    obtain rfl : registry = .standard := hop
    rw [Op.perform, after_discard, ← after_answering]
    exact (h.serves_getAttribute hbound obj name buffer).after
  | setAttribute registry obj name value flags =>
    obtain ⟨rfl, hother⟩ := hop
    exact (h.serves_setAttribute hbound hother obj name value).after
  | removeAttribute registry obj name =>
    obtain rfl : registry = .standard := hop
    exact (h.serves_removeAttribute hbound obj name).after
  | listAttributes registry obj buffer =>
    obtain rfl : registry = .standard := hop
    rw [Op.perform, after_discard, ← after_answering]
    exact (h.serves_listAttributes hbound obj buffer).after
  | deleteAttributes obj => exact (h.serves_deleteAttributes hbound obj).after
  | chownAttributes obj change => exact (h.serves_chownAttributes obj change).after
  | _ => exact hop.elim

end Sound

namespace Untampered

theorem linked (h : Untampered volume) : volume.store.Linked := by
  induction h with
  | initial pageSize format h => exact linked_empty pageSize format h
  | @step volume op _ _ ih => exact linked_run [op] ih

theorem initial_sound (pageSize : Nat) (format : ObjectFormat) (h : Record.headerSize < pageSize)
    (options : MountOptions) (cacheCapacity : Nat) :
    (Volume.initial pageSize format h options cacheCapacity).Sound := by
  -- A new store has no private root yet.
  refine .shut ⟨linked_empty pageSize format h, fun priv hroot => ?_, nofun, rfl, fun _ => rfl, rfl⟩
  cases (child?_empty pageSize format h (by decide)).symm.trans hroot

theorem sound (h : Untampered volume) (hbound : volume.store.nextId ≤ 2 ^ 63) : volume.Sound := by
  induction h with
  | initial pageSize format h options cacheCapacity =>
    exact initial_sound pageSize format h options cacheCapacity
  | @step volume op h hop ih =>
    have hbefore : volume.store.nextId ≤ 2 ^ 63 :=
      Nat.le_trans (nextId_le_run [op] h.linked) hbound
    exact (ih hbefore).perform hbefore hop

theorem run (h : Untampered volume) {ops : List Op}
    (hops : ∀ op ∈ ops, ∀ volume, op.Careful volume) : Untampered (run ops volume) := by
  induction ops generalizing volume with
  | nil => exact h
  | cons op ops ih =>
    exact ih (h.step (hops op (by simp) volume)) fun op hmem => hops op (by simp [hmem])

end Untampered

end Volume

end AttrTree
