import AttrTree.Proofs.Untampered

/-!
This module contains the stores in which every list of access control has passed the check. What is done to
the store outside of the private tree keeps them so, and so does a mount.
-/

namespace AttrTree

theorem aclKind?_attrName (kind : AclKind) : aclKind? kind.attrName = some kind := by
  cases kind <;> decide

theorem aclKind?_eq_some_iff {name : String} {kind : AclKind} :
    aclKind? name = some kind ↔ name = kind.attrName := by
  refine ⟨fun h => ?_, fun h => h ▸ aclKind?_attrName kind⟩
  unfold aclKind? at h
  split at h
  . next heq => exact Option.some.inj h ▸ heq
  . split at h
    . next heq => exact Option.some.inj h ▸ heq
    . cases h

theorem Registry.handler_eq_acl {name : String} {kind : AclKind} {link : HandlerLink}
    (hlink : standard.resolve? name = some link)
    (hstart : EntryName.startsWith name kind.attrName = true) : link.handler = .acl kind := by
  -- The names that begin like that of a list are left to its handler.
  have hfound : EntryName.startsWith name link.handler.start = true := by
    have hfound := List.find?_some hlink
    exact hfound
  have hends := List.prefix_or_prefix_of_prefix (List.isPrefixOf_iff_prefix.mp hfound)
    (List.isPrefixOf_iff_prefix.mp hstart)
  have hmem : link ∈ standard.links := List.mem_of_find?_eq_some hlink
  simp only [standard, standardHandlers, List.mapIdx_cons, List.mapIdx_nil, List.mem_cons,
    List.not_mem_nil, or_false] at hmem
  -- No handler has a beginning that goes on with that of another one.
  obtain rfl | rfl | rfl | rfl | rfl := hmem <;> cases kind <;>
    first | rfl | exact absurd hends (by decide)

theorem isDots_of_startsWith {name : String} {kind : AclKind}
    (hstart : EntryName.startsWith name kind.attrName = true) : EntryName.isDots name = false := by
  by_contra hdots
  rw [Bool.not_eq_false, EntryName.isDots, Bool.or_eq_true, beq_iff_eq, beq_iff_eq] at hdots
  obtain rfl | rfl := hdots
  all_goals
    revert hstart
    cases kind <;> decide

theorem eq_attrName_of_startsWith {name : String} {kind : AclKind} (hname : isAttrName name = true)
    (hstart : EntryName.startsWith name kind.attrName = true) : name = kind.attrName := by
  -- Nothing is kept under a longer name.
  obtain ⟨_, link, hlink, hserves⟩ := isAttrName_eq_true_iff.mp hname
  rw [Registry.handler_eq_acl hlink hstart] at hserves
  simpa [Handler.serves] using hserves

namespace Book

variable {book : Book} {name n : String} {content value : Bytes} {p q : Prop}

def Checked (book : Book) (p : Prop) : Prop :=
  ∀ ⦃kind : AclKind⦄ ⦃content⦄, book.content? kind.attrName = some content →
    ∃ value, content = Record.image value ∧ (Acl.validate value).isOk = true ∧ (kind = .default → p)

namespace Checked

theorem nil (p : Prop) : Checked [] p :=
  nofun

theorem mono (h : book.Checked p) (hpq : p → q) : book.Checked q := by
  intro kind content hcontent
  obtain ⟨value, himage, hvalid, hdefault⟩ := h hcontent
  exact ⟨value, himage, hvalid, hpq ∘ hdefault⟩

theorem without (h : book.Checked p) (name : String) : (book.without name).Checked p := by
  intro kind content hcontent
  rw [content?_without] at hcontent
  split at hcontent
  . cases hcontent
  . exact h hcontent

theorem put (h : book.Checked p) (hvalue : ∀ ⦃kind⦄, aclKind? name = some kind →
    (Acl.validate value).isOk = true ∧ (kind = .default → p)) :
    (book.put name (Record.image value)).Checked p := by
  intro kind content hcontent
  rw [content?_put] at hcontent
  split at hcontent
  . next heq =>
    obtain ⟨hvalid, hdefault⟩ := hvalue (aclKind?_eq_some_iff.mpr heq.symm)
    exact ⟨value, (Option.some.inj hcontent).symm, hvalid, hdefault⟩
  . exact h hcontent

end Checked

end Book

namespace MemStore

open Action

variable {store store' : MemStore} {priv id record : ObjectId} {key : ObjectKey} {name : String}
  {content : Bytes} {object : MemObject} {p : ObjectId → Prop}

section NeverFile

def NeverFile (store : MemStore) (id : ObjectId) : Prop :=
  id < store.nextId ∧ ∀ ⦃object⦄, store.object? id = some object → object.body.isDirectory = true

theorem Linked.neverFile (h : store.Linked) (hobject : store.object? id = some object)
    (hkind : object.body.isDirectory = true) : store.NeverFile id := by
  refine ⟨h.id_lt hobject, fun object' hobject' => ?_⟩
  rw [hobject] at hobject'
  exact Option.some.inj hobject' ▸ hkind

theorem keptBySteps_neverFile (id : ObjectId) : KeptBySteps (·.NeverFile id) := by
  rintro store store' hlinked hstep ⟨hlt, hkind⟩
  refine ⟨Nat.lt_of_lt_of_le hlt hstep.nextId_le, fun object' hobject' => ?_⟩
  cases hstep with
  | same hsame =>
    have hrel := hsame.object_rel id
    rw [hobject'] at hrel
    generalize hobject : store.object? id = found at hrel
    cases hrel with
    | some hrel => exact hrel.kind_eq.trans (hkind hobject)
  | attach hnew howner _ _ _ =>
    rw [object?_attach hlinked hnew.id_eq howner, if_neg (Nat.ne_of_lt hlt)] at hobject'
    split at hobject'
    . next heq =>
      rw [← Option.some.inj hobject']
      exact (MemObject.isDirectory_mapDirectory ..).trans (hkind (heq ▸ howner))
    . exact hkind hobject'
  | addLink htarget hfile howner hbody _ _ =>
    rw [object?_addLink htarget hfile howner hbody] at hobject'
    split at hobject'
    . next heq =>
      have hold := hkind (heq ▸ htarget : store.object? id = _)
      rwa [← Option.some.inj hobject']
    . split at hobject'
      . next heq =>
        rw [← Option.some.inj hobject']
        exact (MemObject.isDirectory_mapDirectory ..).trans (hkind (heq ▸ howner))
      . exact hkind hobject'
  | detach hleaf =>
    rw [hleaf.object?_detach] at hobject'
    split at hobject'
    . next heq =>
      obtain ⟨_, _, rfl⟩ := unlinked?_eq_some_iff.mp hobject'
      rw [body_withNlink]
      exact hkind (heq ▸ hleaf.target_eq : store.object? id = _)
    . split at hobject'
      . next heq =>
        rw [← Option.some.inj hobject']
        exact (MemObject.isDirectory_mapDirectory ..).trans (hkind (heq ▸ hleaf.owner_eq))
      . exact hkind hobject'

theorem keptByErasure_neverFile (id : ObjectId) : KeptByErasure (·.NeverFile id) := by
  rintro store parent owner d _ _ _ _ ⟨hlt, hkind⟩
  refine ⟨hlt, fun object hobject => ?_⟩
  rw [object?_eraseObject] at hobject
  split at hobject
  . cases hobject
  . exact hkind hobject

theorem NeverFile.run {volume : Volume MemStore} (h : volume.store.NeverFile id) (ops : List Volume.Op)
    (hlinked : volume.store.Linked) : (Volume.run ops volume).store.NeverFile id :=
  (Volume.keeps_run (@keptBySteps_neverFile id).gains (@keptBySteps_neverFile id).losses
    (keptByErasure_neverFile id) ops hlinked h).2

end NeverFile

section WriteFault

def Op.plansWriteFault : Op → Bool
  | planWriteFault _ => true
  | _ => false

theorem Linked.writeFault_perform (h : store.Linked) {op : Op} (hop : op.plansWriteFault = false)
    (hfault : store.writeFault = none) : (op.perform.after store).writeFault = none := by
  cases hplans : op.plansFault with
  | false => exact ((h.opOutcome op).quiet hplans).writeFault_eq hfault
  | true =>
    cases op with
    | planRmdirFault => exact hfault
    | planWriteFault count => cases hop
    | _ => cases hplans

end WriteFault

section Books

def stored? (store : MemStore) (key : ObjectKey) (name : String) : Option Bytes :=
  (store.child? rootId Volume.privateRootName).bind fun priv =>
    (store.attrRecord? priv key name).bind store.content?

theorem Linked.content?_book (h : store.Linked) (hname : EntryName.isDots name = false)
    (hrecord : store.attrRecord? priv key name = some record)
    (hcontent : store.content? record = some content) :
    (store.book priv key).content? name = some content := by
  obtain ⟨dir, hdir, hchild⟩ := attrRecord?_eq_some_iff.mp hrecord
  obtain ⟨d, e, hdirectory, hfind, rfl⟩ := MemStore.child?_eq_some_iff.mp hchild
  obtain ⟨_, hwf, _⟩ := h.placed hdirectory
  rw [book_of_some hdir hdirectory, content?_bookOf hwf hname, hfind]
  simp [hcontent]

theorem book_marked (store : MemStore) (id priv : ObjectId) (key : ObjectKey) :
    (store.marked id).book priv key = store.book priv key := by
  have hcontent (x : ObjectId) : (store.marked id).content? x = store.content? x := by
    rw [content?, content?, object?_marked]
    split
    . cases store.object? x <;> rfl
    . rfl
  have hbook : (store.marked id).bookOf = store.bookOf :=
    funext fun d => bookOf_congr fun e _ => hcontent e.target
  simp only [book, attrDir?_congr (child?_marked store id), funext (directory?_marked store id), hbook]

theorem Untouched.book_eq (h : store.Untouched store' priv) (hlinked : store.Linked) (key : ObjectKey) :
    store'.book priv key = store.book priv key := by
  have hdirectory {x : ObjectId} (hx : store.InTree priv x) : store'.directory? x = store.directory? x := by
    rw [directory?, h.objects hx, directory?]
  have hroot : store'.attrRoot? priv = store.attrRoot? priv := child?_congr (hdirectory .privateRoot) _
  have hdir : store'.attrDir? priv key = store.attrDir? priv key := by
    rw [attrDir?, hroot, attrDir?]
    cases hfound : store.attrRoot? priv with
    | none => rfl
    | some root => exact child?_congr (hdirectory (.attrRoot hfound)) _
  cases hfound : store.attrDir? priv key with
  | none => rw [book_of_none hfound, book_of_none (hdir.trans hfound)]
  | some dir =>
    cases hlive : store.directory? dir with
    | none => simp [book, hdir, hfound, hdirectory (.attrDir hfound), hlive]
    | some d =>
      rw [book_of_some hfound hlive,
        book_of_some (hdir.trans hfound) ((hdirectory (.attrDir hfound)).trans hlive)]
      refine bookOf_congr fun e hmem => content?_congr (h.objects ?_)
      obtain ⟨_, hwf, _⟩ := hlinked.placed hlive
      have hname := hwf.isDots_of_mem hmem
      refine @InTree.record _ _ key _ _ hname ?_
      rw [attrRecord?_of_attrDir? hfound, hlinked.child?_eq_some_iff hname]
      exact ⟨d, e, hlive, hmem, rfl, rfl⟩

/-- The lists in the books of any private root have passed `Acl.validate`, and default lists are there only for
objects with `p`. -/
def Checked (store : MemStore) (p : ObjectId → Prop) : Prop :=
  ∀ ⦃priv⦄, store.child? rootId Volume.privateRootName = some priv → store.directory? priv ≠ none →
    ∀ key, (store.book priv key).Checked (p key.id)

variable (h : store.Checked p)
include h

theorem Checked.mono {q : ObjectId → Prop} (hpq : ∀ ⦃id⦄, p id → q id) : store.Checked q :=
  fun _ hroot hlive key => (h hroot hlive key).mono (@hpq key.id)

theorem Checked.marked (id : ObjectId) : (store.marked id).Checked p := by
  intro priv hroot hlive key
  rw [child?_marked] at hroot
  rw [directory?_marked] at hlive
  rw [book_marked]
  exact h hroot hlive key

omit h in
theorem Checked.book_of_vacant (hvacant : store.attrRoot? priv = none) (q : Prop) :
    (store.book priv key).Checked q := by
  rw [book_of_none (by rw [attrDir?, hvacant]; rfl)]
  exact .nil q

variable (hlinked : store.Linked) (hready : store.Ready)
include hlinked hready

theorem Checked.of_opEffect {op : Op} (heffect : store.OpEffect op store')
    (hspares : ∀ ⦃priv⦄, store.child? rootId Volume.privateRootName = some priv →
      op.Spares store priv) : store'.Checked p := by
  intro priv hroot hlive key
  obtain ⟨hroot', hlive', huntouched⟩ | hvacant := hready.cases_of_opEffect hlinked hspares heffect hroot hlive
  . rw [huntouched.book_eq hlinked]
    exact h hroot' hlive' key
  . exact book_of_vacant hvacant _

theorem Checked.perform {op : Op} (hop : op.Careful store) : (op.perform.after store).Checked p := by
  intro priv hroot hlive key
  obtain ⟨hroot', hlive', huntouched⟩ | hvacant := hready.cases_perform hlinked hop hroot hlive
  . rw [huntouched.book_eq hlinked]
    exact h hroot' hlive' key
  . exact book_of_vacant hvacant _

theorem Checked.findPrivateRoot {flags : MountFlags}
    (hfind : Volume.findPrivateRoot flags store = .ok priv store') : store'.Checked p := by
  obtain ⟨middle, _, rfl, rfl | ⟨hnone, heffect⟩⟩ := findPrivateRoot_ok hlinked hfind
  . exact h.marked priv
  . exact (h.of_opEffect hlinked hready heffect (by simp [hnone])).marked priv

end Books

end MemStore

end AttrTree
