import AttrTree.Proofs.Pruning

/-!
This module contains what the calls on all attributes of an object do on a volume in order. They visit
every entry of the directory: to remove it, which leaves the directory empty, or to give its record a
new owner, which changes no value.
-/

namespace AttrTree

namespace FieldMask

theorem not_has_inter (a : FieldMask) {b c : FieldMask} (hbc : b.bits &&& c.bits = 0)
    (hc : c.bits ≠ 0) : (a.inter b).has c = false := by
  have hzero : a.bits &&& b.bits &&& c.bits = 0 := by
    rw [UInt32.and_assoc, hbc, UInt32.and_zero]
  simp [has, inter, hzero, Ne.symm hc]

end FieldMask

namespace MemStore

variable {store : MemStore} {priv id : ObjectId} {object : MemObject} {change : AttrChange}

def changed (store : MemStore) (id : ObjectId) (change : AttrChange) : MemStore :=
  store.mapObject id (·.apply change)

theorem alike_apply (hsize : change.fields.has .size = false) (object : MemObject) :
    object.Alike (object.apply change) := by
  refine ⟨rfl, rfl, ?_⟩
  simp [MemObject.apply, hsize]

theorem object?_changed (hobject : store.object? id = some object) (change : AttrChange)
    (x : ObjectId) :
    (store.changed id change).object? x =
      if x = id then some (object.apply change) else store.object? x := by
  rw [changed, object?_mapObject (f := (·.apply change)) _ _ fun _ => rfl]
  split
  . next heq => rw [heq, hobject, Option.map_some]
  . rfl

theorem setAttr_eq (hobject : store.object? id = some object)
    (hsize : change.fields.has .size = false) :
    ObjectStore.setAttr id change store = .ok () (store.changed id change) := by
  have hok : store.setAttr id change = .ok (store.changed id change) := by
    simp only [MemStore.setAttr, Action.exceptBind_eq_ok_iff, Action.throwIf_eq_ok_iff,
      Action.exceptPure_eq_ok_iff, getObject_eq_ok_iff]
    exact ⟨object, hobject, by simp [hsize], rfl⟩
  simp [ObjectStore.setAttr, Action.update, hok]

theorem child?_changed (hobject : store.object? id = some object)
    (hsize : change.fields.has .size = false) (x : ObjectId) (n : String) :
    (store.changed id change).child? x n = store.child? x n := by
  apply child?_congr
  unfold directory?
  rw [object?_changed hobject]
  split
  . next heq => rw [heq, hobject, Option.bind_some, Option.bind_some, (alike_apply hsize object).body_eq]
  . rfl

theorem keepsTree_changed (hobject : store.object? id = some object)
    (hsize : change.fields.has .size = false) :
    store.KeepsTree (store.changed id change) priv := by
  intro x object' _ hobject'
  rw [object?_changed hobject]
  split
  . next heq =>
    rw [heq, hobject] at hobject'
    injection hobject' with hobject'
    exact ⟨_, rfl, hobject' ▸ alike_apply hsize object⟩
  . exact ⟨object', hobject', .refl object'⟩

theorem Tidy.changed (h : store.Tidy priv) (hobject : store.object? id = some object)
    (hsize : change.fields.has .size = false) : (store.changed id change).Tidy priv := by
  refine h.of_keepsTree (keepsTree_changed hobject hsize) ?_ h.writeFault_eq h.rmdirFault_eq ?_
    (Nat.le_refl _)
  . exact h.linked.of_sameLinks
      (.mapObject h.linked.ids_distinct (fun _ => rfl) fun object _ => sameLinks_apply change object)
  . rw [child?_changed hobject hsize, h.root]

theorem Tidy.withMoves (h : store.Tidy priv) (moves : Nat) :
    ({ store with pendingMoves := moves } : MemStore).Tidy priv := by
  have hkept : store.KeepsTree { store with pendingMoves := moves } priv :=
    fun _ object _ hobject => ⟨object, hobject, .refl object⟩
  exact h.of_keepsTree hkept (h.linked.of_sameLinks (.of_objects_eq rfl rfl)) h.writeFault_eq
    h.rmdirFault_eq h.root (Nat.le_refl _)

end MemStore

namespace Volume

open Action MemStore

variable {volume now rest : Volume MemStore} {priv dir obj id : ObjectId} {stat : ObjectStat}
  {key key' : ObjectKey} {name n : String} {d : Directory} {e : DirEntry} {object : MemObject}
  {change : AttrChange} {position : Nat}

section OnAttrDirectory

variable {σ : Type} [ObjectStore σ]

def onAttrDirectory (obj : ObjectId) (act : ObjectStat → ObjectId → Action (Volume σ) Unit) :
    Action (Volume σ) Unit := do
  let stat ← onStore (ObjectStore.stat obj)
  match ← bulkDirectory? stat with
  | none => return
  | some dir => act stat dir

def emptyDirectory (stat : ObjectStat) (dir : ObjectId) : Action (Volume σ) Unit := do
  let removed ← (visitEntries dir (removeEntry dir)).attempt
  let pruned ← (prune stat dir).attempt
  Action.ofExcept removed
  Action.ofExcept pruned

def chownDirectory (change : AttrChange) (dir : ObjectId) : Action (Volume σ) Unit := do
  visitEntries dir (chownEntry dir (change.restricted .ownership))
  onStore (ObjectStore.setAttr dir (change.restricted .ownership))

theorem deleteAttributes_eq_onAttrDirectory (obj : ObjectId) :
    deleteAttributes (σ := σ) obj = onAttrDirectory obj emptyDirectory :=
  rfl

theorem chownAttributes_eq_onAttrDirectory (obj : ObjectId) (change : AttrChange) :
    chownAttributes (σ := σ) obj change = onAttrDirectory obj fun _ => chownDirectory change :=
  rfl

variable {act : ObjectStat → ObjectId → Action (Volume MemStore) Unit}

theorem onAttrDirectory_of_none (hobject : volume.store.object? obj = none) :
    onAttrDirectory obj act volume = .error objectNotFound volume := by
  simp [onAttrDirectory, onStore, focus, stat_of_none hobject]

section Object

variable (hobject : volume.store.object? obj = some object)
include hobject

theorem onAttrDirectory_skipped (hbulk : bulkDirectory? object.stat volume = .ok none rest) :
    onAttrDirectory obj act volume = .ok () rest := by
  simp [onAttrDirectory, onStore, focus, stat_of_object? hobject, hbulk]

theorem onAttrDirectory_found (hbulk : bulkDirectory? object.stat volume = .ok (some dir) rest) :
    onAttrDirectory obj act volume = act object.stat dir rest := by
  simp [onAttrDirectory, onStore, focus, stat_of_object? hobject, hbulk]

theorem onAttrDirectory_failed {err : Error}
    (hbulk : bulkDirectory? object.stat volume = .error err rest) :
    onAttrDirectory obj act volume = .error err rest := by
  simp [onAttrDirectory, onStore, focus, stat_of_object? hobject, hbulk]

end Object

end OnAttrDirectory

namespace Settled

theorem withMoves (h : volume.Settled priv) (moves : Nat) :
    volume.Becomes (volume.withMoves moves) priv (volume.store.attrValue? priv) :=
  h.ofKeepsTree (fun _ object _ hobject => ⟨object, hobject, .refl object⟩) (h.tidy.withMoves moves)
    (.of_objects_eq rfl rfl rfl)

theorem withLocks (h : volume.Settled priv) (locks : DirLocks) :
    ({ volume with locks } : Volume MemStore).Settled priv where
  tidy := h.tidy
  privateRoot_eq := h.privateRoot_eq
  attributes_eq := h.attributes_eq
  user_eq := h.user_eq
  acl_eq := h.acl_eq
  attrRoot := h.attrRoot
  cache := h.cache

theorem shows_eq_true (h : volume.Settled priv) (hdir : volume.store.attrDir? priv key = some dir)
    (hdirectory : volume.store.directory? dir = some d) (hmem : e ∈ d.ordinary)
    (base : Volume MemStore) : (base.scanAt dir Directory.lastOffset).shows d e = true := by
  obtain ⟨_, d', _, _, _, _, hdirectory', hwf, _, hvisible⟩ := h.tidy.attrDir_entry hdir
  rw [hdirectory] at hdirectory'
  injection hdirectory' with hsame
  subst hsame
  have hvalid := hwf.names_valid e hmem
  simp only [isValidName, Bool.not_eq_true', Bool.or_eq_false_iff, decide_eq_false_iff_not] at hvalid
  have hroot : (dir == rootId) = false := by
    simpa using (h.tidy.rootId_ne_attrDir hdir).symm
  have hatRoot : (base.scanAt dir Directory.lastOffset).atRoot = false := hroot
  simp [Scan.shows, Scan.hides, hvisible e hmem, hatRoot, hvalid.1.2]

end Settled

section Entries

theorem Settled.entry (h : volume.Settled priv) (hdir : volume.store.attrDir? priv key = some dir)
    (hdirectory : volume.store.directory? dir = some d) (hmem : e ∈ d.ordinary) :
    ∃ parent target value, d.WellFormed dir parent ∧ d.find? e.name = some e
      ∧ EntryName.isDots e.name = false
      ∧ volume.store.attrRecord? priv key e.name = some e.target
      ∧ volume.store.object? e.target = some target ∧ target.isPrivate = true
      ∧ target.body = .file (Record.image value)
      ∧ volume.store.attrValue? priv key e.name = some value := by
  obtain ⟨parent, hwf, _⟩ := h.tidy.linked.placed hdirectory
  have hfind := hwf.find?_name (Directory.mem_entries_of_mem_ordinary hmem)
  have hname := hwf.isDots_of_mem hmem
  have hrecord : volume.store.attrRecord? priv key e.name = some e.target := by
    rw [attrRecord?_of_attrDir? hdir, child?_of_directory? hdirectory, hfind]
    rfl
  obtain ⟨target, value, htarget, hprivate, _, hbody, hvalue⟩ := h.tidy.image hname hrecord
  exact ⟨parent, target, value, hwf, hfind, hname, hrecord, htarget, hprivate, hbody, hvalue⟩

end Entries

section Delete

structure Emptying (volume : Volume MemStore) (priv dir : ObjectId) (key : ObjectKey)
    (position : Nat) (now : Volume MemStore) : Prop where
  becomes : ∃ values, volume.Becomes now priv values
    ∧ ∀ ⦃key'⦄, key' ≠ key → ∀ n, values key' n = volume.store.attrValue? priv key' n
  directory : now.store.attrDir? priv key = some dir
  left : ∀ ⦃d⦄, now.store.directory? dir = some d → ∀ e ∈ d.ordinary, e.offset ≤ position
  nextId_eq : now.store.nextId = volume.store.nextId

theorem Emptying.settled (h : volume.Emptying priv dir key position now) : now.Settled priv := by
  obtain ⟨_, hbecomes, _⟩ := h.becomes
  exact hbecomes.settled

theorem Emptying.withMoves (h : volume.Emptying priv dir key position now) (moves : Nat) :
    volume.Emptying priv dir key position (now.withMoves moves) := by
  obtain ⟨⟨values, hbecomes, hothers⟩, hdir, hleft, hnext⟩ := h
  exact ⟨⟨values, hbecomes.trans_same (hbecomes.settled.withMoves moves), hothers⟩, hdir, hleft,
    hnext⟩

theorem Emptying.removeEntry (h : volume.Emptying priv dir key position now)
    (hdirectory : now.store.directory? dir = some d) {front : List DirEntry}
    (hupTo : d.upTo position = front ++ [e]) :
    ∃ store, Volume.removeEntry dir e.name now.store = .ok () store
      ∧ volume.Emptying priv dir key (e.offset - 1) { now with store } := by
  have hsettled := h.settled
  have hlinked := hsettled.tidy.linked
  have hmem : e ∈ d.ordinary := (Directory.mem_of_upTo hupTo).1
  obtain ⟨_, target, value, hwf, hfind, _, _, htarget, hprivate, hbody, _⟩ :=
    hsettled.entry h.directory hdirectory hmem
  have hkind : target.body.isDirectory = false := by
    rw [hbody]
    rfl
  obtain ⟨owner, hleaf⟩ := hlinked.isLeaf hdirectory hfind htarget hkind
  have hremoved := hsettled.tidy.removed h.directory hleaf
  refine ⟨_, removeEntry_file hlinked hdirectory hfind htarget hkind hprivate, ?_, ?_, ?_, ?_⟩
  . obtain ⟨values, hbecomes, hothers⟩ := h.becomes
    refine ⟨_, hbecomes.trans_withValue (hsettled.withStore hremoved), fun key' hne n => ?_⟩
    simp only [withValue, hne, false_and, if_false]
    exact hothers hne n
  . exact (hremoved.attrDir_eq key).trans h.directory
  . intro d' hdirectory' e' hmem'
    rw [hleaf.directory?_detach, if_neg hleaf.ne.symm, if_pos rfl] at hdirectory'
    obtain rfl := Option.some.inj hdirectory'
    exact Directory.offset_le_of_mem_remove hwf hupTo (h.left hdirectory) hmem'
  . exact (IsLeaf.nextId_detach ..).trans h.nextId_eq

theorem emptying_loop (volume base : Volume MemStore) :
    LoopInvariant (β := Unit) (fun item => onFirst (onStore (Volume.removeEntry dir item.name)))
      (base.scanAt dir Directory.lastOffset)
      fun position s => volume.Emptying priv dir key position s.1 := by
  constructor
  . intro position s h
    obtain ⟨_, d, parent, _, _, _, hdirectory, hwf, _⟩ :=
      h.settled.tidy.attrDir_entry h.directory
    exact ⟨d, parent, hdirectory, hwf⟩
  . exact fun position s h moves => h.withMoves moves
  . intro position s d front e h hdirectory hupTo hhidden
    rw [h.settled.shows_eq_true h.directory hdirectory (Directory.mem_of_upTo hupTo).1] at hhidden
    cases hhidden
  . intro position s d front e h hdirectory hupTo _
    obtain ⟨store, hremove, hnext⟩ := h.removeEntry hdirectory hupTo
    refine ⟨({ s.1 with store }, s.2), ?_, hnext⟩
    simp [onFirst, onStore, focus, Scan.itemOf, hremove]

theorem Becomes.unlock {locks : DirLocks} {values : ObjectKey → String → Option Bytes}
    (h : ({ volume with locks } : Volume MemStore).Becomes now priv values)
    (hfree : volume.locks.lock? dir = some locks) :
    volume.Becomes (now.unlockDirectory dir) priv values := by
  refine ⟨h.settled.withLocks _, h.values_eq, ?_, h.keys⟩
  rw [unlockDirectory, h.locks_eq]
  exact DirLocks.unlock_of_lock? hfree

def withoutValues (values : ObjectKey → String → Option Bytes) (key : ObjectKey) :
    ObjectKey → String → Option Bytes :=
  fun key' n => if key' = key then none else values key' n

theorem Settled.visitEntries_removeEntry (h : volume.Settled priv)
    (hdir : volume.store.attrDir? priv key = some dir) (hlocks : volume.locks = .empty)
    (hbound : volume.store.nextId ≤ 2 ^ 63) :
    ∃ rest, visitEntries dir (Volume.removeEntry dir) volume = .ok () rest
      ∧ volume.Becomes rest priv (withoutValues (volume.store.attrValue? priv) key)
      ∧ rest.store.attrDir? priv key = some dir
      ∧ rest.store.nextId = volume.store.nextId := by
  have hfree : volume.locks.lock? dir = some { held := [dir] } := by
    rw [hlocks]
    rfl
  have hstart : ({ volume with locks := { held := [dir] } } : Volume MemStore).Emptying priv dir key
      Directory.lastOffset { volume with locks := { held := [dir] } } := by
    refine ⟨⟨_, .refl (h.withLocks _), fun _ _ _ => rfl⟩, hdir, fun d hdirectory e hmem => ?_, rfl⟩
    obtain ⟨_, d', parent, _, _, _, hdirectory', hwf, hnext, _⟩ := h.tidy.attrDir_entry hdir
    obtain rfl : d = d' := by
      have hsame : some d = some d' := hdirectory.symm.trans hdirectory'
      injection hsame
    rw [← Directory.upTo_lastOffset hwf (Nat.le_trans hnext hbound)] at hmem
    exact (Directory.mem_upTo.mp hmem).2
  obtain ⟨position, s, hrun, hend, hnil⟩ := (emptying_loop _ _).forEachEntry (b := ()) hfree hstart
  obtain ⟨values, hbecomes, hothers⟩ := hend.becomes
  refine ⟨s.1.unlockDirectory dir, ?_, (hbecomes.unlock hfree).congr fun n hn key' => ?_,
    hend.directory, hend.nextId_eq⟩
  . simp [visitEntries, withSecond, hrun]
  . by_cases hkey : key' = key
    . subst hkey
      rw [← hbecomes.values_eq hn, withoutValues, if_pos rfl,
        hbecomes.settled.tidy.attrValue?_eq_none_iff hn]
      obtain ⟨_, d, parent, _, _, _, hdirectory, hwf, _⟩ :=
        hbecomes.settled.tidy.attrDir_entry hend.directory
      rw [attrRecord?_of_attrDir? hend.directory]
      cases hchild : s.1.store.child? dir n with
      | none => rfl
      | some id =>
        obtain ⟨d', e, hdirectory', hmem, _⟩ :=
          (hbecomes.settled.tidy.linked.child?_eq_some_iff hn).mp hchild
        have hupTo : e ∈ d'.upTo position :=
          Directory.mem_upTo.mpr ⟨hmem, hend.left hdirectory' e hmem⟩
        -- An entry that was left would have been visited.
        rw [hnil d' hdirectory'] at hupTo
        cases hupTo
    . rw [withoutValues, if_neg hkey]
      exact hothers hkey n

end Delete

section Chown

theorem Settled.setAttr (h : volume.Settled priv) (hobject : volume.store.object? id = some object)
    (hsize : change.fields.has .size = false) :
    volume.Becomes { volume with store := volume.store.changed id change } priv
        (volume.store.attrValue? priv)
      ∧ ∀ key, (volume.store.changed id change).attrDir? priv key =
        volume.store.attrDir? priv key := by
  have hkept : volume.store.KeepsTree (volume.store.changed id change) priv :=
    keepsTree_changed hobject hsize
  refine ⟨h.ofKeepsTree hkept (h.tidy.changed hobject hsize) ?_, (h.tidy.sameTree hkept).attrDir_eq⟩
  exact .mapObject (f := (·.apply change)) volume.store id fun _ => rfl

theorem chown_loop (volume base : Volume MemStore) (hsize : change.fields.has .size = false)
    (values : ObjectKey → String → Option Bytes) :
    LoopInvariant (β := Unit) (fun item => onFirst (onStore (chownEntry dir change item.name)))
      (base.scanAt dir Directory.lastOffset)
      fun _ s => volume.Becomes s.1 priv values ∧ s.1.store.attrDir? priv key = some dir := by
  constructor
  . intro position s ⟨hbecomes, hdir⟩
    obtain ⟨_, d, parent, _, _, _, hdirectory, hwf, _⟩ :=
      hbecomes.settled.tidy.attrDir_entry hdir
    exact ⟨d, parent, hdirectory, hwf⟩
  . intro position s ⟨hbecomes, hdir⟩ moves
    exact ⟨hbecomes.trans_same (hbecomes.settled.withMoves moves), hdir⟩
  . exact fun position s d front e h _ _ _ => h
  . intro position s d front e ⟨hbecomes, hdir⟩ hdirectory hupTo _
    have hdirectory : s.1.store.directory? dir = some d := hdirectory
    have hsettled := hbecomes.settled
    obtain ⟨_, target, value, _, hfind, _, _, htarget, _, hbody, _⟩ :=
      hsettled.entry hdir hdirectory (Directory.mem_of_upTo hupTo).1
    have hkind := hsettled.tidy.linked.isDirectory_stat htarget
    rw [hbody, Body.isDirectory] at hkind
    obtain ⟨hchanged, hdirs⟩ := hsettled.setAttr htarget hsize
    refine ⟨({ s.1 with store := s.1.store.changed e.target change }, s.2), ?_,
      hbecomes.trans_same hchanged, (hdirs key).trans hdir⟩
    simp [onFirst, onStore, focus, Scan.itemOf, chownEntry, lookup_of_directory? hdirectory, hfind,
      stat_of_object? htarget, hkind, setAttr_eq htarget hsize]

theorem Settled.visitEntries_chownEntry (h : volume.Settled priv)
    (hdir : volume.store.attrDir? priv key = some dir) (hlocks : volume.locks = .empty)
    (hsize : change.fields.has .size = false) :
    ∃ rest, visitEntries dir (chownEntry dir change) volume = .ok () rest
      ∧ volume.Becomes rest priv (volume.store.attrValue? priv)
      ∧ rest.store.attrDir? priv key = some dir := by
  have hfree : volume.locks.lock? dir = some { held := [dir] } := by
    rw [hlocks]
    rfl
  have hstart := Becomes.refl (h.withLocks { held := [dir] })
  obtain ⟨_, s, hrun, ⟨hbecomes, hdir'⟩, _⟩ :=
    (chown_loop _ _ hsize _).forEachEntry (b := ()) hfree ⟨hstart, hdir⟩
  refine ⟨s.1.unlockDirectory dir, ?_, hbecomes.unlock hfree, hdir'⟩
  simp [visitEntries, withSecond, hrun]

end Chown

section Plain

variable (h : volume.Settled priv) (hobject : volume.store.object? obj = some object)
  (hprivate : object.isPrivate = false) (hformat : object.format ≠ .legacy)
include h hprivate hformat

theorem Settled.bulkDirectory?_eq :
    (∃ rest, bulkDirectory? object.stat volume = .ok none rest
        ∧ volume.Becomes rest priv (volume.store.attrValue? priv)
        ∧ volume.store.attrDir? priv object.stat.key = none)
      ∨ ∃ dir rest, bulkDirectory? object.stat volume = .ok (some dir) rest
        ∧ volume.Becomes rest priv (volume.store.attrValue? priv) ∧ rest.store = volume.store
        ∧ volume.store.attrDir? priv object.stat.key = some dir := by
  have hlegacy : object.stat.isLegacy = false := by
    simpa [ObjectStat.isLegacy, MemObject.stat] using hformat
  have henabled : volume.attributesEnabled = true := h.attributes_eq
  have hprivate' : object.stat.isPrivate = false := hprivate
  cases hdir : volume.store.attrDir? priv object.stat.key with
  | none =>
    obtain ⟨err, rest, herr, hopen, _, hbecomes⟩ :=
      h.openDirectory_absent hdir (show SetFlags.looking.allowsCreate = false from rfl)
    refine .inl ⟨rest, ?_, hbecomes, rfl⟩
    simp [bulkDirectory?, hprivate', hlegacy, henabled, attempt, hopen, herr]
  | some dir =>
    have hopen := openDirectory_found ((h.directory?_eq object.stat.key).trans hdir) .looking
    refine .inr ⟨dir, volume.opened object.stat.key dir, ?_, h.opened hdir, store_opened .., rfl⟩
    simp [bulkDirectory?, hprivate', hlegacy, henabled, attempt, hopen]

include hobject

theorem Settled.deleteAttributes (hlocks : volume.locks = .empty)
    (hbound : volume.store.nextId ≤ 2 ^ 63) :
    ∃ rest, deleteAttributes obj volume = .ok () rest
      ∧ volume.Becomes rest priv
        (withoutValues (volume.store.attrValue? priv) object.stat.key) := by
  rcases h.bulkDirectory?_eq hprivate hformat with
    ⟨rest, hbulk, hbecomes, hdir⟩ | ⟨dir, middle, hbulk, hbecomes, hstore, hdir⟩
  . refine ⟨rest, ?_, hbecomes.congr fun n hn key' => ?_⟩
    . rw [deleteAttributes_eq_onAttrDirectory, onAttrDirectory_skipped hobject hbulk]
    . simp only [withoutValues]
      split
      . next hkey =>
        rw [hkey, attrValue?, attrRecord?, hdir]
        rfl
      . rfl
  . obtain ⟨emptied, hvisit, hemptied, hdir', hnext⟩ := hbecomes.settled.visitEntries_removeEntry
      (by rw [hstore]; exact hdir) (hbecomes.locks_eq.trans hlocks) (by rw [hstore]; exact hbound)
    obtain ⟨rest, hprune, hpruned⟩ := hemptied.settled.prune hdir' (by rw [hnext, hstore]; exact hbound)
    refine ⟨rest, ?_, (hbecomes.trans hemptied).trans_same hpruned |>.congr fun n _ key' => ?_⟩
    . rw [deleteAttributes_eq_onAttrDirectory, onAttrDirectory_found hobject hbulk]
      simp [emptyDirectory, attempt, hvisit, hprune]
    . rw [hstore]

theorem Settled.chownAttributes (hlocks : volume.locks = .empty) (change : AttrChange) :
    ∃ rest, chownAttributes obj change volume = .ok () rest
      ∧ volume.Becomes rest priv (volume.store.attrValue? priv) := by
  have hsize : (change.restricted .ownership).fields.has .size = false :=
    FieldMask.not_has_inter _ (by decide) (by decide)
  rcases h.bulkDirectory?_eq hprivate hformat with
    ⟨rest, hbulk, hbecomes, _⟩ | ⟨dir, middle, hbulk, hbecomes, hstore, hdir⟩
  . refine ⟨rest, ?_, hbecomes⟩
    rw [chownAttributes_eq_onAttrDirectory, onAttrDirectory_skipped hobject hbulk]
  . obtain ⟨passed, hvisit, hpassed, hdir'⟩ := hbecomes.settled.visitEntries_chownEntry
      (by rw [hstore]; exact hdir) (hbecomes.locks_eq.trans hlocks) hsize
    obtain ⟨owner, d, _, howner, _⟩ := hpassed.settled.tidy.attrDir_entry hdir'
    obtain ⟨hchanged, _⟩ := hpassed.settled.setAttr howner hsize
    refine ⟨_, ?_, (hbecomes.trans_same hpassed).trans_same hchanged⟩
    rw [chownAttributes_eq_onAttrDirectory, onAttrDirectory_found hobject hbulk]
    simp [chownDirectory, onStore, focus, hvisit, setAttr_eq howner hsize]

end Plain

end Volume

end AttrTree
