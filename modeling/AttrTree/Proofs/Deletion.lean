import AttrTree.Proofs.Clearing
import AttrTree.Proofs.Pruning
import AttrTree.Proofs.Transparent

/-!
This module contains what the removal of all attributes of an object does, whatever has been put into
the directory of the object. The main statement tells every object of the store afterwards.
-/

namespace AttrTree

namespace MemStore

variable {store now : MemStore} {root dir : ObjectId} {e : DirEntry} {gone : List DirEntry}
  {owner target : MemObject} {rootDirectory : Directory}

/-- The store after `dir` has lost the entries `gone`, and has itself gone from `root`, where its entry was `e`,
if it was `emptied`. A planned `rmdirFault` lets it stay, once. -/
structure Stripped (store : MemStore) (root dir : ObjectId) (e : DirEntry) (gone : List DirEntry)
    (emptied : Bool) (now : MemStore) : Prop where
  object?_dir : now.object? dir =
    if emptied && !store.rmdirFault then none
    else (store.object? dir).map (·.mapDirectory (·.without gone))
  object?_root : now.object? root =
    if emptied && !store.rmdirFault then (store.object? root).map (withoutEntry e.offset 1)
    else store.object? root
  object?_of_ne : ∀ x, x ≠ dir → x ≠ root →
    now.object? x = (store.object? x).bind (losing (gone.countP (·.target == x)))
  rest_eq : now = { store with
    objects := now.objects
    pendingMoves := now.pendingMoves
    rmdirFault := store.rmdirFault && !emptied }

theorem Cleared.stripped (h : store.Cleared dir gone now) (hsame : now.object? root = store.object? root)
    {emptied : Bool} (hstays : (emptied && !store.rmdirFault) = false) (e : DirEntry) :
    store.Stripped root dir e gone emptied
      { now with rmdirFault := store.rmdirFault && !emptied } where
  object?_dir := by
    rw [hstays]
    exact h.object?_dir
  object?_root := by
    rw [hstays]
    exact hsame
  object?_of_ne x hx _ := h.object?_of_ne x hx
  rest_eq := by
    rw [h.rest_eq]

theorem Cleared.stripped_detach (h : store.Cleared dir gone now)
    (hsame : now.object? root = store.object? root)
    (hleaf : now.IsLeaf root owner rootDirectory e target) (htarget : e.target = dir)
    (hkind : target.body.isDirectory = true) (hfault : store.rmdirFault = false) :
    store.Stripped root dir e gone true (now.detach root e target) := by
  have hobject := hleaf.object?_detach_directory hkind
  constructor
  . rw [← htarget, hobject, if_pos rfl, hfault]
    rfl
  . rw [hobject, if_neg hleaf.ne.symm, if_pos rfl, ← hsame, hleaf.owner_eq, hfault]
    rfl
  . intro x hx hxr
    rw [hobject, htarget, if_neg hx, if_neg hxr, h.object?_of_ne x hx]
  . rw [hfault, Bool.false_and, detach_eq, h.rest_eq, hfault]

end MemStore

namespace Volume

open Action MemStore

variable {volume : Volume MemStore} {key : ObjectKey} {root dir obj : ObjectId} {d : Directory}
  {object : MemObject} {pageSize : Nat} {format : ObjectFormat} {hpage : Record.headerSize < pageSize}
  {options : MountOptions} {capacity : Nat}

section Opening

theorem eq_of_attrRoot? (hroot : volume.attrRoot? = some root) {known : ObjectId}
    (hknown : volume.attrRoot = some known) : known = root := by
  obtain ⟨_, _, hroot⟩ := Option.bind_eq_some_iff.mp hroot
  rw [hknown, Option.some_or] at hroot
  injection hroot

theorem Coherent.directory?_eq (h : volume.Coherent) (hroot : volume.attrRoot? = some root)
    (hchild : volume.store.child? root key.text = some dir) : volume.directory? key = some dir := by
  unfold directory?
  cases hcache : (volume.cache.get? key).1 with
  | none => simp [hroot, hchild]
  | some dir' =>
    obtain ⟨_, known, hknown, hchild'⟩ := h.2.of_get? hcache
    rw [eq_of_attrRoot? hroot hknown] at hchild'
    rw [Option.some_or, ← hchild', hchild]

theorem Coherent.attrRoot?_opened (h : volume.Coherent) (hroot : volume.attrRoot? = some root)
    (key : ObjectKey) (dir : ObjectId) (store : MemStore) :
    { volume.opened key dir with store }.attrRoot? = some root := by
  -- An opened volume knows the attribute root whatever becomes of the store.
  obtain ⟨priv, hpriv, _⟩ := Option.bind_eq_some_iff.mp hroot
  have hopened : (volume.opened key dir).privateRoot = some priv
      ∧ (volume.opened key dir).attrRoot = some root := by
    unfold opened
    cases hcache : (volume.cache.get? key).1 with
    | none => exact ⟨hpriv, by rw [Volume.looked, hroot, Option.some_or]⟩
    | some dir' =>
      obtain ⟨_, known, hknown, _⟩ := h.2.of_get? hcache
      exact ⟨hpriv, eq_of_attrRoot? hroot hknown ▸ hknown⟩
  simp [attrRoot?, hopened]

theorem locks_opened (volume : Volume MemStore) (key : ObjectKey) (dir : ObjectId) :
    (volume.opened key dir).locks = volume.locks := by
  unfold opened
  split <;> rfl

end Opening

theorem visitEntries_removeEntry (hunlocked : volume.IsUnlocked) (hlinked : volume.store.Linked)
    (hwhole : volume.store.Whole) (hdir : volume.store.directory? dir = some d) (hne : dir ≠ rootId) :
    ∃ rest, visitEntries dir (removeEntry dir) volume =
        ofExcept (clearingVerdict volume.store (d.visibleFrom Directory.lastOffset))
          { volume with store := rest }
      ∧ Clearing volume.store dir d
        (volume.store.removable (d.visibleFrom Directory.lastOffset)) rest := by
  obtain ⟨parent, hwf, _⟩ := hlinked.placed hdir
  have hfree : volume.locks.lock? dir = some { held := [dir] } := by
    rw [hunlocked]
    rfl
  have hstart : Clearing volume.store dir d [] volume.store :=
    ⟨.refl volume.store dir, hdir, hlinked, hwhole⟩
  obtain ⟨rest, hrun, hend⟩ := Clearing.visitItems
    (s := ({ volume with locks := { held := [dir] } }, ())) hstart volume hwf hne (by simp)
    (Nat.lt_succ_self Directory.lastOffset)
  refine ⟨rest, ?_, hend⟩
  have hunlock := DirLocks.unlock_of_lock? hfree
  have heach := @forEachEntry_eq _ _ _ (removal dir) volume dir () _ hfree
  unfold removal at heach hrun
  rw [visitEntries, withSecond, heach, thenAlways, hrun]
  cases clearingVerdict volume.store (d.visibleFrom Directory.lastOffset) <;>
    simp [unlockDirectory, hunlock]

section Effect

theorem Clearing.child?_eq {store now : MemStore} {gone : List DirEntry}
    (h : Clearing store dir d gone now) (hlinked : store.Linked)
    (hgone : ∀ e ∈ gone, store.namesOwn e = true)
    (hchild : store.child? root key.text = some dir) :
    root ≠ dir ∧ now.object? root = store.object? root
      ∧ now.child? root key.text = some dir := by
  -- The directory has been scanned, and its entry in the attribute root is still where it was.
  obtain ⟨rootDirectory, e, hroot, hmem, _, htarget⟩ :=
    (hlinked.child?_eq_some_iff key.isDots_text).mp hchild
  have hne : root ≠ dir := by
    have hdir := h.directory
    rw [← htarget] at hdir ⊢
    exact (hlinked.ne_of_entry hroot hmem hdir).symm
  have hsame := h.cleared.object?_of_directory hgone hne hroot
  refine ⟨hne, hsame, ?_⟩
  rw [← hchild, child?, child?, MemStore.directory?, MemStore.directory?, hsame]

theorem Clearing.prune {gone : List DirEntry} {store : MemStore}
    (h : Clearing store dir d gone volume.store) (hlinked : store.Linked)
    (hgone : ∀ e ∈ gone, store.namesOwn e = true) (hbound : d.nextOffset ≤ 2 ^ 63)
    (hroot : volume.attrRoot? = some root) {stat : ObjectStat}
    (hchild : store.child? root stat.key.text = some dir) :
    ∃ e rest, (store.directory? root).bind (·.find? stat.key.text) = some e
      ∧ Volume.prune stat dir volume =
        ofExcept (if (d.without gone).isEmpty && store.rmdirFault then .error injectedRmdirFault
          else .ok ()) rest
      ∧ store.Stripped root dir e gone (d.without gone).isEmpty rest.store
      ∧ ((d.without gone).isEmpty = true → rest.cache.peek? stat.key = none) := by
  obtain ⟨hne, hsame, hchild'⟩ := h.child?_eq hlinked hgone hchild
  have hdir := h.cleared.directory? h.directory
  obtain ⟨parent, hwf⟩ := h.placed
  have hfew : (d.without gone).nextOffset ≤ 2 ^ 63 := hbound
  have hfault : volume.store.rmdirFault = store.rmdirFault := by
    rw [h.cleared.rest_eq]
  obtain ⟨rootDirectory, e, hrootDirectory, hfind, _⟩ := child?_eq_some_iff.mp hchild'
  have hentry : (store.directory? root).bind (·.find? stat.key.text) = some e := by
    have hdirectory : store.directory? root = some rootDirectory := by
      rw [← hrootDirectory, MemStore.directory?, MemStore.directory?, hsame]
    rw [hdirectory, Option.bind_some, hfind]
  cases hempty : (d.without gone).isEmpty with
  | false =>
    have hstripped := h.cleared.stripped hsame (Bool.false_and _) e
    rw [Bool.not_false, Bool.and_true, ← hfault] at hstripped
    exact ⟨e, volume, hentry, prune_of_entries hdir hwf hfew hempty, hstripped,
      fun hnone => absurd hnone Bool.false_ne_true⟩
  | true =>
    cases hstays : store.rmdirFault with
    | true =>
      have hnot : (true && !store.rmdirFault) = false := by
        rw [hstays]
        rfl
      have hstripped := h.cleared.stripped hsame hnot e
      rw [Bool.not_true, Bool.and_false] at hstripped
      exact ⟨e, _, hentry, prune_of_fault hdir hwf hfew hempty hroot (hfault.trans hstays), hstripped,
        fun _ => by simp⟩
    | false =>
      obtain ⟨owner, rootDirectory', e', target, hfind', htarget, hname, hkind, hleaf⟩ :=
        isLeaf_of_child? h.linked hchild' hdir hempty
      obtain rfl : rootDirectory = rootDirectory' := by
        have hagain := hrootDirectory.symm.trans hleaf.directory?
        injection hagain
      obtain rfl : e = e' := by
        have hagain := hfind.symm.trans hfind'
        injection hagain
      exact ⟨e, _, hentry, prune_of_empty hdir hwf hfew hempty hroot h.linked hleaf hname hkind
        (hfault.trans hstays), h.cleared.stripped_detach hsame hleaf htarget hkind hstays,
        fun _ => by simp⟩

theorem bulkDirectory?_eq (henabled : volume.attributesEnabled = true)
    (hprivate : object.isPrivate = false) (hformat : object.format ≠ .legacy)
    (hdir : volume.directory? object.stat.key = some dir) :
    bulkDirectory? object.stat volume = .ok (some dir) (volume.opened object.stat.key dir) := by
  have hprivate' : object.stat.isPrivate = false := hprivate
  have hlegacy : object.stat.isLegacy = false := by
    simpa [ObjectStat.isLegacy, MemObject.stat] using hformat
  simp [bulkDirectory?, hprivate', hlegacy, henabled, attempt, openDirectory_found hdir]

theorem deleteAttributes_eq {found visited pruned : Volume MemStore} {verdict last : Except Error Unit}
    (hobject : volume.store.object? obj = some object)
    (hbulk : bulkDirectory? object.stat volume = .ok (some dir) found)
    (hvisit : visitEntries dir (removeEntry dir) found = ofExcept verdict visited)
    (hprune : Volume.prune object.stat dir visited = ofExcept last pruned) :
    deleteAttributes obj volume = ofExcept (verdict >>= fun _ => last) pruned := by
  have hattempt {act : Action (Volume MemStore) Unit} {s s' : Volume MemStore}
      {result : Except Error Unit} (h : act s = ofExcept result s') :
      act.attempt s = .ok result s' := by
    unfold attempt
    rw [h]
    cases result <;> rfl
  rw [deleteAttributes_eq_onAttrDirectory, onAttrDirectory_found hobject hbulk]
  simp only [emptyDirectory, bind_apply, hattempt hvisit, hattempt hprune]
  cases verdict <;> cases last <;> rfl

theorem deleteAttributes_strips {ops : List Op}
    (hspares : SparesEntries ops (initial pageSize format hpage options capacity))
    (hrun : run ops (initial pageSize format hpage options capacity) = volume)
    (htree : volume.store.IsTree) (henabled : volume.attributesEnabled = true)
    (hobject : volume.store.object? obj = some object) (hprivate : object.isPrivate = false)
    (hformat : object.format ≠ .legacy) (hroot : volume.attrRoot? = some root)
    (hchild : volume.store.child? root object.stat.key.text = some dir)
    (hdir : volume.store.directory? dir = some d) (hbound : d.nextOffset ≤ 2 ^ 63) :
    let listed := (d.ordinary.filter (·.visible)).reverse
    let gone := (listed.takeWhile fun e => !volume.store.namesForeign e).filter volume.store.namesOwn
    let emptied := (d.without gone).isEmpty
    let rest := (deleteAttributes obj).after volume
    ((deleteAttributes obj).result volume =
        if listed.any volume.store.namesForeign then .error entryNotPrivate
        else if emptied && volume.store.rmdirFault then .error injectedRmdirFault
        else .ok ())
      ∧ (∃ e, (volume.store.directory? root).bind (·.find? object.stat.key.text) = some e
        ∧ volume.store.Stripped root dir e gone emptied rest.store)
      ∧ (emptied = true → rest.cache.peek? object.stat.key = none)
      ∧ (rest.store.object? dir = none ∧ rest.cache.peek? object.stat.key = none
        ↔ emptied = true ∧ volume.store.rmdirFault = false) := by
  have hlinked : volume.store.Linked := hrun ▸ linked_run ops (linked_empty ..)
  have hcoherent : volume.Coherent := hrun ▸ (run_uncached coherent_initial hspares).2.2
  have hunlocked : volume.IsUnlocked := hrun ▸ isUnlocked_run ops rfl
  have hwhole : volume.store.Whole := ⟨htree.root, htree.entry_target⟩
  obtain ⟨parent, hwf, _⟩ := hlinked.placed hdir
  have hlisted : d.visibleFrom Directory.lastOffset = (d.ordinary.filter (·.visible)).reverse := by
    rw [Directory.visibleFrom, Directory.upTo_lastOffset hwf hbound]
  have hne : dir ≠ rootId := by
    obtain ⟨rootDirectory, hrootDirectory⟩ := hwhole.root
    rintro rfl
    exact hlinked.child?_ne_root hrootDirectory object.stat.key.isDots_text hchild
  have hfound := hcoherent.directory?_eq hroot hchild
  have hstore : (volume.opened object.stat.key dir).store = volume.store := store_opened ..
  obtain ⟨now, hvisit, hclearing⟩ := @visitEntries_removeEntry (volume.opened object.stat.key dir)
    dir d ((locks_opened ..).trans hunlocked) (hstore ▸ hlinked) (hstore ▸ hwhole) (hstore ▸ hdir) hne
  rw [hstore, hlisted] at hvisit hclearing
  obtain ⟨e, last, hentry, hprune, hstripped, hforgotten⟩ :=
    @Clearing.prune { volume.opened object.stat.key dir with store := now } root dir d _ _ hclearing
      hlinked (fun _ => namesOwn_of_mem_removable) hbound
      (hcoherent.attrRoot?_opened hroot _ _ now) _ hchild
  have hbulk := bulkDirectory?_eq henabled hprivate hformat hfound
  have heq := deleteAttributes_eq hobject hbulk hvisit hprune
  intro listed gone emptied rest
  have hrest : rest = last := after_of_ofExcept heq
  have hgone : rest.store.object? dir = none ↔ emptied = true ∧ volume.store.rmdirFault = false := by
    obtain ⟨target, htarget, _⟩ := directory?_eq_some_iff.mp hdir
    rw [hrest, hstripped.object?_dir, htarget]
    change (if emptied && !volume.store.rmdirFault then _ else _) = none ↔ _
    cases emptied <;> cases volume.store.rmdirFault <;> simp
  refine ⟨?_, ⟨e, hentry, hrest ▸ hstripped⟩, fun h => hrest ▸ hforgotten h, ?_⟩
  . rw [result_of_ofExcept heq, clearingVerdict]
    split <;> rfl
  . rw [hgone]
    exact and_iff_left_of_imp fun h => hrest ▸ hforgotten h.1

def crowded : List Op :=
  [.mount ⟨false⟩, .store (.create 1 "f" 0o644), .writeValue 3 "user.a" [1] .none,
    .writeValue 3 "user.b" [2] .none, .store (.link 3 5 "f"), .store (.mkdir 5 "sub" 0o700),
    .writeValue 3 "user.c" [3] .none, .store (.link 6 5 "again"), .writeValue 3 "user.d" [4] .none,
    .store (.setVisible 5 "user.d" false), .store (.planMoves 2)]

theorem deleteAttributes_strips_crowded :
    let volume := run crowded (initial 16 .current (by decide) .optional 64)
    SparesEntries crowded (initial 16 .current (by decide) .optional 64) ∧ volume.store.IsTree
      ∧ volume.attributesEnabled = true ∧ volume.attrRoot? = some 4
      ∧ (deleteAttributes 3).result volume = .error entryNotPrivate
      ∧ ∃ e, volume.store.Stripped 4 5 e [⟨8, "again", 6, true⟩, ⟨7, "user.c", 9, true⟩] false
        ((deleteAttributes 3).after volume).store := by
  intro volume
  have hspares : SparesEntries crowded (initial 16 .current (by decide) .optional 64) := by
    refine sparesEntries_of_all (linked_empty ..) ?_
    simp [crowded, Op.All, MemStore.Op.SparesDirectory]
  have htree : volume.store.IsTree := by
    refine isTree_run ?_
    simp [crowded, Op.All, MemStore.Op.SparesLinks]
  have henabled : volume.attributesEnabled = true := by decide +kernel
  have hroot : volume.attrRoot? = some 4 := by decide +kernel
  obtain ⟨object, hobject⟩ := Option.isSome_iff_exists.mp
    (show (volume.store.object? 3).isSome = true by decide +kernel)
  obtain ⟨d, hdir⟩ := Option.isSome_iff_exists.mp
    (show (volume.store.directory? 5).isSome = true by decide +kernel)
  have hfacts : (volume.store.object? 3).all (fun object => object.isPrivate = false
        ∧ object.format ≠ .legacy ∧ volume.store.child? 4 object.stat.key.text = some 5) = true := by
    decide +kernel
  have hentries : (volume.store.directory? 5).all (fun d => d.nextOffset ≤ 2 ^ 63
        ∧ (d.ordinary.filter (·.visible)).reverse.any volume.store.namesForeign = true
        ∧ (((d.ordinary.filter (·.visible)).reverse.takeWhile
            fun e => !volume.store.namesForeign e).filter volume.store.namesOwn) =
          [⟨8, "again", 6, true⟩, ⟨7, "user.c", 9, true⟩]
        ∧ (d.without [⟨8, "again", 6, true⟩, ⟨7, "user.c", 9, true⟩]).isEmpty = false) = true := by
    decide +kernel
  rw [hobject, Option.all_some, decide_eq_true_eq] at hfacts
  rw [hdir, Option.all_some, decide_eq_true_eq] at hentries
  obtain ⟨hprivate, hformat, hchild⟩ := hfacts
  obtain ⟨hbound, hforeign, hgone, hleft⟩ := hentries
  obtain ⟨hresult, ⟨e, _, hstripped⟩, _⟩ := deleteAttributes_strips hspares rfl htree henabled hobject
    hprivate hformat hroot hchild hdir hbound
  rw [hforeign] at hresult
  rw [hgone, hleft] at hstripped
  exact ⟨hspares, htree, henabled, hroot, hresult, e, hstripped⟩

end Effect

end Volume

end AttrTree
