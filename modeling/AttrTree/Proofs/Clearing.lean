import AttrTree.Attribute.Bulk
import AttrTree.Proofs.PrivateSteps
import AttrTree.Proofs.Tree
import AttrTree.Proofs.Turns
import Mathlib.Data.List.TakeWhile

/-!
This module contains what is removed from a directory when everything is to be removed, whatever its
entries name. A scan comes upon the visible entries, the last one first. Files of the private tree
lose the entry, subdirectories are passed over, and the first file that is not part of the private
tree ends the scan.
-/

namespace AttrTree

namespace Directory

variable {d : Directory} {id parent : ObjectId} {gone : List DirEntry} {e : DirEntry} {position : Nat}

def visibleFrom (d : Directory) (position : Nat) : List DirEntry :=
  ((d.upTo position).filter (·.visible)).reverse

def without (d : Directory) (gone : List DirEntry) : Directory :=
  { d with
    entries := d.entries.filter fun e => e ∉ gone
    version := d.version + gone.length }

@[simp]
theorem without_nil (d : Directory) : d.without [] = d := by
  simp [without]

theorem ordinary_without (d : Directory) (gone : List DirEntry) :
    (d.without gone).ordinary = d.ordinary.filter fun e => e ∉ gone := by
  simp only [ordinary, without, List.filter_filter, Bool.and_comm]

theorem upTo_without (hbehind : ∀ e ∈ gone, position < e.offset) :
    (d.without gone).upTo position = d.upTo position := by
  rw [upTo, upTo, ordinary_without, List.filter_filter]
  apply List.filter_congr
  intro e _
  have hstays (hle : e.offset ≤ position) : e ∉ gone := by
    intro hmem
    have := hbehind e hmem
    omega
  by_cases hle : e.offset ≤ position
  . simp [hle, hstays hle]
  . simp [hle]

theorem remove_without (hwf : d.WellFormed id parent) (he : e ∈ d.ordinary) :
    (d.without gone).remove e.offset = d.without (gone ++ [e]) := by
  have hentries : (d.entries.filter fun e' => e' ∉ gone).filter (·.offset != e.offset)
      = d.entries.filter fun e' => e' ∉ gone ++ [e] := by
    rw [List.filter_filter]
    apply List.filter_congr
    intro e' he'
    have hiff : e'.offset = e.offset ↔ e' = e :=
      ⟨hwf.eq_of_offset he' (mem_entries_of_mem_ordinary he), fun heq => by rw [heq]⟩
    by_cases heq : e' = e
    . simp [heq]
    . have hoffset : e'.offset ≠ e.offset := heq ∘ hiff.mp
      simp [heq, hoffset]
  rw [remove, without, without, hentries, List.length_append, List.length_singleton]
  rfl

theorem visibleFrom_eq_cons (hwf : d.WellFormed id parent) {front later : List DirEntry}
    (hupTo : d.upTo position = front ++ e :: later) (hvisible : e.visible = true)
    (hhidden : ∀ e' ∈ later, e'.visible = false) :
    d.visibleFrom position = e :: d.visibleFrom (e.offset - 1) := by
  have hlater : later.filter (·.visible) = [] := by
    simpa using hhidden
  rw [visibleFrom, visibleFrom, upTo_before hwf hupTo, hupTo, List.filter_append,
    List.filter_cons_of_pos hvisible, hlater]
  simp

end Directory

namespace MemStore

variable {store now : MemStore} {dir x : ObjectId} {d : Directory} {gone es : List DirEntry}
  {e : DirEntry} {object owner target : MemObject}

def namesOwn (store : MemStore) (e : DirEntry) : Bool :=
  (store.object? e.target).any fun object => !object.body.isDirectory && object.isPrivate

def namesForeign (store : MemStore) (e : DirEntry) : Bool :=
  (store.object? e.target).any fun object => !object.body.isDirectory && !object.isPrivate

def removable (store : MemStore) (es : List DirEntry) : List DirEntry :=
  (es.takeWhile fun e => !store.namesForeign e).filter store.namesOwn

theorem removable_cons_of_foreign (h : store.namesForeign e = true) :
    store.removable (e :: es) = [] := by
  simp [removable, h]

theorem removable_append (h : ∀ e ∈ es, store.namesForeign e = false) (later : List DirEntry) :
    store.removable (es ++ later) = store.removable es ++ store.removable later := by
  have hall : ∀ e ∈ es, (!store.namesForeign e) = true := by
    simpa using h
  have hself := List.takeWhile_eq_self_iff.mpr hall
  rw [removable, removable, removable, List.takeWhile_append_of_pos hall, List.filter_append, hself]

theorem namesOwn_of_mem_removable (h : e ∈ store.removable es) : store.namesOwn e = true :=
  List.of_mem_filter h

theorem mem_of_mem_removable (h : e ∈ store.removable es) : e ∈ es :=
  (List.takeWhile_sublist _).subset (List.mem_of_mem_filter h)

def losing (links : Nat) (object : MemObject) : Option MemObject :=
  if links = 0 then some object
  else if object.nlink ≤ links then none
  else some (withNlink (· - links) object)

theorem losing_one (hkind : target.body.isDirectory = false) {links : Nat}
    (h : losing links object = some target) : unlinked? target = losing (links + 1) object := by
  unfold losing at h
  unfold losing unlinked?
  simp only [hkind, Bool.false_or, Nat.add_one_ne_zero, if_false, decide_eq_true_eq]
  split at h
  . next hzero =>
    cases h
    rw [hzero]
  . split at h
    . cases h
    . next hmore =>
      cases h
      rw [nlink_withNlink]
      by_cases hlast : object.nlink ≤ links + 1
      . rw [if_pos (by omega), if_pos hlast]
      . rw [if_neg (by omega), if_neg hlast]
        simp only [withNlink, Nat.sub_sub]

theorem detach_eq (store : MemStore) (parent : ObjectId) (e : DirEntry) (target : MemObject) :
    store.detach parent e target =
      { store with objects := (store.detach parent e target).objects } := by
  unfold detach
  split <;> rfl

structure Cleared (store : MemStore) (dir : ObjectId) (gone : List DirEntry) (now : MemStore) :
    Prop where
  object?_dir : now.object? dir = (store.object? dir).map (·.mapDirectory (·.without gone))
  object?_of_ne : ∀ x, x ≠ dir →
    now.object? x = (store.object? x).bind (losing (gone.countP (·.target == x)))
  rest_eq : now = { store with objects := now.objects, pendingMoves := now.pendingMoves }

namespace Cleared

theorem refl (store : MemStore) (dir : ObjectId) : store.Cleared dir [] store where
  object?_dir := by
    have hsame (object : MemObject) : object.mapDirectory (·.without []) = object := by
      unfold MemObject.mapDirectory
      split
      . rfl
      . next hbody => simp [← hbody]
    simp only [hsame, Option.map_id']
  object?_of_ne x _ := by
    cases store.object? x <;> rfl
  rest_eq := rfl

theorem withMoves (h : store.Cleared dir gone now) (moves : Nat) :
    store.Cleared dir gone { now with pendingMoves := moves } where
  object?_dir := h.object?_dir
  object?_of_ne := h.object?_of_ne
  rest_eq := by
    rw [h.rest_eq]

theorem directory? (h : store.Cleared dir gone now) (hdir : store.directory? dir = some d) :
    now.directory? dir = some (d.without gone) := by
  obtain ⟨object, hobject, hbody⟩ := directory?_eq_some_iff.mp hdir
  unfold MemStore.directory?
  rw [h.object?_dir, hobject, Option.map_some, MemObject.mapDirectory_of_directory hbody]
  rfl

theorem alike (h : store.Cleared dir gone now) (htarget : now.object? x = some target) :
    ∃ object, store.object? x = some object
      ∧ object.body.isDirectory = target.body.isDirectory ∧ object.isPrivate = target.isPrivate := by
  by_cases hx : x = dir
  . subst hx
    rw [h.object?_dir, Option.map_eq_some_iff] at htarget
    obtain ⟨object, hobject, rfl⟩ := htarget
    exact ⟨object, hobject, (MemObject.isDirectory_mapDirectory ..).symm,
      (MemObject.isPrivate_mapDirectory ..).symm⟩
  . rw [h.object?_of_ne x hx, Option.bind_eq_some_iff] at htarget
    obtain ⟨object, hobject, hleft⟩ := htarget
    refine ⟨object, hobject, ?_⟩
    unfold losing at hleft
    split at hleft
    . cases hleft
      exact ⟨rfl, rfl⟩
    . split at hleft
      . cases hleft
      . cases hleft
        exact ⟨rfl, rfl⟩

theorem namesForeign_eq (h : store.Cleared dir gone now)
    (htarget : now.object? e.target = some target) :
    store.namesForeign e = (!target.body.isDirectory && !target.isPrivate) := by
  obtain ⟨object, hobject, hkind, hprivate⟩ := h.alike htarget
  simp [namesForeign, hobject, hkind, hprivate]

theorem namesOwn_eq (h : store.Cleared dir gone now)
    (htarget : now.object? e.target = some target) :
    store.namesOwn e = (!target.body.isDirectory && target.isPrivate) := by
  obtain ⟨object, hobject, hkind, hprivate⟩ := h.alike htarget
  simp [namesOwn, hobject, hkind, hprivate]

theorem object?_of_directory (h : store.Cleared dir gone now)
    (hgone : ∀ e ∈ gone, store.namesOwn e = true) (hne : x ≠ dir)
    (hdir : store.directory? x = some d) : now.object? x = store.object? x := by
  obtain ⟨object, hobject, hbody⟩ := directory?_eq_some_iff.mp hdir
  have hnone : gone.countP (·.target == x) = 0 := by
    rw [List.countP_eq_zero]
    intro e he htarget
    have hown := hgone e he
    rw [namesOwn, beq_iff_eq.mp htarget, hobject] at hown
    simp [hbody, Body.isDirectory] at hown
  rw [h.object?_of_ne x hne, hnone, hobject]
  rfl

theorem detach (h : store.Cleared dir gone now) (hdir : store.directory? dir = some d)
    {parent : ObjectId} (hwf : d.WellFormed dir parent)
    (hleaf : now.IsLeaf dir owner (d.without gone) e target)
    (hkind : target.body.isDirectory = false) :
    store.Cleared dir (gone ++ [e]) (now.detach dir e target) := by
  have he : e ∈ d.ordinary := by
    have hmem := hleaf.mem
    rw [Directory.ordinary_without] at hmem
    exact List.mem_of_mem_filter hmem
  have hafter := hleaf.object?_detach_file hkind
  obtain ⟨object, hobject, hbody⟩ := directory?_eq_some_iff.mp hdir
  constructor
  . have hsame := h.object?_dir
    rw [hleaf.owner_eq, hobject, Option.map_some, MemObject.mapDirectory_of_directory hbody] at hsame
    injection hsame with hsame
    rw [hafter, if_neg hleaf.ne.symm, if_pos rfl, hobject, Option.map_some, MemObject.mapDirectory_of_directory hbody,
      MemObject.mapDirectory_of_directory hleaf.body_eq, Directory.remove_without hwf he, hsame]
  . intro x hx
    rw [hafter, if_neg hx, List.countP_append, List.countP_singleton]
    by_cases hxe : x = e.target
    . subst hxe
      have hold := h.object?_of_ne e.target hx
      rw [hleaf.target_eq] at hold
      obtain ⟨object, hobject, hleft⟩ := Option.bind_eq_some_iff.mp hold.symm
      rw [if_pos rfl, hobject, Option.bind_some, losing_one hkind hleft]
      simp
    . rw [if_neg hxe, h.object?_of_ne x hx]
      simp [Ne.symm hxe]
  . rw [detach_eq, h.rest_eq]

end Cleared

end MemStore

namespace Volume

open Action MemStore

variable {store : MemStore} {dir : ObjectId} {d : Directory} {gone : List DirEntry} {scan : Scan}

def clearingVerdict (store : MemStore) (es : List DirEntry) : Except Error Unit :=
  if es.any store.namesForeign then .error entryNotPrivate else .ok ()

theorem clearingVerdict_cons (store : MemStore) (e : DirEntry) (es : List DirEntry) :
    clearingVerdict store (e :: es) =
      if store.namesForeign e then .error entryNotPrivate else clearingVerdict store es := by
  unfold clearingVerdict
  by_cases h : store.namesForeign e = true <;> simp [h]

def removal (dir : ObjectId) (item : ScanItem) : Action (Volume MemStore × Unit) Unit :=
  onFirst (onStore (removeEntry dir item.name))

theorem removal_eq {item : ScanItem} {s : Volume MemStore × Unit} {result : Except Error Unit}
    {rest : MemStore} (h : removeEntry dir item.name s.1.store = ofExcept result rest) :
    removal dir item s = ofExcept result ({ s.1 with store := rest }, s.2) := by
  obtain ⟨volume, _⟩ := s
  have h : removeEntry dir item.name volume.store = ofExcept result rest := h
  simp only [removal, onFirst, onStore, focus, h]
  cases result <;> rfl

structure Clearing (store : MemStore) (dir : ObjectId) (d : Directory) (gone : List DirEntry)
    (now : MemStore) : Prop where
  cleared : store.Cleared dir gone now
  directory : store.directory? dir = some d
  linked : now.Linked
  whole : now.Whole

namespace Clearing

variable {now : MemStore} {e : DirEntry} {s : Volume MemStore × Unit}

theorem withMoves (h : Clearing store dir d gone now) (moves : Nat) :
    Clearing store dir d gone { now with pendingMoves := moves } where
  cleared := h.cleared.withMoves moves
  directory := h.directory
  linked := h.linked.of_sameLinks (.of_objects_eq rfl rfl)
  whole := h.whole.of_sameLinks (.of_objects_eq rfl rfl)

theorem placed (h : Clearing store dir d gone now) :
    ∃ parent, (d.without gone).WellFormed dir parent := by
  obtain ⟨parent, hwf, _⟩ := h.linked.placed (h.cleared.directory? h.directory)
  exact ⟨parent, hwf⟩

theorem removeEntry (h : Clearing store dir d gone now) {parent : ObjectId}
    (hwf : d.WellFormed dir parent) (he : e ∈ d.ordinary) (hstays : e ∉ gone) :
    ∃ rest, Volume.removeEntry dir e.name now = ofExcept (clearingVerdict store [e]) rest
      ∧ Clearing store dir d (gone ++ store.removable [e]) rest := by
  have hdirectory := h.cleared.directory? h.directory
  obtain ⟨_, hwf'⟩ := h.placed
  have hmem : e ∈ (d.without gone).ordinary := by
    rw [Directory.ordinary_without, List.mem_filter]
    exact ⟨he, by simpa using hstays⟩
  have hfind := hwf'.find?_name (Directory.mem_entries_of_mem_ordinary hmem)
  obtain ⟨target, htarget⟩ := h.whole.target hdirectory e hmem
  have hforeign := h.cleared.namesForeign_eq htarget
  have hown := h.cleared.namesOwn_eq htarget
  cases hkind : target.body.isDirectory with
  | true =>
    simp only [hkind, Bool.not_true, Bool.false_and] at hforeign hown
    refine ⟨now, ?_, ?_⟩
    . rw [removeEntry_directory h.linked hdirectory hfind htarget hkind]
      simp [clearingVerdict, hforeign]
    . simpa [removable, hforeign, hown] using h
  | false =>
    cases hprivate : target.isPrivate with
    | false =>
      simp only [hkind, hprivate, Bool.not_false, Bool.and_true, Bool.and_false] at hforeign hown
      refine ⟨now, ?_, ?_⟩
      . rw [removeEntry_notPrivate h.linked hdirectory hfind htarget hkind hprivate]
        simp [clearingVerdict, hforeign]
      . simpa [removable_cons_of_foreign hforeign] using h
    | true =>
      simp only [hkind, hprivate, Bool.not_false, Bool.not_true, Bool.and_true, Bool.and_false]
        at hforeign hown
      obtain ⟨owner, hleaf⟩ := h.linked.isLeaf hdirectory hfind htarget hkind
      refine ⟨now.detach dir e target, ?_, ?_⟩
      . rw [removeEntry_file h.linked hdirectory hfind htarget hkind hprivate]
        simp [clearingVerdict, hforeign]
      . have hgone : store.removable [e] = [e] := by
          simp [removable, hforeign, hown]
        rw [hgone]
        exact ⟨h.cleared.detach h.directory hwf hleaf hkind, h.directory,
          h.linked.detach hleaf, h.whole.detach h.linked hleaf⟩

theorem nextItem_cases (h : Clearing store dir d gone s.1.store) (base : Volume MemStore) {parent : ObjectId}
    (hwf : d.WellFormed dir parent) (hne : dir ≠ rootId) {position : Nat}
    (hbehind : ∀ e ∈ gone, position < e.offset) :
    (d.visibleFrom position = []
        ∧ ∃ moves scan', nextItem (base.scanAt dir position) s =
          .ok (none, scan') (s.1.withMoves moves, s.2))
      ∨ ∃ e moves, d.visibleFrom position = e :: d.visibleFrom (e.offset - 1)
        ∧ e ∈ d.ordinary ∧ e.offset ≤ position
        ∧ nextItem (base.scanAt dir position) s =
          .ok (some (Scan.itemOf (d.without gone) e), base.scanAt dir (e.offset - 1))
            (s.1.withMoves moves, s.2) := by
  -- What the scan finds next is still there.
  have hdirectory := h.cleared.directory? h.directory
  have hupTo := @Directory.upTo_without d _ _ hbehind
  obtain ⟨parent', hwf'⟩ := h.placed
  have hshows {e : DirEntry} (he : e ∈ d.upTo position) :
      (base.scanAt dir position).shows (d.without gone) e = e.visible := by
    have hmem := (Directory.mem_upTo.mp (hupTo ▸ he)).1
    have hiff := @Scan.shows_iff (base.scanAt dir position) _ _ _ rfl hwf' hmem
    rw [Bool.eq_iff_iff, hiff]
    exact and_iff_left fun hhidden => hne hhidden.1
  rcases @Volume.nextItem_cases _ (base.scanAt dir position) _ _ s hdirectory hwf' rfl with
    ⟨moves, scan', hnext, hhidden⟩ | ⟨front, e, later, moves, hsplit, hshown, hhidden, hnext⟩
  . refine .inl ⟨?_, moves, scan', hnext⟩
    rw [Directory.visibleFrom, List.reverse_eq_nil_iff, List.filter_eq_nil_iff]
    intro e he
    rw [← hshows he, hhidden e (hupTo ▸ he)]
    exact Bool.false_ne_true
  . have hsplit : d.upTo position = front ++ e :: later := hupTo ▸ hsplit
    have hmem {e' : DirEntry} (he' : e' ∈ e :: later) : e' ∈ d.upTo position := by
      rw [hsplit]
      exact List.mem_append_right _ he'
    have he := hmem List.mem_cons_self
    obtain ⟨hordinary, hle⟩ := Directory.mem_upTo.mp he
    refine .inr ⟨e, moves, ?_, hordinary, hle, hnext⟩
    apply Directory.visibleFrom_eq_cons hwf hsplit
    . exact hshows he ▸ hshown
    . intro e' he'
      rw [← hshows (hmem (List.mem_cons_of_mem _ he'))]
      exact hhidden e' he'

theorem visitItems (h : Clearing store dir d gone s.1.store) (base : Volume MemStore) {parent : ObjectId}
    (hwf : d.WellFormed dir parent) (hne : dir ≠ rootId) {position fuel : Nat}
    (hbehind : ∀ e ∈ gone, position < e.offset) (hfuel : position < fuel) :
    ∃ rest, Volume.visitItems (removal dir) fuel (base.scanAt dir position) s =
        ofExcept (clearingVerdict store (d.visibleFrom position)) ({ s.1 with store := rest }, s.2)
      ∧ Clearing store dir d (gone ++ store.removable (d.visibleFrom position)) rest := by
  induction fuel generalizing position gone s with
  | zero => omega
  | succ fuel ih =>
    rcases h.nextItem_cases base hwf hne hbehind with
      ⟨hnone, moves, scan', hnext⟩ | ⟨e, moves, hcons, he, hle, hnext⟩
    . refine ⟨{ s.1.store with pendingMoves := moves }, ?_, ?_⟩
      . rw [hnone, Volume.visitItems, bind_apply, hnext]
        rfl
      . simpa [hnone, removable] using h.withMoves moves
    . have hfirst := Directory.first_le_of_mem_ordinary he
      have hpos : 0 < e.offset := Nat.lt_of_lt_of_le (by decide) hfirst
      have hstays : e ∉ gone := fun hgone => Nat.not_lt.mpr hle (hbehind e hgone)
      obtain ⟨now, hremove, hnow⟩ := (h.withMoves moves).removeEntry hwf he hstays
      have hvisit : removal dir (Scan.itemOf (d.without gone) e) (s.1.withMoves moves, s.2) =
          ofExcept (clearingVerdict store [e]) ({ s.1 with store := now }, s.2) := by
        rw [@removal_eq dir (Scan.itemOf (d.without gone) e) (s.1.withMoves moves, s.2) _ now hremove]
        rfl
      rw [hcons, clearingVerdict_cons, Volume.visitItems, bind_apply, hnext]
      simp only [bind_apply, hvisit]
      cases hforeign : store.namesForeign e with
      | true =>
        rw [removable_cons_of_foreign hforeign] at hnow ⊢
        rw [clearingVerdict_cons, hforeign]
        exact ⟨now, rfl, hnow⟩
      | false =>
        have hbehind' : ∀ e' ∈ gone ++ store.removable [e], e.offset - 1 < e'.offset := by
          intro e' he'
          rcases List.mem_append.mp he' with hgone | hone
          . have := hbehind e' hgone
            omega
          . rw [List.mem_singleton.mp (mem_of_mem_removable hone)]
            omega
        obtain ⟨rest, hrest, hend⟩ :=
          ih (s := ({ s.1 with store := now }, s.2)) hnow hbehind' (by omega)
        rw [clearingVerdict_cons, hforeign]
        refine ⟨rest, hrest, ?_⟩
        have hsplit := removable_append (List.forall_mem_singleton.mpr hforeign)
          (d.visibleFrom (e.offset - 1))
        rw [List.append_assoc, ← hsplit] at hend
        exact hend

end Clearing

end Volume

end AttrTree
