import AttrTree.Proofs.Deletion

/-!
This module contains what a change of owner does to the attributes of an object, whatever has been
put into the directory of the object. It reaches the directory and the files that visible entries of
the directory name, and of these it changes nothing but the owner, the group and the time of change.
-/

namespace AttrTree

namespace FieldMask

theorem has_inter (a : FieldMask) {b c : FieldMask} (hbc : b.bits &&& c.bits = c.bits) :
    (a.inter b).has c = a.has c := by
  simp only [has, inter, UInt32.and_assoc, hbc]

end FieldMask

namespace MemObject

def owned (change : AttrChange) (object : MemObject) : MemObject :=
  { object with
    uid := if change.fields.has .uid then change.uid else object.uid
    gid := if change.fields.has .gid then change.gid else object.gid
    ctime := if change.fields.has .ctime then change.ctime else object.ctime }

variable (change : AttrChange) (object : MemObject)

theorem owned_owned : (object.owned change).owned change = object.owned change := by
  simp only [owned]
  cases change.fields.has .uid <;> cases change.fields.has .gid <;>
    cases change.fields.has .ctime <;> rfl

theorem apply_ownership : object.apply (change.restricted .ownership) = object.owned change := by
  have huid := change.fields.has_inter (b := .ownership) (c := .uid) (by decide)
  have hgid := change.fields.has_inter (b := .ownership) (c := .gid) (by decide)
  have hctime := change.fields.has_inter (b := .ownership) (c := .ctime) (by decide)
  have hsize := change.fields.not_has_inter (b := .ownership) (c := .size) (by decide) (by decide)
  have hmode := change.fields.not_has_inter (b := .ownership) (c := .mode) (by decide) (by decide)
  simp [apply, owned, AttrChange.restricted, huid, hgid, hctime, hsize, hmode]

end MemObject

namespace MemStore

variable {store now : MemStore} {dir x : ObjectId} {d : Directory} {ids : List ObjectId}
  {e : DirEntry} {es : List DirEntry} {change : AttrChange} {target : MemObject}

def namesFile (store : MemStore) (e : DirEntry) : Bool :=
  (store.object? e.target).any fun object => !object.body.isDirectory

def filesOf (store : MemStore) (es : List DirEntry) : List ObjectId :=
  (es.filter store.namesFile).map (·.target)

theorem filesOf_append (es later : List DirEntry) :
    store.filesOf (es ++ later) = store.filesOf es ++ store.filesOf later := by
  simp [filesOf]

def passedOn (store : MemStore) (ids : List ObjectId) (change : AttrChange) : MemStore :=
  { store with objects := store.objects.map fun object =>
      if object.id ∈ ids then object.owned change else object }

theorem passedOn_nil (store : MemStore) (change : AttrChange) : store.passedOn [] change = store := by
  simp [passedOn]

theorem passedOn_congr {ids' : List ObjectId} (h : ∀ x, x ∈ ids ↔ x ∈ ids') :
    store.passedOn ids change = store.passedOn ids' change := by
  simp only [passedOn, h]

theorem passedOn_passedOn (store : MemStore) (ids ids' : List ObjectId) (change : AttrChange) :
    (store.passedOn ids change).passedOn ids' change = store.passedOn (ids ++ ids') change := by
  simp only [passedOn, List.map_map]
  congr 1
  apply List.map_congr_left
  intro object _
  have hid : (object.owned change).id = object.id := rfl
  by_cases hmem : object.id ∈ ids <;> by_cases hmem' : object.id ∈ ids' <;>
    simp [hmem, hmem', hid, MemObject.owned_owned]

theorem changed_ownership (store : MemStore) (id : ObjectId) (change : AttrChange) :
    store.changed id (change.restricted .ownership) = store.passedOn [id] change := by
  simp only [changed, mapObject, passedOn, MemObject.apply_ownership, List.mem_singleton]

theorem object?_passedOn (store : MemStore) (ids : List ObjectId) (change : AttrChange)
    (x : ObjectId) : (store.passedOn ids change).object? x =
      (store.object? x).map fun object => if x ∈ ids then object.owned change else object := by
  have hid : (fun object => object.id == x) ∘ (fun object : MemObject =>
      if object.id ∈ ids then object.owned change else object) = fun object => object.id == x := by
    funext object
    simp only [Function.comp_apply]
    split <;> rfl
  rw [passedOn, object?, List.find?_map, hid]
  change Option.map _ (store.object? x) = _
  cases hobject : store.object? x with
  | none => rfl
  | some object => rw [Option.map_some, Option.map_some, id_of_object? hobject]

theorem directory?_passedOn (store : MemStore) (ids : List ObjectId) (change : AttrChange)
    (x : ObjectId) : (store.passedOn ids change).directory? x = store.directory? x := by
  rw [directory?, directory?, object?_passedOn]
  cases store.object? x with
  | none => rfl
  | some object =>
    simp only [Option.map_some, Option.bind_some]
    split <;> rfl

theorem namesFile_passedOn (store : MemStore) (ids : List ObjectId) (change : AttrChange)
    (e : DirEntry) : (store.passedOn ids change).namesFile e = store.namesFile e := by
  rw [namesFile, namesFile, object?_passedOn]
  cases store.object? e.target with
  | none => rfl
  | some object =>
    simp only [Option.map_some, Option.any_some]
    split <;> rfl

theorem Whole.passedOn (h : store.Whole) (ids : List ObjectId) (change : AttrChange) :
    (store.passedOn ids change).Whole where
  root := by
    simp only [directory?_passedOn]
    exact h.root
  target := by
    intro id d hdir e he
    rw [directory?_passedOn] at hdir
    obtain ⟨object, hobject⟩ := h.target hdir e he
    simp [object?_passedOn, hobject]

structure Passing (store : MemStore) (dir : ObjectId) (d : Directory) (change : AttrChange)
    (ids : List ObjectId) (now : MemStore) : Prop where
  eq : now = { store.passedOn ids change with pendingMoves := now.pendingMoves }
  directory : store.directory? dir = some d
  linked : now.Linked
  whole : now.Whole

namespace Passing

theorem refl (hdir : store.directory? dir = some d) (hlinked : store.Linked)
    (hwhole : store.Whole) : store.Passing dir d change [] store :=
  ⟨by rw [passedOn_nil], hdir, hlinked, hwhole⟩

theorem withMoves (h : store.Passing dir d change ids now) (moves : Nat) :
    store.Passing dir d change ids { now with pendingMoves := moves } where
  eq := by
    rw [h.eq]
  directory := h.directory
  linked := h.linked.of_sameLinks (.of_objects_eq rfl rfl)
  whole := h.whole.of_sameLinks (.of_objects_eq rfl rfl)

theorem directory? (h : store.Passing dir d change ids now) : now.directory? dir = some d := by
  rw [h.eq, ← h.directory, ← directory?_passedOn store ids change]
  rfl

theorem namesFile_eq (h : store.Passing dir d change ids now)
    (htarget : now.object? e.target = some target) :
    store.namesFile e = !target.body.isDirectory := by
  have hsame : now.namesFile e = store.namesFile e := by
    rw [h.eq, ← namesFile_passedOn store ids change]
    rfl
  rw [← hsame, namesFile, htarget, Option.any_some]

theorem changed (h : store.Passing dir d change ids now) (x : ObjectId) :
    store.Passing dir d change (ids ++ [x]) (now.changed x (change.restricted .ownership)) := by
  have hsame : now.SameLinks (now.changed x (change.restricted .ownership)) :=
    .mapObject h.linked.ids_distinct (fun _ => rfl) fun object _ => sameLinks_apply _ object
  refine ⟨?_, h.directory, h.linked.of_sameLinks hsame, h.whole.of_sameLinks hsame⟩
  rw [changed_ownership, ← passedOn_passedOn]
  conv_lhs => rw [h.eq]
  rfl

end Passing

end MemStore

namespace Scan

open Action MemStore

variable {store : MemStore} {scan : Scan} {d : Directory} {parent : ObjectId}

theorem pendingMoves_advance (hdir : store.directory? scan.dir = some d)
    (hwf : d.WellFormed scan.dir parent) {fuel : Nat}
    (hfuel : scan.position + store.pendingMoves < fuel) {item : Option ScanItem}
    {s : MemStore × Scan} (h : advance fuel (store, scan) = .ok item s) :
    s.1.pendingMoves =
      if (d.upTo scan.position).any (·.visible) then 0 else store.pendingMoves := by
  -- An entry that is visible is looked at until no more moves are planned.
  induction fuel generalizing store scan with
  | zero => omega
  | succ fuel ih =>
    have hlooked := @looked store scan d parent hdir hwf
    generalize hlook : look scan store = result at hlooked
    cases hlooked with
    | done hnil =>
      rw [advance_done hlook] at h
      cases h
      simp [hnil]
    | @pass rest e hupTo _ hread =>
      have hless := position_moveBefore_lt hupTo
      have hpred : d.upTo (scan.moveBefore e.offset).position = rest := Directory.upTo_pred hwf hupTo
      rw [advance_pass hlook] at h
      have hrest := @ih store (scan.moveBefore e.offset) hdir hwf (by omega) h
      rw [hrest, hpred, hupTo, List.any_append, List.any_cons, List.any_nil, Bool.or_false]
      cases hvisible : e.visible with
      | false => rw [Bool.or_false]
      | true => rw [hread hvisible, ite_self, ite_self]
    | item _ _ hread =>
      rw [advance_item hlook] at h
      cases h
      simp [hread]
    | @moved rest e moves hupTo hvisible _ =>
      rw [advance_moved hlook] at h
      have hrest := @ih { store with pendingMoves := moves } scan hdir hwf (by simp only; omega) h
      rw [hrest, hupTo, List.any_append, List.any_cons, hvisible]
      simp

end Scan

namespace Volume

open Action MemStore

variable {β : Type} {volume : Volume MemStore} {store now : MemStore} {obj root dir : ObjectId}
  {d : Directory} {ids : List ObjectId} {e : DirEntry} {change : AttrChange} {scan : Scan}
  {parent : ObjectId} {object : MemObject} {pageSize : Nat} {format : ObjectFormat}
  {hpage : Record.headerSize < pageSize} {options : MountOptions} {capacity : Nat}

section Loop

theorem isEmpty_visibleFrom (d : Directory) (position : Nat) :
    (d.visibleFrom position).isEmpty = !(d.upTo position).any (·.visible) := by
  rw [Directory.visibleFrom, List.isEmpty_reverse, Bool.eq_iff_iff]
  simp

theorem moves_of_nextItem {base : Volume MemStore} {s : Volume MemStore × β} {position moves : Nat}
    {found : Option ScanItem × Scan} (hdir : s.1.store.directory? dir = some d)
    (hwf : d.WellFormed dir parent)
    (h : nextItem (base.scanAt dir position) s = .ok found (s.1.withMoves moves, s.2)) :
    moves = if (d.visibleFrom position).isEmpty then s.1.store.pendingMoves else 0 := by
  let scan := base.scanAt dir position
  have hfuel : scan.position + s.1.store.pendingMoves < scan.fuel s.1.store := Nat.lt_succ_self _
  have hfinished : scan.finished = false := rfl
  change nextItem scan s = _ at h
  unfold nextItem Scan.next at h
  simp only [hfinished, Bool.false_eq_true, if_false] at h
  cases hadvance : Scan.advance (scan.fuel s.1.store) (s.1.store, scan) with
  | error err t =>
    rw [hadvance] at h
    cases h
  | ok item t =>
    have hmoves := Scan.pendingMoves_advance hdir hwf hfuel hadvance
    have hstore : t.1 = { s.1.store with pendingMoves := moves } := by
      rw [hadvance] at h
      cases item <;> injection h with _ h <;> injection h with h _ <;> exact congrArg (·.store) h
    rw [hstore] at hmoves
    rw [isEmpty_visibleFrom]
    cases hany : (d.upTo position).any (·.visible) <;> simpa [scan, scanAt, hany] using hmoves

def chowning (dir : ObjectId) (change : AttrChange) (item : ScanItem) :
    Action (Volume MemStore × Unit) Unit :=
  onFirst (onStore (chownEntry dir change item.name))

theorem chownEntry_passing (h : store.Passing dir d change ids now) (hwf : d.WellFormed dir parent)
    (he : e ∈ d.ordinary) :
    ∃ rest, chownEntry dir (change.restricted .ownership) e.name now = .ok () rest
      ∧ rest.pendingMoves = now.pendingMoves
      ∧ store.Passing dir d change (ids ++ store.filesOf [e]) rest := by
  have hsize : (change.restricted .ownership).fields.has .size = false :=
    FieldMask.not_has_inter _ (by decide) (by decide)
  have hfind := hwf.find?_name (Directory.mem_entries_of_mem_ordinary he)
  obtain ⟨target, htarget⟩ := h.whole.target h.directory? e he
  have hkind := h.linked.isDirectory_stat htarget
  have hfile := h.namesFile_eq htarget
  cases hbody : target.body.isDirectory with
  | true =>
    rw [hbody] at hkind hfile
    refine ⟨now, ?_, rfl, ?_⟩
    . simp [chownEntry, lookup_of_directory? h.directory?, hfind, stat_of_object? htarget, hkind]
    . simpa [filesOf, hfile] using h
  | false =>
    rw [hbody] at hkind hfile
    refine ⟨now.changed e.target (change.restricted .ownership), ?_, rfl, ?_⟩
    . simp [chownEntry, lookup_of_directory? h.directory?, hfind, stat_of_object? htarget, hkind,
        setAttr_eq htarget hsize]
    . simpa [filesOf, hfile] using h.changed e.target

theorem visitItems_chowning {s : Volume MemStore × Unit}
    (h : store.Passing dir d change ids s.1.store) (base : Volume MemStore)
    (hwf : d.WellFormed dir parent) (hne : dir ≠ rootId) {position fuel : Nat}
    (hfuel : position < fuel) :
    ∃ rest, visitItems (chowning dir (change.restricted .ownership)) fuel (base.scanAt dir position) s =
        .ok () ({ s.1 with store := rest }, s.2)
      ∧ store.Passing dir d change (ids ++ store.filesOf (d.visibleFrom position)) rest
      ∧ rest.pendingMoves =
        if (d.visibleFrom position).isEmpty then s.1.store.pendingMoves else 0 := by
  induction fuel generalizing position ids s with
  | zero => omega
  | succ fuel ih =>
    have hdir := h.directory?
    have hclear : Clearing s.1.store dir d [] s.1.store := ⟨.refl .., hdir, h.linked, h.whole⟩
    rcases hclear.nextItem_cases base hwf hne (by simp) with
      ⟨hnone, moves, scan', hnext⟩ | ⟨e, moves, hcons, he, hle, hnext⟩
    . have hmoves := moves_of_nextItem hdir hwf hnext
      have hfiles : store.filesOf [] = [] := rfl
      rw [hnone] at hmoves ⊢
      refine ⟨{ s.1.store with pendingMoves := moves }, ?_, ?_, hmoves⟩
      . rw [visitItems, bind_apply, hnext]
        rfl
      . rw [hfiles, List.append_nil]
        exact h.withMoves moves
    . have hmoves := moves_of_nextItem hdir hwf hnext
      rw [hcons] at hmoves ⊢
      obtain ⟨middle, hvisit, hsame, hmiddle⟩ := chownEntry_passing (h.withMoves moves) hwf he
      have hrun : chowning dir (change.restricted .ownership) (Scan.itemOf (d.without []) e)
          (s.1.withMoves moves, s.2) = .ok () ({ s.1 with store := middle }, s.2) := by
        simp [chowning, onFirst, onStore, focus, Scan.itemOf, withMoves, hvisit]
      have hfirst := Directory.first_le_of_mem_ordinary he
      have hpos : 0 < e.offset := Nat.lt_of_lt_of_le (by decide) hfirst
      have hlower : e.offset - 1 < fuel := by omega
      obtain ⟨rest, hrest, hend, hleft⟩ :=
        ih (s := ({ s.1 with store := middle }, s.2)) hmiddle hlower
      refine ⟨rest, ?_, ?_, ?_⟩
      . rw [visitItems, bind_apply, hnext]
        simp only [bind_apply, hrun]
        exact hrest
      . rw [← List.singleton_append, filesOf_append, ← List.append_assoc]
        exact hend
      . rw [hleft, hsame, hmoves]
        simp

end Loop

section Effect

theorem attributesEnabled_opened (volume : Volume MemStore) (key : ObjectKey) (dir : ObjectId) :
    (volume.opened key dir).attributesEnabled = volume.attributesEnabled := by
  unfold opened
  split <;> rfl

def chowned (store : MemStore) (dir : ObjectId) (d : Directory) (change : AttrChange) : MemStore :=
  { store.passedOn (dir :: store.filesOf (d.ordinary.filter (·.visible))) change with
    pendingMoves := if (d.ordinary.filter (·.visible)).isEmpty then store.pendingMoves else 0 }

theorem chowned_chowned (store : MemStore) (dir : ObjectId) (d : Directory) (change : AttrChange) :
    chowned (chowned store dir d change) dir d change = chowned store dir d change := by
  let listed := d.ordinary.filter (·.visible)
  let ids := dir :: store.filesOf listed
  let moves := if listed.isEmpty then store.pendingMoves else 0
  have hfiles : (chowned store dir d change).filesOf listed = store.filesOf listed := by
    have hnames : (chowned store dir d change).namesFile = store.namesFile :=
      funext (namesFile_passedOn store ids change)
    rw [filesOf, filesOf, hnames]
  have hagain : (store.passedOn ids change).passedOn ids change = store.passedOn ids change := by
    rw [passedOn_passedOn]
    exact passedOn_congr fun x => by simp
  have hmoves : (if listed.isEmpty then moves else 0) = moves := by
    simp only [moves]
    split <;> rfl
  calc chowned (chowned store dir d change) dir d change
    _ = { (chowned store dir d change).passedOn ids change with
          pendingMoves := if listed.isEmpty then moves else 0 } := by
      rw [chowned, hfiles]
      rfl
    _ = { (store.passedOn ids change).passedOn ids change with pendingMoves := moves } := by
      rw [hmoves]
      rfl
    _ = chowned store dir d change := by
      rw [hagain]
      rfl

theorem visitEntries_chowning (hunlocked : volume.IsUnlocked) (hlinked : volume.store.Linked)
    (hwhole : volume.store.Whole) (hdir : volume.store.directory? dir = some d) (hne : dir ≠ rootId)
    (hbound : d.nextOffset ≤ 2 ^ 63) (change : AttrChange) :
    ∃ rest, visitEntries dir (chownEntry dir (change.restricted .ownership)) volume =
        .ok () { volume with store := rest }
      ∧ volume.store.Passing dir d change
        (volume.store.filesOf (d.ordinary.filter (·.visible)).reverse) rest
      ∧ rest.pendingMoves =
        if (d.ordinary.filter (·.visible)).isEmpty then volume.store.pendingMoves else 0 := by
  obtain ⟨parent, hwf, _⟩ := hlinked.placed hdir
  have hlisted : d.visibleFrom Directory.lastOffset = (d.ordinary.filter (·.visible)).reverse := by
    rw [Directory.visibleFrom, Directory.upTo_lastOffset hwf hbound]
  have hfree : volume.locks.lock? dir = some { held := [dir] } := by
    rw [hunlocked]
    rfl
  have hstart : volume.store.Passing dir d change [] volume.store := .refl hdir hlinked hwhole
  obtain ⟨rest, hrun, hpassing, hmoves⟩ := visitItems_chowning
    (s := ({ volume with locks := { held := [dir] } }, ())) hstart volume hwf hne
    (Nat.lt_succ_self Directory.lastOffset)
  rw [hlisted] at hpassing hmoves
  rw [List.isEmpty_reverse] at hmoves
  refine ⟨rest, ?_, hpassing, hmoves⟩
  have hunlock := DirLocks.unlock_of_lock? hfree
  have heach := @forEachEntry_eq _ _ _ (chowning dir (change.restricted .ownership)) volume dir () _ hfree
  unfold chowning at heach hrun
  rw [visitEntries, withSecond, heach, thenAlways, hrun]
  simp [unlockDirectory, hunlock]

structure Chownable (volume : Volume MemStore) (obj root dir : ObjectId) (d : Directory)
    (object : MemObject) : Prop where
  coherent : volume.Coherent
  unlocked : volume.IsUnlocked
  whole : volume.store.Whole
  enabled : volume.attributesEnabled = true
  object? : volume.store.object? obj = some object
  isPrivate : object.isPrivate = false
  format : object.format ≠ .legacy
  attrRoot? : volume.attrRoot? = some root
  child? : volume.store.child? root object.stat.key.text = some dir
  directory? : volume.store.directory? dir = some d
  bound : d.nextOffset ≤ 2 ^ 63

namespace Chownable

theorem ne_rootId (h : volume.Chownable obj root dir d object) : dir ≠ rootId := by
  obtain ⟨rootDirectory, hrootDirectory⟩ := h.whole.root
  rintro rfl
  exact h.coherent.1.child?_ne_root hrootDirectory object.stat.key.isDots_text h.child?

theorem chownAttributes_eq (h : volume.Chownable obj root dir d object) (change : AttrChange) :
    chownAttributes obj change volume =
      .ok () { volume.opened object.stat.key dir with store := chowned volume.store dir d change } := by
  have hsize : (change.restricted .ownership).fields.has .size = false :=
    FieldMask.not_has_inter _ (by decide) (by decide)
  have hfound := h.coherent.directory?_eq h.attrRoot? h.child?
  have hbulk := bulkDirectory?_eq h.enabled h.isPrivate h.format hfound
  have hstore : (volume.opened object.stat.key dir).store = volume.store := store_opened ..
  obtain ⟨now, hvisit, hpassing, hmoves⟩ :=
    @visitEntries_chowning (volume.opened object.stat.key dir) dir d ((locks_opened ..).trans h.unlocked)
      (hstore ▸ h.coherent.1) (hstore ▸ h.whole) (hstore ▸ h.directory?) h.ne_rootId h.bound change
  rw [hstore] at hpassing hmoves
  obtain ⟨owner, howner, _⟩ := directory?_eq_some_iff.mp hpassing.directory?
  have hlast := hpassing.changed dir
  have hids : ∀ x, x ∈ volume.store.filesOf (d.ordinary.filter (·.visible)).reverse ++ [dir] ↔
      x ∈ dir :: volume.store.filesOf (d.ordinary.filter (·.visible)) := by
    intro x
    simp [filesOf, or_comm]
  have hend : now.changed dir (change.restricted .ownership) = chowned volume.store dir d change := by
    rw [hlast.eq, passedOn_congr hids, chowned, ← hmoves]
    rfl
  rw [← hend, chownAttributes_eq_onAttrDirectory, onAttrDirectory_found h.object? hbulk]
  simp [chownDirectory, onStore, focus, hvisit, setAttr_eq howner hsize]

theorem chowned (h : volume.Chownable obj root dir d object) (change : AttrChange) :
    ∃ object', object'.stat.key = object.stat.key ∧ Chownable { volume.opened object.stat.key dir with
        store := Volume.chowned volume.store dir d change } obj root dir d object' := by
  let ids := dir :: volume.store.filesOf (d.ordinary.filter (·.visible))
  have hcoherent : ((Op.chownAttributes obj change).perform.after volume).Coherent :=
    Op.coherent_perform h.coherent (by simp [Op.directSteps])
  have hrun : (Op.chownAttributes obj change).perform volume = _ := h.chownAttributes_eq change
  rw [after_of_ok hrun] at hcoherent
  have hdirectory := directory?_passedOn volume.store ids change
  have hsame : (Volume.chowned volume.store dir d change).object? obj =
      some (if obj ∈ ids then object.owned change else object) := by
    change (volume.store.passedOn ids change).object? obj = _
    rw [object?_passedOn, h.object?, Option.map_some]
  refine ⟨if obj ∈ ids then object.owned change else object, by split <;> rfl, hcoherent,
    (locks_opened ..).trans h.unlocked,
    (h.whole.passedOn ids change).of_sameLinks (.of_objects_eq rfl rfl), ?_, hsame, ?_, ?_,
    h.coherent.attrRoot?_opened h.attrRoot? _ _ _, ?_, (hdirectory dir).trans h.directory?, h.bound⟩
  . exact (attributesEnabled_opened ..).trans h.enabled
  . split <;> exact h.isPrivate
  . split <;> exact h.format
  . have hkey : (if obj ∈ ids then object.owned change else object).stat.key = object.stat.key := by
      split <;> rfl
    rw [hkey, ← h.child?]
    exact child?_congr (hdirectory root) _

end Chownable

theorem chownAttributes_passes_on {ops : List Op}
    (hspares : SparesEntries ops (initial pageSize format hpage options capacity))
    (hrun : run ops (initial pageSize format hpage options capacity) = volume)
    (htree : volume.store.IsTree) (henabled : volume.attributesEnabled = true)
    (hobject : volume.store.object? obj = some object) (hprivate : object.isPrivate = false)
    (hformat : object.format ≠ .legacy) (hroot : volume.attrRoot? = some root)
    (hchild : volume.store.child? root object.stat.key.text = some dir)
    (hdir : volume.store.directory? dir = some d) (hbound : d.nextOffset ≤ 2 ^ 63)
    (change : AttrChange) :
    let listed := d.ordinary.filter (·.visible)
    let reached := dir :: (listed.filter volume.store.namesFile).map (·.target)
    let rest := (chownAttributes obj change).after volume
    (chownAttributes obj change).result volume = .ok ()
      ∧ rest.store = { volume.store with
          objects := volume.store.objects.map fun object =>
            if object.id ∈ reached then
              { object with
                uid := if change.fields.has .uid then change.uid else object.uid
                gid := if change.fields.has .gid then change.gid else object.gid
                ctime := if change.fields.has .ctime then change.ctime else object.ctime }
            else object
          pendingMoves := if listed.isEmpty then volume.store.pendingMoves else 0 }
      ∧ (chownAttributes obj change).result rest = .ok ()
      ∧ ((chownAttributes obj change).after rest).store = rest.store := by
  have hready : volume.Chownable obj root dir d object :=
    { coherent := hrun ▸ (run_uncached coherent_initial hspares).2.2
      unlocked := hrun ▸ isUnlocked_run ops rfl
      whole := ⟨htree.root, htree.entry_target⟩
      enabled := henabled
      object? := hobject
      isPrivate := hprivate
      format := hformat
      attrRoot? := hroot
      child? := hchild
      directory? := hdir
      bound := hbound }
  intro listed reached rest
  have honce := hready.chownAttributes_eq change
  have hrest : rest = _ := after_of_ok honce
  obtain ⟨object', hkey, hagain⟩ := hready.chowned change
  have htwice := hagain.chownAttributes_eq change
  rw [← hrest] at htwice
  refine ⟨?_, by rw [hrest]; rfl, ?_, ?_⟩
  . rw [result, honce]
  . rw [result, htwice]
  . rw [after_of_ok htwice, hrest]
    exact chowned_chowned ..

theorem chownAttributes_passes_on_crowded :
    let change : AttrChange := ⟨⟨0x15⟩, 7, 8, 0, 9, 0o777⟩
    let volume := run crowded (initial 16 .current (by decide) .optional 64)
    let rest := (chownAttributes 3 change).after volume
    SparesEntries crowded (initial 16 .current (by decide) .optional 64) ∧ volume.store.IsTree
      ∧ volume.attributesEnabled = true ∧ volume.attrRoot? = some 4
      ∧ (chownAttributes 3 change).result volume = .ok ()
      ∧ rest.store = { volume.store with
          objects := volume.store.objects.map fun object =>
            if object.id ∈ [5, 6, 7, 3, 9, 6] then { object with uid := 7 } else object
          pendingMoves := 0 }
      ∧ ((chownAttributes 3 change).after rest).store = rest.store := by
  intro change volume rest
  have hspares : SparesEntries crowded (initial 16 .current (by decide) .optional 64) := by
    refine sparesEntries_of_all (linked_empty ..) ?_
    simp [crowded, Op.All, MemStore.Op.SparesDirectory]
  have htree : volume.store.IsTree := by
    refine isTree_run ?_
    simp [crowded, Op.All, MemStore.Op.SparesLinks]
  have henabled : volume.attributesEnabled = true := by decide +kernel
  have hroot : volume.attrRoot? = some 4 := by decide +kernel
  obtain ⟨object, hobject⟩ := Option.isSome_iff_exists.mp
    (show (volume.store.object? 3).isSome = true by decide +kernel)
  obtain ⟨d, hdir⟩ := Option.isSome_iff_exists.mp
    (show (volume.store.directory? 5).isSome = true by decide +kernel)
  have hfacts : (volume.store.object? 3).all (fun object => object.isPrivate = false
        ∧ object.format ≠ .legacy ∧ volume.store.child? 4 object.stat.key.text = some 5) = true := by
    decide +kernel
  have hentries : (volume.store.directory? 5).all (fun d => d.nextOffset ≤ 2 ^ 63
        ∧ 5 :: ((d.ordinary.filter (·.visible)).filter volume.store.namesFile).map (·.target) =
          [5, 6, 7, 3, 9, 6]
        ∧ (d.ordinary.filter (·.visible)).isEmpty = false) = true := by
    decide +kernel
  rw [hobject, Option.all_some, decide_eq_true_eq] at hfacts
  rw [hdir, Option.all_some, decide_eq_true_eq] at hentries
  obtain ⟨hprivate, hformat, hchild⟩ := hfacts
  obtain ⟨hbound, hreached, hlisted⟩ := hentries
  obtain ⟨hresult, hstore, _, htwice⟩ := chownAttributes_passes_on hspares rfl htree henabled hobject
    hprivate hformat hroot hchild hdir hbound change
  have huid : change.fields.has .uid = true := by decide
  have hgid : change.fields.has .gid = false := by decide
  have hctime : change.fields.has .ctime = false := by decide
  rw [hreached, hlisted] at hstore
  simp only [huid, hgid, hctime, if_true, Bool.false_eq_true, if_false] at hstore
  exact ⟨hspares, htree, henabled, hroot, hresult, hstore, htwice⟩

end Effect

end Volume

end AttrTree
