import AttrTree.Proofs.Action
import AttrTree.Store.Memory.Content
import AttrTree.Store.Memory.Entries
import Mathlib.Data.List.Nodup

/-!
This module contains what the changes of a store in memory do to its objects, one by one, and to the
number of entries that name an object.
-/

namespace AttrTree

namespace Body

def directory? : Body → Option Directory
  | .file _ => none
  | .directory dir => some dir

def ordinary : Body → List DirEntry
  | .file _ => []
  | .directory dir => dir.ordinary

theorem isDirectory_eq_isSome (body : Body) : body.isDirectory = body.directory?.isSome := by
  cases body <;> rfl

theorem ordinary_of_directory? {body : Body} {dir : Directory} (h : body.directory? = some dir) :
    body.ordinary = dir.ordinary := by
  cases body with
  | file => simp [directory?] at h
  | directory dir' =>
    injection h with h
    rw [← h]
    rfl

end Body

namespace MemObject

def linksTo (object : MemObject) (id : ObjectId) : Nat :=
  object.body.ordinary.countP (·.target == id)

def mapDirectory (f : Directory → Directory) (object : MemObject) : MemObject :=
  match object.body with
  | .file _ => object
  | .directory dir => { object with body := .directory (f dir) }

theorem mapDirectory_of_directory {object : MemObject} {dir : Directory}
    (h : object.body = .directory dir) (f : Directory → Directory) :
    object.mapDirectory f = { object with body := .directory (f dir) } := by
  simp [mapDirectory, h]

@[simp]
theorem id_mapDirectory (f : Directory → Directory) (object : MemObject) :
    (object.mapDirectory f).id = object.id := by
  unfold mapDirectory
  split <;> rfl

end MemObject

namespace MemStore

def directory? (store : MemStore) (id : ObjectId) : Option Directory :=
  (store.object? id).bind (·.body.directory?)

def linkCount (store : MemStore) (id : ObjectId) : Nat :=
  (store.objects.map (·.linksTo id)).sum

def HasDistinctIds (store : MemStore) : Prop :=
  (store.objects.map (·.id)).Nodup

variable {store : MemStore} {id : ObjectId} {object : MemObject}

theorem id_of_object? (h : store.object? id = some object) : object.id = id := by
  simpa using List.find?_some h

theorem object?_congr {store store' : MemStore} (h : store'.objects = store.objects)
    (id : ObjectId) : store'.object? id = store.object? id := by
  simp [object?, h]

theorem mem_of_object? (h : store.object? id = some object) : object ∈ store.objects :=
  List.mem_of_find?_eq_some h

theorem object?_of_mem (hids : store.HasDistinctIds) (h : object ∈ store.objects) :
    store.object? object.id = some object := by
  cases hfind : store.object? object.id with
  | none =>
    have := List.find?_eq_none.mp hfind object h
    simp at this
  | some found =>
    have := List.inj_on_of_nodup_map hids (mem_of_object? hfind) h (id_of_object? hfind)
    rw [this]

theorem directory?_eq_some_iff {dir : Directory} :
    store.directory? id = some dir ↔
      ∃ object, store.object? id = some object ∧ object.body = .directory dir := by
  unfold directory?
  cases h : store.object? id with
  | none => simp
  | some object => cases hbody : object.body <;> simp [Body.directory?, hbody]

theorem getObject_eq_ok_iff : store.getObject id = .ok object ↔ store.object? id = some object := by
  unfold getObject
  cases store.object? id <;> simp

theorem getDirectory_eq_ok_iff {dir : Directory} :
    store.getDirectory id = .ok dir ↔ store.directory? id = some dir := by
  rw [directory?_eq_some_iff, getDirectory, Action.exceptBind_eq_ok_iff]
  simp only [getObject_eq_ok_iff]
  constructor
  . rintro ⟨object, hobject, h⟩
    cases hbody : object.body with
    | file => simp [hbody] at h
    | directory dir' =>
      simp only [hbody, Except.ok.injEq] at h
      exact ⟨object, hobject, h ▸ hbody⟩
  . rintro ⟨object, hobject, hbody⟩
    exact ⟨object, hobject, by simp [hbody]⟩

theorem getEntry_eq_ok_iff {name : String} {e : DirEntry} :
    store.getEntry id name = .ok e ↔
      ∃ dir, store.directory? id = some dir ∧ dir.find? name = some e := by
  simp only [getEntry, Action.exceptBind_eq_ok_iff, getDirectory_eq_ok_iff]
  apply exists_congr
  intro dir
  cases dir.find? name <;> simp

theorem mapObject_mapObject (store : MemStore) (id : ObjectId) {f g : MemObject → MemObject}
    (hf : ∀ o, (f o).id = o.id) :
    (store.mapObject id f).mapObject id g = store.mapObject id fun o => g (f o) := by
  simp only [mapObject, List.map_map]
  congr 1
  apply List.map_congr_left
  intro o _
  simp only [Function.comp_apply]
  by_cases h : o.id = id
  . simp [h, hf]
  . simp [h]

section Sums

theorem objects_eq_append (hids : store.HasDistinctIds) (h : store.object? id = some object) :
    ∃ front rest, store.objects = front ++ object :: rest ∧ (∀ o ∈ front, o.id ≠ id)
      ∧ ∀ o ∈ rest, o.id ≠ id := by
  obtain ⟨front, rest, heq⟩ := List.append_of_mem (mem_of_object? h)
  have hid := id_of_object? h
  refine ⟨front, rest, heq, ?_, ?_⟩
  . intro o ho hoid
    rw [HasDistinctIds, heq, List.map_append, List.nodup_append] at hids
    exact hids.2.2 o.id (List.mem_map_of_mem ho) object.id (by simp) (hoid.trans hid.symm)
  . intro o ho hoid
    rw [HasDistinctIds, heq, List.map_append, List.nodup_append, List.map_cons,
      List.nodup_cons] at hids
    exact hids.2.1.1 (hid.trans hoid.symm ▸ List.mem_map_of_mem ho)

theorem map_eq_self_of_ne {objects : List MemObject} (h : ∀ o ∈ objects, o.id ≠ id)
    (f : MemObject → MemObject) :
    (objects.map fun o => if o.id = id then f o else o) = objects := by
  conv_rhs => rw [← List.map_id objects]
  apply List.map_congr_left
  intro o ho
  rw [if_neg (h o ho)]
  rfl

theorem mapObject_congr (hids : store.HasDistinctIds) (h : store.object? id = some object)
    {f g : MemObject → MemObject} (heq : f object = g object) :
    store.mapObject id f = store.mapObject id g := by
  obtain ⟨front, rest, hobjects, hfront, hrest⟩ := objects_eq_append hids h
  simp only [mapObject, hobjects, List.map_append, List.map_cons, map_eq_self_of_ne hfront,
    map_eq_self_of_ne hrest, id_of_object? h, if_true, heq]

theorem mapObject_eq_self (hids : store.HasDistinctIds) (h : store.object? id = some object)
    {f : MemObject → MemObject} (heq : f object = object) : store.mapObject id f = store := by
  obtain ⟨front, rest, hobjects, hfront, hrest⟩ := objects_eq_append hids h
  simp only [mapObject, hobjects, List.map_append, List.map_cons, map_eq_self_of_ne hfront,
    map_eq_self_of_ne hrest, id_of_object? h, if_true, heq]
  rw [← hobjects]

theorem sum_mapObject (hids : store.HasDistinctIds) (h : store.object? id = some object)
    (f : MemObject → MemObject) (weight : MemObject → Nat) :
    ((store.mapObject id f).objects.map weight).sum + weight object =
      (store.objects.map weight).sum + weight (f object) := by
  obtain ⟨front, rest, heq, hfront, hrest⟩ := objects_eq_append hids h
  simp only [mapObject, heq, List.map_append, List.map_cons, map_eq_self_of_ne hfront,
    map_eq_self_of_ne hrest, id_of_object? h, if_true, List.sum_append, List.sum_cons]
  omega

theorem sum_eraseObject (hids : store.HasDistinctIds) (h : store.object? id = some object)
    (weight : MemObject → Nat) :
    ((store.eraseObject id).objects.map weight).sum + weight object =
      (store.objects.map weight).sum := by
  obtain ⟨front, rest, heq, hfront, hrest⟩ := objects_eq_append hids h
  have hf : front.filter (·.id != id) = front := by
    simpa using hfront
  have hr : rest.filter (·.id != id) = rest := by
    simpa using hrest
  simp only [eraseObject, heq, List.filter_append, List.filter_cons, hf, hr, id_of_object? h,
    bne_self_eq_false, Bool.false_eq_true, if_false, List.map_append, List.map_cons,
    List.sum_append, List.sum_cons]
  omega

end Sums

theorem linkCount_mapObject (hids : store.HasDistinctIds) (h : store.object? id = some object)
    (f : MemObject → MemObject) (x : ObjectId) :
    (store.mapObject id f).linkCount x + object.linksTo x =
      store.linkCount x + (f object).linksTo x :=
  sum_mapObject hids h f (·.linksTo x)

theorem linkCount_eraseObject (hids : store.HasDistinctIds) (h : store.object? id = some object)
    (x : ObjectId) :
    (store.eraseObject id).linkCount x + object.linksTo x = store.linkCount x :=
  sum_eraseObject hids h (·.linksTo x)

theorem linkCount_addObject (store : MemStore) (object : ObjectId → UInt32 → MemObject)
    (x : ObjectId) :
    (store.addObject object).linkCount x =
      store.linkCount x + (object store.nextId store.nextGeneration).linksTo x := by
  simp [linkCount, addObject]

theorem linksTo_le_linkCount (h : store.object? id = some object) (x : ObjectId) :
    object.linksTo x ≤ store.linkCount x := by
  obtain ⟨front, rest, heq⟩ := List.append_of_mem (mem_of_object? h)
  simp only [linkCount, heq, List.map_append, List.map_cons, List.sum_append, List.sum_cons]
  omega

theorem linksTo_add_linksTo_le_linkCount (hids : store.HasDistinctIds) {id' : ObjectId}
    {object' : MemObject} (h : store.object? id = some object)
    (h' : store.object? id' = some object') (hne : id' ≠ id) (x : ObjectId) :
    object.linksTo x + object'.linksTo x ≤ store.linkCount x := by
  have hsum := linkCount_eraseObject hids h x
  have hrest : (store.eraseObject id).object? id' = some object' := by
    rw [object?_eraseObject, if_neg hne, h']
  have hle := linksTo_le_linkCount hrest x
  omega

theorem linkCount_eq_zero_iff {x : ObjectId} :
    store.linkCount x = 0 ↔ ∀ object ∈ store.objects, ∀ e ∈ object.body.ordinary, e.target ≠ x := by
  simp [linkCount, List.sum_eq_zero_iff_forall_eq_nat, MemObject.linksTo, List.countP_eq_zero]

theorem linksTo_pos_iff {x : ObjectId} :
    0 < object.linksTo x ↔ ∃ e ∈ object.body.ordinary, e.target = x := by
  simp [MemObject.linksTo, List.countP_pos_iff]

end MemStore

end AttrTree
