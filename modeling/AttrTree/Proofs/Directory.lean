import AttrTree.Store.Memory.Entries
import Mathlib.Algebra.GroupWithZero.Nat
import Mathlib.Data.List.Find
import Mathlib.Data.List.Nodup

/-!
This module contains the shape that directories keep: the links to the directory itself and to its
parent come first, the other entries have valid names and offsets of their own.
-/

namespace AttrTree

theorem MemStore.isDots_of_isValidName {name : String} (h : MemStore.isValidName name = true) :
    EntryName.isDots name = false := by
  simp only [isValidName, Bool.not_eq_true', Bool.or_eq_false_iff] at h
  exact h.1.1.2

namespace Directory

def selfLink (id : ObjectId) (visible : Bool) : DirEntry :=
  { offset := selfOffset, name := ".", target := id, visible }

def parentLink (parent : ObjectId) (visible : Bool) : DirEntry :=
  { offset := parentOffset, name := "..", target := parent, visible }

structure WellFormed (id parent : ObjectId) (dir : Directory) : Prop where
  entries_eq : ∃ v w, dir.entries = selfLink id v :: parentLink parent w :: dir.ordinary
  sorted : dir.ordinary.Pairwise (·.offset < ·.offset)
  offset_lt : ∀ e ∈ dir.ordinary, e.offset < dir.nextOffset
  first_le : firstOffset ≤ dir.nextOffset
  names_nodup : (dir.ordinary.map (·.name)).Nodup
  names_valid : ∀ e ∈ dir.ordinary, MemStore.isValidName e.name = true

theorem first_le_of_mem_ordinary {dir : Directory} {e : DirEntry} (h : e ∈ dir.ordinary) :
    firstOffset ≤ e.offset := by
  simpa using (List.mem_filter.mp h).2

theorem mem_entries_of_mem_ordinary {dir : Directory} {e : DirEntry} (h : e ∈ dir.ordinary) :
    e ∈ dir.entries :=
  (List.mem_filter.mp h).1

theorem mem_ordinary {dir : Directory} {e : DirEntry} (h : e ∈ dir.entries)
    (hfirst : firstOffset ≤ e.offset) : e ∈ dir.ordinary :=
  List.mem_filter.mpr ⟨h, by simpa using hfirst⟩

@[simp]
theorem ordinary_fresh (self parent : ObjectId) : (fresh self parent).ordinary = [] :=
  rfl

theorem ordinary_insert {dir : Directory} (h : firstOffset ≤ dir.nextOffset) (name : String)
    (target : ObjectId) :
    (dir.insert name target).ordinary =
      dir.ordinary ++ [{ offset := dir.nextOffset, name, target, visible := true }] := by
  simp [ordinary, insert, List.filter_append, h]

theorem ordinary_remove (dir : Directory) (offset : Nat) :
    (dir.remove offset).ordinary = dir.ordinary.filter (·.offset != offset) := by
  simp only [ordinary, remove, List.filter_filter, Bool.and_comm]

theorem ordinary_setVisible (dir : Directory) (offset : Nat) (visible : Bool) :
    (dir.setVisible offset visible).ordinary =
      dir.ordinary.map fun e => if e.offset = offset then { e with visible } else e := by
  simp only [ordinary, setVisible, List.filter_map]
  congr 1
  apply List.filter_congr
  intro e _
  simp only [Function.comp_apply]
  split <;> rfl

theorem find?_fresh {name : String} (hname : EntryName.isDots name = false)
    (self parent : ObjectId) : (fresh self parent).find? name = none := by
  simp only [EntryName.isDots, Bool.or_eq_false_iff, beq_eq_false_iff_ne, ne_eq] at hname
  simp [find?, fresh, Ne.symm hname.1, Ne.symm hname.2]

theorem find?_of_contains {dir : Directory} {name : String} (h : dir.contains name = false) :
    dir.find? name = none := by
  simpa [contains] using h

theorem find?_insert {dir : Directory} {name : String} (target : ObjectId) (hnew : dir.contains name = false)
    (name' : String) :
    (dir.insert name target).find? name' =
      if name' = name then some { offset := dir.nextOffset, name, target, visible := true }
      else dir.find? name' := by
  simp only [contains, Option.isSome_eq_false_iff, Option.isNone_iff_eq_none] at hnew
  simp only [find?, insert, List.find?_append] at hnew ⊢
  split
  . next heq =>
    subst heq
    simp [hnew]
  . next hne =>
    simp [Ne.symm hne]

namespace WellFormed

variable {id parent : ObjectId} {dir : Directory}

theorem fresh (id parent : ObjectId) : WellFormed id parent (.fresh id parent) where
  entries_eq := ⟨true, true, rfl⟩
  sorted := by simp
  offset_lt := by simp
  first_le := Nat.le_refl _
  names_nodup := by simp
  names_valid := by simp

theorem isDots_of_mem (h : dir.WellFormed id parent) {e : DirEntry} (he : e ∈ dir.ordinary) :
    EntryName.isDots e.name = false :=
  MemStore.isDots_of_isValidName (h.names_valid e he)

theorem mem_entries_iff (h : dir.WellFormed id parent) {e : DirEntry} :
    e ∈ dir.entries ↔
      (∃ v, e = selfLink id v ∧ dir.find? "." = some e)
        ∨ (∃ v, e = parentLink parent v ∧ dir.find? ".." = some e) ∨ e ∈ dir.ordinary := by
  obtain ⟨v, w, heq⟩ := h.entries_eq
  have hself : dir.find? "." = some (selfLink id v) := by
    simp [find?, heq, selfLink]
  have hparent : dir.find? ".." = some (parentLink parent w) := by
    simp [find?, heq, selfLink, parentLink]
  constructor
  . intro he
    rw [heq] at he
    simp only [List.mem_cons] at he
    rcases he with rfl | rfl | he
    . exact .inl ⟨v, rfl, hself⟩
    . exact .inr (.inl ⟨w, rfl, hparent⟩)
    . exact .inr (.inr he)
  . rintro (⟨_, _, hfind⟩ | ⟨_, _, hfind⟩ | he)
    . exact List.mem_of_find?_eq_some hfind
    . exact List.mem_of_find?_eq_some hfind
    . exact mem_entries_of_mem_ordinary he

theorem entries_sorted (h : dir.WellFormed id parent) :
    dir.entries.Pairwise (·.offset < ·.offset) := by
  obtain ⟨v, w, heq⟩ := h.entries_eq
  rw [heq]
  refine .cons ?_ (.cons ?_ h.sorted)
  . intro e he
    simp only [List.mem_cons] at he
    rcases he with rfl | he
    . exact Nat.lt_succ_self 1
    . have := first_le_of_mem_ordinary he
      simp only [selfLink, selfOffset, firstOffset] at *
      omega
  . intro e he
    have := first_le_of_mem_ordinary he
    simp only [parentLink, parentOffset, firstOffset] at *
    omega

theorem entries_names_nodup (h : dir.WellFormed id parent) :
    (dir.entries.map (·.name)).Nodup := by
  obtain ⟨v, w, heq⟩ := h.entries_eq
  have hself : "." ∉ dir.ordinary.map (·.name) := by
    intro hmem
    obtain ⟨e, he, hname⟩ := List.mem_map.mp hmem
    have := h.isDots_of_mem he
    simp [hname, EntryName.isDots] at this
  have hparent : ".." ∉ dir.ordinary.map (·.name) := by
    intro hmem
    obtain ⟨e, he, hname⟩ := List.mem_map.mp hmem
    have := h.isDots_of_mem he
    simp [hname, EntryName.isDots] at this
  rw [heq]
  simp only [List.map_cons, List.nodup_cons, List.mem_cons, selfLink, parentLink]
  refine ⟨?_, hparent, h.names_nodup⟩
  rintro (hdots | hmem)
  . revert hdots
    decide
  . exact hself hmem

theorem find?_parent (h : dir.WellFormed id parent) :
    ∃ v, dir.find? ".." = some (parentLink parent v) := by
  obtain ⟨v, w, heq⟩ := h.entries_eq
  exact ⟨w, by simp [find?, heq, selfLink, parentLink]⟩

theorem find?_eq (h : dir.WellFormed id parent) {name : String}
    (hname : EntryName.isDots name = false) :
    dir.find? name = dir.ordinary.find? (·.name == name) := by
  obtain ⟨v, w, heq⟩ := h.entries_eq
  simp only [EntryName.isDots, Bool.or_eq_false_iff, beq_eq_false_iff_ne, ne_eq] at hname
  rw [find?, heq]
  simp [selfLink, parentLink, Ne.symm hname.1, Ne.symm hname.2]

theorem mem_ordinary_of_find? (h : dir.WellFormed id parent) {name : String} {e : DirEntry}
    (hname : EntryName.isDots name = false) (hfind : dir.find? name = some e) :
    e ∈ dir.ordinary ∧ e.name = name := by
  rw [h.find?_eq hname] at hfind
  exact ⟨List.mem_of_find?_eq_some hfind, by simpa using List.find?_some hfind⟩

theorem find?_name (h : dir.WellFormed id parent) {e : DirEntry} (he : e ∈ dir.entries) :
    dir.find? e.name = some e := by
  have hnodup := h.entries_names_nodup
  unfold find?
  generalize dir.entries = entries at he hnodup
  induction entries with
  | nil => simp at he
  | cons first rest ih =>
    simp only [List.map_cons, List.nodup_cons] at hnodup
    simp only [List.mem_cons] at he
    cases he with
    | inl he => simp [he]
    | inr he =>
      have hne : ¬ first.name = e.name := by
        intro heq
        exact hnodup.1 (heq ▸ List.mem_map_of_mem he)
      rw [List.find?_cons_of_neg (by simpa using hne)]
      exact ih he hnodup.2

theorem eq_of_name (h : dir.WellFormed id parent) {e e' : DirEntry} (he : e ∈ dir.entries)
    (he' : e' ∈ dir.entries) (hname : e.name = e'.name) : e = e' :=
  List.inj_on_of_nodup_map h.entries_names_nodup he he' hname

theorem eq_of_offset (h : dir.WellFormed id parent) {e e' : DirEntry} (he : e ∈ dir.entries)
    (he' : e' ∈ dir.entries) (hoffset : e.offset = e'.offset) : e = e' := by
  have hnodup : (dir.entries.map (·.offset)).Nodup := by
    rw [List.Nodup, List.pairwise_map]
    exact h.entries_sorted.imp Nat.ne_of_lt
  exact List.inj_on_of_nodup_map hnodup he he' hoffset

theorem insert (h : dir.WellFormed id parent) {name : String}
    (hvalid : MemStore.isValidName name = true) (hnew : dir.contains name = false)
    (target : ObjectId) :
    (dir.insert name target).WellFormed id parent := by
  obtain ⟨v, w, heq⟩ := h.entries_eq
  have hordinary := ordinary_insert h.first_le name target
  have hfree : ∀ e ∈ dir.ordinary, e.name ≠ name := by
    intro e he hname
    have hfind := h.find?_name (mem_entries_of_mem_ordinary he)
    rw [hname] at hfind
    simp [contains, hfind] at hnew
  constructor
  . refine ⟨v, w, ?_⟩
    rw [hordinary, Directory.insert, heq]
    rfl
  . rw [hordinary, List.pairwise_append]
    refine ⟨h.sorted, by simp, ?_⟩
    intro a ha b hb
    simp only [List.mem_singleton] at hb
    subst hb
    exact h.offset_lt a ha
  . intro e he
    rw [hordinary, List.mem_append, List.mem_singleton] at he
    rcases he with he | rfl
    . exact Nat.lt_succ_of_lt (h.offset_lt e he)
    . exact Nat.lt_succ_self _
  . exact Nat.le_succ_of_le h.first_le
  . rw [hordinary, List.map_append, List.nodup_append]
    refine ⟨h.names_nodup, by simp, ?_⟩
    intro a ha b hb
    obtain ⟨e, he, rfl⟩ := List.mem_map.mp ha
    simp only [List.map_cons, List.map_nil, List.mem_singleton] at hb
    subst hb
    exact hfree e he
  . intro e he
    rw [hordinary, List.mem_append, List.mem_singleton] at he
    rcases he with he | rfl
    . exact h.names_valid e he
    . exact hvalid

theorem remove (h : dir.WellFormed id parent) {offset : Nat} (hoffset : firstOffset ≤ offset) :
    (dir.remove offset).WellFormed id parent := by
  obtain ⟨v, w, heq⟩ := h.entries_eq
  have hordinary := ordinary_remove dir offset
  have hsub : (dir.remove offset).ordinary.Sublist dir.ordinary := by
    rw [hordinary]
    exact List.filter_sublist
  have hself : selfOffset ≠ offset := by
    simp only [selfOffset, firstOffset] at *
    omega
  have hparent : parentOffset ≠ offset := by
    simp only [parentOffset, firstOffset] at *
    omega
  constructor
  . refine ⟨v, w, ?_⟩
    rw [hordinary, Directory.remove, heq]
    simp [selfLink, parentLink, hself, hparent]
  . exact h.sorted.sublist hsub
  . intro e he
    exact h.offset_lt e (hsub.subset he)
  . exact h.first_le
  . exact h.names_nodup.sublist (hsub.map _)
  . intro e he
    exact h.names_valid e (hsub.subset he)

theorem ordinary_eq_append (h : dir.WellFormed id parent) {e : DirEntry} (he : e ∈ dir.ordinary) :
    ∃ front rest, dir.ordinary = front ++ e :: rest
      ∧ (dir.remove e.offset).ordinary = front ++ rest := by
  obtain ⟨front, rest, heq⟩ := List.append_of_mem he
  have hsorted := h.sorted
  rw [heq, List.pairwise_append, List.pairwise_cons] at hsorted
  obtain ⟨_, ⟨hrest, _⟩, hfront⟩ := hsorted
  refine ⟨front, rest, heq, ?_⟩
  rw [ordinary_remove, heq, List.filter_append, List.filter_cons_of_neg (by simp),
    List.filter_eq_self.mpr, List.filter_eq_self.mpr]
  . intro e' he'
    simpa using Nat.ne_of_gt (hrest e' he')
  . intro e' he'
    simpa using Nat.ne_of_lt (hfront e' he' e (by simp))

theorem countP_remove (h : dir.WellFormed id parent) {e : DirEntry} (he : e ∈ dir.ordinary)
    (p : DirEntry → Bool) :
    (dir.remove e.offset).ordinary.countP p + (if p e then 1 else 0) = dir.ordinary.countP p := by
  obtain ⟨front, rest, heq, hremove⟩ := h.ordinary_eq_append he
  rw [hremove, heq, List.countP_append, List.countP_append, List.countP_cons]
  omega

theorem mem_ordinary_remove (h : dir.WellFormed id parent) {e : DirEntry} (he : e ∈ dir.ordinary)
    {e' : DirEntry} :
    e' ∈ (dir.remove e.offset).ordinary ↔ e' ∈ dir.ordinary ∧ e' ≠ e := by
  rw [ordinary_remove, List.mem_filter, bne_iff_ne]
  apply and_congr_right
  intro he'
  apply not_congr
  constructor
  . exact h.eq_of_offset (mem_entries_of_mem_ordinary he') (mem_entries_of_mem_ordinary he)
  . intro heq
    rw [heq]

theorem setVisible (h : dir.WellFormed id parent) (offset : Nat) (visible : Bool) :
    (dir.setVisible offset visible).WellFormed id parent := by
  obtain ⟨v, w, heq⟩ := h.entries_eq
  have hordinary := ordinary_setVisible dir offset visible
  have hoffset (e : DirEntry) :
      (if e.offset = offset then { e with visible } else e).offset = e.offset := by
    split <;> rfl
  have hname (e : DirEntry) :
      (if e.offset = offset then { e with visible } else e).name = e.name := by
    split <;> rfl
  constructor
  . refine ⟨if selfOffset = offset then visible else v,
      if parentOffset = offset then visible else w, ?_⟩
    rw [hordinary, Directory.setVisible, heq]
    simp only [List.map_cons, selfLink, parentLink]
    congr 1
    . split <;> rfl
    . congr 1
      split <;> rfl
  . rw [hordinary, List.pairwise_map]
    exact h.sorted.imp fun hlt => by simpa only [hoffset] using hlt
  . rw [hordinary]
    intro e he
    obtain ⟨e', he', rfl⟩ := List.mem_map.mp he
    rw [hoffset]
    exact h.offset_lt e' he'
  . exact h.first_le
  . rw [hordinary, List.map_map]
    simpa only [Function.comp_def, hname] using h.names_nodup
  . rw [hordinary]
    intro e he
    obtain ⟨e', he', rfl⟩ := List.mem_map.mp he
    rw [hname]
    exact h.names_valid e' he'

theorem find?_remove (h : dir.WellFormed id parent) {e : DirEntry} (he : e ∈ dir.entries)
    (name : String) :
    (dir.remove e.offset).find? name = if name = e.name then none else dir.find? name := by
  have hiff (e' : DirEntry) (he' : e' ∈ dir.entries) : e'.offset = e.offset ↔ e'.name = e.name := by
    constructor
    . intro hoffset
      rw [h.eq_of_offset he' he hoffset]
    . intro hname
      rw [h.eq_of_name he' he hname]
  simp only [find?, Directory.remove, List.find?_filter]
  split
  . next hname =>
    subst hname
    rw [List.find?_eq_none]
    intro e' he' hfound
    simp only [bne_iff_ne, ne_eq, beq_iff_eq, decide_eq_true_eq] at hfound
    exact hfound.1 ((hiff e' he').mpr hfound.2)
  . next hne =>
    apply List.find?_congr
    intro e' he'
    by_cases hname : e'.name = name
    . have hoffset : e'.offset ≠ e.offset := by
        intro hoffset
        exact hne (hname.symm.trans ((hiff e' he').mp hoffset))
      simp [hname, hoffset]
    . simp [hname]

end WellFormed

end Directory

end AttrTree
