import AttrTree.Proofs.Run

/-!
This module contains what becomes of a directory while the store is at work. Offsets are not given out
again, so an entry with an old offset is an old entry, and the same holds of the numbers of objects.
-/

namespace AttrTree

namespace Directory

inductive Edit where
  | insert (name : String) (target : ObjectId)
  | remove (offset : Nat)
  | setVisible (offset : Nat) (visible : Bool)
  deriving DecidableEq, Repr

def edit (d : Directory) : Edit → Directory
  | .insert name target => d.insert name target
  | .remove offset => d.remove offset
  | .setVisible offset visible => d.setVisible offset visible

def edited (d : Directory) (edits : List Edit) : Directory :=
  edits.foldl edit d

def SameEntry (e e' : DirEntry) : Prop :=
  e.offset = e'.offset ∧ e.name = e'.name ∧ e.target = e'.target

section Edits

variable {d : Directory} {e e' : DirEntry} {change : Edit} {edits : List Edit}

theorem SameEntry.trans {e'' : DirEntry} (h : SameEntry e e') (h' : SameEntry e' e'') :
    SameEntry e e'' :=
  ⟨h.1.trans h'.1, h.2.1.trans h'.2.1, h.2.2.trans h'.2.2⟩

theorem sameEntry_setVisible (e : DirEntry) (offset : Nat) (visible : Bool) :
    SameEntry e (if e.offset = offset then { e with visible } else e) := by
  split <;> exact ⟨rfl, rfl, rfl⟩

theorem nextOffset_le_edit (d : Directory) (change : Edit) :
    d.nextOffset ≤ (d.edit change).nextOffset := by
  cases change with
  | insert name target => exact Nat.le_succ _
  | remove offset => exact Nat.le_refl _
  | setVisible offset visible => exact Nat.le_refl _

theorem old_of_edit (he' : e' ∈ (d.edit change).entries) (hlt : e'.offset < d.nextOffset) :
    change ≠ .remove e'.offset ∧ ∃ e ∈ d.entries, SameEntry e e' := by
  -- What is inserted gets the next offset, so it is no old entry.
  cases change with
  | insert name target =>
    simp only [edit, Directory.insert, List.mem_append, List.mem_singleton] at he'
    obtain he' | rfl := he'
    . exact ⟨by simp, e', he', rfl, rfl, rfl⟩
    . exact absurd hlt (Nat.lt_irrefl _)
  | remove offset =>
    obtain ⟨hmem, hne⟩ := List.mem_filter.mp he'
    refine ⟨?_, e', hmem, rfl, rfl, rfl⟩
    rintro ⟨⟩
    simp at hne
  | setVisible offset visible =>
    obtain ⟨e, hmem, rfl⟩ := List.mem_map.mp he'
    exact ⟨by simp, e, hmem, sameEntry_setVisible e offset visible⟩

theorem stays_in_edit (he : e ∈ d.entries) (hkept : change ≠ .remove e.offset) :
    ∃ e' ∈ (d.edit change).entries, SameEntry e e' := by
  cases change with
  | insert name target => exact ⟨e, List.mem_append_left _ he, rfl, rfl, rfl⟩
  | remove offset =>
    have hne : e.offset ≠ offset := by
      rintro rfl
      exact hkept rfl
    exact ⟨e, List.mem_filter.mpr ⟨he, bne_iff_ne.mpr hne⟩, rfl, rfl, rfl⟩
  | setVisible offset visible =>
    exact ⟨_, List.mem_map_of_mem he, sameEntry_setVisible e offset visible⟩

theorem nextOffset_le_edited (d : Directory) (edits : List Edit) :
    d.nextOffset ≤ (d.edited edits).nextOffset := by
  induction edits generalizing d with
  | nil => exact Nat.le_refl _
  | cons change edits ih => exact Nat.le_trans (nextOffset_le_edit d change) (ih _)

theorem old_of_edited (he' : e' ∈ (d.edited edits).entries) (hlt : e'.offset < d.nextOffset) :
    .remove e'.offset ∉ edits ∧ ∃ e ∈ d.entries, SameEntry e e' := by
  induction edits generalizing d with
  | nil => exact ⟨List.not_mem_nil, e', he', rfl, rfl, rfl⟩
  | cons change edits ih =>
    obtain ⟨hlater, e₁, he₁, hsame₁⟩ :=
      @ih (d.edit change) he' (Nat.lt_of_lt_of_le hlt (nextOffset_le_edit d change))
    rw [← hsame₁.1] at hlt
    obtain ⟨hnow, e, he, hsame⟩ := old_of_edit he₁ hlt
    rw [hsame₁.1] at hnow
    exact ⟨List.not_mem_cons_of_ne_of_not_mem hnow.symm hlater, e, he, hsame.trans hsame₁⟩

theorem stays_in_edited (he : e ∈ d.entries) (hkept : .remove e.offset ∉ edits) :
    ∃ e' ∈ (d.edited edits).entries, SameEntry e e' := by
  induction edits generalizing d e with
  | nil => exact ⟨e, he, rfl, rfl, rfl⟩
  | cons change edits ih =>
    obtain ⟨e₁, he₁, hsame₁⟩ := stays_in_edit he (List.ne_of_not_mem_cons hkept).symm
    have hlater := List.not_mem_of_not_mem_cons hkept
    rw [hsame₁.1] at hlater
    obtain ⟨e', he', hsame⟩ := ih he₁ hlater
    exact ⟨e', he', hsame₁.trans hsame⟩

end Edits

variable {d d' d'' : Directory}

structure Later (d d' : Directory) : Prop where
  nextOffset_le : d.nextOffset ≤ d'.nextOffset
  old : ∀ e' ∈ d'.ordinary, e'.offset < d.nextOffset → ∃ e ∈ d.ordinary, SameEntry e e'

namespace Later

theorem refl (d : Directory) : d.Later d :=
  ⟨Nat.le_refl _, fun e he _ => ⟨e, he, rfl, rfl, rfl⟩⟩

theorem trans (h : d.Later d') (h' : d'.Later d'') : d.Later d'' := by
  refine ⟨Nat.le_trans h.nextOffset_le h'.nextOffset_le, fun e'' he'' hlt => ?_⟩
  obtain ⟨e', he', hsame'⟩ := h'.old e'' he'' (Nat.lt_of_lt_of_le hlt h.nextOffset_le)
  obtain ⟨e, he, hsame⟩ := h.old e' he' (hsame'.1 ▸ hlt)
  exact ⟨e, he, hsame.trans hsame'⟩

theorem edited (d : Directory) (edits : List Edit) : d.Later (d.edited edits) := by
  refine ⟨nextOffset_le_edited d edits, fun e' he' hlt => ?_⟩
  obtain ⟨_, e, he, hsame⟩ := old_of_edited (mem_entries_of_mem_ordinary he') hlt
  exact ⟨e, mem_ordinary he (hsame.1 ▸ first_le_of_mem_ordinary he'), hsame⟩

end Later

end Directory

namespace MemStore

variable {store store' store'' : MemStore}

structure Edited (store store' : MemStore) : Prop where
  nextId_le : store.nextId ≤ store'.nextId
  directory : ∀ ⦃x d'⦄, x < store.nextId → store'.directory? x = some d' →
    ∃ d edits, store.directory? x = some d ∧ d' = d.edited edits

structure Later (store store' : MemStore) : Prop where
  nextId_le : store.nextId ≤ store'.nextId
  directory : ∀ ⦃x d'⦄, x < store.nextId → store'.directory? x = some d' →
    ∃ d, store.directory? x = some d ∧ d.Later d'

namespace Later

theorem refl (store : MemStore) : store.Later store :=
  ⟨Nat.le_refl _, fun _ d _ hd => ⟨d, hd, .refl d⟩⟩

theorem trans (h : store.Later store') (h' : store'.Later store'') : store.Later store'' := by
  refine ⟨Nat.le_trans h.nextId_le h'.nextId_le, fun x d'' hx hd'' => ?_⟩
  obtain ⟨d', hd', hlater'⟩ := h'.directory (Nat.lt_of_lt_of_le hx h.nextId_le) hd''
  obtain ⟨d, hd, hlater⟩ := h.directory hx hd'
  exact ⟨d, hd, hlater.trans hlater'⟩

end Later

namespace Edited

theorem refl (store : MemStore) : store.Edited store :=
  ⟨Nat.le_refl _, fun _ d _ hd => ⟨d, [], hd, rfl⟩⟩

theorem trans (h : store.Edited store') (h' : store'.Edited store'') : store.Edited store'' := by
  refine ⟨Nat.le_trans h.nextId_le h'.nextId_le, fun x d'' hx hd'' => ?_⟩
  obtain ⟨d', later, hd', rfl⟩ := h'.directory (Nat.lt_of_lt_of_le hx h.nextId_le) hd''
  obtain ⟨d, earlier, hd, rfl⟩ := h.directory hx hd'
  exact ⟨d, earlier ++ later, hd, List.foldl_append.symm⟩

theorem later (h : store.Edited store') : store.Later store' := by
  refine ⟨h.nextId_le, fun x d' hx hd' => ?_⟩
  obtain ⟨d, edits, hd, rfl⟩ := h.directory hx hd'
  exact ⟨d, hd, .edited d edits⟩

end Edited

theorem edited_of_gain (h : store.Linked) (hgain : store.Gain store') : store.Edited store' := by
  refine ⟨hgain.step.nextId_le, fun x d' hx hd' => ?_⟩
  cases hgain with
  | same _ hdirectory => exact ⟨d', [], hdirectory x ▸ hd', rfl⟩
  | @shown id offset visible _ =>
    rw [directory?_setVisible] at hd'
    split at hd'
    . obtain ⟨d, hd, rfl⟩ := Option.map_eq_some_iff.mp hd'
      exact ⟨d, [.setVisible offset visible], hd, rfl⟩
    . exact ⟨d', [], hd', rfl⟩
  | @attach _ parent owner dir name _ hnew howner hbody _ _ =>
    rw [directory?_attach h hnew.id_eq howner hbody, if_neg (Nat.ne_of_lt hx)] at hd'
    split at hd'
    . next hparent =>
      cases hd'
      exact ⟨dir, [.insert name store.nextId], hparent ▸ directory?_of_object? howner hbody, rfl⟩
    . exact ⟨d', [], hd', rfl⟩
  | @addLink target parent _ owner dir name htarget hkind howner hbody _ _ =>
    rw [directory?_addLink htarget hkind howner hbody] at hd'
    split at hd'
    . next hparent =>
      cases hd'
      exact ⟨dir, [.insert name target], hparent ▸ directory?_of_object? howner hbody, rfl⟩
    . exact ⟨d', [], hd', rfl⟩

theorem edited_detach {parent : ObjectId} {owner target : MemObject} {d : Directory} {e : DirEntry}
    (hleaf : store.IsLeaf parent owner d e target) : store.Edited (store.detach parent e target) := by
  refine ⟨Nat.le_of_eq (IsLeaf.nextId_detach ..).symm, fun x d' _ hd' => ?_⟩
  rw [hleaf.directory?_detach] at hd'
  split at hd'
  . cases hd'
  . split at hd'
    . next hparent =>
      cases hd'
      exact ⟨d, [.remove e.offset], hparent ▸ hleaf.directory?, rfl⟩
    . exact ⟨d', [], hd', rfl⟩

theorem edited_eraseObject (store : MemStore) (id : ObjectId) :
    store.Edited (store.eraseObject id) := by
  refine ⟨Nat.le_refl _, fun x d' _ hd' => ?_⟩
  rw [directory?_eraseObject] at hd'
  split at hd'
  . cases hd'
  . exact ⟨d', [], hd', rfl⟩

theorem later_of_gain (h : store.Linked) (hgain : store.Gain store') : store.Later store' :=
  (edited_of_gain h hgain).later

theorem keptByGains_later (base : MemStore) : KeptByGains base.Later :=
  fun _ _ hlinked hgain h => h.trans (later_of_gain hlinked hgain)

end MemStore

namespace Volume

theorem edited_run (ops : List Op) {volume : Volume MemStore} (hlinked : volume.store.Linked) :
    volume.store.Edited (run ops volume).store :=
  (keeps_run (P := volume.store.Edited)
    (fun _ _ hlinked hgain h => h.trans (MemStore.edited_of_gain hlinked hgain))
    (fun _ _ _ _ _ _ _ hleaf h => h.trans (MemStore.edited_detach hleaf))
    (fun _ _ _ _ h => h.trans (MemStore.edited_eraseObject ..)) ops hlinked (.refl _)).2

theorem later_run (ops : List Op) {volume : Volume MemStore} (hlinked : volume.store.Linked) :
    volume.store.Later (run ops volume).store :=
  (edited_run ops hlinked).later

end Volume

end AttrTree
