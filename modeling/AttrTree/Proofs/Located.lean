import AttrTree.Proofs.Later
import AttrTree.Proofs.Scanning
import AttrTree.Proofs.Tree

/-!
This module contains that a slot stands for the entry that was located, whatever is done to the directory
afterwards. The place of an entry that was removed is not given to another one.
-/

namespace AttrTree

namespace Directory

variable {d : Directory} {e : DirEntry} {edits : List Edit} {id parent : ObjectId}

theorem mem_of_locate? {position : Nat} {slot : DirSlot} (h : d.locate? position = some slot) :
    ∃ e ∈ d.entries, d.slot e = slot := by
  obtain ⟨e, he, hslot⟩ := Option.map_eq_some_iff.mp h
  exact ⟨e, (List.mem_filter.mp (List.mem_of_getLast? he)).1, hslot⟩

theorem WellFormed.offset_lt_of_mem (h : d.WellFormed id parent) (he : e ∈ d.entries) :
    e.offset < d.nextOffset := by
  by_cases hfirst : firstOffset ≤ e.offset
  . exact h.offset_lt e (mem_ordinary he hfirst)
  . exact Nat.lt_of_lt_of_le (Nat.lt_of_not_le hfirst) h.first_le

theorem offset_ne_of_removed (hlt : e.offset < d.nextOffset) (hremoved : .remove e.offset ∈ edits) :
    ∀ e' ∈ (d.edited edits).entries, e'.offset ≠ e.offset := by
  intro e' he' hoffset
  apply (old_of_edited he' (hoffset ▸ hlt)).1
  rw [hoffset]
  exact hremoved

theorem nameAt?_removed (hlt : e.offset < d.nextOffset) (hremoved : .remove e.offset ∈ edits) :
    (d.edited edits).nameAt? (d.slot e) = none := by
  have hnone : (d.edited edits).entryAt? e.offset = none := by
    apply List.find?_eq_none.mpr
    intro e' he'
    simpa using offset_ne_of_removed hlt hremoved e' he'
  simp [nameAt?, slot, hnone]

theorem nameAt?_kept (he : e ∈ d.entries) (hkept : .remove e.offset ∉ edits)
    (hwf : (d.edited edits).WellFormed id parent) :
    (d.edited edits).nameAt? (d.slot e) = some e.name := by
  -- The version may be another one by now, but not the target.
  obtain ⟨e', he', hoffset, hname, htarget⟩ := stays_in_edited he hkept
  have hfound : (d.edited edits).entryAt? e.offset = some e' := by
    rw [hoffset]
    exact entryAt?_eq hwf he'
  simp [nameAt?, slot, hfound, hname, htarget]

end Directory

open Action in
theorem MemStore.locateEntry_eq_some_iff {store : MemStore} {dir : ObjectId} {position : Nat}
    {slot : DirSlot} : store.locateEntry dir position = .ok (some slot) ↔
      ∃ d, store.directory? dir = some d ∧ d.locate? position = some slot := by
  simp only [locateEntry, exceptBind_eq_ok_iff, exceptPure_eq_ok_iff, getDirectory_eq_ok_iff]
  simp only [eq_comm]

namespace Volume

open MemStore Directory

theorem slot_names_located (pageSize : Nat) (format : ObjectFormat) (h : Record.headerSize < pageSize)
    (options : MountOptions) (capacity : Nat) (ops ops' : List Op) (dir : ObjectId) (position : Nat)
    (slot : DirSlot) (d' : Directory) :
    let volume := run ops (initial pageSize format h options capacity)
    let rest := run ops' volume
    volume.store.locateEntry dir position = .ok (some slot) →
    rest.store.directory? dir = some d' → rest.store.pendingMoves = 0 →
    ∃ d e edits, volume.store.directory? dir = some d ∧ e ∈ d.entries ∧ d.slot e = slot
      ∧ d' = d.edited edits
      ∧ (.remove e.offset ∉ edits → (∃ e' ∈ d'.entries, SameEntry e e')
        ∧ ObjectStore.entryName dir slot rest.store = .ok (some e.name) rest.store)
      ∧ (.remove e.offset ∈ edits → (∀ e' ∈ d'.entries, e'.offset ≠ e.offset)
        ∧ ObjectStore.entryName dir slot rest.store = .ok none rest.store)
      ∧ ∀ e' ∈ d'.entries, e'.offset < d.nextOffset → ∃ e₀ ∈ d.entries, SameEntry e₀ e' := by
  intro volume rest hlocated hdir' hmoves
  have hlinked : volume.store.Linked := linked_run ops (linked_empty ..)
  have hlinked' : rest.store.Linked := linked_run ops' hlinked
  obtain ⟨d, hdir, hlocate⟩ := locateEntry_eq_some_iff.mp hlocated
  obtain ⟨object, hobject, _⟩ := directory?_eq_some_iff.mp hdir
  obtain ⟨parent, hwf, _⟩ := hlinked.placed hdir
  obtain ⟨_, hwf', _⟩ := hlinked'.placed hdir'
  obtain ⟨e, he, rfl⟩ := mem_of_locate? hlocate
  have hlt := hwf.offset_lt_of_mem he
  -- A directory that is old is the one that was there, with some edits.
  obtain ⟨d₀, edits, hdir₀, rfl⟩ := (edited_run ops' hlinked).directory (hlinked.id_lt hobject) hdir'
  obtain rfl : d₀ = d := by
    rw [hdir] at hdir₀
    exact (Option.some.inj hdir₀).symm
  have hname := Scan.entryName_eq hdir' (d₀.slot e) hmoves
  refine ⟨d₀, e, edits, hdir, he, rfl, rfl, fun hkept => ?_, fun hremoved => ?_,
    fun e' he' hold => (old_of_edited he' hold).2⟩
  . rw [hname, nameAt?_kept he hkept hwf']
    exact ⟨stays_in_edited he hkept, rfl⟩
  . rw [hname, nameAt?_removed hlt hremoved]
    exact ⟨offset_ne_of_removed hlt hremoved, rfl⟩

def twoFiles : List Op :=
  [.store (.create 1 "a" 0o644), .store (.create 1 "b" 0o644), .store (.link 2 1 "c")]

def relinking : List Op :=
  [.mount ⟨false⟩, .store (.unlink 1 "a"), .store (.link 2 1 "a"), .store (.setVisible 1 "b" false),
    .setAttribute .standard 3 "trusted.b" [7] .none]

theorem slot_names_located_relinked :
    let volume := run twoFiles (initial 16 .current (by decide) .optional 64)
    let rest := run relinking volume
    let a : DirSlot := ⟨3, 2, true, 3⟩
    let b : DirSlot := ⟨4, 3, true, 3⟩
    (volume.store.locateEntry 1 3 = .ok (some a) ∧ volume.store.locateEntry 1 4 = .ok (some b)
        ∧ rest.store.pendingMoves = 0 ∧ rest.store.lookup 1 "a" = .ok (some a.target))
      ∧ ObjectStore.entryName 1 a rest.store = .ok none rest.store
      ∧ ObjectStore.entryName 1 b rest.store = .ok (some "b") rest.store := by
  intro volume rest a b
  let d := (volume.store.directory? 1).get (by decide +kernel)
  let d' := (rest.store.directory? 1).get (by decide +kernel)
  have hdir : volume.store.directory? 1 = some d := (Option.some_get _).symm
  have hdir' : rest.store.directory? 1 = some d' := (Option.some_get _).symm
  have ha : volume.store.locateEntry 1 3 = .ok (some a) := by decide +kernel
  have hb : volume.store.locateEntry 1 4 = .ok (some b) := by decide +kernel
  have hmoves : rest.store.pendingMoves = 0 := by decide +kernel
  refine ⟨⟨ha, hb, hmoves, by decide +kernel⟩, ?_, ?_⟩
  . obtain ⟨_, e, edits, _, _, hslot, _, hkept, hremoved, _⟩ :=
      slot_names_located 16 .current (by decide) .optional 64 twoFiles relinking 1 3 a d' ha hdir' hmoves
    have hoffset : e.offset = 3 := congrArg DirSlot.offset hslot
    have hgone : ∀ e' ∈ d'.entries, e'.offset ≠ 3 := by decide +kernel
    by_cases hmem : .remove e.offset ∈ edits
    . exact (hremoved hmem).2
    . obtain ⟨e', he', hsame, _⟩ := (hkept hmem).1
      exact absurd (hsame.symm.trans hoffset) (hgone e' he')
  . obtain ⟨d₀, e, edits, hdir₀, he, hslot, _, hkept, hremoved, _⟩ :=
      slot_names_located 16 .current (by decide) .optional 64 twoFiles relinking 1 4 b d' hb hdir' hmoves
    have hoffset : e.offset = 4 := congrArg DirSlot.offset hslot
    have hthere : ∃ e' ∈ d'.entries, e'.offset = 4 := by decide +kernel
    have hname : ∀ e ∈ d.entries, e.offset = 4 → e.name = "b" := by decide +kernel
    obtain rfl : d = d₀ := Option.some.inj (hdir.symm.trans hdir₀)
    by_cases hmem : .remove e.offset ∈ edits
    . obtain ⟨e', he', hoffset'⟩ := hthere
      exact absurd (hoffset'.trans hoffset.symm) ((hremoved hmem).1 e' he')
    . rw [← hname e he hoffset]
      exact (hkept hmem).2

end Volume

end AttrTree
