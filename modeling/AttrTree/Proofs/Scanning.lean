import AttrTree.Attribute.Scan
import AttrTree.Proofs.Outcome
import Mathlib.Data.List.Induction

/-!
This module contains what a scan of a directory of the store in memory finds, and the rule for loops
over the entries of a directory. What is still to come depends on the position only, so the
directory may change meanwhile.
-/

namespace AttrTree

namespace Directory

variable {d : Directory} {e : DirEntry} {id parent : ObjectId} {position : Nat}

def upTo (d : Directory) (position : Nat) : List DirEntry :=
  d.ordinary.filter (·.offset ≤ position)

theorem mem_upTo : e ∈ d.upTo position ↔ e ∈ d.ordinary ∧ e.offset ≤ position := by
  simp [upTo]

theorem sorted_upTo (hwf : d.WellFormed id parent) (position : Nat) :
    (d.upTo position).Pairwise (·.offset < ·.offset) :=
  hwf.sorted.filter _

theorem mem_of_upTo {rest later : List DirEntry} (h : d.upTo position = rest ++ e :: later) :
    e ∈ d.ordinary ∧ firstOffset ≤ e.offset ∧ e.offset ≤ position := by
  have hmem : e ∈ d.upTo position := by
    rw [h]
    simp
  obtain ⟨hmem, hle⟩ := mem_upTo.mp hmem
  exact ⟨hmem, first_le_of_mem_ordinary hmem, hle⟩

theorem upTo_before (hwf : d.WellFormed id parent) {rest later : List DirEntry}
    (h : d.upTo position = rest ++ e :: later) : d.upTo (e.offset - 1) = rest := by
  have hsorted := sorted_upTo hwf position
  rw [h, List.pairwise_append, List.pairwise_cons] at hsorted
  obtain ⟨_, ⟨hlater, _⟩, hrest⟩ := hsorted
  obtain ⟨_, hpos, hle⟩ := mem_of_upTo h
  simp only [firstOffset] at hpos
  have hbefore : d.upTo (e.offset - 1) = (d.upTo position).filter (·.offset ≤ e.offset - 1) := by
    rw [upTo, upTo, List.filter_filter]
    apply List.filter_congr
    intro e' _
    simp only [decide_eq_decide, Bool.and_eq_decide, decide_eq_true_eq]
    omega
  have hfront : rest.filter (·.offset ≤ e.offset - 1) = rest := by
    apply List.filter_eq_self.mpr
    intro e' he'
    have := hrest e' he' e (by simp)
    simp only [decide_eq_true_eq]
    omega
  have hback : (e :: later).filter (·.offset ≤ e.offset - 1) = [] := by
    apply List.filter_eq_nil_iff.mpr
    intro e' he'
    obtain rfl | he' := List.mem_cons.mp he'
    . simp only [decide_eq_true_eq]
      omega
    . have := hlater e' he'
      simp only [decide_eq_true_eq]
      omega
  rw [hbefore, h, List.filter_append, hfront, hback, List.append_nil]

theorem upTo_pred (hwf : d.WellFormed id parent) {rest : List DirEntry}
    (h : d.upTo position = rest ++ [e]) : d.upTo (e.offset - 1) = rest :=
  upTo_before hwf h

theorem offset_le_of_mem_remove (hwf : d.WellFormed id parent) {rest : List DirEntry}
    (h : d.upTo position = rest ++ [e]) (hleft : ∀ e' ∈ d.ordinary, e'.offset ≤ position)
    {e' : DirEntry} (he' : e' ∈ (d.remove e.offset).ordinary) : e'.offset ≤ e.offset - 1 := by
  rw [hwf.mem_ordinary_remove (mem_of_upTo h).1] at he'
  have hupTo : e' ∈ d.upTo position := mem_upTo.mpr ⟨he'.1, hleft e' he'.1⟩
  rw [h, List.mem_append, List.mem_singleton] at hupTo
  have hfront := hupTo.resolve_right he'.2
  rw [← upTo_pred hwf h] at hfront
  exact (mem_upTo.mp hfront).2

theorem entryAt?_eq (hwf : d.WellFormed id parent) (he : e ∈ d.entries) :
    d.entryAt? e.offset = some e := by
  cases hfind : d.entryAt? e.offset with
  | none =>
    rw [entryAt?, List.find?_eq_none] at hfind
    exact absurd (hfind e he) (by simp)
  | some e' =>
    have hmem : e' ∈ d.entries := List.mem_of_find?_eq_some hfind
    have hoffset : e'.offset = e.offset := by
      simpa using List.find?_some hfind
    rw [hwf.eq_of_offset hmem he hoffset]

theorem nameAt?_slot (hwf : d.WellFormed id parent) (he : e ∈ d.entries) :
    d.nameAt? (d.slot e) = some e.name := by
  simp [nameAt?, slot, entryAt?_eq hwf he]

theorem locate?_of_upTo (hwf : d.WellFormed id parent) {rest : List DirEntry}
    (h : d.upTo position = rest ++ [e]) : d.locate? position = some (d.slot e) := by
  obtain ⟨v, w, heq⟩ := hwf.entries_eq
  have hfilter : (d.ordinary.filter (·.offset ≤ position)).getLast? = some e := by
    rw [show d.ordinary.filter (·.offset ≤ position) = rest ++ [e] from h]
    simp
  have hlast : (d.entries.filter (·.offset ≤ position)).getLast? = some e := by
    rw [heq, List.filter_cons, List.filter_cons]
    split <;> split <;> simp [hfilter, List.getLast?_cons]
  simp [locate?, hlast]

theorem locate?_of_upTo_nil (h : d.upTo position = []) :
    ∀ slot, d.locate? position = some slot → slot.offset ≤ parentOffset := by
  intro slot hslot
  simp only [locate?, Option.map_eq_some_iff] at hslot
  obtain ⟨e, hlast, rfl⟩ := hslot
  have hmem := List.mem_of_getLast? hlast
  simp only [List.mem_filter, decide_eq_true_eq] at hmem
  by_contra hoffset
  have hordinary : e ∈ d.ordinary := by
    simp only [ordinary, List.mem_filter, decide_eq_true_eq]
    exact ⟨hmem.1, Nat.lt_of_not_le hoffset⟩
  have : e ∈ d.upTo position := mem_upTo.mpr ⟨hordinary, hmem.2⟩
  rw [h] at this
  cases this

end Directory

namespace Scan

open Action MemStore

variable {store : MemStore} {scan : Scan} {d : Directory} {e : DirEntry} {id parent : ObjectId}

def shows (scan : Scan) (d : Directory) (e : DirEntry) : Bool :=
  e.visible && !scan.hides e.name (d.slot e)

def itemOf (d : Directory) (e : DirEntry) : ScanItem :=
  { name := e.name, slot := d.slot e }

theorem locateEntry_eq (hdir : store.directory? id = some d) (position : Nat) :
    ObjectStore.locateEntry id position store = .ok (d.locate? position) store := by
  have hget := getDirectory_eq_ok_iff.mpr hdir
  simp [ObjectStore.locateEntry, query, MemStore.locateEntry, hget, bind, Except.bind, pure,
    Except.pure]

theorem entryName_eq (hdir : store.directory? id = some d) (slot : DirSlot)
    (hmoves : store.pendingMoves = 0) :
    ObjectStore.entryName id slot store = .ok (d.nameAt? slot) store := by
  have hget := getDirectory_eq_ok_iff.mpr hdir
  simp [ObjectStore.entryName, entryNameMoving, hmoves, query, MemStore.entryName, hget, bind,
    Except.bind, pure, Except.pure]

theorem entryName_moved (id : ObjectId) (slot : DirSlot) {moves : Nat}
    (hmoves : store.pendingMoves = moves + 1) :
    ObjectStore.entryName id slot store = .ok none { store with pendingMoves := moves } := by
  simp [ObjectStore.entryName, entryNameMoving, hmoves]

section Look

theorem look_done (hdir : store.directory? scan.dir = some d) (h : d.upTo scan.position = []) :
    look scan store = .ok .done store := by
  have hlocate := Directory.locate?_of_upTo_nil h
  rw [look, bind_apply, locateEntry_eq hdir]
  cases hslot : d.locate? scan.position with
  | none => rfl
  | some slot => simp [hlocate slot hslot]

variable {rest : List DirEntry} (hdir : store.directory? scan.dir = some d)
  (hwf : d.WellFormed scan.dir parent) (h : d.upTo scan.position = rest ++ [e])
include hdir hwf h

omit hdir hwf in
theorem offset_of_upTo : e ∈ d.ordinary ∧ e.offset ≤ scan.position
    ∧ ¬ e.offset ≤ Directory.parentOffset := by
  obtain ⟨hmem, hfirst, hle⟩ := Directory.mem_of_upTo h
  refine ⟨hmem, hle, ?_⟩
  simp only [Directory.firstOffset, Directory.parentOffset] at *
  omega

theorem look_invisible (hvisible : e.visible = false) :
    look scan store = .ok (.pass e.offset) store := by
  obtain ⟨_, _, hoffset⟩ := offset_of_upTo h
  rw [look, bind_apply, locateEntry_eq hdir, Directory.locate?_of_upTo hwf h]
  simp [Directory.slot, hoffset, hvisible]

theorem look_moved (hvisible : e.visible = true) {moves : Nat}
    (hmoves : store.pendingMoves = moves + 1) :
    look scan store = .ok .moved { store with pendingMoves := moves } := by
  obtain ⟨_, _, hoffset⟩ := offset_of_upTo h
  rw [look, bind_apply, locateEntry_eq hdir, Directory.locate?_of_upTo hwf h]
  simp [Directory.slot, hoffset, hvisible, entryName_moved _ _ hmoves]

theorem look_visible (hvisible : e.visible = true) (hmoves : store.pendingMoves = 0) :
    look scan store =
      .ok (if scan.hides e.name (d.slot e) then .pass e.offset else .item (itemOf d e)) store := by
  obtain ⟨hmem, _, hoffset⟩ := offset_of_upTo h
  have hname := Directory.nameAt?_slot hwf (Directory.mem_entries_of_mem_ordinary hmem)
  rw [look, bind_apply, locateEntry_eq hdir, Directory.locate?_of_upTo hwf h]
  have hslot : ¬ (d.slot e).offset ≤ Directory.parentOffset := hoffset
  have hvisible' : (d.slot e).visible = true := hvisible
  simp only [hslot, if_false, hvisible', Bool.not_true, Bool.false_eq_true, bind_apply,
    entryName_eq hdir _ hmoves, hname, pure_apply]
  rfl

omit hdir hwf in
theorem position_moveBefore_lt : (scan.moveBefore e.offset).position < scan.position := by
  obtain ⟨_, hle, hoffset⟩ := offset_of_upTo h
  simp only [moveBefore, Directory.parentOffset] at *
  omega

end Look

inductive Looked (store : MemStore) (scan : Scan) (d : Directory) :
    EStateM.Result Error MemStore ScanStep → Prop
  | done (hnil : d.upTo scan.position = []) : Looked store scan d (.ok .done store)
  | pass {rest : List DirEntry} {e : DirEntry} (hupTo : d.upTo scan.position = rest ++ [e])
      (hhidden : scan.shows d e = false) (hread : e.visible = true → store.pendingMoves = 0) :
      Looked store scan d (.ok (.pass e.offset) store)
  | item {rest : List DirEntry} {e : DirEntry} (hupTo : d.upTo scan.position = rest ++ [e])
      (hshown : scan.shows d e = true) (hread : store.pendingMoves = 0) :
      Looked store scan d (.ok (.item (itemOf d e)) store)
  | moved {rest : List DirEntry} {e : DirEntry} {moves : Nat}
      (hupTo : d.upTo scan.position = rest ++ [e]) (hvisible : e.visible = true)
      (hmoves : store.pendingMoves = moves + 1) :
      Looked store scan d (.ok .moved { store with pendingMoves := moves })

theorem looked (hdir : store.directory? scan.dir = some d) (hwf : d.WellFormed scan.dir parent) :
    Looked store scan d (look scan store) := by
  rcases List.eq_nil_or_concat (d.upTo scan.position) with hnil | ⟨rest, e, hupTo⟩
  . rw [look_done hdir hnil]
    exact .done hnil
  . rw [List.concat_eq_append] at hupTo
    cases hvisible : e.visible with
    | false =>
      rw [look_invisible hdir hwf hupTo hvisible]
      exact .pass hupTo (by simp [shows, hvisible]) (by simp [hvisible])
    | true =>
      cases hmoves : store.pendingMoves with
      | zero =>
        rw [look_visible hdir hwf hupTo hvisible hmoves]
        cases hhides : scan.hides e.name (d.slot e) with
        | true => exact .pass hupTo (by simp [shows, hhides]) fun _ => hmoves
        | false => exact .item hupTo (by simp [shows, hvisible, hhides]) hmoves
      | succ moves =>
        rw [look_moved hdir hwf hupTo hvisible hmoves]
        exact .moved hupTo hvisible hmoves

section Advance

variable {σ : Type} [ObjectStore σ] {s s' : σ} {fuel : Nat}

theorem advance_done (h : look scan s = .ok .done s') :
    advance (fuel + 1) (s, scan) = .ok none (s', scan) := by
  simp [advance, onFirst, h]

theorem advance_pass {offset : Nat} (h : look scan s = .ok (.pass offset) s') :
    advance (fuel + 1) (s, scan) = advance fuel (s', scan.moveBefore offset) := by
  simp [advance, onFirst, h]

theorem advance_item {item : ScanItem} (h : look scan s = .ok (.item item) s') :
    advance (fuel + 1) (s, scan) = .ok (some item) (s', scan.moveBefore item.slot.offset) := by
  simp [advance, onFirst, h]

theorem advance_moved (h : look scan s = .ok .moved s') :
    advance (fuel + 1) (s, scan) = advance fuel (s', scan) := by
  simp [advance, onFirst, h]

theorem advance_error {err : Error} (h : look scan s = .error err s') :
    advance (fuel + 1) (s, scan) = .error err (s', scan) := by
  simp [advance, onFirst, h]

end Advance

inductive Advanced (store : MemStore) (scan : Scan) (d : Directory) :
    EStateM.Result Error (MemStore × Scan) (Option ScanItem) → Prop
  | done {moves position : Nat} (hhidden : ∀ e ∈ d.upTo scan.position, scan.shows d e = false) :
      Advanced store scan d
        (.ok none ({ store with pendingMoves := moves }, { scan with position }))
  | item {rest later : List DirEntry} {e : DirEntry} {moves : Nat}
      (hupTo : d.upTo scan.position = rest ++ e :: later) (hshown : scan.shows d e = true)
      (hhidden : ∀ e' ∈ later, scan.shows d e' = false) :
      Advanced store scan d
        (.ok (some (itemOf d e)) ({ store with pendingMoves := moves }, scan.moveBefore e.offset))

theorem Advanced.of_pass {result : EStateM.Result Error (MemStore × Scan) (Option ScanItem)}
    (hwf : d.WellFormed scan.dir parent) {rest : List DirEntry}
    (hupTo : d.upTo scan.position = rest ++ [e]) (hhidden : scan.shows d e = false)
    (h : Advanced store (scan.moveBefore e.offset) d result) : Advanced store scan d result := by
  have hpred : d.upTo (scan.moveBefore e.offset).position = rest := Directory.upTo_pred hwf hupTo
  cases h with
  | done hrest =>
    refine .done fun e' he' => ?_
    rw [hupTo, List.mem_append, List.mem_singleton] at he'
    obtain he' | rfl := he'
    . exact hrest e' (hpred ▸ he')
    . exact hhidden
  | @item rest' later e' moves hrest hshown hlater =>
    have hsplit : d.upTo scan.position = rest' ++ e' :: (later ++ [e]) := by
      rw [hupTo, ← hpred, hrest, List.append_assoc, List.cons_append]
    refine .item hsplit hshown fun e'' he'' => ?_
    rw [List.mem_append, List.mem_singleton] at he''
    obtain he'' | rfl := he''
    . exact hlater e'' he''
    . exact hhidden

theorem Advanced.of_moves {result : EStateM.Result Error (MemStore × Scan) (Option ScanItem)}
    {moves : Nat} (h : Advanced { store with pendingMoves := moves } scan d result) :
    Advanced store scan d result := by
  cases h with
  | done hhidden => exact .done hhidden
  | item hupTo hshown hhidden => exact .item hupTo hshown hhidden

theorem advanced (hdir : store.directory? scan.dir = some d)
    (hwf : d.WellFormed scan.dir parent) {fuel : Nat}
    (hfuel : scan.position + store.pendingMoves < fuel) :
    Advanced store scan d (advance fuel (store, scan)) := by
  -- The fuel is used up by moves, of which there are fewer every time, and by hidden entries, behind
  -- which the position never returns.
  induction fuel generalizing store scan with
  | zero => omega
  | succ fuel ih =>
    have hlooked := @looked store scan d parent hdir hwf
    generalize hlook : look scan store = result at hlooked
    cases hlooked with
    | done hnil =>
      rw [advance_done hlook]
      exact .done (by simp [hnil])
    | pass hupTo hhidden _ =>
      have hless := position_moveBefore_lt hupTo
      rw [advance_pass hlook]
      exact .of_pass hwf hupTo hhidden (ih hdir hwf (by omega))
    | item hupTo hshown _ =>
      rw [advance_item hlook]
      exact .item hupTo hshown (by simp)
    | moved _ _ hmoves =>
      rw [advance_moved hlook]
      exact .of_moves (ih hdir hwf (by simp only; omega))

theorem next_cases (hdir : store.directory? scan.dir = some d)
    (hwf : d.WellFormed scan.dir parent) (hfinished : scan.finished = false) :
    (∃ moves position, next (store, scan) =
        .ok none ({ store with pendingMoves := moves }, { scan with position, finished := true })
      ∧ ∀ e ∈ d.upTo scan.position, scan.shows d e = false)
    ∨ ∃ rest e later moves, d.upTo scan.position = rest ++ e :: later ∧ scan.shows d e = true
      ∧ (∀ e' ∈ later, scan.shows d e' = false)
      ∧ next (store, scan) =
        .ok (some (itemOf d e)) ({ store with pendingMoves := moves }, scan.moveBefore e.offset) := by
  have hadvanced := advanced hdir hwf (Nat.lt_succ_self (scan.position + store.pendingMoves))
  have hfuel : scan.fuel store = (scan.position + store.pendingMoves).succ := rfl
  generalize hresult : advance (scan.position + store.pendingMoves).succ (store, scan) = result
    at hadvanced
  cases hadvanced with
  | @done moves position hhidden =>
    exact .inl ⟨moves, position, by simp [next, hfinished, hfuel, hresult], hhidden⟩
  | @item rest later e moves hupTo hshown hhidden =>
    refine .inr ⟨rest, e, later, moves, hupTo, hshown, hhidden, ?_⟩
    simp [next, hfinished, hfuel, hresult]

end Scan

namespace Volume

open Action MemStore

variable {β : Type} {visit : ScanItem → Action (Volume MemStore × β) Unit} {scan : Scan}
  {dir : ObjectId}

def withMoves (moves : Nat) (volume : Volume MemStore) : Volume MemStore :=
  { volume with store := { volume.store with pendingMoves := moves } }

theorem nextItem_cases {d : Directory} {parent : ObjectId} (s : Volume MemStore × β)
    (hdir : s.1.store.directory? scan.dir = some d) (hwf : d.WellFormed scan.dir parent)
    (hfinished : scan.finished = false) :
    (∃ moves scan', nextItem scan s = .ok (none, scan') (s.1.withMoves moves, s.2)
      ∧ ∀ e ∈ d.upTo scan.position, scan.shows d e = false)
    ∨ ∃ rest e later moves, d.upTo scan.position = rest ++ e :: later ∧ scan.shows d e = true
      ∧ (∀ e' ∈ later, scan.shows d e' = false)
      ∧ nextItem scan s =
        .ok (some (Scan.itemOf d e), scan.moveBefore e.offset) (s.1.withMoves moves, s.2) := by
  rcases Scan.next_cases hdir hwf hfinished with
    ⟨moves, position, hnext, hhidden⟩ | ⟨rest, e, later, moves, hupTo, hshown, hhidden, hnext⟩
  . exact .inl ⟨moves, _, by simp only [nextItem, hnext]; rfl, hhidden⟩
  . exact .inr ⟨rest, e, later, moves, hupTo, hshown, hhidden, by simp only [nextItem, hnext]; rfl⟩

section Lock

variable {σ β : Type} [ObjectStore σ] {visit : ScanItem → Action (Volume σ × β) Unit}
  {volume : Volume σ} {dir : ObjectId} (b : β)

theorem forEachEntry_of_locked (hlock : volume.locks.lock? dir = none) :
    forEachEntry dir visit (volume, b) = .error Scan.directoryLocked (volume, b) := by
  simp only [forEachEntry, withLockAnd, bind_apply, onFirst, lockDirectory, get_apply, hlock,
    ofOption_none]

theorem forEachEntry_eq {locks : DirLocks} (hlock : volume.locks.lock? dir = some locks) :
    forEachEntry dir visit (volume, b) =
      (visitItems visit (Directory.lastOffset + 1)
        (volume.scanAt dir Directory.lastOffset)).thenAlways
          (fun s => (s.1.unlockDirectory dir, s.2)) ({ volume with locks }, b) := by
  simp only [forEachEntry, withLockAnd, bind_apply, onFirst, lockDirectory, get_apply, hlock,
    ofOption_some, modify_apply, thenAlways]
  rfl

end Lock

/-- `J p s` holds when a loop over the entries of `scan.dir` has passed the entries behind `p`. -/
structure LoopInvariant (visit : ScanItem → Action (Volume MemStore × β) Unit) (scan : Scan)
    (J : Nat → Volume MemStore × β → Prop) : Prop where
  directory : ∀ ⦃p s⦄, J p s →
    ∃ d parent, s.1.store.directory? scan.dir = some d ∧ d.WellFormed scan.dir parent
  moves : ∀ ⦃p s⦄, J p s → ∀ moves, J p (s.1.withMoves moves, s.2)
  hidden : ∀ ⦃p s d rest e⦄, J p s → s.1.store.directory? scan.dir = some d →
    d.upTo p = rest ++ [e] → scan.shows d e = false → J (e.offset - 1) s
  shown : ∀ ⦃p s d rest e⦄, J p s → s.1.store.directory? scan.dir = some d →
    d.upTo p = rest ++ [e] → scan.shows d e = true →
    ∃ s', visit (Scan.itemOf d e) s = .ok () s' ∧ J (e.offset - 1) s'

namespace LoopInvariant

variable {J : Nat → Volume MemStore × β → Prop} {p : Nat} {s : Volume MemStore × β}
  {d : Directory} {parent : ObjectId}

theorem pass (h : LoopInvariant visit scan J) (hdir : s.1.store.directory? scan.dir = some d)
    (hwf : d.WellFormed scan.dir parent) (front later : List DirEntry) (hs : J p s)
    (hupTo : d.upTo p = front ++ later) (hhidden : ∀ e ∈ later, scan.shows d e = false) :
    ∃ p', J p' s ∧ d.upTo p' = front := by
  induction later using List.reverseRecOn generalizing p with
  | nil => exact ⟨p, hs, by simpa using hupTo⟩
  | append_singleton later e ih =>
    rw [← List.append_assoc] at hupTo
    have hnext := h.hidden hs hdir hupTo (hhidden e (by simp))
    exact ih hnext (Directory.upTo_pred hwf hupTo) fun e' he' => hhidden e' (by simp [he'])

theorem visitItems (h : LoopInvariant visit scan J) {fuel : Nat} (hs : J p s)
    (hposition : scan.position = p) (hfinished : scan.finished = false) (hfuel : p < fuel) :
    ∃ p' s', Volume.visitItems visit fuel scan s = .ok () s' ∧ J p' s'
      ∧ ∀ d, s'.1.store.directory? scan.dir = some d → d.upTo p' = [] := by
  induction fuel generalizing p s scan with
  | zero => omega
  | succ fuel ih =>
    obtain ⟨d, parent, hdir, hwf⟩ := h.directory hs
    subst hposition
    rcases nextItem_cases s hdir hwf hfinished with
      ⟨moves, scan', hnext, hhidden⟩ | ⟨rest, e, later, moves, hupTo, hshown, hhidden, hnext⟩
    . obtain ⟨p', hend, hnil⟩ := h.pass (s := (s.1.withMoves moves, s.2)) hdir hwf [] _
        (h.moves hs moves) rfl hhidden
      refine ⟨p', (s.1.withMoves moves, s.2), ?_, hend, fun d' hdir' => ?_⟩
      . simp [Volume.visitItems, hnext]
      . have hsame : some d = some d' := hdir.symm.trans hdir'
        injection hsame with hsame
        exact hsame ▸ hnil
    . obtain ⟨p', hfront, hlast⟩ := h.pass (s := (s.1.withMoves moves, s.2)) hdir hwf
        (rest ++ [e]) later (h.moves hs moves) (by simpa using hupTo) hhidden
      obtain ⟨s', hvisit, hs'⟩ := h.shown hfront hdir hlast hshown
      obtain ⟨_, hfirst, hle⟩ := Directory.mem_of_upTo hupTo
      have hpos : 0 < e.offset := Nat.lt_of_lt_of_le (by decide) hfirst
      have hrest : LoopInvariant visit (scan.moveBefore e.offset) J :=
        ⟨h.directory, h.moves, h.hidden, h.shown⟩
      obtain ⟨p'', s'', hrun, hend⟩ := ih hrest hs' rfl hfinished (by omega)
      refine ⟨p'', s'', ?_, hend⟩
      simp [Volume.visitItems, hnext, hvisit, hrun]

theorem forEachEntry {volume : Volume MemStore} {b : β} {locks : DirLocks}
    (h : LoopInvariant visit (volume.scanAt dir Directory.lastOffset) J)
    (hfree : volume.locks.lock? dir = some locks)
    (hs : J Directory.lastOffset ({ volume with locks }, b)) :
    ∃ p' s', Volume.forEachEntry dir visit (volume, b) =
        .ok () (s'.1.unlockDirectory dir, s'.2) ∧ J p' s'
      ∧ ∀ d, s'.1.store.directory? dir = some d → d.upTo p' = [] := by
  obtain ⟨p', s', hrun, hend, hnil⟩ := h.visitItems hs rfl rfl
    (Nat.lt_succ_self Directory.lastOffset)
  refine ⟨p', s', ?_, hend, hnil⟩
  rw [forEachEntry_eq b hfree, thenAlways, hrun]

end LoopInvariant

end Volume

end AttrTree
