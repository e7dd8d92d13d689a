import AttrTree.Proofs.Failing
import AttrTree.Proofs.Faithful
import Mathlib.Data.List.Perm.Subperm

/-!
This module contains scans that are cut off, because calls of the store fail or because nobody asks
any more, and taken up again by another scan. The position alone tells what is still to come, so the
two find what one scan would have found.
-/

namespace AttrTree

namespace Directory

variable {d : Directory} {id parent : ObjectId}

theorem length_upTo_le (hwf : d.WellFormed id parent) (position : Nat) :
    (d.upTo position).length ≤ position := by
  have hnodup : ((d.upTo position).map (·.offset)).Nodup :=
    List.pairwise_map.mpr ((sorted_upTo hwf position).imp Nat.ne_of_lt)
  have hsubset : (d.upTo position).map (·.offset) ⊆ (List.range position).map (· + 1) := by
    intro offset hoffset
    obtain ⟨e, he, rfl⟩ := List.mem_map.mp hoffset
    obtain ⟨hmem, hle⟩ := mem_upTo.mp he
    have hfirst := first_le_of_mem_ordinary hmem
    simp only [firstOffset] at hfirst
    exact List.mem_map.mpr ⟨e.offset - 1, List.mem_range.mpr (by omega), by omega⟩
  simpa using (hnodup.subperm hsubset).length_le

end Directory

namespace Scan

open Action MemStore ScriptedStore

variable {store : MemStore} {scan : Scan} {script : List Cue} {d : Directory} {e : DirEntry}
  {parent : ObjectId}

def toCome (scan : Scan) (d : Directory) : List ScanItem :=
  ((d.upTo scan.position).filter (scan.shows d)).reverse.map (itemOf d)

theorem toCome_nil (h : d.upTo scan.position = []) : scan.toCome d = [] := by
  simp [toCome, h]

theorem toCome_passed (hwf : d.WellFormed scan.dir parent) {rest : List DirEntry}
    (hupTo : d.upTo scan.position = rest ++ [e]) (hhidden : scan.shows d e = false) :
    (scan.moveBefore e.offset).toCome d = scan.toCome d := by
  have hrest : d.upTo (scan.moveBefore e.offset).position = rest := Directory.upTo_pred hwf hupTo
  rw [toCome, toCome, hrest, hupTo, List.filter_append, List.filter_cons_of_neg (by simp [hhidden]),
    List.filter_nil, List.append_nil]
  rfl

theorem toCome_shown (hwf : d.WellFormed scan.dir parent) {rest : List DirEntry}
    (hupTo : d.upTo scan.position = rest ++ [e]) (hshown : scan.shows d e = true) :
    scan.toCome d = itemOf d e :: (scan.moveBefore e.offset).toCome d := by
  have hrest : d.upTo (scan.moveBefore e.offset).position = rest := Directory.upTo_pred hwf hupTo
  rw [toCome, toCome, hrest, hupTo, List.filter_append, List.filter_cons_of_pos hshown,
    List.filter_nil, List.reverse_append, List.reverse_singleton, List.singleton_append, List.map_cons]
  rfl

theorem length_toCome_le (hwf : d.WellFormed scan.dir parent) :
    (scan.toCome d).length ≤ scan.position := by
  rw [toCome, List.length_map, List.length_reverse]
  exact (List.length_filter_le ..).trans (Directory.length_upTo_le hwf _)

theorem rehearses_look (scan : Scan) (store : MemStore) :
    Rehearses atop (· = store) (look scan) (look scan) store := by
  refine .bind (rehearses_locateEntry (by rfl) _ _) fun found s hs => ?_
  have hsame : s = store := by
    simp only [ObjectStore.locateEntry, query] at hs
    split at hs <;> cases hs
    rfl
  subst hsame
  cases found with
  | none => exact .pure _
  | some slot =>
    simp only
    split
    . exact .pure _
    . split
      . exact .pure _
      . refine .bind (rehearses_entryName (by rfl) _ _) fun name s' _ => ?_
        cases name <;> exact .pure _

inductive Tried (store : MemStore) (scan : Scan) (d : Directory) :
    EStateM.Result Error (ScriptedStore MemStore × Scan) (Option ScanItem) → Prop
  | done {script : List Cue} {moves position : Nat} (hnone : scan.toCome d = [])
      (hsame : { scan with position }.toCome d = scan.toCome d) :
      Tried store scan d
        (.ok none (atop script { store with pendingMoves := moves }, { scan with position }))
  | item {script : List Cue} {moves : Nat} {e : DirEntry}
      (hfirst : scan.toCome d = itemOf d e :: (scan.moveBefore e.offset).toCome d) :
      Tried store scan d (.ok (some (itemOf d e))
        (atop script { store with pendingMoves := moves }, scan.moveBefore e.offset))
  | failed {script : List Cue} {moves position : Nat} (err : Error)
      (hsame : { scan with position }.toCome d = scan.toCome d) :
      Tried store scan d
        (.error err (atop script { store with pendingMoves := moves }, { scan with position }))

variable {result : EStateM.Result Error (ScriptedStore MemStore × Scan) (Option ScanItem)}

theorem Tried.of_passed (hsame : (scan.moveBefore e.offset).toCome d = scan.toCome d)
    (h : Tried store (scan.moveBefore e.offset) d result) : Tried store scan d result := by
  cases h with
  | done hnone hrest => exact .done (hsame.symm.trans hnone) (hrest.trans hsame)
  | item hfirst => exact .item (hsame.symm.trans hfirst)
  | failed err hrest => exact .failed err (hrest.trans hsame)

theorem Tried.of_moves {moves : Nat} (h : Tried { store with pendingMoves := moves } scan d result) :
    Tried store scan d result := by
  cases h with
  | done hnone hsame => exact .done hnone hsame
  | item hfirst => exact .item hfirst
  | failed err hsame => exact .failed err hsame

theorem tried_advance (hdir : store.directory? scan.dir = some d)
    (hwf : d.WellFormed scan.dir parent) (hscript : Cue.Fail script) {fuel : Nat}
    (hfuel : scan.position + store.pendingMoves < fuel) :
    Tried store scan d (advance fuel (atop script store, scan)) := by
  induction fuel generalizing store scan script with
  | zero => omega
  | succ fuel ih =>
    obtain ⟨rest, hrest, ⟨_, hscripted⟩ | ⟨_, err, now, hfailed, hnow⟩⟩ :=
      (rehearses_look scan store).run script hscript
    . have hlooked := @looked store scan d parent hdir hwf
      generalize look scan store = result at hlooked hscripted
      cases hlooked with
      | done hnil =>
        rw [advance_done hscripted]
        exact .done (toCome_nil hnil) rfl
      | pass hupTo hhidden _ =>
        have hless := position_moveBefore_lt hupTo
        rw [advance_pass hscripted]
        exact .of_passed (toCome_passed hwf hupTo hhidden) (ih hdir hwf hrest (by omega))
      | item hupTo hshown _ =>
        rw [advance_item hscripted]
        exact .item (toCome_shown hwf hupTo hshown)
      | moved _ _ hmoves =>
        rw [advance_moved hscripted]
        exact .of_moves (ih hdir hwf hrest (by simp only; omega))
    . subst hnow
      rw [advance_error hfailed]
      exact .failed err rfl

section Finished

variable {σ : Type} [ObjectStore σ] {base : σ} {s : σ × Scan} {err : Error}

theorem finished_of_none (h : next (base, scan) = .ok none s) : s.2.finished = true := by
  unfold next at h
  simp only at h
  split at h
  . next hfinished =>
    cases h
    exact hfinished
  . split at h <;> cases h
    rfl

theorem finished_of_error (h : next (base, scan) = .error err s) : s.2.finished = true := by
  unfold next at h
  simp only at h
  split at h
  . cases h
  . split at h <;> cases h
    rfl

end Finished

theorem next_failing (hdir : store.directory? scan.dir = some d)
    (hwf : d.WellFormed scan.dir parent) (hfinished : scan.finished = false)
    (hscript : Cue.Fail script) :
    (∃ rest moves e, next (atop script store, scan) = .ok (some (itemOf d e))
          (atop rest { store with pendingMoves := moves }, scan.moveBefore e.offset)
        ∧ scan.toCome d = itemOf d e :: (scan.moveBefore e.offset).toCome d)
      ∨ ∃ rest moves position, { scan with position }.toCome d = scan.toCome d
        ∧ (next (atop script store, scan) = .ok none (atop rest { store with pendingMoves := moves },
              { scan with position, finished := true }) ∧ scan.toCome d = []
          ∨ ∃ err, next (atop script store, scan) = .error err
              (atop rest { store with pendingMoves := moves },
                { scan with position, finished := true })) := by
  have hfuel : scan.position + store.pendingMoves < scan.fuel (atop script store) := by
    change _ < scan.position + (store.pendingMoves + Cue.calls script) + 1
    omega
  have htried := tried_advance hdir hwf hscript hfuel
  generalize hresult : advance (scan.fuel (atop script store)) (atop script store, scan) = result
    at htried
  cases htried with
  | @done rest moves position hnone hsame =>
    exact .inr ⟨rest, moves, position, hsame, .inl ⟨by simp [next, hfinished, hresult], hnone⟩⟩
  | @item rest moves e hfirst =>
    exact .inl ⟨rest, moves, e, by simp [next, hfinished, hresult], hfirst⟩
  | @failed rest moves position err hsame =>
    exact .inr ⟨rest, moves, position, hsame, .inr ⟨err, by simp [next, hfinished, hresult]⟩⟩

end Scan

namespace Volume

open Action MemStore ScriptedStore

variable {volume : Volume MemStore} {scan : Scan} {script : List Cue} {d : Directory}
  {dir parent : ObjectId} {pageSize : Nat} {format : ObjectFormat}
  {hpage : Record.headerSize < pageSize} {options : MountOptions} {capacity : Nat}

def failingTurn (script : List Cue) (scan : Scan) (volume : Volume MemStore) :
    Turn × Volume MemStore :=
  match Scan.next (atop script volume.store, scan) with
  | .ok item (store, next) => (⟨volume, scan, .ok item, next⟩, { volume with store := store.base })
  | .error e (store, next) => (⟨volume, scan, .error e, next⟩, { volume with store := store.base })

/-- The turns of a scan, each after operations on the store and with a script of the calls that fail in it. -/
def failingTurns : List (List MemStore.Op × List Cue) → Scan → Volume MemStore →
    List Turn × Scan × Volume MemStore
  | [], scan, volume => ([], scan, volume)
  | (ops, script) :: between, scan, volume =>
    let store := (performAll ops).after volume.store
    let (turn, volume) := failingTurn script scan { volume with store }
    let (T, last) := failingTurns between turn.next volume
    (turn :: T, last)

def Turn.IsLast (turn : Turn) : Prop :=
  turn.item? = none

section Turns

theorem failingTurn_finished (hfinished : scan.finished = true) (script : List Cue)
    (volume : Volume MemStore) :
    failingTurn script scan volume = (⟨volume, scan, .ok none, scan⟩, volume) := by
  simp [failingTurn, Scan.next, hfinished, atop]

theorem finished_of_isLast (hlast : (failingTurn script scan volume).1.IsLast) :
    (failingTurn script scan volume).1.next.finished = true := by
  unfold failingTurn at hlast ⊢
  cases hnext : Scan.next (atop script volume.store, scan) with
  | error e s => exact Scan.finished_of_error hnext
  | ok item s =>
    rw [hnext] at hlast
    have hnone : item = none := hlast
    rw [hnone] at hnext
    exact Scan.finished_of_none hnext

variable {between : List (List MemStore.Op × List Cue)}

theorem found_failingTurns_of_finished (hfinished : scan.finished = true) :
    ∀ turn ∈ (failingTurns between scan volume).1, turn.found = .ok none := by
  induction between generalizing volume with
  | nil => simp [failingTurns]
  | cons step between ih =>
    obtain ⟨ops, script⟩ := step
    simp only [failingTurns, failingTurn_finished hfinished]
    exact List.forall_mem_cons.mpr ⟨rfl, ih⟩

theorem pairwise_failingTurns :
    (failingTurns between scan volume).1.Pairwise fun turn later =>
      turn.IsLast → later.found = .ok none := by
  induction between generalizing scan volume with
  | nil => exact .nil
  | cons step between ih =>
    obtain ⟨ops, script⟩ := step
    refine .cons (fun later hlater hlast => ?_) ih
    exact found_failingTurns_of_finished (finished_of_isLast hlast) later hlater

theorem volume_failingTurn (script : List Cue) (scan : Scan) (volume : Volume MemStore) :
    (failingTurn script scan volume).1.volume = volume := by
  unfold failingTurn
  split <;> rfl

theorem toCome_finished (scan : Scan) (d : Directory) (position : Nat) (finished : Bool) :
    { scan with position, finished }.toCome d = { scan with position }.toCome d :=
  rfl

theorem toCome_failingTurn (hdir : volume.store.directory? scan.dir = some d)
    (hwf : d.WellFormed scan.dir parent) (hscript : Cue.Fail script) :
    ∃ found position finished store, failingTurn script scan volume =
        (⟨volume, scan, found, { scan with position, finished }⟩, { volume with store })
      ∧ (failingTurn script scan volume).1.item?.toList ++ { scan with position }.toCome d =
        scan.toCome d := by
  cases hfinished : scan.finished with
  | true =>
    refine ⟨.ok none, scan.position, scan.finished, volume.store, ?_, ?_⟩
    . exact failingTurn_finished hfinished script volume
    . rw [failingTurn_finished hfinished]
      rfl
  | false =>
    unfold failingTurn
    rcases Scan.next_failing hdir hwf hfinished hscript with
      ⟨rest, moves, e, hnext, hfirst⟩ | ⟨rest, moves, position, hsame, ⟨hnext, _⟩ | ⟨err, hnext⟩⟩
    . rw [hnext]
      exact ⟨_, e.offset - 1, scan.finished, _, rfl, hfirst.symm⟩
    . rw [hnext]
      exact ⟨_, position, true, _, rfl, hsame⟩
    . rw [hnext]
      exact ⟨_, position, true, _, rfl, hsame⟩

theorem items_failingTurns (hwf : d.WellFormed scan.dir parent)
    (hfails : ∀ step ∈ between, Cue.Fail step.2)
    (hstays : ∀ turn ∈ (failingTurns between scan volume).1,
      turn.volume.store.directory? scan.dir = some d) :
    items (failingTurns between scan volume).1 ++ (failingTurns between scan volume).2.1.toCome d =
        scan.toCome d
      ∧ (∃ position finished, (failingTurns between scan volume).2.1 = { scan with position, finished })
      ∧ ∃ store, (failingTurns between scan volume).2.2 = { volume with store } := by
  induction between generalizing scan volume with
  | nil => exact ⟨rfl, ⟨_, _, rfl⟩, _, rfl⟩
  | cons step between ih =>
    obtain ⟨ops, script⟩ := step
    obtain ⟨hscript, hfails⟩ := List.forall_mem_cons.mp hfails
    unfold failingTurns at hstays ⊢
    obtain ⟨hdir, hstays⟩ := List.forall_mem_cons.mp hstays
    rw [volume_failingTurn] at hdir
    obtain ⟨found, position, finished, store, hturn, hcome⟩ := toCome_failingTurn hdir hwf hscript
    simp only [hturn] at hstays hcome ⊢
    obtain ⟨hitems, ⟨position', finished', hlast⟩, store', hnow⟩ :=
      @ih { volume with store } { scan with position, finished } hwf hfails hstays
    refine ⟨?_, ⟨position', finished', hlast⟩, store', hnow⟩
    rw [← hcome, ← toCome_finished scan d position finished, ← hitems, ← List.append_assoc]
    congr 1
    unfold items
    rw [List.filterMap_cons]
    split <;> simp [*]

theorem items_undisturbed_toCome (hdir : volume.store.directory? scan.dir = some d)
    (hwf : d.WellFormed scan.dir parent) (hfinished : scan.finished = false) {count : Nat}
    (hcount : scan.position < count) :
    items (turns (List.replicate count []) scan volume) = scan.toCome d := by
  have hlength := Scan.length_toCome_le hwf
  rw [items_undisturbed count hdir hwf hfinished]
  exact List.take_of_length_le (by unfold Scan.toCome at hlength; omega)

theorem scan_resumes {ops : List Op}
    (hrun : run ops (initial pageSize format hpage options capacity) = volume)
    (hdir : volume.store.directory? dir = some d) (position : Nat)
    (hfails : ∀ step ∈ between, Cue.Fail step.2) :
    let T := (failingTurns between (volume.scanAt dir position) volume).1
    let last := (failingTurns between (volume.scanAt dir position) volume).2.1
    let now := (failingTurns between (volume.scanAt dir position) volume).2.2
    T.Pairwise (fun turn later => turn.IsLast → later.found = .ok none)
      ∧ ((∀ turn ∈ T, turn.volume.store.directory? dir = some d) → now.store.directory? dir = some d →
        ∀ total > position, ∀ count > last.position,
          items T ++ items (turns (List.replicate count []) (now.scanAt dir last.position) now) =
            items (turns (List.replicate total []) (volume.scanAt dir position) volume)) := by
  have hlinked : volume.store.Linked := hrun ▸ linked_run ops (linked_empty ..)
  obtain ⟨parent, hwf, _⟩ := hlinked.placed hdir
  refine ⟨pairwise_failingTurns, fun hstays hend total htotal count hcount => ?_⟩
  obtain ⟨hitems, ⟨left, finished, hlast⟩, store, hnow⟩ :=
    @items_failingTurns volume (volume.scanAt dir position) d parent between hwf hfails hstays
  rw [@items_undisturbed_toCome volume (volume.scanAt dir position) d parent hdir hwf rfl _ htotal,
    ← hitems]
  congr 1
  generalize (failingTurns between (volume.scanAt dir position) volume).2.1 = last at *
  generalize (failingTurns between (volume.scanAt dir position) volume).2.2 = now at *
  rw [@items_undisturbed_toCome now (now.scanAt dir last.position) d parent hend hwf rfl _ hcount]
  subst hlast hnow
  rfl

def oneHidden : List Op :=
  fourFiles ++ [.store (.setVisible 1 "c" false), .store (.planMoves 2)]

def hiddenFile : Volume MemStore :=
  run oneHidden (initial 64 .current headerSize_lt_sixtyFour .optional 64)

def lostLook : List (List MemStore.Op × List Cue) :=
  [([], []), ([.planMoves 3], [⟨.locateEntry, none, none, none, 1, .failure ⟨.io, "lost"⟩⟩]), ([], [])]

def lostTurns : List Turn × Scan × Volume MemStore :=
  failingTurns lostLook (hiddenFile.scanAt 1 7) hiddenFile

theorem scan_resumes_lostTurns :
    lostTurns.1.map (fun turn => turn.found.toOption.map (·.map (·.name))) =
        [some (some "d"), none, some none]
      ∧ lostTurns.2.1.position = 5
      ∧ (items (turns (List.replicate 8 []) (hiddenFile.scanAt 1 7) hiddenFile)).map (·.name) =
        ["d", "b", "a"]
      ∧ lostTurns.1.Pairwise (fun turn later => turn.IsLast → later.found = .ok none)
      ∧ items lostTurns.1 ++ items (turns (List.replicate 6 [])
          (lostTurns.2.2.scanAt 1 lostTurns.2.1.position) lostTurns.2.2) =
        items (turns (List.replicate 8 []) (hiddenFile.scanAt 1 7) hiddenFile) := by
  obtain ⟨d, hdir⟩ : ∃ d, hiddenFile.store.directory? 1 = some d :=
    Option.isSome_iff_exists.mp (by decide +kernel)
  have hfails : ∀ step ∈ lostLook, Cue.Fail step.2 := by decide
  have hstays : ∀ turn ∈ lostTurns.1, turn.volume.store.directory? 1 = hiddenFile.store.directory? 1 := by
    decide +kernel
  have hend : lostTurns.2.2.store.directory? 1 = hiddenFile.store.directory? 1 := by decide +kernel
  have hlast : lostTurns.2.1.position = 5 := by decide +kernel
  have hbefore : lostTurns.2.1.position < 6 := by
    rw [hlast]
    decide
  have hturns : failingTurns lostLook (hiddenFile.scanAt 1 7) hiddenFile = lostTurns := rfl
  have hrun : run oneHidden (initial 64 .current headerSize_lt_sixtyFour .optional 64) = hiddenFile := rfl
  have hcut := scan_resumes hrun hdir 7 hfails
  rw [hturns] at hcut
  obtain ⟨hnone, hitems⟩ := hcut
  exact ⟨by decide +kernel, hlast, by decide +kernel, hnone,
    hitems (fun turn hturn => (hstays turn hturn).trans hdir) (hend.trans hdir) 8 (by decide) 6 hbefore⟩

end Turns

end Volume

end AttrTree
