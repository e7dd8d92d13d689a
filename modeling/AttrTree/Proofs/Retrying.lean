import AttrTree.Proofs.Resuming
import Mathlib.Logic.Relation

/-!
This module contains why a scan comes to an end although entries move while they are looked at. Every
time that the scan looks again, fewer moves are planned or the position is smaller. So the loop needs no
bound on the number of its looks, and the bound that it has changes nothing.
-/

namespace AttrTree

def ScanStep.offset? : ScanStep → Option Nat
  | .done => none
  | .moved => none
  | .pass offset => some offset
  | .item found => some found.slot.offset

namespace Scan

open Action MemStore

section Loop

variable {σ : Type} [ObjectStore σ]

inductive Retry : σ × Scan → σ × Scan → Prop
  | moved {s s' : σ} {scan : Scan} (hlook : look scan s = .ok .moved s') :
      Retry (s, scan) (s', scan)
  | pass {s s' : σ} {scan : Scan} {offset : Nat} (hlook : look scan s = .ok (.pass offset) s') :
      Retry (s, scan) (s', scan.moveBefore offset)

/-- What `look` comes to when it is asked until there is an item, the end or an error, without a bound. -/
inductive Advances : σ × Scan → EStateM.Result Error (σ × Scan) (Option ScanItem) → Prop
  | done {s s' : σ} {scan : Scan} (hlook : look scan s = .ok .done s') :
      Advances (s, scan) (.ok none (s', scan))
  | item {s s' : σ} {scan : Scan} {item : ScanItem} (hlook : look scan s = .ok (.item item) s') :
      Advances (s, scan) (.ok (some item) (s', scan.moveBefore item.slot.offset))
  | error {s s' : σ} {scan : Scan} {err : Error} (hlook : look scan s = .error err s') :
      Advances (s, scan) (.error err (s', scan))
  | again {t t' : σ × Scan} {result : EStateM.Result Error (σ × Scan) (Option ScanItem)}
      (hretry : Retry t t') (hrest : Advances t' result) : Advances t result

theorem Advances.of_look {s : σ} {scan : Scan}
    {result : EStateM.Result Error (σ × Scan) (Option ScanItem)} (h : Advances (s, scan) result) :
    match look scan s with
    | .ok .done s' => result = .ok none (s', scan)
    | .ok .moved s' => Advances (s', scan) result
    | .ok (.pass offset) s' => Advances (s', scan.moveBefore offset) result
    | .ok (.item found) s' => result = .ok (some found) (s', scan.moveBefore found.slot.offset)
    | .error err s' => result = .error err (s', scan) := by
  cases h with
  | done hlook => rw [hlook]
  | item hlook => rw [hlook]
  | error hlook => rw [hlook]
  | again hretry hrest =>
    cases hretry with
    | moved hlook =>
      rw [hlook]
      exact hrest
    | pass hlook =>
      rw [hlook]
      exact hrest

theorem Advances.unique {t : σ × Scan}
    {result result' : EStateM.Result Error (σ × Scan) (Option ScanItem)}
    (h : Advances t result) (h' : Advances t result') : result' = result := by
  -- The induction is on the loop that ends, the other one follows it look by look.
  induction h with
  | again hretry _ ih =>
    have hlooked := h'.of_look
    apply ih
    cases hretry with
    | moved hlook => rwa [hlook] at hlooked
    | pass hlook => rwa [hlook] at hlooked
  | _ hlook =>
    have hlooked := h'.of_look
    rwa [hlook] at hlooked

end Loop

variable {store : MemStore} {scan : Scan} {d : Directory} {e : DirEntry} {parent : ObjectId}
  {t t' : MemStore × Scan}

section Retries

variable (hdir : store.directory? scan.dir = some d) (hwf : d.WellFormed scan.dir parent)
include hdir hwf

theorem looked_of_look {result : EStateM.Result Error MemStore ScanStep}
    (hlook : look scan store = result) : Looked store scan d result := by
  rw [← hlook]
  exact looked hdir hwf

theorem retry_cases (h : Retry (store, scan) t) :
    (∃ moves, store.pendingMoves = moves + 1 ∧ t = ({ store with pendingMoves := moves }, scan))
      ∨ ∃ offset, offset - 1 < scan.position ∧ t = (store, scan.moveBefore offset) := by
  cases h with
  | moved hlook =>
    cases looked_of_look hdir hwf hlook with
    | moved _ _ hmoves => exact .inl ⟨_, hmoves, rfl⟩
  | pass hlook =>
    cases looked_of_look hdir hwf hlook with
    | pass hupTo _ _ => exact .inr ⟨_, position_moveBefore_lt hupTo, rfl⟩

theorem lex_of_retry (h : Retry (store, scan) t) :
    Prod.Lex (· < ·) (· < ·) (t.1.pendingMoves, t.2.position)
      (store.pendingMoves, scan.position) := by
  obtain ⟨moves, hmoves, rfl⟩ | ⟨offset, hless, rfl⟩ := retry_cases hdir hwf h
  . apply Prod.Lex.left
    rw [hmoves]
    apply Nat.lt_succ_self
  . apply Prod.Lex.right
    exact hless

theorem retried (h : Relation.ReflTransGen Retry (store, scan) t) :
    ∃ moves position, t = ({ store with pendingMoves := moves }, { scan with position }) := by
  induction h with
  | refl => exact ⟨store.pendingMoves, scan.position, rfl⟩
  | tail _ hretry ih =>
    obtain ⟨moves, position, rfl⟩ := ih
    let now : MemStore := { store with pendingMoves := moves }
    obtain ⟨moves', _, rfl⟩ | ⟨offset, _, rfl⟩ :=
      @retry_cases now { scan with position } d parent _ hdir hwf hretry
    . exact ⟨moves', position, rfl⟩
    . exact ⟨moves, offset - 1, rfl⟩

theorem offset_pos_of_look {step : ScanStep} {now : MemStore}
    (h : look scan store = .ok step now) {offset : Nat} (hoffset : step.offset? = some offset) :
    0 < offset := by
  cases looked_of_look hdir hwf h with
  | done => cases hoffset
  | moved => cases hoffset
  | pass hupTo _ _ =>
    cases hoffset
    exact Nat.lt_of_lt_of_le (by decide) (Directory.mem_of_upTo hupTo).2.1
  | item hupTo _ _ =>
    cases hoffset
    exact Nat.lt_of_lt_of_le (by decide) (Directory.mem_of_upTo hupTo).2.1

end Retries

theorem advances_advance (hdir : store.directory? scan.dir = some d)
    (hwf : d.WellFormed scan.dir parent) {fuel : Nat}
    (hfuel : scan.position + store.pendingMoves < fuel) :
    Advances (store, scan) (advance fuel (store, scan)) := by
  induction fuel generalizing store scan with
  | zero => omega
  | succ fuel ih =>
    generalize hlook : look scan store = result
    cases looked_of_look hdir hwf hlook with
    | done =>
      rw [advance_done hlook]
      exact .done hlook
    | pass hupTo =>
      have hless := position_moveBefore_lt hupTo
      rw [advance_pass hlook]
      apply Advances.again (.pass hlook)
      exact ih hdir hwf (by omega)
    | item =>
      rw [advance_item hlook]
      exact .item hlook
    | moved _ _ hmoves =>
      rw [advance_moved hlook]
      apply Advances.again (.moved hlook)
      exact ih hdir hwf (by simp only; omega)

def movesLeft (entries : List DirEntry) (moves : Nat) : Nat :=
  if entries.any (·.visible) then 0 else moves

def endPosition (scan : Scan) (d : Directory) : Nat :=
  match d.upTo scan.position with
  | [] => scan.position
  | e :: _ => e.offset - 1

theorem movesLeft_passed {rest : List DirEntry} {moves : Nat}
    (hread : e.visible = true → moves = 0) :
    movesLeft (rest ++ [e]) moves = movesLeft rest moves := by
  unfold movesLeft
  rw [List.any_append, List.any_cons, List.any_nil, Bool.or_false]
  cases hvisible : e.visible with
  | false => rw [Bool.or_false]
  | true => rw [hread hvisible, ite_self, ite_self]

theorem movesLeft_visible {entries : List DirEntry} (he : e ∈ entries) (hvisible : e.visible = true)
    (moves : Nat) : movesLeft entries moves = 0 := by
  apply if_pos
  exact List.any_eq_true.mpr ⟨e, he, hvisible⟩

theorem endPosition_moveBefore (hwf : d.WellFormed scan.dir parent) {rest later : List DirEntry}
    (hupTo : d.upTo scan.position = rest ++ e :: later) :
    (scan.moveBefore e.offset).endPosition d = scan.endPosition d := by
  have hrest : d.upTo (scan.moveBefore e.offset).position = rest := Directory.upTo_before hwf hupTo
  unfold endPosition
  rw [hrest, hupTo]
  cases rest <;> rfl

inductive Arrived (store : MemStore) (scan : Scan) (d : Directory) :
    EStateM.Result Error (MemStore × Scan) (Option ScanItem) → Prop
  | done (hnone : scan.toCome d = []) :
      Arrived store scan d (.ok none
        ({ store with pendingMoves := movesLeft (d.upTo scan.position) store.pendingMoves },
          { scan with position := scan.endPosition d }))
  | item {rest later : List DirEntry} {e : DirEntry}
      (hupTo : d.upTo scan.position = rest ++ e :: later) (hvisible : e.visible = true)
      (hfirst : scan.toCome d = itemOf d e :: (scan.moveBefore e.offset).toCome d) :
      Arrived store scan d
        (.ok (some (itemOf d e)) ({ store with pendingMoves := 0 }, scan.moveBefore e.offset))

variable {result : EStateM.Result Error (MemStore × Scan) (Option ScanItem)}

theorem Arrived.of_passed (hwf : d.WellFormed scan.dir parent) {rest : List DirEntry}
    (hupTo : d.upTo scan.position = rest ++ [e]) (hhidden : scan.shows d e = false)
    (hread : e.visible = true → store.pendingMoves = 0)
    (h : Arrived store (scan.moveBefore e.offset) d result) : Arrived store scan d result := by
  have hrest : d.upTo (scan.moveBefore e.offset).position = rest := Directory.upTo_pred hwf hupTo
  have hsame := toCome_passed hwf hupTo hhidden
  cases h with
  | done hnone =>
    have hmoves := @movesLeft_passed e rest store.pendingMoves hread
    rw [hrest, ← hmoves, ← hupTo, endPosition_moveBefore hwf hupTo]
    exact .done (hsame.symm.trans hnone)
  | @item rest' later e' hupTo' hvisible hfirst =>
    have hsplit : d.upTo scan.position = rest' ++ e' :: (later ++ [e]) := by
      rw [hupTo, ← hrest, hupTo', List.append_assoc, List.cons_append]
    exact .item hsplit hvisible (hsame.symm.trans hfirst)

theorem Arrived.of_moves (he : e ∈ d.upTo scan.position) (hvisible : e.visible = true) {moves : Nat}
    (h : Arrived { store with pendingMoves := moves } scan d result) : Arrived store scan d result := by
  cases h with
  | done hnone =>
    have hsame : movesLeft (d.upTo scan.position) moves =
        movesLeft (d.upTo scan.position) store.pendingMoves := by
      rw [movesLeft_visible he hvisible, movesLeft_visible he hvisible]
    rw [hsame]
    exact .done hnone
  | item hupTo hvisible' hfirst => exact .item hupTo hvisible' hfirst

theorem Advances.arrived {t : MemStore × Scan} (h : Advances t result)
    (hdir : t.1.directory? t.2.dir = some d) (hwf : d.WellFormed t.2.dir parent) :
    Arrived t.1 t.2 d result := by
  induction h with
  | @done store store' scan hlook =>
    cases looked_of_look hdir hwf hlook with
    | done hnil =>
      have harrived := @Arrived.done store scan d (toCome_nil hnil)
      simpa [movesLeft, endPosition, hnil] using harrived
  | @item store store' scan _ hlook =>
    cases looked_of_look hdir hwf hlook with
    | item hupTo hshown hread =>
      have hvisible := (Bool.and_eq_true_iff.mp hshown).1
      have harrived := @Arrived.item store scan d _ [] _ hupTo hvisible (toCome_shown hwf hupTo hshown)
      rwa [← hread] at harrived
  | @error store store' scan _ hlook =>
    cases looked_of_look hdir hwf hlook
  | again hretry _ ih =>
    cases hretry with
    | @moved store store' scan hlook =>
      -- A move is met at a visible entry, so that all planned moves are used up in the end.
      cases looked_of_look hdir hwf hlook with
      | moved hupTo hvisible _ =>
        apply Arrived.of_moves _ hvisible (ih hdir hwf)
        rw [hupTo]
        simp
    | @pass store store' scan _ hlook =>
      cases looked_of_look hdir hwf hlook with
      | pass hupTo hhidden hread => exact .of_passed hwf hupTo hhidden hread (ih hdir hwf)

theorem next_arrived (hdir : store.directory? scan.dir = some d)
    (hwf : d.WellFormed scan.dir parent) (hfinished : scan.finished = false) :
    (scan.toCome d = [] ∧ next (store, scan) = .ok none
        ({ store with pendingMoves := movesLeft (d.upTo scan.position) store.pendingMoves },
          { scan with position := scan.endPosition d, finished := true }))
      ∨ ∃ rest e later, d.upTo scan.position = rest ++ e :: later ∧ e.visible = true
        ∧ scan.toCome d = itemOf d e :: (scan.moveBefore e.offset).toCome d
        ∧ next (store, scan) = .ok (some (itemOf d e))
          ({ store with pendingMoves := 0 }, scan.moveBefore e.offset) := by
  have hadvances := advances_advance hdir hwf (Nat.lt_succ_self (scan.position + store.pendingMoves))
  have harrived := hadvances.arrived hdir hwf
  have hfuel : scan.fuel store = (scan.position + store.pendingMoves).succ := rfl
  generalize hresult : advance (scan.position + store.pendingMoves).succ (store, scan) = result
    at harrived
  cases harrived with
  | done hnone => exact .inl ⟨hnone, by simp [next, hfinished, hfuel, hresult]⟩
  | item hupTo hvisible hfirst =>
    exact .inr ⟨_, _, _, hupTo, hvisible, hfirst, by simp [next, hfinished, hfuel, hresult]⟩

end Scan

namespace Volume

open Action MemStore

variable {volume : Volume MemStore} {scan : Scan} {d : Directory} {parent : ObjectId}

theorem collectItems_none {limit ends : Nat} {store : MemStore} {next : Scan}
    (h : Scan.next (volume.store, scan) = .ok none (store, next)) :
    collectItems (limit + 1) (ends + 1) scan volume =
      ((.ok none, next.position) :: (collectItems limit ends next { volume with store }).1,
        (collectItems limit ends next { volume with store }).2) := by
  simp only [collectItems, h]

theorem collectItems_some {limit ends : Nat} {item : ScanItem} {store : MemStore} {next : Scan}
    (h : Scan.next (volume.store, scan) = .ok (some item) (store, next)) :
    collectItems (limit + 1) (ends + 1) scan volume =
      ((.ok (some item), next.position) :: (collectItems limit (ends + 1) next { volume with store }).1,
        (collectItems limit (ends + 1) next { volume with store }).2) := by
  simp only [collectItems, h]

theorem collectItems_toCome (hdir : volume.store.directory? scan.dir = some d)
    (hwf : d.WellFormed scan.dir parent) (hfinished : scan.finished = false) {limit : Nat}
    (hlimit : scan.position + 2 ≤ limit) :
    collectItems limit 2 scan volume =
      ((scan.toCome d).map (fun item => (.ok (some item), item.slot.offset - 1)) ++
          List.replicate 2 (.ok none, scan.endPosition d),
        { scan with position := scan.endPosition d, finished := true },
        volume.withMoves (Scan.movesLeft (d.upTo scan.position) volume.store.pendingMoves)) := by
  induction limit generalizing scan volume with
  | zero => omega
  | succ limit ih =>
    obtain ⟨hnone, hnext⟩ | ⟨rest, e, later, hupTo, hvisible, hfirst, hnext⟩ :=
      Scan.next_arrived hdir hwf hfinished
    . obtain ⟨limit, rfl⟩ : ∃ rest, limit = rest + 1 := ⟨limit - 1, by omega⟩
      have hend : ∀ store : MemStore, Scan.next (store,
          { scan with position := scan.endPosition d, finished := true }) =
          .ok none (store, { scan with position := scan.endPosition d, finished := true }) :=
        fun _ => rfl
      rw [collectItems_none hnext, collectItems_none (hend _), hnone]
      cases limit <;> rfl
    . obtain ⟨he, _, hle⟩ := Directory.mem_of_upTo hupTo
      have hfirst' := Directory.first_le_of_mem_ordinary he
      have hpos : 0 < e.offset := Nat.lt_of_lt_of_le (by decide) hfirst'
      have hlower : (scan.moveBefore e.offset).position + 2 ≤ limit := by
        simp only [Scan.moveBefore]
        omega
      have hmem : e ∈ d.upTo scan.position := by
        rw [hupTo]
        simp
      have hrest := @ih (volume.withMoves 0) (scan.moveBefore e.offset) hdir hwf hfinished hlower
      have hsame : (volume.withMoves 0).store.pendingMoves = 0 := rfl
      have hleft (entries : List DirEntry) : Scan.movesLeft entries 0 = 0 := ite_self 0
      rw [Scan.endPosition_moveBefore hwf hupTo, hsame, hleft] at hrest
      rw [collectItems_some hnext, Scan.movesLeft_visible hmem hvisible, hfirst, List.map_cons]
      exact congrArg (fun found => ((_, _) :: found.1, found.2)) hrest

theorem movesLeft_upTo (d : Directory) (position moves : Nat) :
    Scan.movesLeft (d.upTo position) moves =
      if ∃ e ∈ d.ordinary, e.visible = true ∧ e.offset ≤ position then 0 else moves := by
  unfold Scan.movesLeft
  congr 1
  rw [List.any_eq_true, eq_iff_iff]
  apply exists_congr
  intro e
  rw [Directory.mem_upTo]
  tauto

/-- `Advances` is the loop without `fuel`. -/
theorem scan_outlasts_moves (pageSize : Nat) (format : ObjectFormat)
    (h : Record.headerSize < pageSize) (options : MountOptions) (capacity : Nat) (ops : List Op)
    (locks : DirLocks) (dir : ObjectId) (d : Directory) (position : Nat) :
    let volume := { run ops (initial pageSize format h options capacity) with locks }
    let scan := volume.scanAt dir position
    volume.store.directory? dir = some d →
    (∀ moves, let start := ((volume.withMoves moves).store, scan)
      (∀ t t', Relation.ReflTransGen Scan.Retry start t → Scan.Retry t t' →
        Prod.Lex (· < ·) (· < ·) (t'.1.pendingMoves, t'.2.position)
          (t.1.pendingMoves, t.2.position))
      ∧ (∀ t step now, Relation.ReflTransGen Scan.Retry start t →
        t.2.look t.1 = .ok step now → ∀ offset, step.offset? = some offset → 0 < offset)
      ∧ ∃ item t, Scan.Advances start (.ok item t)
        ∧ ∀ fuel ≥ scan.fuel start.1, Scan.advance fuel start = .ok item t)
    ∧ ∃ last, ∀ moves limit, position + 2 ≤ limit →
      collectItems limit 2 scan (volume.withMoves moves) =
        ((scan.toCome d).map (fun item => (.ok (some item), item.slot.offset - 1)) ++
            List.replicate 2 (.ok none, last),
          { scan with position := last, finished := true },
          volume.withMoves
            (if ∃ e ∈ d.ordinary, e.visible = true ∧ e.offset ≤ position then 0 else moves)) := by
  intro volume scan hdir
  have hlinked : volume.store.Linked := linked_run ops (linked_empty ..)
  obtain ⟨parent, hwf, _⟩ := hlinked.placed hdir
  constructor
  . intro moves start
    refine ⟨?_, ?_, ?_⟩
    . intro t t' hreached hretry
      obtain ⟨_, _, rfl⟩ := @Scan.retried start.1 scan d parent t hdir hwf hreached
      exact Scan.lex_of_retry hdir hwf hretry
    . intro t step now hreached hlook offset
      obtain ⟨_, _, rfl⟩ := @Scan.retried start.1 scan d parent t hdir hwf hreached
      exact Scan.offset_pos_of_look hdir hwf hlook
    . have hfuel : scan.position + start.1.pendingMoves < scan.fuel start.1 := Nat.lt_succ_self _
      have hadvances := @Scan.advances_advance start.1 scan d parent hdir hwf _ hfuel
      have harrived := hadvances.arrived hdir hwf
      have hbound : ∀ fuel ≥ scan.fuel start.1,
          Scan.advance fuel start = Scan.advance (scan.fuel start.1) start := by
        intro fuel hmore
        apply hadvances.unique
        exact Scan.advances_advance hdir hwf (Nat.lt_of_lt_of_le hfuel hmore)
      generalize Scan.advance (scan.fuel start.1) (start.1, scan) = result at *
      cases harrived with
      | done => exact ⟨_, _, hadvances, hbound⟩
      | item => exact ⟨_, _, hadvances, hbound⟩
  . refine ⟨scan.endPosition d, fun moves limit hlimit => ?_⟩
    rw [@collectItems_toCome (volume.withMoves moves) scan d parent hdir hwf rfl _ hlimit]
    rw [← movesLeft_upTo]
    rfl

theorem scan_outlasts_moves_hidden :
    let volume := { run oneHidden (initial 64 .current headerSize_lt_sixtyFour .optional 64) with
      locks := .empty }
    let scan := volume.scanAt 1 6
    let d := (volume.store.directory? 1).getD default
    let start := ((volume.withMoves 3).store, scan)
    volume.store.directory? 1 = some d
      ∧ (scan.toCome d).map (·.name) = ["b", "a"]
      ∧ (∃ item t, Scan.Advances start (.ok item t)
        ∧ ∀ fuel ≥ scan.fuel start.1, Scan.advance fuel start = .ok item t)
      ∧ ∃ last, collectItems 8 2 scan (volume.withMoves 3) =
        ((scan.toCome d).map (fun item => (.ok (some item), item.slot.offset - 1)) ++
            List.replicate 2 (.ok none, last),
          { scan with position := last, finished := true }, volume.withMoves 0) := by
  intro volume scan d start
  have hdir : volume.store.directory? 1 = some d := by decide +kernel
  have hvisible : ∃ e ∈ d.ordinary, e.visible = true ∧ e.offset ≤ 6 := by decide +kernel
  obtain ⟨hloop, last, hitems⟩ := scan_outlasts_moves 64 .current headerSize_lt_sixtyFour .optional 64
    oneHidden .empty 1 d 6 hdir
  refine ⟨hdir, by decide +kernel, (hloop 3).2.2, last, ?_⟩
  have hall := hitems 3 8 (by decide)
  rwa [if_pos hvisible] at hall

end Volume

end AttrTree
