import AttrTree.Proofs.Tree
import AttrTree.Proofs.Turns
import AttrTree.Proofs.Visits

/-!
This module contains that a scan loses nothing and repeats nothing while the directory changes, between
the items or in the visits to them. The visits to the entries of a directory are turns of a scan like
any other, so what holds of the turns holds of the visits.
-/

namespace AttrTree

namespace Volume

open Action MemStore

variable {β : Type} {visit : ScanItem → Action (Volume MemStore × β) Unit}
  {noted : β → List ScanItem} {scan : Scan} {s : Volume MemStore × β}

def turnAt (look : Scan × Volume MemStore × β) : Turn :=
  match Scan.next (look.2.1.store, look.1) with
  | .ok found (_, next) => ⟨look.2.1, look.1, .ok found, next⟩
  | .error e (_, next) => ⟨look.2.1, look.1, .error e, next⟩

def visitTurns (visit : ScanItem → Action (Volume MemStore × β) Unit) (fuel : Nat) (scan : Scan)
    (s : Volume MemStore × β) : List Turn :=
  (looks visit fuel scan s).map turnAt

def entryTurns (dir : ObjectId) (visit : ScanItem → Action (Volume MemStore × β) Unit)
    (s : Volume MemStore × β) : List Turn :=
  (entryLooks dir visit s).map turnAt

structure CallsAndNotes (visit : ScanItem → Action (Volume MemStore × β) Unit)
    (noted : β → List ScanItem) : Prop where
  calls : ∀ item s, ∃ ops, ((visit item).after s).1 = run ops s.1
  notes : ∀ item s, noted ((visit item).after s).2 = noted s.2 ++ [item]

section Loop

theorem visitTurns_succ (fuel : Nat) (scan : Scan) (volume : Volume MemStore) (b : β) :
    visitTurns visit (fuel + 1) scan (volume, b) =
      match Scan.next (volume.store, scan) with
      | .ok (some item) (store, next) =>
        ⟨volume, scan, .ok (some item), next⟩ ::
          match visit item ({ volume with store }, b) with
          | .ok _ s => visitTurns visit fuel next s
          | .error _ _ => []
      | .ok none (_, next) => [⟨volume, scan, .ok none, next⟩]
      | .error e (_, next) => [⟨volume, scan, .error e, next⟩] := by
  rw [visitTurns, looks, List.map_cons, turnAt, nextItem]
  cases Scan.next (volume.store, scan) with
  | error e t => rfl
  | ok item? t =>
    cases item? with
    | none => rfl
    | some item =>
      simp only
      cases visit item ({ volume with store := t.1 }, b) <;> rfl

theorem visitTurns_eq (h : CallsAndNotes visit noted) (fuel : Nat) :
    ∃ between, visitTurns visit fuel scan s = turns between scan s.1 := by
  induction fuel generalizing scan s with
  | zero => exact ⟨[], rfl⟩
  | succ fuel ih =>
    obtain ⟨volume, b⟩ := s
    cases hnext : Scan.next (volume.store, scan) with
    | error e t => exact ⟨[[]], by simp only [visitTurns_succ, turns, run, List.foldl_nil, hnext]⟩
    | ok item? t =>
      have hone : turns [[]] scan volume = [⟨volume, scan, .ok item?, t.2⟩] := turns_cons_ok hnext
      cases item? with
      | none => exact ⟨[[]], by simp only [visitTurns_succ, hnext, hone]⟩
      | some item =>
        let found : Volume MemStore × β := ({ volume with store := t.1 }, b)
        cases hvisit : visit item found with
        | error e s' => exact ⟨[[]], by simp only [visitTurns_succ, hnext, hone, found, hvisit]⟩
        | ok _ s' =>
          have hturns : visitTurns visit (fuel + 1) scan (volume, b) =
              ⟨volume, scan, .ok (some item), t.2⟩ :: visitTurns visit fuel t.2 s' := by
            simp only [visitTurns_succ, hnext, found, hvisit]
          obtain ⟨between, hbetween⟩ := @ih t.2 s'
          obtain ⟨ops, hops⟩ := h.calls item found
          rw [after_of_ok hvisit] at hops
          rw [hturns, hbetween, hops]
          -- The calls of the visit come before those that are made at the next turn.
          cases between with
          | nil => exact ⟨[[]], hone.symm⟩
          | cons ops' between =>
            refine ⟨[] :: (ops ++ ops') :: between, ?_⟩
            rw [← turns_run]
            exact (@turns_cons_ok volume scan t.2 [] _ _ t.1 hnext).symm

theorem items_map_turnAt (looks : List (Scan × Volume MemStore × β)) :
    items (looks.map turnAt) = (looks.filterMap visitAt).map Prod.fst := by
  rw [items, List.filterMap_map, List.map_filterMap]
  congr 1
  funext ⟨scan, volume, b⟩
  simp only [Function.comp_apply, turnAt, visitAt, nextItem]
  cases Scan.next (volume.store, scan) with
  | error e t => rfl
  | ok item? t => cases item? <;> rfl

theorem noted_visitItems (h : CallsAndNotes visit noted) (fuel : Nat) :
    noted ((visitItems visit fuel scan).after s).2 =
      noted s.2 ++ (visits visit fuel scan s).map Prod.fst := by
  induction fuel generalizing scan s with
  | zero => exact (List.append_nil _).symm
  | succ fuel ih =>
    obtain ⟨volume, b⟩ := s
    unfold after visitItems
    rw [bind_apply, visits_succ, nextItem]
    cases Scan.next (volume.store, scan) with
    | error e t => exact (List.append_nil _).symm
    | ok item? t =>
      cases item? with
      | none => exact (List.append_nil _).symm
      | some item =>
        have hnoted := h.notes item ({ volume with store := t.1 }, b)
        unfold after at hnoted ih
        simp only [bind_apply]
        cases hvisit : visit item ({ volume with store := t.1 }, b) with
        | error e s' =>
          rw [hvisit] at hnoted
          exact hnoted
        | ok _ s' =>
          simp only [hvisit] at hnoted
          simp only [ih, hnoted, List.map_cons, List.append_assoc, List.singleton_append]

theorem StaysLive.directory? {fuel : Nat} {dir : ObjectId}
    (h : StaysLive dir (visitTurns visit (fuel + 1) scan s)) :
    ∃ d, s.1.store.directory? dir = some d := by
  refine Option.isSome_iff_exists.mp ?_
  obtain ⟨volume, b⟩ := s
  rw [visitTurns_succ] at h
  split at h <;> exact h _ (List.mem_cons_self ..)

theorem visitItems_succeeds (h : CallsAndNotes visit noted)
    (hok : ∀ item s, ∃ s', visit item s = .ok () s') {fuel : Nat} (hlinked : s.1.store.Linked)
    (hfinished : scan.finished = false) (hfuel : scan.position < fuel)
    (hlive : StaysLive scan.dir (visitTurns visit fuel scan s)) :
    (∃ s', visitItems visit fuel scan s = .ok () s')
      ∧ ∃ turn ∈ visitTurns visit fuel scan s, turn.next.finished = true := by
  induction fuel generalizing scan s with
  | zero => omega
  | succ fuel ih =>
    obtain ⟨volume, b⟩ := s
    obtain ⟨d, hdir⟩ := hlive.directory?
    obtain ⟨parent, hwf, _⟩ := hlinked.placed hdir
    rcases Scan.next_cases hdir hwf hfinished with
      ⟨moves, position, hnext, _⟩ | ⟨rest, e, later, moves, hupTo, _, _, hnext⟩
    . have hturns : visitTurns visit (fuel + 1) scan (volume, b) =
          [⟨volume, scan, .ok none, { scan with position, finished := true }⟩] := by
        simp only [visitTurns_succ, hnext]
      have hrun : visitItems visit (fuel + 1) scan (volume, b) = .ok () (volume.withMoves moves, b) := by
        simp only [visitItems, bind_apply, nextItem, hnext]
        rfl
      rw [hturns]
      exact ⟨⟨_, hrun⟩, _, List.mem_singleton_self _, rfl⟩
    . obtain ⟨s', hvisit⟩ := hok (Scan.itemOf d e)
        ({ volume with store := { volume.store with pendingMoves := moves } }, b)
      have hturns : visitTurns visit (fuel + 1) scan (volume, b) =
          turnOf volume scan d e :: visitTurns visit fuel (scan.moveBefore e.offset) s' := by
        simp only [visitTurns_succ, hnext, hvisit]
        rfl
      have hrun : visitItems visit (fuel + 1) scan (volume, b) =
          visitItems visit fuel (scan.moveBefore e.offset) s' := by
        simp only [visitItems, bind_apply, nextItem, hnext, hvisit]
      obtain ⟨ops, hops⟩ := h.calls (Scan.itemOf d e) (volume.withMoves moves, b)
      have hafter := after_of_ok hvisit
      rw [withMoves, hafter] at hops
      have hlinked' : s'.1.store.Linked := by
        rw [hops]
        exact linked_run ops (linked_withMoves hlinked moves)
      obtain ⟨_, hfirst, hle⟩ := Directory.mem_of_upTo hupTo
      have hpos : 0 < e.offset := Nat.lt_of_lt_of_le (by decide) hfirst
      -- Every item lowers the position, which the fuel exceeds.
      have hfuel' : (scan.moveBefore e.offset).position < fuel := by
        simp only [Scan.moveBefore]
        omega
      rw [hturns] at hlive ⊢
      obtain ⟨hdone, turn, hturn, hend⟩ :=
        @ih (scan.moveBefore e.offset) s' hlinked' hfinished hfuel'
          (List.forall_mem_cons.mp hlive).2
      rw [hrun]
      exact ⟨hdone, turn, List.mem_cons_of_mem _ hturn, hend⟩

variable {volume : Volume MemStore} {dir : ObjectId} {b : β}

theorem entryTurns_eq {locks : DirLocks} (hlock : volume.locks.lock? dir = some locks) :
    entryTurns dir visit (volume, b) =
      visitTurns visit (Directory.lastOffset + 1) (volume.scanAt dir Directory.lastOffset)
        ({ volume with locks }, b) := by
  rw [entryTurns, entryLooks_of_unlocked hlock, visitTurns]

theorem noted_forEachEntry (h : CallsAndNotes visit noted) (dir : ObjectId) (b : β) :
    noted ((forEachEntry dir visit).after (volume, b)).2 =
      noted b ++ items (entryTurns dir visit (volume, b)) := by
  rw [entryTurns, items_map_turnAt, ← entryVisits_eq]
  cases hlock : volume.locks.lock? dir with
  | none =>
    rw [after_of_error (forEachEntry_of_locked b hlock), entryVisits_of_locked hlock]
    exact (List.append_nil _).symm
  | some locks =>
    let start : Volume MemStore × β := ({ volume with locks }, b)
    let scan := volume.scanAt dir Directory.lastOffset
    have hnoted := @noted_visitItems _ visit noted scan start h (Directory.lastOffset + 1)
    rw [after_congr (forEachEntry_eq b hlock), entryVisits_of_unlocked hlock, ← hnoted]
    simp only [after, thenAlways]
    cases visitItems visit (Directory.lastOffset + 1) scan start <;> rfl

theorem faithful_entryTurns (h : CallsAndNotes visit noted) (hlinked : volume.store.Linked)
    (hlive : StaysLive dir (entryTurns dir visit (volume, b))) :
    Faithful dir volume.privateRoot Directory.lastOffset (entryTurns dir visit (volume, b)) := by
  cases hlock : volume.locks.lock? dir with
  | none =>
    rw [entryTurns, entryLooks_of_locked hlock, List.map_nil]
    exact faithful_of_none (by simp) (by simp)
  | some locks =>
    obtain ⟨between, hbetween⟩ :=
      @visitTurns_eq _ visit noted (volume.scanAt dir Directory.lastOffset)
        ({ volume with locks }, b) h (Directory.lastOffset + 1)
    rw [entryTurns_eq hlock, hbetween] at hlive ⊢
    exact @faithful_turns { volume with locks } (volume.scanAt dir Directory.lastOffset) _ hlinked
      rfl rfl hlive

theorem forEachEntry_succeeds (h : CallsAndNotes visit noted)
    (hok : ∀ item s, ∃ s', visit item s = .ok () s') (hlinked : volume.store.Linked)
    (hlock : (volume.locks.lock? dir).isSome = true)
    (hlive : StaysLive dir (entryTurns dir visit (volume, b))) :
    (∃ s', forEachEntry dir visit (volume, b) = .ok () s')
      ∧ ∃ turn ∈ entryTurns dir visit (volume, b), turn.next.finished = true := by
  obtain ⟨locks, hlock⟩ := Option.isSome_iff_exists.mp hlock
  rw [entryTurns_eq hlock] at hlive ⊢
  obtain ⟨⟨s', hs'⟩, hend⟩ := @visitItems_succeeds _ visit noted
    (volume.scanAt dir Directory.lastOffset) ({ volume with locks }, b) h hok
    (Directory.lastOffset + 1) hlinked rfl (Nat.lt_succ_self _) hlive
  have hdone : forEachEntry dir visit (volume, b) =
      .ok () (s'.1.unlockDirectory dir, s'.2) := by
    simp only [forEachEntry_eq b hlock, thenAlways, hs']
  exact ⟨⟨_, hdone⟩, hend⟩

end Loop

section Run

theorem scan_faithful (pageSize : Nat) (format : ObjectFormat) (h : Record.headerSize < pageSize)
    (options : MountOptions) (capacity : Nat) (ops : List Op) (locks : DirLocks) (dir : ObjectId) :
    let volume := { run ops (initial pageSize format h options capacity) with locks }
    (∀ position between, let T := turns between (volume.scanAt dir position) volume
      StaysLive dir T → Faithful dir volume.privateRoot position T)
    ∧ (∀ position d count, volume.store.directory? dir = some d →
      items (turns (List.replicate count []) (volume.scanAt dir position) volume) =
        ((shownEntries dir volume.privateRoot position d).reverse.map (Scan.itemOf d)).take count)
    ∧ ∀ {β : Type} (visit : ScanItem → Action (Volume MemStore × β) Unit) (noted : β → List ScanItem),
      CallsAndNotes visit noted → ∀ b, let T := entryTurns dir visit (volume, b)
      noted ((forEachEntry dir visit).after (volume, b)).2 = noted b ++ items T
      ∧ (StaysLive dir T → Faithful dir volume.privateRoot Directory.lastOffset T)
      ∧ (StaysLive dir T → (volume.locks.lock? dir).isSome = true →
        (∀ item s, ∃ s', visit item s = .ok () s') →
        (∃ s', forEachEntry dir visit (volume, b) = .ok () s')
          ∧ ∃ turn ∈ T, turn.next.finished = true) := by
  intro volume
  have hlinked : volume.store.Linked := linked_run ops (linked_empty ..)
  refine ⟨fun position between => ?_, fun position d count hdir => ?_, fun visit noted hvisit b => ?_⟩
  . exact @faithful_turns volume (volume.scanAt dir position) between hlinked rfl rfl
  . obtain ⟨parent, hwf, _⟩ := hlinked.placed hdir
    have hshown := @shownEntries_eq (volume.scanAt dir position) d parent rfl hwf
    exact (@items_undisturbed volume (volume.scanAt dir position) d parent count hdir hwf rfl).trans
      (by rw [← hshown]; rfl)
  . exact ⟨noted_forEachEntry hvisit dir b, faithful_entryTurns hvisit hlinked,
      fun hlive hlock hok => forEachEntry_succeeds hvisit hok hlinked hlock hlive⟩

def disturbance : String → List Op
  | "d" => [.store (.unlink 1 "d"), .store (.unlink 1 "b"), .store (.create 1 "e" 0o644),
      .store (.planMoves 2)]
  | _ => []

def disturb (item : ScanItem) : Action (Volume MemStore × List ScanItem) Unit :=
  fun (volume, noted) => .ok () (run (disturbance item.name) volume, noted ++ [item])

def fourFiles : List Op :=
  .mount ⟨false⟩ :: ["a", "b", "c", "d"].map fun name => .store (.create 1 name 0o644)

theorem scan_faithful_disturb :
    let volume := { run fourFiles (initial 16 .current (by decide) .optional 64) with locks := .empty }
    let scan := volume.scanAt 1 7
    let undisturbed := items (turns (List.replicate 5 []) scan volume)
    let T := turns [[], disturbance "d", [], []] scan volume
    let visited := entryTurns 1 disturb (volume, [])
    (undisturbed.map (·.name) = ["d", "c", "b", "a"] ∧ ∃ d, volume.store.directory? 1 = some d
        ∧ undisturbed = ((shownEntries 1 (some 2) 7 d).reverse.map (Scan.itemOf d)).take 5)
      ∧ ((items T).map (·.name) = ["d", "c", "a"] ∧ Faithful 1 (some 2) 7 T)
      ∧ ((items visited).map (·.name) = ["d", "c", "a"]
        ∧ ((forEachEntry 1 disturb).after (volume, [])).2 = items visited
        ∧ Faithful 1 (some 2) Directory.lastOffset visited
        ∧ (∃ s, forEachEntry 1 disturb (volume, []) = .ok () s)
        ∧ ∃ turn ∈ visited, turn.next.finished = true) := by
  intro volume scan undisturbed T visited
  have hvisit : CallsAndNotes disturb id :=
    ⟨fun item _ => ⟨disturbance item.name, rfl⟩, fun _ _ => rfl⟩
  have hprivate : volume.privateRoot = some 2 := by decide +kernel
  obtain ⟨d, hdir⟩ : ∃ d, volume.store.directory? 1 = some d :=
    Option.isSome_iff_exists.mp (by decide +kernel)
  obtain ⟨hturns, hundisturbed, hvisits⟩ :=
    scan_faithful 16 .current (by decide) .optional 64 fourFiles .empty 1
  obtain ⟨hnoted, hfaithful, hends⟩ := hvisits disturb id hvisit []
  have hlive : StaysLive 1 T := by decide +kernel
  have hlive' : StaysLive 1 visited := by decide +kernel
  obtain ⟨hrun, hend⟩ := hends hlive' (by decide +kernel) fun _ _ => ⟨_, rfl⟩
  refine ⟨⟨by decide +kernel, d, hdir, ?_⟩, ⟨by decide +kernel, ?_⟩, by decide +kernel, hnoted, ?_,
    hrun, hend⟩
  . exact hprivate ▸ hundisturbed 7 d 5 hdir
  . exact hprivate ▸ hturns 7 _ hlive
  . exact hprivate ▸ hfaithful hlive'

end Run

end Volume

end AttrTree
