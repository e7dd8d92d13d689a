import AttrTree.Proofs.Following
import AttrTree.Proofs.Scanning

/-!
This module contains the visits of a scan one by one. `looks` lists the states in which `visitItems` asks
for the next item; `visits` are those looks that find one. That these are the visits that `forEachEntry`
makes is `forEachEntry_noting`: the scan is run with a visitor that notes whatever it is called with.
-/

namespace AttrTree

namespace Volume

open Action

variable {σ β α : Type} [ObjectStore σ]

def looks (visit : ScanItem → Action (Volume σ × β) Unit) :
    (fuel : Nat) → Scan → Volume σ × β → List (Scan × Volume σ × β)
  | 0, _, _ => []
  | fuel + 1, scan, s =>
    (scan, s) ::
      match nextItem scan s with
      | .ok (some item, scan) s =>
        match visit item s with
        | .ok _ s => looks visit fuel scan s
        | .error _ _ => []
      | _ => []

def entryLooks (dir : ObjectId) (visit : ScanItem → Action (Volume σ × β) Unit)
    (s : Volume σ × β) : List (Scan × Volume σ × β) :=
  match lockDirectory dir s.1 with
  | .ok _ volume =>
    let scan := volume.scanAt dir Directory.lastOffset
    looks visit (scan.position + 1) scan (volume, s.2)
  | .error _ _ => []

def visitAt (look : Scan × Volume σ × β) : Option (ScanItem × Volume σ × β) :=
  match nextItem look.1 look.2 with
  | .ok (some item, _) s => some (item, s)
  | _ => none

def visits (visit : ScanItem → Action (Volume σ × β) Unit) (fuel : Nat) (scan : Scan)
    (s : Volume σ × β) : List (ScanItem × Volume σ × β) :=
  (looks visit fuel scan s).filterMap visitAt

def withNotes (notes : List (ScanItem × Volume σ × β)) :
    EStateM.Result Error (Volume σ × β) α →
      EStateM.Result Error (Volume σ × β × List (ScanItem × Volume σ × β)) α
  | .ok a (volume, b) => .ok a (volume, b, notes)
  | .error e (volume, b) => .error e (volume, b, notes)

def noting (visit : ScanItem → Action (Volume σ × β) Unit) (item : ScanItem) :
    Action (Volume σ × β × List (ScanItem × Volume σ × β)) Unit :=
  fun (volume, b, notes) => withNotes (notes ++ [(item, volume, b)]) (visit item (volume, b))

/-- The visits of `forEachEntry`, each with the state that it starts from. -/
def entryVisits (dir : ObjectId) (visit : ScanItem → Action (Volume σ × β) Unit)
    (s : Volume σ × β) : List (ScanItem × Volume σ × β) :=
  ((forEachEntry dir (noting visit)).after (s.1, s.2, [])).2.2

section Noting

variable {visit : ScanItem → Action (Volume σ × β) Unit} {volume : Volume σ} {b : β}
  {dir : ObjectId}

theorem visits_succ (fuel : Nat) (scan : Scan) (s : Volume σ × β) :
    visits visit (fuel + 1) scan s =
      match nextItem scan s with
      | .ok (some item, scan) s =>
        (item, s) ::
          match visit item s with
          | .ok _ s => visits visit fuel scan s
          | .error _ _ => []
      | _ => [] := by
  rw [visits, looks, List.filterMap_cons, visitAt]
  cases nextItem scan s with
  | error e s' => rfl
  | ok found s' =>
    obtain ⟨_ | item, scan'⟩ := found
    . rfl
    . simp only
      cases visit item s' <;> rfl

theorem nextItem_withNotes (scan : Scan) (notes : List (ScanItem × Volume σ × β)) :
    nextItem scan (volume, b, notes) = withNotes notes (nextItem scan (volume, b)) := by
  simp only [nextItem]
  cases Scan.next (volume.store, scan) <;> rfl

theorem visitItems_noting (fuel : Nat) (scan : Scan) (notes : List (ScanItem × Volume σ × β)) :
    visitItems (noting visit) fuel scan (volume, b, notes) =
      withNotes (notes ++ visits visit fuel scan (volume, b))
        (visitItems visit fuel scan (volume, b)) := by
  induction fuel generalizing scan volume b notes with
  | zero =>
    rw [visits, looks, List.filterMap_nil, List.append_nil]
    rfl
  | succ fuel ih =>
    rw [visitItems, visitItems, bind_apply, bind_apply, nextItem_withNotes, visits_succ]
    cases nextItem scan (volume, b) with
    | error e s =>
      simp only [List.append_nil]
      rfl
    | ok found s =>
      obtain ⟨_ | item, scan'⟩ := found
      . simp only [List.append_nil]
        rfl
      . simp only [withNotes, bind_apply, noting]
        cases visit item s with
        | error e s' => rfl
        | ok _ s' =>
          have hrest := @ih s'.1 s'.2 scan' (notes ++ [(item, s)])
          rw [List.append_assoc, List.singleton_append] at hrest
          exact hrest

theorem entryLooks_of_locked (hlock : volume.locks.lock? dir = none) :
    entryLooks dir visit (volume, b) = [] := by
  rw [entryLooks, lockDirectory_none hlock]

theorem entryLooks_of_unlocked {locks : DirLocks} (hlock : volume.locks.lock? dir = some locks) :
    entryLooks dir visit (volume, b) =
      looks visit (Directory.lastOffset + 1) (volume.scanAt dir Directory.lastOffset)
        ({ volume with locks }, b) := by
  rw [entryLooks, lockDirectory_some hlock]
  rfl

theorem forEachEntry_noting (dir : ObjectId) (notes : List (ScanItem × Volume σ × β)) :
    forEachEntry dir (noting visit) (volume, b, notes) =
      withNotes (notes ++ (entryLooks dir visit (volume, b)).filterMap visitAt)
        (forEachEntry dir visit (volume, b)) := by
  cases hlock : volume.locks.lock? dir with
  | none =>
    rw [forEachEntry_of_locked b hlock, forEachEntry_of_locked _ hlock, entryLooks_of_locked hlock,
      List.filterMap_nil, List.append_nil]
    rfl
  | some locks =>
    have hnoted := @visitItems_noting _ _ _ visit { volume with locks } b
      (Directory.lastOffset + 1) (volume.scanAt dir Directory.lastOffset) notes
    rw [forEachEntry_eq b hlock, forEachEntry_eq _ hlock, entryLooks_of_unlocked hlock, thenAlways,
      hnoted]
    simp only [thenAlways]
    cases visitItems visit (Directory.lastOffset + 1) (volume.scanAt dir Directory.lastOffset)
      ({ volume with locks }, b) <;> rfl

theorem entryVisits_eq (dir : ObjectId) (s : Volume σ × β) :
    entryVisits dir visit s = (entryLooks dir visit s).filterMap visitAt := by
  unfold entryVisits after
  rw [forEachEntry_noting]
  cases forEachEntry dir visit (s.1, s.2) <;> rfl

theorem entryVisits_of_locked (hlock : volume.locks.lock? dir = none) :
    entryVisits dir visit (volume, b) = [] := by
  rw [entryVisits_eq, entryLooks_of_locked hlock, List.filterMap_nil]

theorem entryVisits_of_unlocked {locks : DirLocks} (hlock : volume.locks.lock? dir = some locks) :
    entryVisits dir visit (volume, b) =
      visits visit (Directory.lastOffset + 1) (volume.scanAt dir Directory.lastOffset)
        ({ volume with locks }, b) := by
  rw [entryVisits_eq, entryLooks_of_unlocked hlock, visits]

end Noting

section Keeping

variable {P : Volume σ → Prop} {visit : ScanItem → Action (Volume σ × β) Unit} {s : Volume σ × β}
  (hlooking : ∀ volume : Volume σ, KeptByLooking fun store => P { volume with store })
  (hlocks : ∀ volume locks, P volume → P { volume with locks })
include hlooking

theorem visitItems_keeps (fuel : Nat) {scan : Scan} (h : P s.1)
    (hvisits : ∀ v ∈ visits visit fuel scan s, P v.2.1 → P ((visit v.1).after v.2).1) :
    P ((visitItems visit fuel scan).after s).1 := by
  induction fuel generalizing scan s with
  | zero => exact h
  | succ fuel ih =>
    have hnext := (@follows_nextItem _ _ id P _ hlooking scan).keeps.holds s h
    unfold after at hnext ⊢
    rw [visits_succ] at hvisits
    rw [visitItems, bind_apply]
    cases hfound : nextItem scan s with
    | error e s' => simpa [hfound] using hnext
    | ok found s' =>
      obtain ⟨_ | item, scan'⟩ := found
      . simpa [hfound] using hnext
      . simp only [hfound, List.mem_cons, forall_eq_or_imp] at hvisits hnext ⊢
        obtain ⟨hitem, hvisits⟩ := hvisits
        have hitem := hitem hnext
        unfold after at hitem
        rw [bind_apply]
        cases hvisit : visit item s' with
        | error e s'' => simpa [hvisit] using hitem
        | ok _ s'' =>
          simp only [hvisit] at hitem hvisits ⊢
          exact ih hitem hvisits

include hlocks in
theorem forEachEntry_keeps (dir : ObjectId) (h : P s.1)
    (hvisits : ∀ v ∈ entryVisits dir visit s, P v.2.1 → P ((visit v.1).after v.2).1) :
    P ((forEachEntry dir visit).after s).1 := by
  obtain ⟨volume, b⟩ := s
  unfold after
  cases hlock : volume.locks.lock? dir with
  | none =>
    rw [forEachEntry_of_locked b hlock]
    exact h
  | some held =>
    rw [entryVisits_of_unlocked hlock] at hvisits
    have hend := visitItems_keeps hlooking _ (hlocks volume held h) hvisits
    unfold after at hend
    rw [forEachEntry_eq b hlock, thenAlways]
    generalize visitItems visit _ _ _ = result at hend ⊢
    cases result with
    | ok _ s => exact hlocks s.1 _ hend
    | error e s => exact hlocks s.1 _ hend

theorem forall_visits (fuel : Nat) {scan : Scan} (h : P s.1)
    (hvisit : ∀ item s, P s.1 → P ((visit item).after s).1) :
    ∀ v ∈ visits visit fuel scan s, P v.2.1 := by
  induction fuel generalizing scan s with
  | zero => exact List.forall_mem_nil _
  | succ fuel ih =>
    have hnext := (@follows_nextItem _ _ id P _ hlooking scan).keeps.holds s h
    rw [visits_succ]
    cases hfound : nextItem scan s with
    | error e s' => exact List.forall_mem_nil _
    | ok found s' =>
      rw [after_of_ok hfound] at hnext
      obtain ⟨_ | item, scan'⟩ := found
      . exact List.forall_mem_nil _
      . have hitem := hvisit item s' hnext
        refine List.forall_mem_cons.mpr ⟨hnext, ?_⟩
        cases hrun : visit item s' with
        | error e s'' => exact List.forall_mem_nil _
        | ok _ s'' =>
          rw [after_of_ok hrun] at hitem
          exact ih hitem

include hlocks in
theorem forall_entryVisits (dir : ObjectId) (h : P s.1)
    (hvisit : ∀ item s, P s.1 → P ((visit item).after s).1) :
    ∀ v ∈ entryVisits dir visit s, P v.2.1 := by
  obtain ⟨volume, b⟩ := s
  cases hlock : volume.locks.lock? dir with
  | none =>
    rw [entryVisits_of_locked hlock]
    exact List.forall_mem_nil _
  | some held =>
    rw [entryVisits_of_unlocked hlock]
    exact forall_visits hlooking _ (hlocks volume held h) hvisit

end Keeping

section Cache

variable {f : DirCache → DirCache} {visit : ScanItem → Action (Volume σ × β) Unit}
  (hvisit : ∀ item, Follows (Prod.map (recached f) id) (fun _ => True) (visit item))
include hvisit

theorem visits_recached (fuel : Nat) (scan : Scan) (s : Volume σ × β) :
    visits visit fuel scan (Prod.map (recached f) id s) =
      (visits visit fuel scan s).map (Prod.map id (Prod.map (recached f) id)) := by
  induction fuel generalizing scan s with
  | zero => rfl
  | succ fuel ih =>
    have hnext := (@follows_nextItem _ _ f (fun _ => True) _ (fun _ => .of_true) scan).run s trivial
    rw [visits_succ, visits_succ, hnext]
    cases nextItem scan s with
    | error e s' => rfl
    | ok found s' =>
      obtain ⟨_ | item, scan'⟩ := found
      . rfl
      . simp only [onResult, (hvisit item).run s' trivial, List.map_cons]
        cases visit item s' with
        | error e s'' => rfl
        | ok _ s'' => exact congrArg (_ :: ·) (ih scan' s'')

theorem entryVisits_recached (dir : ObjectId) (s : Volume σ × β) :
    entryVisits dir visit (Prod.map (recached f) id s) =
      (entryVisits dir visit s).map (Prod.map id (Prod.map (recached f) id)) := by
  obtain ⟨volume, b⟩ := s
  cases hlock : volume.locks.lock? dir with
  | none =>
    have hview : entryVisits dir visit (recached f volume, b) = [] := entryVisits_of_locked hlock
    rw [entryVisits_of_locked hlock]
    exact hview
  | some held =>
    have hview : entryVisits dir visit (recached f volume, b) = _ := entryVisits_of_unlocked hlock
    rw [entryVisits_of_unlocked hlock]
    exact hview.trans (visits_recached hvisit _ _ ({ volume with locks := held }, b))

end Cache

end Volume

end AttrTree
