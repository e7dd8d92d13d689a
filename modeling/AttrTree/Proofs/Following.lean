import AttrTree.Proofs.Calls
import AttrTree.Proofs.MountOutcome

/-!
This module contains the rule for calls that do the same whatever the cache of a volume holds. Where the
cache is looked at and where something is removed has to be proved once; all calls follow from that.
With the cache as it is, the rule says what the calls keep.
-/

namespace AttrTree

namespace Action

variable {σ β α : Type}

def onResult (view : σ → σ) : EStateM.Result Error σ α → EStateM.Result Error σ α
  | .ok a s => .ok a (view s)
  | .error e s => .error e (view s)

/-- What `act` does to a state with `P` it also does to the `view` of the state, and it keeps `P`. -/
structure Follows (view : σ → σ) (P : σ → Prop) (act : Action σ α) : Prop where
  run : ∀ s, P s → act (view s) = onResult view (act s)
  keeps : Keeps P act

def result (act : Action σ α) (s : σ) : Except Error α :=
  match act s with
  | .ok a _ => .ok a
  | .error e _ => .error e

theorem result_of_ofExcept {act : Action σ α} {s s' : σ} {value : Except Error α}
    (h : act s = ofExcept value s') : act.result s = value := by
  rw [result, h]
  cases value <;> rfl

theorem eq_ok_of_result {act : Action σ α} {s : σ} {a : α} (h : act.result s = .ok a) :
    ∃ s', act s = .ok a s' := by
  unfold result at h
  cases hact : act s with
  | ok a' s' =>
    rw [hact] at h
    cases h
    exact ⟨s', rfl⟩
  | error e s' =>
    rw [hact] at h
    cases h

theorem after_of_ofExcept {act : Action σ α} {s s' : σ} {value : Except Error α}
    (h : act s = ofExcept value s') : act.after s = s' := by
  rw [after, h]
  cases value <;> rfl

namespace Follows

variable {view : σ → σ} {P : σ → Prop} {act : Action σ α}

theorem result_eq (h : Follows view P act) {s : σ} (hs : P s) :
    act.result (view s) = act.result s := by
  unfold result
  rw [h.run s hs]
  cases act s <;> rfl

theorem after_eq (h : Follows view P act) {s : σ} (hs : P s) :
    act.after (view s) = view (act.after s) := by
  unfold after
  rw [h.run s hs]
  cases act s <;> rfl

theorem of_keeps (h : Keeps P act) : Follows id P act where
  run s _ := by
    simp only [id_eq]
    cases act s <;> rfl
  keeps := h

theorem pure (a : α) : Follows view P (Pure.pure a : Action σ α) :=
  ⟨fun _ _ => rfl, .pure a⟩

theorem throw (e : Error) : Follows view P (MonadExcept.throw e : Action σ α) :=
  ⟨fun _ _ => rfl, .throw e⟩

theorem modify {f : σ → σ} (hview : ∀ s, P s → f (view s) = view (f s)) (h : ∀ s, P s → P (f s)) :
    Follows view P (modify f : Action σ PUnit) :=
  ⟨fun s hs => congrArg (EStateM.Result.ok PUnit.unit) (hview s hs), .modify h⟩

theorem bind {f : α → Action σ β} (hact : Follows view P act) (hf : ∀ a, Follows view P (f a)) :
    Follows view P (act >>= f) := by
  refine ⟨fun s hs => ?_, .bind hact.keeps fun a => (hf a).keeps⟩
  have hend := hact.keeps.holds s hs
  unfold after at hend
  rw [bind_apply, bind_apply, hact.run s hs]
  cases h : act s with
  | error e s' => rfl
  | ok a s' =>
    rw [h] at hend
    exact (hf a).run s' hend

theorem getBind {f : σ → Action σ α} (hview : ∀ s, P s → f (view s) = f s)
    (hf : ∀ s, Follows view P (f s)) : Follows view P (get >>= f) := by
  refine ⟨fun s hs => ?_, .bind .get fun s => (hf s).keeps⟩
  rw [bind_apply, bind_apply]
  simp only [get_apply]
  rw [hview s hs]
  exact (hf s).run s hs

theorem ite {c : Prop} [Decidable c] {act' : Action σ α} (h : Follows view P act)
    (h' : Follows view P act') : Follows view P (if c then act else act') := by
  split
  . exact h
  . exact h'

theorem ofExcept (value : Except Error α) : Follows view P (Action.ofExcept value) := by
  cases value with
  | ok a => exact ⟨fun _ _ => rfl, .ofExcept _⟩
  | error e => exact ⟨fun _ _ => rfl, .ofExcept _⟩

theorem ofOption (e : Error) (value : Option α) : Follows view P (Action.ofOption e value) := by
  cases value with
  | none => exact ⟨fun _ _ => rfl, .ofOption ..⟩
  | some a => exact ⟨fun _ _ => rfl, .ofOption ..⟩

theorem attempt (h : Follows view P act) : Follows view P act.attempt := by
  refine ⟨fun s hs => ?_, h.keeps.attempt⟩
  unfold Action.attempt
  rw [h.run s hs]
  cases act s <;> rfl

theorem onFirst (h : Follows view P act) :
    Follows (Prod.map view id) (fun s : σ × β => P s.1) (Action.onFirst act) := by
  refine ⟨fun s hs => ?_, h.keeps.onFirst⟩
  obtain ⟨s, b⟩ := s
  simp only [Action.onFirst, Prod.map, h.run s hs]
  cases act s <;> rfl

theorem withSecond {act : Action (σ × β) α} (b : β)
    (h : Follows (Prod.map view id) (fun s => P s.1) act) : Follows view P (act.withSecond b) := by
  refine ⟨fun s hs => ?_, h.keeps.withSecond b⟩
  have hrun := h.run (s, b) hs
  simp only [Prod.map, id_eq] at hrun
  simp only [Action.withSecond, hrun]
  cases act (s, b) <;> rfl

theorem focus {τ : Type} {view' : τ → τ} {Q : τ → Prop} {part : τ → σ} {put : σ → τ → τ}
    (h : Follows view P act) (hpart : ∀ t, part (view' t) = view (part t))
    (hput : ∀ s t, put (view s) (view' t) = view' (put s t)) (hbefore : ∀ t, Q t → P (part t))
    (hafter : ∀ s t, P s → Q (put s t)) : Follows view' Q (act.focus part put) := by
  refine ⟨fun t ht => ?_, h.keeps.focus hbefore hafter⟩
  simp only [Action.focus, hpart, h.run (part t) (hbefore t ht)]
  cases act (part t) with
  | ok a s => exact congrArg (EStateM.Result.ok a) (hput s t)
  | error e s => exact congrArg (EStateM.Result.error e) (hput s t)

theorem discard (h : Follows view P act) : Follows view P (discard act) :=
  h.bind fun _ => .pure _

end Follows

structure FollowsAt (view : σ → σ) (P : σ → Prop) (act : Action σ α) (s : σ) : Prop where
  run : act (view s) = onResult view (act s)
  keeps : P (act.after s)

variable {view : σ → σ} {P Q : σ → Prop} {act : Action σ α} {s : σ}

theorem Follows.at (h : Follows view P act) (hs : P s) : FollowsAt view P act s :=
  ⟨h.run s hs, h.keeps.holds s hs⟩

theorem Follows.of_run (h : Follows view (fun _ => True) act) (hkeeps : Keeps P act) :
    Follows view P act :=
  ⟨fun s _ => h.run s trivial, hkeeps⟩

theorem Follows.of_at (h : ∀ s, P s → FollowsAt view P act s) : Follows view P act :=
  ⟨fun s hs => (h s hs).run, ⟨fun s hs => (h s hs).keeps⟩⟩

namespace FollowsAt

theorem of_ok {a : α} {s' : σ} (hact : act s = .ok a s') (hview : act (view s) = .ok a (view s'))
    (h : P s') : FollowsAt view P act s :=
  ⟨by rw [hact, hview]; rfl, by rwa [after_of_ok hact]⟩

theorem congr {act' : Action σ α} {s' : σ} (hact : act s = act' s')
    (hview : act (view s) = act' (view s')) (h : FollowsAt view P act' s') :
    FollowsAt view P act s :=
  ⟨by rw [hact, hview, h.run], by rw [after_congr hact]; exact h.keeps⟩

theorem thenAlways {close : σ → σ} (h : FollowsAt view P act s)
    (hview : ∀ s, close (view s) = view (close s)) (hclose : ∀ s, P s → Q (close s)) :
    FollowsAt view Q (act.thenAlways close) s := by
  obtain ⟨hrun, hkeeps⟩ := h
  unfold Action.thenAlways
  cases hact : act s with
  | ok a s' =>
    rw [after_of_ok hact] at hkeeps
    exact ⟨by simp [hrun, hact, onResult, hview], by simpa [after, hact] using hclose s' hkeeps⟩
  | error e s' =>
    rw [after_of_error hact] at hkeeps
    exact ⟨by simp [hrun, hact, onResult, hview], by simpa [after, hact] using hclose s' hkeeps⟩

theorem mono (h : FollowsAt view P act s) (hPQ : ∀ s, P s → Q s) : FollowsAt view Q act s :=
  ⟨h.run, hPQ _ h.keeps⟩

theorem bind {f : α → Action σ β} (h : FollowsAt view P act s)
    (hf : ∀ a s', act s = .ok a s' → P s' → FollowsAt view P (f a) s') :
    FollowsAt view P (act >>= f) s := by
  obtain ⟨hrun, hkeeps⟩ := h
  cases hact : act s with
  | error e s' =>
    rw [after_of_error hact] at hkeeps
    exact ⟨by simp [hrun, hact, onResult], by simpa [after, hact] using hkeeps⟩
  | ok a s' =>
    rw [after_of_ok hact] at hkeeps
    obtain ⟨hrun', hkeeps'⟩ := hf a s' hact hkeeps
    exact ⟨by simp [hrun, hact, onResult, hrun'], by simpa [after, hact] using hkeeps'⟩

end FollowsAt

end Action

namespace Volume

open Action

variable {σ β α : Type}

def recached (f : DirCache → DirCache) (volume : Volume σ) : Volume σ :=
  { volume with cache := f volume.cache }

variable {f : DirCache → DirCache} {P : Volume σ → Prop}

theorem after_onStore (act : Action σ α) (volume : Volume σ) :
    (onStore act).after volume = { volume with store := act.after volume.store } := by
  unfold after onStore focus
  cases act volume.store <;> rfl

theorem onStore_eq_ok_iff {act : Action σ α} {a : α} {volume rest : Volume σ} :
    onStore act volume = .ok a rest ↔
      ∃ store, act volume.store = .ok a store ∧ { volume with store } = rest := by
  unfold onStore focus
  cases act volume.store <;> simp

theorem onStore_recached (act : Action σ α) (volume : Volume σ) :
    onStore act (recached f volume) = onResult (recached f) (onStore act volume) := by
  simp only [onStore, focus, recached]
  cases act volume.store <;> rfl

theorem followsAt_onStore {act : Action σ α} {volume : Volume σ}
    (h : Keeps (fun store => P { volume with store }) act) (hs : P volume) :
    FollowsAt (recached f) P (onStore act) volume :=
  ⟨onStore_recached act volume, after_onStore act volume ▸ h.holds volume.store hs⟩

theorem follows_onStore {act : Action σ α}
    (h : ∀ volume : Volume σ, Keeps (fun store => P { volume with store }) act) :
    Follows (recached f) P (onStore act) :=
  .of_at fun volume hs => followsAt_onStore (h volume) hs

theorem keeps_onStore {act : Action σ α}
    (h : ∀ volume : Volume σ, Keeps (fun store => P { volume with store }) act) : Keeps P (onStore act) :=
  (follows_onStore (f := id) h).keeps

theorem follows_onStoreWith {act : Action (σ × β) α}
    (h : ∀ volume : Volume σ, Keeps (fun s => P { volume with store := s.1 }) act) :
    Follows (Prod.map (recached f) id) (fun s => P s.1) (onStoreWith act) := by
  refine ⟨fun s _ => ?_, ⟨fun s hs => ?_⟩⟩
  . obtain ⟨volume, b⟩ := s
    simp only [onStoreWith, focus, recached, Prod.map, id_eq]
    cases act (volume.store, b) <;> rfl
  . obtain ⟨volume, b⟩ := s
    have hend := (h volume).holds (volume.store, b) hs
    unfold after at hend ⊢
    unfold onStoreWith focus
    cases hact : act (volume.store, b) <;> simpa [hact] using hend

variable [ObjectStore σ]

section Locks

def Locked (P : Volume σ → Prop) (locks held : DirLocks) (volume : Volume σ) : Prop :=
  volume.locks = held ∧ P { volume with locks }

omit [ObjectStore σ] in
theorem Locked.unlock {locks held : DirLocks} {dir : ObjectId} (hlock : locks.lock? dir = some held)
    {volume : Volume σ} (h : volume.Locked P locks held) : P (volume.unlockDirectory dir) := by
  obtain ⟨hheld, h⟩ := h
  rw [unlockDirectory, hheld, DirLocks.unlock_of_lock? hlock]
  exact h

omit [ObjectStore σ] in
theorem lockDirectory_none {dir : ObjectId} {volume : Volume σ}
    (hlock : volume.locks.lock? dir = none) :
    lockDirectory dir volume = .error Scan.directoryLocked volume := by
  simp [lockDirectory, hlock]

omit [ObjectStore σ] in
theorem lockDirectory_some {dir : ObjectId} {volume : Volume σ} {held : DirLocks}
    (hlock : volume.locks.lock? dir = some held) :
    lockDirectory dir volume = .ok () { volume with locks := held } := by
  simp [lockDirectory, hlock]

omit [ObjectStore σ] in
theorem follows_withLock (dir : ObjectId) {act : Action (Volume σ) α}
    (hact : ∀ locks held, Follows (recached f) (Locked P locks held) act) :
    Follows (recached f) P (withLock dir act) := by
  refine .of_at fun volume hs => ?_
  unfold withLock
  cases hlock : volume.locks.lock? dir with
  | none =>
    have hrun := lockDirectory_none hlock
    have hview : lockDirectory dir (recached f volume) = _ := lockDirectory_none hlock
    exact ⟨by simp only [bind_apply, hrun, hview, onResult], by simpa [after, hrun] using hs⟩
  | some held =>
    have hview : lockDirectory dir (recached f volume) = _ := lockDirectory_some hlock
    have hstart : Locked P volume.locks held { volume with locks := held } := ⟨rfl, hs⟩
    have hend : FollowsAt (recached f) P (act.thenAlways (unlockDirectory dir))
        { volume with locks := held } :=
      ((hact volume.locks held).at hstart).thenAlways (fun _ => rfl) fun _ => Locked.unlock hlock
    refine .congr ?_ ?_ hend
    . rw [bind_apply, lockDirectory_some hlock]
    . rw [bind_apply, hview]
      rfl

omit [ObjectStore σ] in
theorem follows_withLockAnd (dir : ObjectId) {act : Action (Volume σ × β) α}
    (hact : ∀ locks held,
      Follows (Prod.map (recached f) id) (fun s => s.1.Locked P locks held) act) :
    Follows (Prod.map (recached f) id) (fun s => P s.1) (withLockAnd dir act) := by
  refine .of_at fun ⟨volume, b⟩ hs => ?_
  unfold withLockAnd
  cases hlock : volume.locks.lock? dir with
  | none =>
    have hrun := lockDirectory_none hlock
    have hview : lockDirectory dir (recached f volume) = _ := lockDirectory_none hlock
    exact ⟨by simp only [bind_apply, onFirst, Prod.map, hrun, hview, onResult, id],
      by simpa [after, onFirst, hrun] using hs⟩
  | some held =>
    have hview : lockDirectory dir (recached f volume) = _ := lockDirectory_some hlock
    have hstart : Locked P volume.locks held { volume with locks := held } := ⟨rfl, hs⟩
    have hend : FollowsAt (Prod.map (recached f) id) (fun s => P s.1)
        (act.thenAlways fun s => (s.1.unlockDirectory dir, s.2)) ({ volume with locks := held }, b) :=
      ((hact volume.locks held).at hstart).thenAlways (fun _ => rfl) fun _ => Locked.unlock hlock
    refine .congr ?_ ?_ hend
    . simp only [bind_apply, onFirst, lockDirectory_some hlock]
    . simp only [bind_apply, onFirst, Prod.map, hview]
      rfl

end Locks

section Scan

variable (hlooking : ∀ volume : Volume σ, KeptByLooking fun store => P { volume with store })

include hlooking

theorem follows_nextItem (scan : Scan) :
    Follows (Prod.map (recached f) id) (fun s : Volume σ × β => P s.1) (nextItem scan) := by
  refine ⟨fun s _ => ?_, ⟨fun s hs => ?_⟩⟩
  . obtain ⟨volume, b⟩ := s
    simp only [nextItem, recached, Prod.map, id_eq]
    cases Scan.next (volume.store, scan) <;> rfl
  . obtain ⟨volume, b⟩ := s
    have hend := (keeps_next (hlooking volume)).holds (volume.store, scan) hs
    unfold after at hend ⊢
    unfold nextItem
    cases hrun : Scan.next (volume.store, scan) <;> simpa [hrun] using hend

theorem follows_visitItems {visit : ScanItem → Action (Volume σ × β) Unit}
    (hvisit : ∀ item, Follows (Prod.map (recached f) id) (fun s => P s.1) (visit item)) (fuel : Nat)
    (scan : Scan) :
    Follows (Prod.map (recached f) id) (fun s => P s.1) (visitItems visit fuel scan) := by
  induction fuel generalizing scan with
  | zero => exact .throw _
  | succ fuel ih =>
    refine .bind (follows_nextItem hlooking scan) fun found => ?_
    obtain ⟨item, scan'⟩ := found
    cases item with
    | none => exact .pure ()
    | some item => exact .bind (hvisit item) fun _ => ih scan'

theorem looking_locked (locks held : DirLocks) (volume : Volume σ) :
    KeptByLooking fun store => Locked P locks held { volume with store } := by
  have hrest := hlooking { volume with locks }
  have hand {γ : Type} {act : Action σ γ}
      (h : Keeps (fun store => P ({ volume with locks, store } : Volume σ)) act) :
      Keeps (fun store => Locked P locks held { volume with store }) act :=
    ⟨fun store hs => ⟨hs.1, h.holds store hs.2⟩⟩
  exact {
    lookup := fun dir name => hand (hrest.lookup dir name)
    stat := fun id => hand (hrest.stat id)
    readPage := fun id index length => hand (hrest.readPage id index length)
    locateEntry := fun dir position => hand (hrest.locateEntry dir position)
    entryName := fun dir slot => hand (hrest.entryName dir slot) }

theorem follows_forEachEntry (dir : ObjectId) {visit : ScanItem → Action (Volume σ × β) Unit}
    (hvisit : ∀ locks held item,
      Follows (Prod.map (recached f) id) (fun s => s.1.Locked P locks held) (visit item)) :
    Follows (Prod.map (recached f) id) (fun s => P s.1) (forEachEntry dir visit) :=
  follows_withLockAnd dir fun locks held => .getBind (fun _ _ => rfl) fun _ =>
    follows_visitItems (looking_locked hlooking locks held) (hvisit locks held) ..

theorem follows_visitEntries (dir : ObjectId) {visit : String → Action σ Unit}
    (hvisit : ∀ (volume : Volume σ) name, Keeps (fun store => P { volume with store }) (visit name)) :
    Follows (recached f) P (visitEntries dir visit) := by
  refine .withSecond () (follows_forEachEntry hlooking dir fun locks held item => .onFirst ?_)
  refine follows_onStore fun volume => ⟨fun store hs => ⟨hs.1, ?_⟩⟩
  exact (hvisit { volume with locks } item.name).holds store hs.2

theorem follows_collectItems (limit ends : Nat) (scan : Scan) (volume : Volume σ) (h : P volume) :
    collectItems limit ends scan (recached f volume) =
        Prod.map id (Prod.map id (recached f)) (collectItems limit ends scan volume)
      ∧ P (collectItems limit ends scan volume).2.2 := by
  induction limit generalizing ends scan volume with
  | zero => exact ⟨rfl, h⟩
  | succ limit ih =>
    cases ends with
    | zero => exact ⟨by simp [collectItems], by simpa [collectItems] using h⟩
    | succ ends =>
      have hend := (keeps_next (hlooking volume)).holds (volume.store, scan) h
      have hstore : (recached f volume).store = volume.store := rfl
      unfold collectItems
      rw [hstore]
      cases hrun : Scan.next (volume.store, scan) with
      | error e s =>
        rw [after_of_error hrun] at hend
        obtain ⟨hview, hkept⟩ := ih (ends + 1) s.2 { volume with store := s.1 } hend
        exact ⟨by simp [recached] at hview ⊢; simp [hview], by simpa using hkept⟩
      | ok item s =>
        rw [after_of_ok hrun] at hend
        cases item with
        | none =>
          obtain ⟨hview, hkept⟩ := ih ends s.2 { volume with store := s.1 } hend
          exact ⟨by simp [recached] at hview ⊢; simp [hview], by simpa using hkept⟩
        | some item =>
          obtain ⟨hview, hkept⟩ := ih (ends + 1) s.2 { volume with store := s.1 } hend
          exact ⟨by simp [recached] at hview ⊢; simp [hview], by simpa using hkept⟩

theorem follows_scanDirectory (dir : ObjectId) (position limit : Nat) :
    Follows (recached f) P (scanDirectory dir position limit) := by
  refine follows_withLock dir fun locks held => ?_
  have hitems (volume : Volume σ) (hs : volume.Locked P locks held) :=
    @follows_collectItems _ f _ _ (looking_locked hlooking locks held) limit 2
      (volume.scanAt dir position) volume hs
  refine ⟨fun volume hs => ?_, ⟨fun volume hs => (hitems volume hs).2⟩⟩
  have hscan : (recached f volume).scanAt dir position = volume.scanAt dir position := rfl
  simp only [hscan, (hitems volume hs).1]
  rfl

end Scan

structure FollowedByReading (f : DirCache → DirCache) (P : Volume σ → Prop) : Prop where
  looking : ∀ volume : Volume σ, KeptByLooking fun store => P { volume with store }
  findDirectory : ∀ stat, Follows (recached f) P (openDirectory stat .looking)

structure FollowedByRemoving (f : DirCache → DirCache) (P : Volume σ → Prop) : Prop
    extends FollowedByReading f P where
  removeRecord : ∀ stat name, Follows (recached f) P (removeRecord stat name)
  prune : ∀ stat dir, Follows (recached f) P (prune stat dir)

structure FollowedByManaging (f : DirCache → DirCache) (P : Volume σ → Prop) : Prop
    extends FollowedByRemoving f P where
  setAttr : ∀ (volume : Volume σ) id change,
    Keeps (fun store => P { volume with store }) (ObjectStore.setAttr id change)
  findPrivateRoot : ∀ (volume : Volume σ) flags,
    Keeps (fun store => P { volume with store }) (Volume.findPrivateRoot flags)
  options : ∀ volume options aclFlag, P volume → P { volume with options, aclFlag }
  privateRoot : ∀ (volume : Volume σ) flags id store, volume.privateRoot = none →
    Volume.findPrivateRoot flags volume.store = .ok id store → P volume → P { volume with store } →
    P { volume with store, privateRoot := some id }

structure FollowedByParts (f : DirCache → DirCache) (P : Volume σ → Prop) : Prop
    extends FollowedByRemoving f P where
  adding : ∀ volume : Volume σ, KeptByAdding fun store => P { volume with store }
  options : ∀ volume options aclFlag, P volume → P { volume with options, aclFlag }
  privateRoot : ∀ (volume : Volume σ) flags id store, volume.privateRoot = none →
    findPrivateRoot flags volume.store = .ok id store → P volume → P { volume with store } →
    P { volume with store, privateRoot := some id }
  openDirectory : ∀ stat flags, Follows (recached f) P (openDirectory stat flags)

theorem FollowedByParts.managing (hP : FollowedByParts f P) : FollowedByManaging f P where
  toFollowedByRemoving := hP.toFollowedByRemoving
  setAttr volume := (hP.adding volume).setAttr
  findPrivateRoot volume := keeps_findPrivateRoot (hP.adding volume)
  options := hP.options
  privateRoot := hP.privateRoot

section Reading

variable (hP : FollowedByReading f P)
include hP

theorem follows_stat (id : ObjectId) : Follows (recached f) P (onStore (ObjectStore.stat id)) :=
  follows_onStore fun volume => (hP.looking volume).stat id

theorem follows_statWithAttributes (obj : ObjectId) :
    Follows (recached f) P (onStore (statWithAttributes obj)) :=
  follows_onStore fun volume => keeps_statWithAttributes (hP.looking volume) obj

theorem follows_openRecord {stat : ObjectStat} {name : String} {flags : SetFlags}
    (hopen : Follows (recached f) P (openDirectory stat flags))
    (hmake : flags.onlyExisting = false → ∀ (volume : Volume σ) dir,
      Keeps (fun store => P { volume with store }) (makeRecord dir name)) :
    Follows (recached f) P (openRecord stat name flags) := by
  -- Nothing is to be shown of making a record if the flags do not allow it.
  refine .bind (.ofExcept _) fun _ => .bind hopen fun dir => ?_
  refine .bind (follows_onStore fun volume => (hP.looking volume).lookup dir name) fun found => ?_
  cases found with
  | some id => exact .ite (.throw attrExists) (.pure id)
  | none =>
    cases hflags : flags.onlyExisting with
    | true => exact .throw attrNotFound
    | false => exact follows_onStore fun volume => hmake hflags volume dir

theorem follows_existingRecord (obj : ObjectId) (name : String) :
    Follows (recached f) P (existingRecord obj name) :=
  .bind (follows_statWithAttributes hP obj) fun stat =>
    follows_openRecord hP (hP.findDirectory stat) nofun

theorem follows_readValue (obj : ObjectId) (name : String) :
    Follows (Prod.map (recached f) id) (fun s : Volume σ × Buffer => P s.1) (readValue obj name) :=
  .bind (.onFirst (follows_existingRecord hP obj name)) fun record =>
    follows_onStoreWith fun volume => keeps_readRecord (hP.looking volume) record

theorem follows_attemptDirectory (stat : ObjectStat) : Follows (recached f) P (do
    match ← (openDirectory stat .looking).attempt with
    | .ok dir => return some dir
    | .error e => if e.isNoAttribute then return none else throw e) := by
  refine .bind (hP.findDirectory stat).attempt fun result => ?_
  cases result with
  | ok dir => exact .pure _
  | error e => exact .ite (.pure _) (.throw e)

theorem follows_bulkDirectory? (stat : ObjectStat) :
    Follows (recached f) P (bulkDirectory? stat) :=
  .getBind (fun _ _ => rfl) fun _ => .ite (.pure none) (follows_attemptDirectory hP stat)

theorem follows_getValue (handler : Handler) (obj : ObjectId) (name : String) :
    Follows (Prod.map (recached f) id) (fun s : Volume σ × Buffer => P s.1)
      (handler.getValue obj name) := by
  refine .getBind (fun _ _ => rfl) fun s => .bind (.ofExcept _) fun _ => ?_
  cases handler with
  | fixed start answers => exact .pure _
  | user => exact follows_readValue hP obj name
  | plain start => exact follows_readValue hP obj name
  | acl kind => exact follows_readValue hP obj name

theorem follows_checkObject (obj : ObjectId) : Follows (recached f) P (checkObject obj) := by
  have hstat := follows_statWithAttributes hP obj
  exact .getBind (fun _ _ => rfl) fun _ => .ite (.bind hstat fun _ => .pure ())
    (.bind (.throw _) fun _ => .bind hstat fun _ => .pure ())

theorem follows_handlerFor (registry : Registry) (obj : ObjectId) (name : String) :
    Follows (recached f) P (handlerFor registry obj name) :=
  .bind (.ofOption ..) fun _ => .bind (follows_checkObject hP obj) fun _ => .pure _

theorem follows_getAttribute (registry : Registry) (obj : ObjectId) (name : String) :
    Follows (Prod.map (recached f) id) (fun s : Volume σ × Buffer => P s.1)
      (getAttribute registry obj name) :=
  .bind (.onFirst (follows_handlerFor hP ..)) fun handler => follows_getValue hP handler obj name

theorem follows_listDirectory (registry : Registry) (dir : ObjectId) :
    Follows (Prod.map (recached f) id) (fun s : Volume σ × Listing => P s.1)
      (listDirectory registry dir) := by
  refine .bind (follows_forEachEntry hP.looking dir fun _ _ _ =>
    .modify (fun _ _ => rfl) fun _ hs => hs) fun _ => .getBind (fun _ _ => rfl) fun _ => ?_
  exact .ite (.bind (.throw _) fun _ => .pure _) (.pure _)

theorem follows_listAttributes (registry : Registry) (obj : ObjectId) :
    Follows (Prod.map (recached f) id) (fun s : Volume σ × Buffer => P s.1)
      (listAttributes registry obj) := by
  have hdirectory : Follows (recached f) P (listedDirectory? obj) :=
    .bind (follows_checkObject hP obj) fun _ => .bind (follows_stat hP obj) fun stat =>
      follows_attemptDirectory hP stat
  refine .bind (.onFirst hdirectory) fun found => ?_
  cases found with
  | none => exact .pure 0
  | some dir =>
    exact (follows_listDirectory hP registry dir).focus (fun _ => rfl) (fun _ _ => rfl)
      (fun _ hs => hs) fun _ _ hs => hs

end Reading

section Removing

variable (hP : FollowedByRemoving f P)
include hP

theorem follows_removeValue (obj : ObjectId) (name : String) :
    Follows (recached f) P (removeValue obj name) :=
  .bind (follows_stat hP.toFollowedByReading obj) fun stat => hP.removeRecord stat name

theorem follows_removeAttribute (registry : Registry) (obj : ObjectId) (name : String) :
    Follows (recached f) P (removeAttribute registry obj name) := by
  have hreading := hP.toFollowedByReading
  refine .bind (follows_handlerFor hreading ..) fun handler => .getBind (fun _ _ => rfl) fun _ => ?_
  refine .bind (.ofExcept _) fun _ => .bind (follows_stat hreading obj) fun stat => ?_
  refine .bind (hP.removeRecord stat name) fun _ => ?_
  have hprune : Follows (recached f) P (pruneDirectory stat) :=
    .bind (hP.findDirectory stat) fun dir => hP.prune stat dir
  exact .bind hprune.attempt fun _ => .pure ()

theorem follows_deleteAttributes
    (hunlink : ∀ (volume : Volume σ) dir name,
      Keeps (fun store => P { volume with store }) (ObjectStore.unlink dir name)) (obj : ObjectId) :
    Follows (recached f) P (deleteAttributes obj) := by
  refine .bind (follows_stat hP.toFollowedByReading obj) fun stat => ?_
  refine .bind (follows_bulkDirectory? hP.toFollowedByReading stat) fun found => ?_
  cases found with
  | none => exact .pure ()
  | some dir =>
    refine .bind (follows_visitEntries hP.looking dir fun volume name => ?_).attempt fun removed => ?_
    . exact keeps_removeEntry (hP.looking volume) (hunlink volume dir name)
    . exact .bind (hP.prune stat dir).attempt fun pruned =>
        .bind (.ofExcept removed) fun _ => .ofExcept pruned

theorem follows_removeAcl (obj : ObjectId) (name : String) :
    Follows (recached f) P (Handler.removeAcl obj name) := by
  refine .bind (follows_removeValue hP obj name).attempt fun result => ?_
  cases result with
  | ok _ => exact .pure ()
  | error e => exact .ite (.pure ()) (.throw e)

variable (hwrite : ∀ obj name value flags,
  Follows (recached f) P (Volume.writeValue obj name value flags))
include hwrite

theorem follows_writeAcl (kind : AclKind) (obj : ObjectId) (name : String) (value : Bytes)
    (flags : SetFlags) :
    Follows (recached f) P (Handler.writeAcl kind obj name value flags) := by
  have hrest : Follows (recached f) P (do
      let _ ← Action.ofExcept (Acl.validate value)
      Volume.writeValue obj name value flags) :=
    .bind (.ofExcept _) fun _ => hwrite ..
  refine .ite (.bind (follows_stat hP.toFollowedByReading obj) fun stat => ?_) hrest
  exact .ite hrest (.bind (.throw _) fun _ => hrest)

theorem follows_setValue (handler : Handler) (obj : ObjectId) (name : String)
    (value : Option Bytes) (flags : SetFlags) :
    Follows (recached f) P (handler.setValue obj name value flags) := by
  refine .getBind (fun _ _ => rfl) fun _ => .bind (.ofExcept _) fun _ => ?_
  split
  . exact .pure ()
  . exact follows_removeAcl hP obj name
  . exact follows_removeAcl hP obj name
  . exact follows_writeAcl hP hwrite ..
  . exact follows_removeValue hP obj name
  . exact hwrite ..

theorem follows_setAttribute (registry : Registry) (obj : ObjectId) (name : String) (value : Bytes)
    (flags : SetFlags) : Follows (recached f) P (setAttribute registry obj name value flags) :=
  .bind (follows_handlerFor hP.toFollowedByReading ..) fun handler =>
    follows_setValue hP hwrite handler obj name ..

end Removing

section Writing

variable (hP : FollowedByParts f P)
include hP

theorem follows_unsharedRecord (stat : ObjectStat) (name : String) (rounds : Nat)
    (flags : SetFlags) : Follows (recached f) P (unsharedRecord stat name rounds flags) := by
  induction rounds generalizing flags with
  | zero => exact .throw _
  | succ rounds ih =>
    have hmake (volume : Volume σ) (dir : ObjectId) :=
      keeps_makeRecord ((hP.adding volume).lookup dir name) ((hP.adding volume).create dir name)
    refine .bind (follows_openRecord hP.toFollowedByReading (hP.openDirectory stat flags)
      fun _ => hmake) fun record => ?_
    refine .bind (follows_stat hP.toFollowedByReading record) fun _ => .ite (.pure record) ?_
    exact .bind (hP.removeRecord stat name) fun _ => ih _

theorem follows_writeValue (obj : ObjectId) (name : String) (value : Bytes) (flags : SetFlags) :
    Follows (recached f) P (writeValue obj name value flags) := by
  have hrest (stat : ObjectStat) (volume : Volume σ) : Follows (recached f) P (do
      let record ← unsharedRecord stat name (recordRounds volume.store) flags
      onStore (writeImage record (Record.image value))) :=
    .bind (follows_unsharedRecord hP ..) fun record => follows_onStore fun volume =>
      keeps_writeImage ((hP.adding volume).setAttr record) ((hP.adding volume).writePage record) _
  refine .bind (follows_statWithAttributes hP.toFollowedByReading obj) fun stat =>
    .getBind (fun _ _ => rfl) fun _ => ?_
  exact .ite (.bind (.throw _) fun _ => .getBind (fun _ _ => rfl) fun volume => hrest stat volume)
    (.getBind (fun _ _ => rfl) fun volume => hrest stat volume)

end Writing

section Managing

variable (hP : FollowedByManaging f P)
include hP

theorem follows_chownAttributes (obj : ObjectId) (change : AttrChange) :
    Follows (recached f) P (chownAttributes obj change) := by
  refine .bind (follows_stat hP.toFollowedByReading obj) fun stat => ?_
  refine .bind (follows_bulkDirectory? hP.toFollowedByReading stat) fun found => ?_
  cases found with
  | none => exact .pure ()
  | some dir =>
    refine .bind (follows_visitEntries hP.looking dir fun volume => ?_) fun _ =>
      follows_onStore fun volume => hP.setAttr volume dir _
    exact keeps_chownEntry (hP.looking volume) (hP.setAttr volume) dir _

theorem follows_setUpPrivateRoot (flags : MountFlags) :
    Follows (recached f) P (setUpPrivateRoot flags) := by
  refine ⟨fun volume _ => ?_, ⟨fun volume hs => ?_⟩⟩
  . by_cases hformat : ObjectStore.format volume.store = .legacy
    . simp [setUpPrivateRoot, recached, hformat, onResult]
    . cases hroot : volume.privateRoot with
      | some id => simp [setUpPrivateRoot, recached, hformat, hroot, onResult]
      | none =>
        cases hfind : findPrivateRoot flags volume.store with
        | ok id store =>
          simp [setUpPrivateRoot, recached, hformat, hroot, onStore, focus, Action.attempt, hfind,
            onResult]
        | error err store =>
          cases hflags : flags.readOnly <;>
            simp [setUpPrivateRoot, recached, hformat, hroot, onStore, focus, Action.attempt, hfind,
              hflags, onResult]
  . have hfound := (hP.findPrivateRoot volume flags).holds volume.store hs
    -- Only a root that is found is noted; otherwise the store is all that may have changed.
    have hexit := rootExit volume flags
    unfold after
    cases hrun : setUpPrivateRoot flags volume with
    | ok can rest =>
      rw [hrun] at hexit
      cases hexit with
      | known => exact hs
      | @found id store _ hroot hfind =>
        rw [after_of_ok hfind] at hfound
        exact hP.privateRoot volume flags id store hroot hfind hs hfound
      | absent _ _ _ hfind =>
        rw [after_of_error hfind] at hfound
        exact hfound
    | error err rest =>
      rw [hrun] at hexit
      cases hexit with
      | legacy => exact hs
      | unavailable _ _ _ hfind =>
        rw [after_of_error hfind] at hfound
        exact hfound

theorem follows_mount (flags : MountFlags) : Follows (recached f) P (mount flags) := by
  have hadopt (options : MountOptions) : Follows (recached f) P (modify (·.adopt options)) :=
    .modify (fun _ _ => rfl) fun volume hs => hP.options volume options options.acl hs
  refine .getBind (fun _ _ => rfl) fun volume => .ite ?_ (hadopt _)
  refine .bind (follows_setUpPrivateRoot hP flags).attempt fun result => ?_
  cases result with
  | error e => exact .bind (hadopt _) fun _ => .throw e
  | ok had => cases had <;> exact hadopt _

end Managing

section Store

variable {P : σ → Prop} (hP : KeptByCalls P)
include hP

theorem followedByParts_store : FollowedByParts id fun volume : Volume σ => P volume.store := by
  have hadding (volume : Volume σ) :
      KeptByAdding fun store => P ({ volume with store } : Volume σ).store := hP.toKeptByAdding
  have hopen (stat : ObjectStat) (flags : SetFlags) :
      Keeps (fun volume : Volume σ => P volume.store) (openDirectory stat flags) :=
    keeps_openDirectory hP.toKeptByMaking stat flags
  have hremove (dir : ObjectId) (name : String) : Keeps P (removeEntry dir name) :=
    keeps_removeEntry hP.toKeptByLooking (hP.unlink dir name)
  have hprune (stat : ObjectStat) (dir : ObjectId) :
      Keeps (fun volume : Volume σ => P volume.store) (prune stat dir) := by
    refine .bind (.onStore (keeps_hasEntries hP.toKeptByLooking dir)) fun more => .ite (.pure ()) ?_
    refine .bind (keeps_openAttrRoot hP.toKeptByMaking false) fun attrRoot =>
      .bind (.modify fun _ hs => hs) fun _ => ?_
    exact .onStore (hP.rmdir _ _ (ObjectKey.isDots_text _))
  exact {
    looking := fun volume => (hadding volume).toKeptByLooking
    findDirectory := fun stat => .of_keeps (hopen stat .looking)
    adding := hadding
    options := fun _ _ _ hs => hs
    privateRoot := fun _ _ _ _ _ _ _ hs => hs
    openDirectory := fun stat flags => .of_keeps (hopen stat flags)
    removeRecord := fun stat name => .of_keeps (.bind (.ofExcept _) fun _ =>
      .bind (hopen stat .looking) fun dir => .onStore (hremove dir name))
    prune := fun stat dir => .of_keeps (hprune stat dir) }

end Store

end Volume

end AttrTree
