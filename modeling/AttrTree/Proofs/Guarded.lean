import AttrTree.Attribute.Value
import AttrTree.Proofs.Following

/-!
This module contains actions with guards: a step that could leave the range of its bytes or go below zero
stops the run with a fault. An action clears its guards where the run with them is the run without them.
-/

namespace AttrTree

open Action

inductive Fault where
  | underflow
  | outOfRange
  | lengths
  | endless
  deriving DecidableEq, Repr

/-- An action that a `Fault` stops. A fault is no `Error`, so nothing handles it. -/
abbrev Guarded (σ : Type) :=
  ExceptT Fault (Action σ)

namespace Guarded

def sub (m n : Nat) : Except Fault Nat :=
  if n ≤ m then .ok (m - n) else .error .underflow

def slice (bytes : Bytes) (start stop : Nat) : Except Fault Bytes :=
  if start ≤ stop ∧ stop ≤ bytes.length then
    .ok ((bytes.drop start).take (stop - start))
  else
    .error .outOfRange

def splice (bytes : Bytes) (start stop : Nat) (data : Bytes) : Except Fault Bytes := do
  let range ← slice bytes start stop
  if range.length = data.length then .ok (bytes.overlay start data) else .error .lengths

theorem sub_eq {m n : Nat} (h : n ≤ m) : sub m n = .ok (m - n) :=
  if_pos h

theorem slice_eq {bytes : Bytes} (start n : Nat) (h : start + n ≤ bytes.length) :
    slice bytes start (start + n) = .ok ((bytes.drop start).take n) := by
  rw [slice, if_pos ⟨Nat.le_add_right start n, h⟩, Nat.add_sub_cancel_left]

theorem splice_eq {bytes data : Bytes} {start n : Nat} (hdata : data.length = n)
    (h : start + n ≤ bytes.length) :
    splice bytes start (start + n) data = .ok (bytes.overlay start data) := by
  have hlength : ((bytes.drop start).take n).length = data.length := by
    rw [List.length_take, List.length_drop]
    omega
  simp [splice, slice_eq _ _ h, hlength, bind, Except.bind]

variable {σ τ β α : Type}

def perform (act : Action σ α) : Guarded σ α :=
  ExceptT.lift act

def check (result : Except Fault α) : Guarded σ α :=
  ExceptT.mk (pure result)

def onStore (act : Guarded σ α) : Guarded (Volume σ) α :=
  ExceptT.mk (Volume.onStore act.run)

def onStoreWith (act : Guarded (σ × β) α) : Guarded (Volume σ × β) α :=
  ExceptT.mk (Volume.onStoreWith act.run)

/-- No fault stops `guarded` in `s`, and it does what `act` does. -/
def Clears (guarded : Guarded σ α) (act : Action σ α) (s : σ) : Prop :=
  guarded.run s = (Except.ok <$> act) s

namespace Clears

variable {guarded : Guarded σ α} {act : Action σ α} {s : σ}

theorem perform (act : Action σ α) (s : σ) : Clears (perform act) act s :=
  rfl

theorem pure (a : α) (s : σ) : Clears (Pure.pure a) (Pure.pure a) s :=
  rfl

theorem bind {f : α → Guarded σ β} {g : α → Action σ β} (h : Clears guarded act s)
    (hf : ∀ a s', act s = .ok a s' → Clears (f a) (g a) s') : Clears (guarded >>= f) (act >>= g) s := by
  have hrun : guarded.run s = (Except.ok <$> act) s := h
  have hbind : (guarded >>= f).run s = (guarded.run >>= ExceptT.bindCont f) s := rfl
  unfold Clears
  rw [hbind, Action.bind_apply, hrun, Action.map_apply, Action.map_apply, Action.bind_apply]
  cases hact : act s with
  | error e s' => rfl
  | ok a s' =>
    have hrest := hf a s' hact
    unfold Clears at hrest
    rw [Action.map_apply] at hrest
    exact hrest

theorem congr {act' : Action σ α} (hact : act s = act' s) (h : Clears guarded act' s) :
    Clears guarded act s := by
  unfold Clears at h ⊢
  rw [h, Action.map_apply, Action.map_apply, hact]

theorem next {f : α → Guarded σ β} {g : α → Action σ β}
    (hf : ∀ a s', act s = .ok a s' → Clears (f a) (g a) s') :
    Clears (Guarded.perform act >>= f) (act >>= g) s :=
  (Clears.perform act s).bind hf

theorem nextOnFirst {act : Action σ α} {b : τ} {f : α → Guarded (σ × τ) β}
    {g : α → Action (σ × τ) β}
    (hf : ∀ a s', act s = .ok a s' → Clears (f a) (g a) (s', b)) :
    Clears (Guarded.perform (Action.onFirst act) >>= f) (Action.onFirst act >>= g) (s, b) := by
  refine next fun a s' hrun => ?_
  unfold Action.onFirst at hrun
  cases hact : act s with
  | error e rest => simp [hact] at hrun
  | ok a' rest =>
    simp only [hact] at hrun
    cases hrun
    exact hf a rest hact

theorem check {result : Except Fault α} {a : α} (h : result = .ok a) {f : α → Guarded σ β}
    {act : Action σ β} (hf : Clears (f a) act s) : Clears (check result >>= f) act s := by
  subst h
  exact hf

theorem get {g : σ → Action σ α} (h : Clears guarded (g s) s) : Clears guarded (get >>= g) s :=
  h

theorem ite {c : Prop} [Decidable c] {guarded' : Guarded σ α} {act' : Action σ α}
    (h : c → Clears guarded act s) (h' : ¬ c → Clears guarded' act' s) :
    Clears (if c then guarded else guarded') (if c then act else act') s := by
  split
  . next hc => exact h hc
  . next hc => exact h' hc

theorem throwIf {c : Prop} [Decidable c] (e : Error) {f : β → Guarded σ α} {g : β → Action σ α}
    (h : ¬ c → Clears guarded act s) :
    Clears (if c then Guarded.perform (throw e) >>= f else guarded)
      (if c then throw e >>= g else act) s :=
  ite (fun _ => next fun _ _ h => nomatch h) h

theorem onStore {guarded : Guarded σ α} {act : Action σ α} {volume : Volume σ}
    (h : Clears guarded act volume.store) : Clears (onStore guarded) (Volume.onStore act) volume := by
  have hrun : guarded.run volume.store = (Except.ok <$> act) volume.store := h
  have honStore : (Guarded.onStore guarded).run volume = Volume.onStore guarded.run volume := rfl
  unfold Clears
  rw [honStore, Volume.onStore, Action.focus, hrun, Action.map_apply, Action.map_apply, Volume.onStore,
    Action.focus]
  cases act volume.store <;> rfl

theorem onStoreWith {guarded : Guarded (σ × β) α} {act : Action (σ × β) α} {s : Volume σ × β}
    (h : Clears guarded act (s.1.store, s.2)) :
    Clears (onStoreWith guarded) (Volume.onStoreWith act) s := by
  have hrun : guarded.run (s.1.store, s.2) = (Except.ok <$> act) (s.1.store, s.2) := h
  have honStore : (Guarded.onStoreWith guarded).run s = Volume.onStoreWith guarded.run s := rfl
  unfold Clears
  rw [honStore, Volume.onStoreWith, Action.focus, hrun, Action.map_apply, Action.map_apply,
    Volume.onStoreWith, Action.focus]
  cases act (s.1.store, s.2) <;> rfl

theorem result_eq (h : Clears guarded act s) :
    Action.result guarded.run s = (act.result s).map Except.ok := by
  unfold Clears at h
  rw [Action.result, h, Action.map_apply, Action.result]
  cases act s <;> rfl

end Clears

end Guarded

end AttrTree
