import AttrTree.Store.Action
import Mathlib.Algebra.GroupWithZero.Nat

/-!
This module contains the rules for running actions and for showing that they keep a property of the
state, whether they succeed or fail.
-/

namespace AttrTree

namespace Action

variable {σ τ β α : Type}

section Running

@[simp]
theorem pure_apply (a : α) (s : σ) : (pure a : Action σ α) s = .ok a s :=
  rfl

@[simp]
theorem bind_apply (act : Action σ α) (f : α → Action σ β) (s : σ) :
    (act >>= f) s =
      match act s with
      | .ok a s => f a s
      | .error e s => .error e s := by
  cases h : act s <;> simp [bind, EStateM.bind, h]

theorem bind_eq_ok_iff {act : Action σ α} {f : α → Action σ β} {s s' : σ} {b : β} :
    (act >>= f) s = .ok b s' ↔ ∃ a middle, act s = .ok a middle ∧ f a middle = .ok b s' := by
  rw [bind_apply]
  cases act s with
  | ok a middle =>
    constructor
    . intro h
      exact ⟨a, middle, rfl, h⟩
    . rintro ⟨_, _, ⟨⟩, h⟩
      exact h
  | error e middle => simp

@[simp]
theorem map_apply (f : α → β) (act : Action σ α) (s : σ) :
    (f <$> act) s =
      match act s with
      | .ok a s => .ok (f a) s
      | .error e s => .error e s := by
  cases h : act s <;> simp [Functor.map, EStateM.map, h]

@[simp]
theorem discard_apply (act : Action σ α) (s : σ) :
    (discard act) s =
      match act s with
      | .ok _ s => .ok () s
      | .error e s => .error e s := by
  cases h : act s <;> simp [discard, Functor.mapConst, EStateM.map, h]

@[simp]
theorem throw_apply (e : Error) (s : σ) : (throw e : Action σ α) s = .error e s :=
  rfl

@[simp]
theorem get_apply (s : σ) : (get : Action σ σ) s = .ok s s :=
  rfl

@[simp]
theorem modify_apply (f : σ → σ) (s : σ) : (modify f : Action σ PUnit) s = .ok () (f s) :=
  rfl

@[simp]
theorem ofExcept_ok (a : α) (s : σ) : ofExcept (.ok a) s = .ok a s :=
  rfl

@[simp]
theorem ofExcept_error (e : Error) (s : σ) : (ofExcept (.error e) : Action σ α) s = .error e s :=
  rfl

@[simp]
theorem ofOption_some (e : Error) (a : α) (s : σ) : ofOption e (some a) s = .ok a s :=
  rfl

@[simp]
theorem ofOption_none (e : Error) (s : σ) : (ofOption e none : Action σ α) s = .error e s :=
  rfl

theorem update_eq_ok_iff {change : σ → Except Error σ} {s s' : σ} :
    update change s = .ok () s' ↔ change s = .ok s' := by
  unfold update
  cases change s <;> simp

theorem transact_eq_ok_iff {change : σ → Except Error (α × σ)} {a : α} {s s' : σ} :
    transact change s = .ok a s' ↔ change s = .ok (a, s') := by
  unfold transact
  cases change s with
  | error e => simp
  | ok result => simp [Prod.ext_iff]

end Running

section Results

variable {e : Error} {result rest : Except Error α} {b : β}

theorem exceptBind_eq_ok_iff {f : α → Except Error β} :
    result >>= f = .ok b ↔ ∃ a, result = .ok a ∧ f a = .ok b := by
  cases result <;> simp [bind, Except.bind]

theorem exceptPure_eq_ok_iff {a a' : α} : (pure a : Except Error α) = .ok a' ↔ a' = a := by
  simp [pure, Except.pure, eq_comm]

theorem throwIf_eq_ok_iff {c : Prop} [Decidable c] {a : α} :
    (if c then (throw e : Except Error β) >>= fun _ => rest else result) = .ok a
      ↔ ¬ c ∧ result = .ok a := by
  split <;> simp [*, throw, throwThe, MonadExceptOf.throw, bind, Except.bind]

theorem throwUnless_eq_ok_iff {c : Prop} [Decidable c] {a : α} :
    (if c then result else (throw e : Except Error β) >>= fun _ => rest) = .ok a
      ↔ c ∧ result = .ok a := by
  split <;> simp [*, throw, throwThe, MonadExceptOf.throw, bind, Except.bind]

def FailsWith (Q : Error → Prop) (result : Except Error α) : Prop :=
  ∀ e, result = .error e → Q e

variable {Q : Error → Prop}

theorem FailsWith.bind {f : α → Except Error β} (h : FailsWith Q result)
    (hf : ∀ a, FailsWith Q (f a)) : FailsWith Q (result >>= f) := by
  intro e hbind
  cases result with
  | ok a => exact hf a e hbind
  | error e' =>
    cases hbind
    exact h e rfl

theorem FailsWith.ite {c : Prop} [Decidable c] (h : FailsWith Q result) (h' : FailsWith Q rest) :
    FailsWith Q (if c then result else rest) := by
  split
  . exact h
  . exact h'

theorem FailsWith.of_error (h : Q e) {next : β → Except Error α} :
    FailsWith Q ((throw e : Except Error β) >>= next) := by
  rintro e' ⟨⟩
  exact h

theorem FailsWith.throwIf {c : Prop} [Decidable c] {next : β → Except Error α} (h : Q e)
    (hresult : FailsWith Q result) :
    FailsWith Q (if c then (throw e : Except Error β) >>= next else result) :=
  .ite (.of_error h) hresult

theorem FailsWith.throwUnless {c : Prop} [Decidable c] {next : β → Except Error α} (h : Q e)
    (hresult : FailsWith Q result) :
    FailsWith Q (if c then result else (throw e : Except Error β) >>= next) :=
  .ite hresult (.of_error h)

theorem FailsWith.throw (h : Q e) : FailsWith Q (throw e : Except Error α) := by
  rintro e' ⟨⟩
  exact h

theorem FailsWith.pure (a : α) : FailsWith Q (pure a : Except Error α) := by
  rintro e ⟨⟩

theorem FailsWith.mapM {f : α → Except Error β} (h : ∀ a, FailsWith Q (f a)) (as : List α) :
    FailsWith Q (as.mapM f) := by
  induction as with
  | nil => exact .pure []
  | cons a as ih =>
    rw [List.mapM_cons]
    exact .bind (h a) fun b => .bind ih fun bs => .pure (b :: bs)

end Results

def after (act : Action σ α) (s : σ) : σ :=
  match act s with
  | .ok _ s => s
  | .error _ s => s

def succeeds (act : Action σ α) (s : σ) : Bool :=
  match act s with
  | .ok _ _ => true
  | .error _ _ => false

theorem after_of_ok {act : Action σ α} {s s' : σ} {a : α} (h : act s = .ok a s') :
    act.after s = s' := by
  simp [after, h]

theorem after_of_error {act : Action σ α} {s s' : σ} {e : Error} (h : act s = .error e s') :
    act.after s = s' := by
  simp [after, h]

theorem eq_ok_of_succeeds {act : Action σ α} {s : σ} (h : act.succeeds s = true) :
    ∃ a, act s = .ok a (act.after s) := by
  unfold succeeds at h
  unfold after
  cases hact : act s with
  | ok a s' => exact ⟨a, rfl⟩
  | error e s' => simp [hact] at h

theorem succeeds_update_iff {change : σ → Except Error σ} {s : σ} :
    (update change).succeeds s = true ↔ ∃ s', change s = .ok s' := by
  unfold succeeds update
  cases change s <;> simp

theorem after_update_of_fails {change : σ → Except Error σ} {s : σ}
    (h : (update change).succeeds s = false) : (update change).after s = s := by
  unfold succeeds update at h
  unfold after update
  cases hresult : change s with
  | error e => rfl
  | ok s' => simp [hresult] at h

theorem after_congr {act act' : Action σ α} {s s' : σ} (h : act s = act' s') :
    act.after s = act'.after s' := by
  simp [after, h]

theorem after_discard (act : Action σ α) (s : σ) : (discard act).after s = act.after s := by
  unfold after
  rw [discard_apply]
  cases act s <;> rfl

theorem after_withSecond (act : Action (σ × β) α) (b : β) (s : σ) :
    (act.withSecond b).after s = (act.after (s, b)).1 := by
  unfold after withSecond
  cases act (s, b) <;> rfl

structure Keeps (P : σ → Prop) (act : Action σ α) : Prop where
  holds : ∀ s, P s → P (act.after s)

namespace Keeps

variable {P : σ → Prop}

theorem pure (a : α) : Keeps P (Pure.pure a : Action σ α) := by
  refine ⟨fun s hs => ?_⟩
  exact hs

theorem throw (e : Error) : Keeps P (MonadExcept.throw e : Action σ α) := by
  refine ⟨fun s hs => ?_⟩
  exact hs

theorem get : Keeps P (MonadState.get : Action σ σ) := by
  refine ⟨fun s hs => ?_⟩
  exact hs

theorem modify {f : σ → σ} (h : ∀ s, P s → P (f s)) : Keeps P (modify f : Action σ PUnit) :=
  ⟨h⟩

theorem bind {act : Action σ α} {f : α → Action σ β} (hact : Keeps P act)
    (hf : ∀ a, Keeps P (f a)) : Keeps P (act >>= f) := by
  refine ⟨fun s hs => ?_⟩
  have hmid := hact.holds s hs
  unfold after at hmid ⊢
  rw [bind_apply]
  cases h : act s with
  | error e s' =>
    rw [h] at hmid
    exact hmid
  | ok a s' =>
    rw [h] at hmid
    exact (hf a).holds s' hmid

theorem ite {c : Prop} [Decidable c] {act act' : Action σ α} (h : Keeps P act)
    (h' : Keeps P act') : Keeps P (if c then act else act') := by
  split
  . exact h
  . exact h'

theorem ofExcept (result : Except Error α) : Keeps P (Action.ofExcept result) := by
  refine ⟨fun s hs => ?_⟩
  cases result <;> exact hs

theorem ofOption (e : Error) (value : Option α) : Keeps P (Action.ofOption e value) := by
  refine ⟨fun s hs => ?_⟩
  cases value <;> exact hs

theorem query (ask : σ → Except Error α) : Keeps P (Action.query ask) := by
  refine ⟨fun s hs => ?_⟩
  unfold after Action.query
  cases ask s <;> exact hs

theorem update {change : σ → Except Error σ} (h : ∀ s s', change s = .ok s' → P s → P s') :
    Keeps P (Action.update change) := by
  refine ⟨fun s hs => ?_⟩
  unfold after Action.update
  cases hc : change s with
  | error e => exact hs
  | ok s' => exact h s s' hc hs

theorem transact {change : σ → Except Error (α × σ)}
    (h : ∀ s a s', change s = .ok (a, s') → P s → P s') : Keeps P (Action.transact change) := by
  refine ⟨fun s hs => ?_⟩
  unfold after Action.transact
  cases hc : change s with
  | error e => exact hs
  | ok result => exact h s result.1 result.2 hc hs

theorem attempt {act : Action σ α} (hact : Keeps P act) : Keeps P act.attempt := by
  refine ⟨fun s hs => ?_⟩
  have hend := hact.holds s hs
  unfold after at hend ⊢
  unfold Action.attempt
  cases h : act s <;> simpa [h] using hend

theorem onFirst {act : Action σ α} (hact : Keeps P act) :
    Keeps (fun s : σ × β => P s.1) (Action.onFirst act) := by
  refine ⟨fun s hs => ?_⟩
  have hend := hact.holds s.1 hs
  unfold after at hend ⊢
  unfold Action.onFirst
  cases h : act s.1 <;> simpa [h] using hend

theorem withSecond {act : Action (σ × β) α} (b : β) (hact : Keeps (fun s => P s.1) act) :
    Keeps P (act.withSecond b) := by
  refine ⟨fun s hs => ?_⟩
  have hend := hact.holds (s, b) hs
  unfold after at hend ⊢
  unfold Action.withSecond
  cases h : act (s, b) <;> simpa [h] using hend

theorem focus {Q : τ → Prop} {view : τ → σ} {put : σ → τ → τ} {act : Action σ α}
    (hact : Keeps P act) (hview : ∀ t, Q t → P (view t)) (hput : ∀ s t, P s → Q (put s t)) :
    Keeps Q (act.focus view put) := by
  refine ⟨fun t ht => ?_⟩
  have hend := hact.holds (view t) (hview t ht)
  unfold after at hend ⊢
  unfold Action.focus
  cases h : act (view t) with
  | error e s =>
    rw [h] at hend
    exact hput s t hend
  | ok a s =>
    rw [h] at hend
    exact hput s t hend

end Keeps

/-- A run of `act` from a state with `P` ends with an answer and a state as `Q` says, or with an error in a
state as `E` says. -/
structure Ensures (E P : σ → Prop) (Q : α → σ → Prop) (act : Action σ α) : Prop where
  ok : ∀ ⦃s a s'⦄, P s → act s = .ok a s' → Q a s'
  error : ∀ ⦃s e s'⦄, P s → act s = .error e s' → E s'

namespace Ensures

variable {E P : σ → Prop} {Q : α → σ → Prop} {R : β → σ → Prop} {act : Action σ α}

theorem of_keeps (hact : Keeps E act) (h : ∀ s, P s → E s) : Ensures E P (fun _ => E) act where
  ok s a s' hs hrun := by
    have hend := hact.holds s (h s hs)
    rwa [after_of_ok hrun] at hend
  error s e s' hs hrun := by
    have hend := hact.holds s (h s hs)
    rwa [after_of_error hrun] at hend

theorem keeps (h : Ensures E E Q act) (hQ : ∀ a s, Q a s → E s) : Keeps E act := by
  refine ⟨fun s hs => ?_⟩
  unfold after
  cases hrun : act s with
  | ok a s' => exact hQ a s' (h.ok hs hrun)
  | error e s' => exact h.error hs hrun

theorem mono {P' : σ → Prop} {Q' : α → σ → Prop} (h : Ensures E P Q act) (hP : ∀ s, P' s → P s)
    (hQ : ∀ a s, Q a s → Q' a s) : Ensures E P' Q' act :=
  ⟨fun s _ _ hs hrun => hQ _ _ (h.ok (hP s hs) hrun), fun s _ _ hs hrun => h.error (hP s hs) hrun⟩

theorem of_and {p : Prop} (h : p → Ensures E P Q act) : Ensures E (fun s => P s ∧ p) Q act :=
  ⟨fun _ _ _ hs hrun => (h hs.2).ok hs.1 hrun, fun _ _ _ hs hrun => (h hs.2).error hs.1 hrun⟩

theorem pure {a : α} (h : ∀ s, P s → Q a s) : Ensures E P Q (Pure.pure a : Action σ α) :=
  ⟨fun | s, _, _, hs, rfl => h s hs, nofun⟩

theorem throw {e : Error} (h : ∀ s, P s → E s) : Ensures E P Q (MonadExcept.throw e : Action σ α) :=
  ⟨nofun, fun | s, _, _, hs, rfl => h s hs⟩

theorem get {Q : σ → σ → Prop} (h : ∀ s, P s → Q s s) : Ensures E P Q (MonadState.get : Action σ σ) :=
  ⟨fun | s, _, _, hs, rfl => h s hs, nofun⟩

theorem modify {f : σ → σ} {Q : PUnit → σ → Prop} (h : ∀ s, P s → Q ⟨⟩ (f s)) :
    Ensures E P Q (modify f : Action σ PUnit) :=
  ⟨fun | s, _, _, hs, rfl => h s hs, nofun⟩

theorem bind {f : α → Action σ β} (hact : Ensures E P Q act) (hf : ∀ a, Ensures E (Q a) R (f a)) :
    Ensures E P R (act >>= f) := by
  constructor
  . intro s b s' hs hrun
    obtain ⟨a, middle, hfirst, hrest⟩ := bind_eq_ok_iff.mp hrun
    exact (hf a).ok (hact.ok hs hfirst) hrest
  . intro s e s' hs hrun
    rw [bind_apply] at hrun
    cases hfirst : act s with
    | ok a middle =>
      rw [hfirst] at hrun
      exact (hf a).error (hact.ok hs hfirst) hrun
    | error e' s'' =>
      rw [hfirst] at hrun
      cases hrun
      exact hact.error hs hfirst

theorem ite {c : Prop} [Decidable c] {act' : Action σ α} (h : c → Ensures E P Q act)
    (h' : ¬ c → Ensures E P Q act') : Ensures E P Q (if c then act else act') := by
  split
  . next hc => exact h hc
  . next hc => exact h' hc

theorem ofExcept {value : Except Error α} (hP : ∀ s, P s → E s)
    (h : ∀ a s, value = .ok a → P s → Q a s) : Ensures E P Q (Action.ofExcept value) := by
  cases value with
  | ok a => exact .pure fun s => h a s rfl
  | error e => exact .throw hP

theorem ofOption {e : Error} {value : Option α} (hP : ∀ s, P s → E s)
    (h : ∀ a s, value = some a → P s → Q a s) : Ensures E P Q (Action.ofOption e value) := by
  cases value with
  | some a => exact .pure fun s => h a s rfl
  | none => exact .throw hP

end Ensures

end Action

end AttrTree
