import AttrTree.Proofs.Action
import AttrTree.Store.Scripted

/-!
This module contains scripts that do nothing but make calls of the store fail. Up to the first call
that fails an action over the scripted store does what it does over the store behind it.
-/

namespace AttrTree

namespace ScriptedAnswer

def isFailure : ScriptedAnswer → Bool
  | failure _ => true
  | _ => false

end ScriptedAnswer

namespace Cue

def Fail (script : List Cue) : Prop :=
  ∀ cue ∈ script, cue.answer.isFailure = true

instance (script : List Cue) : Decidable (Fail script) :=
  inferInstanceAs (Decidable (∀ cue ∈ script, _))

inductive Taken (script : List Cue) : Option ScriptedAnswer × List Cue → Prop
  | passed {rest : List Cue} (hrest : Fail rest) (hlength : rest.length = script.length) :
      Taken script (none, rest)
  | failed (e : Error) {rest : List Cue} (hrest : Fail rest) (hlength : rest.length < script.length) :
      Taken script (some (.failure e), rest)

theorem taken {script : List Cue} (h : Fail script) (call : StoreCall) :
    Taken script (take call script) := by
  induction script with
  | nil => exact .passed h rfl
  | cons cue script ih =>
    obtain ⟨hcue, hscript⟩ := List.forall_mem_cons.mp h
    unfold take
    split
    . split
      . cases hanswer : cue.answer with
        | failure e => exact .failed e hscript (Nat.lt_succ_self _)
        | absent | name => simp [hanswer, ScriptedAnswer.isFailure] at hcue
      . exact .passed (List.forall_mem_cons.mpr ⟨hcue, hscript⟩) rfl
    . generalize htaken : take call script = taken
      have hrest := ih hscript
      rw [htaken] at hrest
      cases hrest with
      | passed hrest hlength =>
        exact .passed (List.forall_mem_cons.mpr ⟨hcue, hrest⟩) (congrArg (· + 1) hlength)
      | failed e hrest hlength =>
        exact .failed e (List.forall_mem_cons.mpr ⟨hcue, hrest⟩) (Nat.succ_lt_succ hlength)

end Cue

namespace Action

variable {σ τ α β : Type}

def seen (view : σ → τ) : EStateM.Result Error σ α → EStateM.Result Error τ α
  | .ok a s => .ok a (view s)
  | .error e s => .error e (view s)

/-- Over every script of failures `act'` does what `act` does and no call fails, or one fails and ends it in a
state with `P`. -/
structure Rehearses (view : List Cue → σ → τ) (P : σ → Prop) (act' : Action τ α) (act : Action σ α)
    (s : σ) : Prop where
  run : ∀ script, Cue.Fail script → ∃ rest, Cue.Fail rest
    ∧ (rest.length = script.length ∧ act' (view script s) = seen (view rest) (act s)
      ∨ rest.length < script.length ∧ ∃ e s', act' (view script s) = .error e (view rest s') ∧ P s')

namespace Rehearses

variable {view : List Cue → σ → τ} {P : σ → Prop} {act' : Action τ α} {act : Action σ α} {s : σ}

theorem of_view (h : ∀ script, act' (view script s) = seen (view script) (act s)) :
    Rehearses view P act' act s :=
  ⟨fun script hscript => ⟨script, hscript, .inl ⟨rfl, h script⟩⟩⟩

theorem pure (a : α) : Rehearses view P (Pure.pure a) (Pure.pure a) s :=
  .of_view fun _ => rfl

theorem throw (e : Error) :
    Rehearses view P (MonadExcept.throw e : Action τ α) (MonadExcept.throw e) s :=
  .of_view fun _ => rfl

theorem ofOption (e : Error) (value : Option α) :
    Rehearses view P (Action.ofOption e value) (Action.ofOption e value) s :=
  .of_view fun _ => by cases value <;> rfl

theorem bind {f' : α → Action τ β} {f : α → Action σ β} (h : Rehearses view P act' act s)
    (hf : ∀ a s', act s = .ok a s' → Rehearses view P (f' a) (f a) s') :
    Rehearses view P (act' >>= f') (act >>= f) s := by
  refine ⟨fun script hscript => ?_⟩
  obtain ⟨middle, hmiddle, ⟨hlength, hrun⟩ | ⟨hlength, e, s', hrun, hs'⟩⟩ := h.run script hscript
  . cases hact : act s with
    | error e s' =>
      rw [hact] at hrun
      refine ⟨middle, hmiddle, .inl ⟨hlength, ?_⟩⟩
      rw [bind_apply, bind_apply, hrun, hact]
      rfl
    | ok a s' =>
      rw [hact] at hrun
      obtain ⟨rest, hrest, hend⟩ := (hf a s' hact).run middle hmiddle
      refine ⟨rest, hrest, ?_⟩
      rw [bind_apply, bind_apply, hrun, hact, ← hlength]
      exact hend
  . refine ⟨middle, hmiddle, .inr ⟨hlength, e, s', ?_, hs'⟩⟩
    rw [bind_apply, hrun]

theorem congr {act'' : Action τ α} {act₂ : Action σ α} {s₂ : σ}
    (h : act s = act₂ s₂) (h' : ∀ script, act' (view script s) = act'' (view script s₂))
    (hact : Rehearses view P act'' act₂ s₂) : Rehearses view P act' act s :=
  ⟨fun script hscript => by rw [h', h]; exact hact.run script hscript⟩

theorem attempt (h : Rehearses view P act' act s) {script : List Cue} (hscript : Cue.Fail script) :
    ∃ rest result s', act'.attempt (view script s) = .ok result (view rest s')
      ∧ (rest.length = script.length ∧ act.attempt s = .ok result s'
        ∨ rest.length < script.length ∧ P s') := by
  obtain ⟨rest, hrest, ⟨hlength, hrun⟩ | ⟨hlength, e, s', hrun, hs'⟩⟩ := h.run script hscript
  . cases hact : act s with
    | ok a s' =>
      exact ⟨rest, .ok a, s', by simp [Action.attempt, hrun, hact, seen],
        .inl ⟨hlength, by simp [Action.attempt, hact]⟩⟩
    | error e s' =>
      exact ⟨rest, .error e, s', by simp [Action.attempt, hrun, hact, seen],
        .inl ⟨hlength, by simp [Action.attempt, hact]⟩⟩
  . exact ⟨rest, .error e, s', by simp [Action.attempt, hrun], .inr ⟨hlength, hs'⟩⟩

end Rehearses

end Action

namespace ScriptedStore

open Action

variable {σ α : Type} {P : σ → Prop} {base : σ}

def atop (script : List Cue) (base : σ) : ScriptedStore σ :=
  { base, reportedPageSize := none, script }

theorem rehearses_answer (hbase : P base) (call : StoreCall)
    (found : ScriptedAnswer → Option α) (act : Action σ α) :
    Rehearses atop P (answer call found act) act base := by
  refine ⟨fun script hscript => ?_⟩
  generalize htaken : Cue.take call script = taken
  have htaken' := Cue.taken hscript call
  rw [htaken] at htaken'
  cases htaken' with
  | @passed rest hrest hlength =>
    refine ⟨rest, hrest, .inl ⟨hlength, ?_⟩⟩
    simp only [answer, atop, get_apply, bind_apply, htaken, modify_apply, onBase, focus]
    cases act base <;> rfl
  | @failed e rest hrest hlength =>
    refine ⟨rest, hrest, .inr ⟨hlength, e, base, ?_, hbase⟩⟩
    simp only [answer, atop, get_apply, bind_apply, htaken, modify_apply]
    rfl

section Calls

variable [ObjectStore σ] (hbase : P base) (id : ObjectId) (name : String)
include hbase

theorem rehearses_stat : Rehearses atop P (ObjectStore.stat id) (ObjectStore.stat id) base :=
  rehearses_answer hbase { op := .stat, id } (fun _ => none) _

theorem rehearses_lookup : Rehearses atop P (ObjectStore.lookup id name) (ObjectStore.lookup id name) base :=
  rehearses_answer hbase { op := .lookup, id, name } (fun _ => some none) _

theorem rehearses_unlink : Rehearses atop P (ObjectStore.unlink id name) (ObjectStore.unlink id name) base :=
  rehearses_answer hbase { op := .unlink, id, name } (fun _ => none) _

theorem rehearses_rmdir : Rehearses atop P (ObjectStore.rmdir id name) (ObjectStore.rmdir id name) base :=
  rehearses_answer hbase { op := .rmdir, id, name } (fun _ => none) _

theorem rehearses_locateEntry (position : Nat) : Rehearses atop P
    (ObjectStore.locateEntry id position) (ObjectStore.locateEntry id position) base :=
  rehearses_answer hbase { op := .locateEntry, id } (fun _ => some none) _

theorem rehearses_entryName (slot : DirSlot) : Rehearses atop P
    (ObjectStore.entryName id slot) (ObjectStore.entryName id slot) base :=
  rehearses_answer hbase { op := .entryName, id } (fun answer => some (scriptedName answer)) _

end Calls

end ScriptedStore

end AttrTree
