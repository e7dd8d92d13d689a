import AttrTree.Attribute.Value
import AttrTree.Proofs.Failing

/-!
This module contains calls that no cue of a script fits. They are passed on, and what is made of them does over
the scripted store what it does over the store behind it.
-/

namespace AttrTree

namespace Action

variable {σ τ α β : Type} {view : List Cue → σ → τ} {script : List Cue} {s : σ}

def Passes (view : List Cue → σ → τ) (script : List Cue) (act' : Action τ α) (act : Action σ α) (s : σ) :
    Prop :=
  act' (view script s) = seen (view script) (act s)

namespace Passes

variable {act' : Action τ α} {act : Action σ α}

theorem bind {f' : α → Action τ β} {f : α → Action σ β} (h : Passes view script act' act s)
    (hf : ∀ a s', act s = .ok a s' → Passes view script (f' a) (f a) s') :
    Passes view script (act' >>= f') (act >>= f) s := by
  unfold Passes at *
  rw [bind_apply, bind_apply, h]
  cases hact : act s with
  | error e s' => rfl
  | ok a s' => exact hf a s' hact

theorem attempt (h : Passes view script act' act s) :
    Passes view script act'.attempt act.attempt s := by
  unfold Passes at *
  rw [Action.attempt, Action.attempt, h]
  cases act s <;> rfl

theorem pure (a : α) : Passes view script (Pure.pure a) (Pure.pure a) s :=
  rfl

theorem throw (e : Error) :
    Passes view script (MonadExcept.throw e : Action τ α) (MonadExcept.throw e) s :=
  rfl

theorem congr {act'' : Action τ α} {act₂ : Action σ α} {s₂ : σ} (h : act s = act₂ s₂)
    (h' : act' (view script s) = act'' (view script s₂)) (hact : Passes view script act'' act₂ s₂) :
    Passes view script act' act s := by
  unfold Passes at *
  rw [h, h', hact]

end Passes

theorem Rehearses.passes {P : σ → Prop} {act' : Action τ α} {act : Action σ α}
    (h : Rehearses view P act' act s) : Passes view [] act' act s := by
  obtain ⟨left, _, ⟨hlength, hrun⟩ | ⟨hlength, _⟩⟩ := h.run [] (by simp [Cue.Fail])
  . rwa [List.length_eq_zero_iff.mp hlength] at hrun
  . cases hlength

end Action

namespace ScriptedStore

open Action Volume

variable {σ α : Type} {script : List Cue} {base : σ} {call : StoreCall} {id dir : ObjectId} {name : String}

theorem take_of_unfit (hunfit : script.any (·.fits call) = false) :
    Cue.take call script = (none, script) := by
  induction script with
  | nil => rfl
  | cons cue script ih =>
    simp only [List.any_cons, Bool.or_eq_false_iff] at hunfit
    simp [Cue.take, hunfit.1, ih hunfit.2]

theorem passes_answer (call : StoreCall) (hunfit : script.any (·.fits call) = false)
    (found : ScriptedAnswer → Option α) (act : Action σ α) :
    Passes atop script (answer call found act) act base := by
  unfold Passes
  simp only [answer, atop, get_apply, bind_apply, take_of_unfit hunfit, modify_apply, onBase, focus]
  cases act base <;> rfl

section Calls

variable [ObjectStore σ]

theorem passes_stat (hunfit : script.any (·.fits { op := .stat, id }) = false) :
    Passes atop script (ObjectStore.stat id) (ObjectStore.stat id) base :=
  passes_answer { op := .stat, id } hunfit (fun _ => none) _

theorem passes_lookup (hunfit : script.any (·.fits { op := .lookup, id := dir, name }) = false) :
    Passes atop script (ObjectStore.lookup dir name) (ObjectStore.lookup dir name) base :=
  passes_answer { op := .lookup, id := dir, name } hunfit (fun _ => some none) _

theorem passes_mkdir (hunfit : script.any (·.fits { op := .mkdir, id := dir, name }) = false)
    (mode : UInt32) :
    Passes atop script (ObjectStore.mkdir dir name mode) (ObjectStore.mkdir dir name mode) base :=
  passes_answer { op := .mkdir, id := dir, name } hunfit (fun _ => none) _

theorem passes_create (hunfit : script.any (·.fits { op := .create, id := dir, name }) = false)
    (mode : UInt32) :
    Passes atop script (ObjectStore.create dir name mode) (ObjectStore.create dir name mode) base :=
  passes_answer { op := .create, id := dir, name } hunfit (fun _ => none) _

theorem passes_setAttr (hunfit : script.any (·.fits { op := .setAttr, id }) = false) (change : AttrChange) :
    Passes atop script (ObjectStore.setAttr id change) (ObjectStore.setAttr id change) base :=
  passes_answer { op := .setAttr, id } hunfit (fun _ => none) _

theorem passes_writePage {index : Nat} (hunfit : script.any (·.fits { op := .writePage, id, index }) = false)
    (offset : Nat) (data : Bytes) :
    Passes atop script (ObjectStore.writePage id index offset data)
      (ObjectStore.writePage id index offset data) base :=
  passes_answer { op := .writePage, id, index } hunfit (fun _ => none) _

theorem passes_markPrivate (hunfit : script.any (·.fits { op := .markPrivate, id }) = false) :
    Passes atop script (ObjectStore.markPrivate id) (ObjectStore.markPrivate id) base :=
  passes_answer { op := .markPrivate, id } hunfit (fun _ => none) _

theorem passes_makeOrFind {make' : Action (ScriptedStore σ) ObjectId} {make : Action σ ObjectId}
    (hmake : Passes atop script make' make base)
    (hunfit : script.any (·.fits { op := .lookup, id := dir, name }) = false) (vanished : Error) :
    Passes atop script (makeOrFind make' dir name vanished) (makeOrFind make dir name vanished) base := by
  refine hmake.attempt.bind fun result store _ => ?_
  cases result with
  | ok id => exact .pure id
  | error e =>
    by_cases hkind : e.kind = .alreadyExists
    . simp only [hkind, if_true]
      exact (passes_lookup hunfit).bind fun found _ _ => by cases found <;> rfl
    . simp only [hkind, if_false]
      exact .throw e

theorem passes_statWithAttributes (hunfit : script.any (·.fits { op := .stat, id }) = false) :
    Passes atop script (statWithAttributes id) (statWithAttributes id) base := by
  refine (passes_stat hunfit).bind fun stat store _ => ?_
  cases stat.isLegacy with
  | true => exact .throw legacyObject
  | false => exact .pure stat

variable (hpages : ∀ index : Nat, script.any (·.fits { op := .writePage, id, index }) = false)
include hpages

theorem passes_writePages (index : Nat) (pages : List Bytes) :
    Passes atop script (writePages id index pages) (writePages id index pages) base := by
  induction pages generalizing index base with
  | nil => exact .pure ()
  | cons page pages ih => exact (passes_writePage (hpages index) 0 page).bind fun _ _ _ => ih (index + 1)

theorem passes_writeImage (hunfit : script.any (·.fits { op := .setAttr, id }) = false) (image : Bytes) :
    Passes atop script (writeImage id image) (writeImage id image) base :=
  (passes_setAttr hunfit _).bind fun _ _ _ => passes_writePages hpages 0 _

end Calls

end ScriptedStore

end AttrTree
