import AttrTree.Proofs.Rehearsing

/-!
This module contains scripts of lookups that find nothing although the entry is there, each of them once.
Someone else has made the entry in between. What is looked for in order to be made is found then when it
cannot be made.
-/

namespace AttrTree

namespace Cue

open Volume

variable {script left : List Cue} {dir : ObjectId} {name : String}

structure Miss (script : List Cue) : Prop where
  nodup : script.Nodup
  isOvertaken : ∀ cue ∈ script, ∃ dir name, cue = overtaken dir name

theorem miss_nil : Miss [] :=
  ⟨List.nodup_nil, fun _ hcue => absurd hcue List.not_mem_nil⟩

theorem Miss.sublist (h : Miss script) (hleft : left.Sublist script) : Miss left :=
  ⟨h.nodup.sublist hleft, fun cue hcue => h.isOvertaken cue (hleft.subset hcue)⟩

theorem Miss.erase (h : Miss script) (cue : Cue) : Miss (script.erase cue) :=
  h.sublist List.erase_sublist

theorem Miss.not_mem_erase (h : Miss script) (cue : Cue) : cue ∉ script.erase cue :=
  h.nodup.not_mem_erase

theorem fits_overtaken (dir : ObjectId) (name : String) (call : StoreCall) :
    (overtaken dir name).fits call = true ↔ call = { op := .lookup, id := dir, name, index := call.index } := by
  obtain ⟨op, id, name', index⟩ := call
  simp [overtaken, fits]
  constructor
  . rintro ⟨⟨rfl, rfl⟩, rfl⟩
    exact ⟨rfl, rfl, rfl⟩
  . rintro ⟨rfl, rfl, rfl⟩
    exact ⟨⟨rfl, rfl⟩, rfl⟩

theorem Miss.unfit_of_op (h : Miss script) {call : StoreCall} (hop : (call.op == .lookup) = false) :
    script.any (·.fits call) = false := by
  rw [List.any_eq_false]
  intro cue hcue hfits
  obtain ⟨dir, name, rfl⟩ := h.isOvertaken cue hcue
  rw [fits_overtaken] at hfits
  rw [hfits] at hop
  cases hop

theorem Miss.unfit_lookup (h : Miss script) (hfree : overtaken dir name ∉ script) :
    script.any (·.fits { op := .lookup, id := dir, name }) = false := by
  rw [List.any_eq_false]
  intro cue hcue hfits
  obtain ⟨dir', name', rfl⟩ := h.isOvertaken cue hcue
  rw [fits_overtaken] at hfits
  cases hfits
  exact hfree hcue

theorem Miss.take_lookup (h : Miss script) (hmem : overtaken dir name ∈ script) :
    take { op := .lookup, id := dir, name } script =
      (some .absent, script.erase (overtaken dir name)) := by
  have hall := h.isOvertaken
  clear h
  induction script with
  | nil => cases hmem
  | cons cue script ih =>
    obtain ⟨⟨dir', name', rfl⟩, hrest⟩ := List.forall_mem_cons.mp hall
    by_cases heq : overtaken dir name = overtaken dir' name'
    . have hfits := (fits_overtaken dir' name' { op := .lookup, id := dir, name }).mpr
        (by cases heq; rfl)
      have hskip : (overtaken dir' name').skip = 0 := rfl
      rw [heq, take, if_pos hfits, if_pos hskip, List.erase_cons_head]
      rfl
    . have hunfit : (overtaken dir' name').fits { op := .lookup, id := dir, name } = false := by
        rw [Bool.eq_false_iff]
        intro hfits
        rw [fits_overtaken] at hfits
        cases hfits
        exact heq rfl
      have hne : (overtaken dir' name' == overtaken dir name) = false := by
        simpa using Ne.symm heq
      have hlater := ih ((List.mem_cons.mp hmem).resolve_left heq) hrest
      rw [take, if_neg (by simp [hunfit]), hlater, List.erase_cons, hne]
      rfl

end Cue

namespace Action

variable {σ τ α β : Type} {view : List Cue → σ → τ} {script left : List Cue} {s : σ}

/-- Over `script` the action `act'` does what `act` does, and if it succeeds `Q` holds of what is left of it. -/
def Plays (view : List Cue → σ → τ) (script : List Cue) (Q : α → σ → List Cue → Prop) (act' : Action τ α)
    (act : Action σ α) (s : σ) : Prop :=
  ∃ left, act' (view script s) = seen (view left) (act s) ∧ ∀ a s', act s = .ok a s' → Q a s' left

theorem Passes.plays {act' : Action τ α} {act : Action σ α} (h : Passes view script act' act s) :
    Plays view script (fun a s' left => act s = .ok a s' ∧ left = script) act' act s :=
  ⟨script, h, fun _ _ hact => ⟨hact, rfl⟩⟩

namespace Plays

variable {Q R : α → σ → List Cue → Prop} {act' : Action τ α} {act : Action σ α}

theorem mono (h : Plays view script Q act' act s)
    (hQR : ∀ a s' left, act s = .ok a s' → Q a s' left → R a s' left) : Plays view script R act' act s := by
  obtain ⟨left, hrun, hleft⟩ := h
  exact ⟨left, hrun, fun a s' hact => hQR a s' left hact (hleft a s' hact)⟩

theorem bind {R : β → σ → List Cue → Prop} {f' : α → Action τ β} {f : α → Action σ β}
    (h : Plays view script Q act' act s)
    (hf : ∀ a s' left, act s = .ok a s' → Q a s' left → Plays view left R (f' a) (f a) s') :
    Plays view script R (act' >>= f') (act >>= f) s := by
  obtain ⟨left, hrun, hleft⟩ := h
  cases hact : act s with
  | error e s' =>
    refine ⟨left, ?_, fun b s'' hbind => ?_⟩
    . rw [bind_apply, bind_apply, hrun, hact]
      rfl
    . rw [bind_apply, hact] at hbind
      cases hbind
  | ok a s' =>
    obtain ⟨last, hrun', hlast⟩ := hf a s' left hact (hleft a s' hact)
    refine ⟨last, ?_, fun b s'' hbind => ?_⟩
    . rw [bind_apply, bind_apply, hrun, hact]
      exact hrun'
    . rw [bind_apply, hact] at hbind
      exact hlast b s'' hbind

theorem attempt (h : Plays view script Q act' act s) :
    Plays view script (fun _ _ _ => True) act'.attempt act.attempt s := by
  obtain ⟨left, hrun, _⟩ := h
  refine ⟨left, ?_, fun _ _ _ => trivial⟩
  rw [Action.attempt, Action.attempt, hrun]
  cases act s <;> rfl

theorem pure {a : α} (h : Q a s script) : Plays view script Q (Pure.pure a) (Pure.pure a) s :=
  ⟨script, rfl, fun _ _ hact => by cases hact; exact h⟩

theorem throw (e : Error) :
    Plays view script Q (MonadExcept.throw e : Action τ α) (MonadExcept.throw e) s :=
  ⟨script, rfl, fun _ _ hact => by cases hact⟩

theorem congr {act'' : Action τ α} {act₂ : Action σ α} {s₂ : σ} (h : act s = act₂ s₂)
    (h' : act' (view script s) = act'' (view script s₂)) (hact : Plays view script Q act'' act₂ s₂) :
    Plays view script Q act' act s := by
  obtain ⟨left, hrun, hleft⟩ := hact
  exact ⟨left, by rw [h, h', hrun], fun a s' ha => hleft a s' (h ▸ ha)⟩

end Plays

end Action

namespace ScriptedStore

open Action MemStore Volume

variable {script : List Cue} {store : MemStore} {dir : ObjectId} {name : String}

theorem lookup_overtaken (hmiss : Cue.Miss script) (hmem : overtaken dir name ∈ script) :
    ObjectStore.lookup dir name (atop script store) =
      .ok none (atop (script.erase (overtaken dir name)) store) := by
  simp only [ObjectStore.lookup, orAbsent, answer, atop, get_apply, bind_apply, hmiss.take_lookup hmem,
    modify_apply]
  rfl

theorem plays_findDirectory (hmiss : Cue.Miss script) {mayCreate : Bool}
    (hover : overtaken dir name ∈ script →
      mayCreate = true ∧ isValidName name = true ∧ ∃ id, store.child? dir name = some id) (missing : Error) :
    Plays atop script (fun _ _ left => left = script.erase (overtaken dir name))
      (findDirectory dir name mayCreate missing) (findDirectory dir name mayCreate missing) store := by
  by_cases hmem : overtaken dir name ∈ script
  . obtain ⟨rfl, hvalid, id, hchild⟩ := hover hmem
    obtain ⟨d, e, hdir, hfind, rfl⟩ := child?_eq_some_iff.mp hchild
    have hmiss' := hmiss.erase (overtaken dir name)
    have hmake := @passes_mkdir _ _ store dir name _ (hmiss'.unfit_of_op rfl) privateMode
    have hfound := makeOrFind_taken hmake (mkdir_taken hvalid hdir hfind privateMode)
      (hmiss'.unfit_lookup (hmiss.not_mem_erase _)) hchild directoryVanished
    refine ⟨script.erase (overtaken dir name), ?_, fun _ _ _ => rfl⟩
    rw [findDirectory_found hdir hfind, findDirectory, bind_apply, lookup_overtaken hmiss hmem]
    exact hfound
  . have hunfit := hmiss.unfit_lookup hmem
    rw [List.erase_of_not_mem hmem]
    refine ((passes_lookup hunfit).bind fun found store _ => ?_).plays.mono fun _ _ _ _ h => h.2
    cases found with
    | some id => exact .pure id
    | none =>
      cases mayCreate with
      | true =>
        exact passes_makeOrFind (passes_mkdir (hmiss.unfit_of_op rfl) privateMode) hunfit directoryVanished
      | false => exact .throw missing

end ScriptedStore

end AttrTree
