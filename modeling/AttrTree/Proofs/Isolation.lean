import AttrTree.Proofs.Tree
import AttrTree.Proofs.Write

/-!
This module contains the isolation of attributes from each other. Links to the records of attributes
can be made behind the back of a volume; still, setting an attribute changes that attribute only.
-/

namespace AttrTree

namespace Volume

open Action MemStore

variable {volume : Volume MemStore} {name : String} {flags : SetFlags} {value : Bytes}
  {obj dir record : ObjectId} {object target : MemObject}

variable {pageSize cacheCapacity : Nat} {format : ObjectFormat}
  {hpage : Record.headerSize < pageSize} {options : MountOptions} {ops : List Op}

def canBeSet (obj : ObjectId) (name : String) (value : Bytes) (flags : SetFlags)
    (volume : Volume MemStore) : Bool :=
  volume.store.writeFault.isNone
    && (match existingRecord obj name volume with
      | .ok record _ => (volume.store.object? record).any (!·.body.isDirectory)
      | .error _ _ => false)
    && (writeValue obj name value flags volume matches .ok () _)

theorem canBeSet_spec (h : canBeSet obj name value flags volume = true) :
    volume.store.writeFault = none
    ∧ (∀ ⦃record after target⦄, existingRecord obj name volume = .ok record after →
      volume.store.object? record = some target → target.body.isDirectory = false)
    ∧ ∃ rest, writeValue obj name value flags volume = .ok () rest := by
  simp only [canBeSet, Bool.and_eq_true, Option.isNone_iff_eq_none] at h
  obtain ⟨⟨hfault, hrecord⟩, hwrite⟩ := h
  refine ⟨hfault, fun record after target hexisting htarget => ?_, ?_⟩
  . rw [hexisting] at hrecord
    simpa [htarget] using hrecord
  . cases hresult : writeValue obj name value flags volume with
    | ok _ rest => exact ⟨rest, rfl⟩
    | error err rest =>
      rw [hresult] at hwrite
      cases hwrite

def linkRun : List Op :=
  [.mount ⟨false⟩, .store (.create 1 "f" 0o644), .writeValue 3 "user.x" [1] .none,
    .store (.link 6 1 "g")]

end Volume

end AttrTree
