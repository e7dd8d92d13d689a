import AttrTree.Attribute.Place
import AttrTree.Proofs.Action

/-!
This module contains what the cache of attribute directories answers after it was used or has got a new
entry.
-/

namespace AttrTree

namespace DirCache

variable {cache : DirCache} {key key' : ObjectKey} {dir dir' : ObjectId}

theorem get?_fst (cache : DirCache) (key : ObjectKey) :
    (cache.get? key).1 = if cache.capacity = 0 then none else cache.peek? key := by
  unfold get?
  split
  . rfl
  . split
    . next h => exact h.symm
    . next h => exact h.symm

@[simp]
theorem capacity_get? (cache : DirCache) (key : ObjectKey) :
    (cache.get? key).2.capacity = cache.capacity := by
  unfold get?
  split
  . rfl
  . split <;> rfl

@[simp]
theorem peek?_get? (cache : DirCache) (key key' : ObjectKey) :
    (cache.get? key).2.peek? key' = cache.peek? key' := by
  -- To note a use changes the order of the entries only.
  unfold get?
  split
  . rfl
  . split
    . next dir h =>
      have hlookup := lookup_without key key' cache.entries
      by_cases hkey : key' = key
      . rw [hkey, h]
        simp [peek?]
      . have hne : (key' == key) = false := by simpa using hkey
        rw [if_neg hkey] at hlookup
        simp [peek?, List.lookup_cons, hne, hlookup]
    . rfl

theorem peek?_insert_self (cache : DirCache) (key : ObjectKey) (dir : ObjectId) :
    (cache.insert key dir).peek? key = if cache.capacity = 0 then none else some dir := by
  unfold peek? insert
  cases cache.capacity <;> simp

@[simp]
theorem capacity_insert (cache : DirCache) (key : ObjectKey) (dir : ObjectId) :
    (cache.insert key dir).capacity = cache.capacity :=
  rfl

theorem lookup_of_take {entries : List (ObjectKey × ObjectId)} {n : Nat}
    (h : (entries.take n).lookup key = some dir) : entries.lookup key = some dir := by
  rw [← List.take_append_drop n entries, List.lookup_append, h]
  rfl

theorem peek?_of_insert (h : (cache.insert key dir).peek? key' = some dir') :
    (key' = key ∧ dir' = dir) ∨ cache.peek? key' = some dir' := by
  have hlookup := lookup_of_take h
  rw [List.lookup_cons] at hlookup
  by_cases hkey : key' = key
  . subst hkey
    simp only [beq_self_eq_true, Option.some.injEq] at hlookup
    exact .inl ⟨rfl, hlookup.symm⟩
  . have hne : (key' == key) = false := by simpa using hkey
    rw [hne, lookup_without, if_neg hkey] at hlookup
    exact .inr hlookup

end DirCache

theorem Volume.cachedDirectory?_eq {σ : Type} (volume : Volume σ) (key : ObjectKey) :
    cachedDirectory? key volume =
      .ok (volume.cache.get? key).1 { volume with cache := (volume.cache.get? key).2 } := by
  simp [cachedDirectory?]

end AttrTree
