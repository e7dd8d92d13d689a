import AttrTree.Object.Key

/-!
This module contains the cache of attribute directories. It keeps the directories of the objects
that were used last; once it is full, a new directory takes the place of the one that has not been
used for the longest time.
-/

namespace AttrTree

structure DirCache where
  capacity : Nat
  /-- The cached directories, the one used last in front. -/
  entries : List (ObjectKey × ObjectId)
  hits : Nat
  misses : Nat
  deriving DecidableEq, Repr

namespace DirCache

def defaultCapacity : Nat := 64

def empty (capacity : Nat) : DirCache :=
  { capacity, entries := [], hits := 0, misses := 0 }

def size (cache : DirCache) : Nat :=
  cache.entries.length

def isEmpty (cache : DirCache) : Bool :=
  cache.entries.isEmpty

def peek? (cache : DirCache) (key : ObjectKey) : Option ObjectId :=
  cache.entries.lookup key

def without (key : ObjectKey) (entries : List (ObjectKey × ObjectId)) :
    List (ObjectKey × ObjectId) :=
  entries.filter (·.1 != key)

def get? (cache : DirCache) (key : ObjectKey) : Option ObjectId × DirCache :=
  if cache.capacity = 0 then
    (none, cache)
  else
    match cache.peek? key with
    | some dir =>
      (some dir,
        { cache with entries := (key, dir) :: without key cache.entries, hits := cache.hits + 1 })
    | none => (none, { cache with misses := cache.misses + 1 })

def insert (cache : DirCache) (key : ObjectKey) (dir : ObjectId) : DirCache :=
  { cache with entries := ((key, dir) :: without key cache.entries).take cache.capacity }

def erase (cache : DirCache) (key : ObjectKey) : DirCache :=
  { cache with entries := without key cache.entries }

def clear (cache : DirCache) : DirCache :=
  { cache with entries := [] }

theorem lookup_without (key key' : ObjectKey) (entries : List (ObjectKey × ObjectId)) :
    (without key entries).lookup key' = if key' = key then none else entries.lookup key' := by
  induction entries with
  | nil => simp [without]
  | cons entry entries ih =>
    obtain ⟨k, dir⟩ := entry
    unfold without at ih ⊢
    by_cases hk : k = key
    . rw [List.filter_cons_of_neg (by simp [hk]), ih, List.lookup_cons]
      by_cases h : key' = key
      . simp [h]
      . have : (key' == k) = false := by simp [hk, h]
        simp [h, this]
    . rw [List.filter_cons_of_pos (by simp [hk]), List.lookup_cons, List.lookup_cons, ih]
      by_cases h : key' = k
      . simp [h, hk]
      . have : (key' == k) = false := by simp [h]
        simp [this]

@[simp]
theorem peek?_erase (cache : DirCache) (key key' : ObjectKey) :
    (cache.erase key).peek? key' = if key' = key then none else cache.peek? key' := by
  apply lookup_without

end DirCache

end AttrTree
