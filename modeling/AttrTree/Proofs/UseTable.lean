import AttrTree.DirCache
import Mathlib.Data.List.Induction
import Mathlib.Data.List.Nodup
import Mathlib.Data.List.Perm.Basic

/-!
This module contains the calls of the cache of attribute directories, and a table for the same calls. The
table keeps no order, but notes when every key was used last.
-/

namespace AttrTree

namespace DirCache

inductive Op where
  | get (key : ObjectKey)
  | insert (key : ObjectKey) (dir : ObjectId)
  | erase (key : ObjectKey)
  | clear
  deriving DecidableEq, Repr

namespace Op

def answer : Op → DirCache → Option ObjectId
  | get key, cache => (cache.get? key).1
  | _, _ => none

def after : Op → DirCache → DirCache
  | get key, cache => (cache.get? key).2
  | insert key dir, cache => cache.insert key dir
  | erase key, cache => cache.erase key
  | clear, cache => cache.clear

def isGet : Op → Bool
  | get _ => true
  | _ => false

/-- The key that a call uses: `get` uses one only if it finds it. -/
def used? : Op → DirCache → Option ObjectKey
  | get key, cache => if (cache.get? key).1.isSome then some key else none
  | insert key _, _ => some key
  | _, _ => none

def Spares (key : ObjectKey) : Op → Prop
  | get _ => True
  | insert key' _ => key' ≠ key
  | erase key' => key' ≠ key
  | clear => False

end Op

def run (ops : List Op) (cache : DirCache) : DirCache :=
  ops.foldl (fun cache op => op.after cache) cache

def usedKeys : List Op → DirCache → List ObjectKey
  | [], _ => []
  | op :: ops, cache => (op.used? cache).toList ++ usedKeys ops (op.after cache)

structure Report where
  answer : Option ObjectId
  size : Nat
  hits : Nat
  misses : Nat
  deriving DecidableEq, Repr

def report (answer : Option ObjectId) (cache : DirCache) : Report :=
  { answer, size := cache.size, hits := cache.hits, misses := cache.misses }

def reports : List Op → DirCache → List Report
  | [], _ => []
  | op :: ops, cache => (op.after cache).report (op.answer cache) :: reports ops (op.after cache)

end DirCache

structure TimedEntry where
  key : ObjectKey
  dir : ObjectId
  stamp : Nat
  deriving DecidableEq, Repr

structure UseTable where
  capacity : Nat
  clock : Nat
  entries : List TimedEntry
  hits : Nat
  misses : Nat
  deriving DecidableEq, Repr

namespace UseTable

def empty (capacity : Nat) : UseTable :=
  { capacity, clock := 0, entries := [], hits := 0, misses := 0 }

def find? (entries : List TimedEntry) (key : ObjectKey) : Option TimedEntry :=
  entries.find? (·.key == key)

def use (key : ObjectKey) (dir : ObjectId) (clock : Nat) (entries : List TimedEntry) : List TimedEntry :=
  entries.map fun e => if e.key = key then { e with dir, stamp := clock } else e

def without (key : ObjectKey) (entries : List TimedEntry) : List TimedEntry :=
  entries.filter (·.key != key)

def withoutOldest (entries : List TimedEntry) : List TimedEntry :=
  entries.filter fun e => entries.any (·.stamp < e.stamp)

def makeRoom (capacity : Nat) (entries : List TimedEntry) : List TimedEntry :=
  if entries.length = capacity then withoutOldest entries else entries

def insert (key : ObjectKey) (dir : ObjectId) (table : UseTable) : List TimedEntry :=
  match find? table.entries key with
  | some _ => use key dir table.clock table.entries
  | none => makeRoom table.capacity table.entries ++ [⟨key, dir, table.clock⟩]

def answer : DirCache.Op → UseTable → Option ObjectId
  | .get key, table => (find? table.entries key).map (·.dir)
  | _, _ => none

def after (op : DirCache.Op) (table : UseTable) : UseTable :=
  let table' := match op with
    | .get key =>
      match find? table.entries key with
      | some e => { table with
        entries := use key e.dir table.clock table.entries, hits := table.hits + 1 }
      | none => { table with misses := table.misses + 1 }
    | .insert key dir => { table with entries := table.insert key dir }
    | .erase key => { table with entries := without key table.entries }
    | .clear => { table with entries := [] }
  { table' with clock := table.clock + 1 }

@[simp]
theorem capacity_after (op : DirCache.Op) (table : UseTable) :
    (after op table).capacity = table.capacity := by
  cases op with
  | get key =>
    simp only [after]
    split <;> rfl
  | insert key dir => rfl
  | erase key => rfl
  | clear => rfl

def reports : List DirCache.Op → UseTable → List DirCache.Report
  | [], _ => []
  | op :: ops, table =>
    let table' := after op table
    { answer := answer op table, size := table'.entries.length, hits := table'.hits,
      misses := table'.misses } :: reports ops table'

section Order

variable {order entries : List TimedEntry} {key : ObjectKey} {dir : ObjectId} {clock : Nat}
  {e : TimedEntry}

structure Ordered (clock : Nat) (order : List TimedEntry) : Prop where
  sorted : order.Pairwise fun e e' => e'.stamp < e.stamp
  stamp_lt : ∀ e ∈ order, e.stamp < clock
  keys_nodup : (order.map (·.key)).Nodup

theorem Ordered.nil (clock : Nat) : Ordered clock [] :=
  ⟨.nil, nofun, .nil⟩

theorem Ordered.sublist (h : Ordered clock order) (hsub : entries.Sublist order) :
    Ordered (clock + 1) entries where
  sorted := h.sorted.sublist hsub
  stamp_lt e he := Nat.lt_succ_of_lt (h.stamp_lt e (hsub.subset he))
  keys_nodup := h.keys_nodup.sublist (hsub.map _)

theorem Ordered.cons (h : Ordered clock order) (hsub : entries.Sublist order)
    (hnew : ∀ e ∈ entries, e.key ≠ key) (dir : ObjectId) :
    Ordered (clock + 1) (⟨key, dir, clock⟩ :: entries) where
  sorted := .cons (fun e he => h.stamp_lt e (hsub.subset he)) (h.sorted.sublist hsub)
  stamp_lt := List.forall_mem_cons.mpr ⟨Nat.lt_succ_self _, (h.sublist hsub).stamp_lt⟩
  keys_nodup := by
    apply List.nodup_cons.mpr
    refine ⟨fun hmem => ?_, (h.sublist hsub).keys_nodup⟩
    obtain ⟨e, he, hkey⟩ := List.mem_map.mp hmem
    exact hnew e he hkey

theorem find?_eq_some_iff (hkeys : (entries.map (·.key)).Nodup) :
    find? entries key = some e ↔ e ∈ entries ∧ e.key = key := by
  constructor
  . intro hfind
    exact ⟨List.mem_of_find?_eq_some hfind, by simpa using List.find?_some hfind⟩
  . rintro ⟨he, rfl⟩
    cases hfind : find? entries e.key with
    | none =>
      rw [find?, List.find?_eq_none] at hfind
      exact absurd (hfind e he) (by simp)
    | some e' =>
      have he' := List.mem_of_find?_eq_some hfind
      have hkey : e'.key = e.key := by simpa using List.find?_some hfind
      rw [List.inj_on_of_nodup_map hkeys he' he hkey]

theorem find?_perm (hperm : order.Perm entries) (hkeys : (order.map (·.key)).Nodup) :
    find? entries key = find? order key := by
  apply Option.ext
  intro e
  rw [find?_eq_some_iff hkeys, find?_eq_some_iff ((hperm.map _).nodup_iff.mp hkeys), hperm.mem_iff]

theorem key_ne_of_find?_eq_none (h : find? entries key = none) : ∀ e ∈ entries, e.key ≠ key := by
  simpa [find?] using h

theorem key_ne_of_without : ∀ e ∈ without key entries, e.key ≠ key := by
  intro e he
  simpa using (List.mem_filter.mp he).2

theorem without_eq_self (h : ∀ e ∈ entries, e.key ≠ key) : without key entries = entries :=
  List.filter_eq_self.mpr fun e he => bne_iff_ne.mpr (h e he)

theorem use_eq_self (h : ∀ e ∈ entries, e.key ≠ key) : use key dir clock entries = entries := by
  apply (List.map_congr_left fun e he => if_neg (h e he)).trans
  exact List.map_id _

theorem perm_use (hkeys : (order.map (·.key)).Nodup) (he : find? order key = some e) :
    (⟨key, dir, clock⟩ :: without key order).Perm (use key dir clock order) := by
  induction order with
  | nil => simp [find?] at he
  | cons first rest ih =>
    obtain ⟨hnew, hkeys⟩ := List.nodup_cons.mp hkeys
    by_cases hfirst : first.key = key
    . have hrest : ∀ e ∈ rest, e.key ≠ key := by
        intro e he heq
        exact hnew (List.mem_map.mpr ⟨e, he, heq.trans hfirst.symm⟩)
      have huse : use key dir clock (first :: rest) = ⟨key, dir, clock⟩ :: use key dir clock rest := by
        simp [use, hfirst]
      have hwithout : without key (first :: rest) = without key rest := by
        simp [without, hfirst]
      rw [huse, hwithout, use_eq_self hrest, without_eq_self hrest]
    . have he' : find? rest key = some e := by
        simpa [find?, hfirst] using he
      have huse : use key dir clock (first :: rest) = first :: use key dir clock rest := by
        simp [use, hfirst]
      have hwithout : without key (first :: rest) = first :: without key rest := by
        simp [without, hfirst]
      rw [huse, hwithout]
      exact (List.Perm.swap ..).trans ((ih hkeys he').cons first)

theorem withoutOldest_perm (hperm : order.Perm entries) :
    (withoutOldest order).Perm (withoutOldest entries) := by
  have hany (e : TimedEntry) : order.any (·.stamp < e.stamp) = entries.any (·.stamp < e.stamp) := by
    rw [Bool.eq_iff_iff, List.any_eq_true, List.any_eq_true]
    simp only [hperm.mem_iff]
  unfold withoutOldest
  simp only [hany]
  exact hperm.filter _

theorem withoutOldest_eq_dropLast (h : Ordered clock order) : withoutOldest order = order.dropLast := by
  cases order using List.reverseRecOn with
  | nil => rfl
  | append_singleton front last =>
    have hsorted := h.sorted
    rw [List.pairwise_append] at hsorted
    obtain ⟨hfront, _, hlast⟩ := hsorted
    have holdest : ¬ (front ++ [last]).any (·.stamp < last.stamp) = true := by
      simp only [List.any_append, List.any_cons, List.any_nil, Bool.or_eq_true, List.any_eq_true,
        decide_eq_true_eq, Nat.lt_irrefl, Bool.false_eq_true, or_false, not_exists, not_and]
      intro e he
      exact Nat.lt_asymm (hlast e he last (List.mem_singleton_self _))
    have hkept : ∀ e ∈ front, (front ++ [last]).any (·.stamp < e.stamp) = true := by
      intro e he
      simp [hlast e he last (List.mem_singleton_self _)]
    have hgone : [last].filter (fun e => (front ++ [last]).any (·.stamp < e.stamp)) = [] := by
      simpa using holdest
    rw [withoutOldest, List.filter_append, hgone, List.filter_eq_self.mpr hkept, List.append_nil,
      List.dropLast_concat]

end Order

end UseTable

end AttrTree
