import AttrTree.Proofs.Cache
import AttrTree.Proofs.UseTable
import Mathlib.Data.Finset.Card

/-!
This module contains that the cache of attribute directories forgets the directory that was not used for
the longest time, and no other. The cache keeps its entries in the order of their use; it answers as the
table that notes the time of every use.
-/

namespace AttrTree

namespace DirCache

open UseTable

variable {cache : DirCache} {table : UseTable} {order : List TimedEntry} {key : ObjectKey}
  {dir : ObjectId} {op : Op} {ops : List Op}

section Table

def pairs (order : List TimedEntry) : List (ObjectKey × ObjectId) :=
  order.map fun e => (e.key, e.dir)

theorem lookup_pairs (order : List TimedEntry) (key : ObjectKey) :
    (pairs order).lookup key = (find? order key).map (·.dir) := by
  induction order with
  | nil => rfl
  | cons e order ih =>
    unfold pairs find? at ih ⊢
    rw [List.map_cons, List.lookup_cons, List.find?_cons, ih]
    by_cases hkey : e.key = key
    . simp [hkey]
    . have hne : (e.key == key) = false := beq_eq_false_iff_ne.mpr hkey
      have hne' : (key == e.key) = false := beq_eq_false_iff_ne.mpr (Ne.symm hkey)
      simp [hne, hne']

theorem without_pairs (order : List TimedEntry) (key : ObjectKey) :
    without key (pairs order) = pairs (UseTable.without key order) := by
  simp only [without, pairs, UseTable.without, List.filter_map]
  rfl

structure Arranged (capacity clock : Nat) (entries : List (ObjectKey × ObjectId))
    (timed order : List TimedEntry) : Prop where
  entries_eq : entries = pairs order
  perm : order.Perm timed
  ordered : Ordered clock order
  length_le : order.length ≤ capacity

namespace Arranged

variable {capacity clock : Nat} {entries : List (ObjectKey × ObjectId)} {timed : List TimedEntry}
  {e : TimedEntry} (h : Arranged capacity clock entries timed order)
include h

theorem lookup_eq (key : ObjectKey) : entries.lookup key = (find? timed key).map (·.dir) := by
  rw [h.entries_eq, lookup_pairs, find?_perm h.perm h.ordered.keys_nodup]

theorem length_eq : entries.length = timed.length := by
  rw [h.entries_eq, pairs, List.length_map, h.perm.length_eq]

theorem pass : Arranged capacity (clock + 1) entries timed order :=
  { h with ordered := h.ordered.sublist (.refl _) }

theorem without (key : ObjectKey) :
    Arranged capacity (clock + 1) (without key entries) (UseTable.without key timed)
      (UseTable.without key order) where
  entries_eq := by rw [h.entries_eq, without_pairs]
  perm := h.perm.filter _
  ordered := h.ordered.sublist List.filter_sublist
  length_le := Nat.le_trans (List.length_filter_le ..) h.length_le

theorem use (hfind : find? timed key = some e) (dir : ObjectId) :
    Arranged capacity (clock + 1) ((key, dir) :: DirCache.without key entries)
      (UseTable.use key dir clock timed) (⟨key, dir, clock⟩ :: UseTable.without key order) := by
  have hperm := @perm_use order key dir clock e h.ordered.keys_nodup
    (find?_perm h.perm h.ordered.keys_nodup ▸ hfind)
  constructor
  . rw [h.entries_eq, without_pairs]
    rfl
  . exact hperm.trans (h.perm.map _)
  . exact h.ordered.cons List.filter_sublist key_ne_of_without dir
  . rw [hperm.length_eq, UseTable.use, List.length_map]
    exact h.length_le

theorem add (hcapacity : 0 < capacity) (hfind : find? timed key = none) (dir : ObjectId) :
    ∃ order', Arranged capacity (clock + 1) (((key, dir) :: DirCache.without key entries).take capacity)
      (makeRoom capacity timed ++ [⟨key, dir, clock⟩]) order' := by
  have hnew : ∀ e ∈ order, e.key ≠ key := fun e he =>
    key_ne_of_find?_eq_none hfind e (h.perm.mem_iff.mp he)
  have hwithout : DirCache.without key entries = pairs order := by
    rw [h.entries_eq, without_pairs, without_eq_self hnew]
  unfold makeRoom
  rw [← h.perm.length_eq, hwithout]
  split
  . next hfull =>
    obtain ⟨room, rfl⟩ : ∃ room, capacity = room + 1 := ⟨capacity - 1, by omega⟩
    have hroom : order.dropLast = order.take room := by
      rw [List.dropLast_eq_take, hfull, Nat.add_sub_cancel]
    refine ⟨⟨key, dir, clock⟩ :: order.dropLast, ?_, ?_, ?_, ?_⟩
    . rw [List.take_succ_cons, hroom, pairs, ← List.map_take]
      rfl
    . rw [← withoutOldest_eq_dropLast h.ordered]
      exact ((withoutOldest_perm h.perm).cons _).trans (List.perm_append_singleton ..).symm
    . exact h.ordered.cons (List.dropLast_sublist _)
        (fun e he => hnew e ((List.dropLast_sublist _).subset he)) dir
    . rw [List.length_cons, List.length_dropLast, hfull]
      omega
  . next hfull =>
    have hlength := h.length_le
    refine ⟨⟨key, dir, clock⟩ :: order, ?_, ?_, ?_, ?_⟩
    . apply List.take_of_length_le
      simp only [pairs, List.length_cons, List.length_map]
      omega
    . exact (h.perm.cons _).trans (List.perm_append_singleton ..).symm
    . exact h.ordered.cons (.refl _) hnew dir
    . rw [List.length_cons]
      omega

end Arranged

structure Reflects (cache : DirCache) (table : UseTable) : Prop where
  capacity_eq : cache.capacity = table.capacity
  hits_eq : cache.hits = table.hits
  misses_eq : cache.misses = table.misses
  arranged : ∃ order, Arranged table.capacity table.clock cache.entries table.entries order

namespace Reflects

theorem empty (capacity : Nat) : Reflects (.empty capacity) (.empty capacity) :=
  ⟨rfl, rfl, rfl, [], rfl, .nil, .nil _, Nat.zero_le _⟩

theorem peek?_eq (h : Reflects cache table) (key : ObjectKey) :
    cache.peek? key = (find? table.entries key).map (·.dir) := by
  obtain ⟨order, harranged⟩ := h.arranged
  exact harranged.lookup_eq key

theorem answer_eq (h : Reflects cache table) (hcapacity : 0 < table.capacity) (op : Op) :
    op.answer cache = UseTable.answer op table := by
  cases op with
  | get key =>
    rw [Op.answer, get?_fst, h.capacity_eq, if_neg (Nat.ne_of_gt hcapacity), h.peek?_eq]
    rfl
  | insert key dir => rfl
  | erase key => rfl
  | clear => rfl

theorem after (h : Reflects cache table) (hcapacity : 0 < table.capacity) (op : Op) :
    Reflects (op.after cache) (UseTable.after op table) := by
  have hpeek := h.peek?_eq
  obtain ⟨hcap, hhits, hmisses, order, harranged⟩ := h
  have hzero : ¬ cache.capacity = 0 := by omega
  cases op with
  | get key =>
    cases hfind : find? table.entries key with
    | none =>
      have hmiss : cache.peek? key = none := by rw [hpeek, hfind, Option.map_none]
      simp only [Op.after, get?, hzero, if_false, hmiss, UseTable.after, hfind]
      exact ⟨hcap, hhits, congrArg (· + 1) hmisses, order, harranged.pass⟩
    | some e =>
      have hhit : cache.peek? key = some e.dir := by rw [hpeek, hfind, Option.map_some]
      simp only [Op.after, get?, hzero, if_false, hhit, UseTable.after, hfind]
      exact ⟨hcap, congrArg (· + 1) hhits, hmisses, _, harranged.use hfind e.dir⟩
  | insert key dir =>
    cases hfind : find? table.entries key with
    | none =>
      obtain ⟨order', hadded⟩ := harranged.add hcapacity hfind dir
      simp only [Op.after, insert, UseTable.after, UseTable.insert, hfind]
      exact ⟨hcap, hhits, hmisses, order', hcap ▸ hadded⟩
    | some e =>
      have hused := harranged.use hfind dir
      have hlength : ((key, dir) :: without key cache.entries).length ≤ cache.capacity := by
        rw [hused.entries_eq, pairs, List.length_map, hcap]
        exact hused.length_le
      simp only [Op.after, insert, UseTable.after, UseTable.insert, hfind,
        List.take_of_length_le hlength]
      exact ⟨hcap, hhits, hmisses, _, hused⟩
  | erase key => exact ⟨hcap, hhits, hmisses, _, harranged.without key⟩
  | clear => exact ⟨hcap, hhits, hmisses, [], rfl, .nil, .nil _, Nat.zero_le _⟩

theorem report_eq (h : Reflects cache table) (answer : Option ObjectId) :
    cache.report answer =
      { answer, size := table.entries.length, hits := table.hits, misses := table.misses } := by
  obtain ⟨order, harranged⟩ := h.arranged
  rw [report, size, harranged.length_eq, h.hits_eq, h.misses_eq]

theorem size_run_le (h : Reflects cache table) (hcapacity : 0 < table.capacity) (ops : List Op) :
    (run ops cache).size ≤ table.capacity := by
  induction ops generalizing cache table with
  | nil =>
    obtain ⟨order, harranged⟩ := h.arranged
    rw [run, List.foldl_nil, size, harranged.length_eq, ← harranged.perm.length_eq]
    exact harranged.length_le
  | cons op ops ih =>
    rw [← UseTable.capacity_after op] at hcapacity ⊢
    exact ih (h.after (UseTable.capacity_after op table ▸ hcapacity) op) hcapacity

theorem reports_eq (h : Reflects cache table) (hcapacity : 0 < table.capacity) (ops : List Op) :
    reports ops cache = UseTable.reports ops table := by
  induction ops generalizing cache table with
  | nil => rfl
  | cons op ops ih =>
    have hafter := h.after hcapacity op
    have hkept : 0 < (UseTable.after op table).capacity := by rwa [UseTable.capacity_after]
    rw [reports, UseTable.reports, ih hafter hkept, hafter.report_eq, h.answer_eq hcapacity]

end Reflects

end Table

section Uses

theorem run_append (ops ops' : List Op) (cache : DirCache) :
    run (ops ++ ops') cache = run ops' (run ops cache) :=
  List.foldl_append

@[simp]
theorem Op.capacity_after (op : Op) (cache : DirCache) : (op.after cache).capacity = cache.capacity := by
  cases op with
  | get key => exact capacity_get? cache key
  | insert key dir => rfl
  | erase key => rfl
  | clear => rfl

@[simp]
theorem capacity_run (ops : List Op) (cache : DirCache) : (run ops cache).capacity = cache.capacity := by
  induction ops generalizing cache with
  | nil => rfl
  | cons op ops ih => exact (ih _).trans (op.capacity_after cache)

theorem report_of_no_room (ops : List Op) :
    ∀ report ∈ reports ops (empty 0), report = ⟨none, 0, 0, 0⟩ := by
  -- Without room nothing is kept and nothing counted.
  have hkept (op : Op) : op.after (empty 0) = empty 0 := by
    cases op <;> rfl
  induction ops with
  | nil => simp [reports]
  | cons op ops ih =>
    rw [reports, hkept]
    refine List.forall_mem_cons.mpr ⟨?_, ih⟩
    cases op <;> rfl

theorem Op.counts (hcapacity : 0 < cache.capacity) (op : Op) :
    (op.after cache).hits + (op.after cache).misses =
      cache.hits + cache.misses + if op.isGet then 1 else 0 := by
  cases op with
  | get key =>
    have hzero : ¬ cache.capacity = 0 := Nat.ne_of_gt hcapacity
    simp only [after, get?, hzero, if_false, isGet, if_true]
    split
    . simp only
      omega
    . simp only
      omega
  | insert key dir => rfl
  | erase key => rfl
  | clear => rfl

theorem counts_run (hcapacity : 0 < cache.capacity) (ops : List Op) :
    (run ops cache).hits + (run ops cache).misses =
      cache.hits + cache.misses + ops.countP Op.isGet := by
  induction ops generalizing cache with
  | nil => rfl
  | cons op ops ih =>
    have hrest := @ih (op.after cache) (by rwa [Op.capacity_after])
    rw [Op.counts hcapacity op, Nat.add_assoc] at hrest
    rw [List.countP_cons, Nat.add_comm (ops.countP _)]
    exact hrest

theorem Op.peek?_after (h : (op.after cache).peek? key = some dir) :
    op = .insert key dir ∨ op.Spares key ∧ cache.peek? key = some dir := by
  cases op with
  | get key' => exact .inr ⟨trivial, peek?_get? cache key' key ▸ h⟩
  | insert key' dir' =>
    by_cases hkey : key' = key
    . subst hkey
      have hself := (peek?_insert_self cache key' dir').symm.trans h
      split at hself
      . cases hself
      . cases hself
        exact .inl rfl
    . obtain ⟨heq, _⟩ | hold := peek?_of_insert h
      . exact absurd heq.symm hkey
      . exact .inr ⟨hkey, hold⟩
  | erase key' =>
    have herased := (peek?_erase cache key' key).symm.trans h
    split at herased
    . cases herased
    . next hkey => exact .inr ⟨Ne.symm hkey, herased⟩
  | clear => cases h

theorem inserted_of_peek? {capacity : Nat} (h : (run ops (.empty capacity)).peek? key = some dir) :
    ∃ earlier later, ops = earlier ++ .insert key dir :: later ∧ ∀ op ∈ later, op.Spares key := by
  induction ops using List.reverseRecOn with
  | nil => cases h
  | append_singleton ops op ih =>
    rw [run_append] at h
    obtain rfl | ⟨hspares, hold⟩ := Op.peek?_after h
    . exact ⟨ops, [], rfl, nofun⟩
    . obtain ⟨earlier, later, rfl, hlater⟩ := ih hold
      exact ⟨earlier, later ++ [op], by simp,
        List.forall_mem_append.mpr ⟨hlater, List.forall_mem_singleton.mpr hspares⟩⟩

/-- The key is there, and only keys of `seen` stand in front of it. -/
def IsBehind (seen : Finset ObjectKey) (key : ObjectKey) (entries : List (ObjectKey × ObjectId)) : Prop :=
  ∃ front dir rest, entries = front ++ (key, dir) :: rest ∧ (front.map Prod.fst).Nodup
    ∧ ∀ key' ∈ front.map Prod.fst, key' ∈ seen

namespace IsBehind

variable {seen : Finset ObjectKey} {entries : List (ObjectKey × ObjectId)}

theorem head (key : ObjectKey) (dir : ObjectId) (rest : List (ObjectKey × ObjectId)) :
    IsBehind seen key ((key, dir) :: rest) :=
  ⟨[], dir, rest, rfl, .nil, nofun⟩

theorem isSome_lookup (h : IsBehind seen key entries) : (entries.lookup key).isSome = true := by
  obtain ⟨front, dir, rest, rfl, _, _⟩ := h
  rw [List.lookup_append, List.lookup_cons_self, Option.isSome_or]
  exact Bool.or_true _

theorem without {key' : ObjectKey} (h : IsBehind seen key entries) (hkey : key ≠ key') :
    IsBehind seen key (without key' entries) := by
  obtain ⟨front, dir, rest, rfl, hnodup, hseen⟩ := h
  have hsub : (DirCache.without key' front).Sublist front := List.filter_sublist
  refine ⟨DirCache.without key' front, dir, DirCache.without key' rest, ?_, hnodup.sublist (hsub.map _),
    fun k hk => hseen k ((hsub.map _).subset hk)⟩
  simp only [DirCache.without, List.filter_append]
  rw [List.filter_cons_of_pos (by simpa using hkey)]

theorem use (h : IsBehind seen key entries) (key' : ObjectKey) (dir' : ObjectId) :
    IsBehind (seen ∪ ({key'} : Finset ObjectKey).erase key) key
      ((key', dir') :: DirCache.without key' entries) := by
  by_cases hkey : key = key'
  . subst hkey
    exact .head ..
  . obtain ⟨front, dir, rest, heq, hnodup, hseen⟩ := h.without hkey
    have hnew : key' ∉ front.map Prod.fst := by
      intro hmem
      obtain ⟨entry, hentry, hfst⟩ := List.mem_map.mp hmem
      have hwithout : entry ∈ DirCache.without key' entries := by
        rw [heq]
        exact List.mem_append_left _ hentry
      have hne := (List.mem_filter.mp hwithout).2
      simp [hfst] at hne
    refine ⟨(key', dir') :: front, dir, rest, ?_, List.nodup_cons.mpr ⟨hnew, hnodup⟩, ?_⟩
    . rw [heq]
      rfl
    . refine List.forall_mem_cons.mpr ⟨?_, fun k hk => Finset.mem_union_left _ (hseen k hk)⟩
      simp [Ne.symm hkey]

theorem take {n : Nat} (h : IsBehind seen key entries) (hroom : seen.card < n) :
    IsBehind seen key (entries.take n) := by
  obtain ⟨front, dir, rest, rfl, hnodup, hseen⟩ := h
  -- No key stands twice in front, so there are no more entries than keys.
  have hfront : front.length ≤ seen.card := by
    rw [← List.length_map Prod.fst, ← List.toFinset_card_of_nodup hnodup]
    exact Finset.card_le_card fun k hk => hseen k (List.mem_toFinset.mp hk)
  obtain ⟨m, hm⟩ : ∃ m, n - front.length = m + 1 := ⟨n - front.length - 1, by omega⟩
  refine ⟨front, dir, rest.take m, ?_, hnodup, hseen⟩
  rw [List.take_append, List.take_of_length_le (by omega), hm, List.take_succ_cons]

theorem after (h : IsBehind seen key cache.entries) (hroom :
    (seen ∪ (op.used? cache).toList.toFinset.erase key).card < cache.capacity)
    (herase : op ≠ .erase key) (hclear : op ≠ .clear) :
    IsBehind (seen ∪ (op.used? cache).toList.toFinset.erase key) key (op.after cache).entries := by
  have hzero : ¬ cache.capacity = 0 := by omega
  cases op with
  | get key' =>
    cases hfound : cache.peek? key' with
    | none =>
      simp only [Op.used?, Op.after, get?, hzero, hfound, if_false]
      simpa using h
    | some dir' =>
      simp only [Op.used?, Op.after, get?, hzero, hfound, if_false]
      simpa using h.use key' dir'
  | insert key' dir' => exact (h.use key' dir').take hroom
  | erase key' =>
    have hkey : key ≠ key' := by
      rintro rfl
      exact herase rfl
    simpa [Op.used?, Op.after, DirCache.erase] using h.without hkey
  | clear => exact absurd rfl hclear

theorem run (h : IsBehind seen key cache.entries)
    (hroom : (seen ∪ (usedKeys ops cache).toFinset.erase key).card < cache.capacity)
    (herase : .erase key ∉ ops) (hclear : .clear ∉ ops) :
    ((run ops cache).peek? key).isSome = true := by
  induction ops generalizing seen cache with
  | nil => exact h.isSome_lookup
  | cons op ops ih =>
    rw [usedKeys, List.toFinset_append, Finset.erase_union_distrib, ← Finset.union_assoc] at hroom
    have hfirst := Nat.lt_of_le_of_lt (Finset.card_le_card Finset.subset_union_left) hroom
    exact ih (h.after hfirst (List.ne_of_not_mem_cons herase).symm (List.ne_of_not_mem_cons hclear).symm)
      (by rwa [Op.capacity_after]) (List.not_mem_of_not_mem_cons herase)
      (List.not_mem_of_not_mem_cons hclear)

end IsBehind

theorem Op.isBehind_used (hcapacity : 0 < cache.capacity) (hused : op.used? cache = some key) :
    IsBehind ∅ key (op.after cache).entries := by
  have hzero : ¬ cache.capacity = 0 := Nat.ne_of_gt hcapacity
  cases op with
  | get key' =>
    cases hfound : cache.peek? key' with
    | none => simp [used?, get?, hzero, hfound] at hused
    | some dir =>
      obtain rfl : key' = key := by simpa [used?, get?, hzero, hfound] using hused
      simp only [after, get?, hzero, hfound, if_false]
      exact .head ..
  | insert key' dir =>
    obtain rfl : key' = key := by simpa [used?] using hused
    obtain ⟨room, hroom⟩ : ∃ room, cache.capacity = room + 1 := ⟨cache.capacity - 1, by omega⟩
    simp only [after, DirCache.insert, hroom, List.take_succ_cons]
    exact .head ..
  | erase key' => cases hused
  | clear => cases hused

end Uses

theorem least_recent_goes (capacity : Nat) (ops : List Op) :
    let cache := run ops (empty capacity)
    (capacity = 0 → ∀ report ∈ reports ops (empty capacity), report = ⟨none, 0, 0, 0⟩)
    ∧ (0 < capacity →
      reports ops (empty capacity) = UseTable.reports ops (.empty capacity)
      ∧ cache.size ≤ capacity
      ∧ (∀ key dir, (cache.get? key).1 = some dir → ∃ earlier later,
        ops = earlier ++ .insert key dir :: later ∧ ∀ op ∈ later, op.Spares key)
      ∧ (∀ earlier op later key, ops = earlier ++ op :: later →
        op.used? (run earlier (empty capacity)) = some key → .erase key ∉ later → .clear ∉ later →
        ((usedKeys later (run (earlier ++ [op]) (empty capacity))).toFinset.erase key).card < capacity →
        (cache.get? key).1.isSome = true)
      ∧ cache.hits + cache.misses = ops.countP Op.isGet) := by
  intro cache
  refine ⟨?_, fun hcapacity => ?_⟩
  . rintro rfl
    exact report_of_no_room ops
  . have hget (key : ObjectKey) : (cache.get? key).1 = cache.peek? key := by
      rw [get?_fst, capacity_run, empty, if_neg (Nat.ne_of_gt hcapacity)]
    have hreflects := Reflects.empty capacity
    refine ⟨hreflects.reports_eq hcapacity ops, ?_, fun key dir hfound => ?_, ?_, ?_⟩
    . exact hreflects.size_run_le hcapacity ops
    . exact inserted_of_peek? (hget key ▸ hfound)
    . rintro earlier op later key rfl hused herase hclear hroom
      have hbefore : 0 < (run earlier (empty capacity)).capacity := by rwa [capacity_run]
      have hmiddle : run (earlier ++ [op]) (empty capacity) = op.after (run earlier (empty capacity)) :=
        run_append ..
      have hrun : cache = run later (op.after (run earlier (empty capacity))) := run_append ..
      rw [hmiddle] at hroom
      rw [hget, hrun]
      refine (Op.isBehind_used hbefore hused).run ?_ herase hclear
      rwa [Finset.empty_union, Op.capacity_after, capacity_run]
    . exact (counts_run hcapacity ops).trans (Nat.zero_add _)

def threeKeys : List Op :=
  [.insert ⟨1, 0⟩ 11, .insert ⟨2, 0⟩ 12, .get ⟨1, 0⟩, .insert ⟨3, 0⟩ 13, .get ⟨2, 0⟩]

theorem least_recent_goes_second :
    let cache := run threeKeys (empty 2)
    (∀ report ∈ reports threeKeys (empty 0), report = ⟨none, 0, 0, 0⟩)
      ∧ ((reports threeKeys (empty 2)).map (·.answer) = [none, none, some 11, none, none]
        ∧ reports threeKeys (empty 2) = UseTable.reports threeKeys (.empty 2))
      ∧ cache.size ≤ 2
      ∧ ((cache.get? ⟨3, 0⟩).1 = some 13 ∧ ∃ earlier later,
        threeKeys = earlier ++ .insert ⟨3, 0⟩ 13 :: later ∧ ∀ op ∈ later, op.Spares ⟨3, 0⟩)
      ∧ (cache.get? ⟨1, 0⟩).1.isSome = true
      ∧ cache.hits + cache.misses = 2 := by
  intro cache
  obtain ⟨hanswers, hsize, hinserted, hfound, hcounts⟩ := (least_recent_goes 2 threeKeys).2 (by decide)
  refine ⟨(least_recent_goes 0 threeKeys).1 rfl, ⟨by decide, hanswers⟩, hsize, ⟨by decide, ?_⟩, ?_, hcounts⟩
  . exact hinserted ⟨3, 0⟩ 13 (by decide)
  . exact hfound [.insert ⟨1, 0⟩ 11, .insert ⟨2, 0⟩ 12] (.get ⟨1, 0⟩)
      [.insert ⟨3, 0⟩ 13, .get ⟨2, 0⟩] ⟨1, 0⟩ rfl (by decide) (by decide) (by decide) (by decide)

end DirCache

end AttrTree
