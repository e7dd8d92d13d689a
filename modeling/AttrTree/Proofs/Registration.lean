import AttrTree.Namespace.Registry
import AttrTree.Proofs.Action
import Mathlib.Data.List.Induction
import Mathlib.Data.List.Nodup

/-!
This module contains that a name is served by the handler that was registered first of those that are
still registered and fit. When a handler was registered is read off the history of calls; one that was
unregistered and registered again has come last.
-/

namespace AttrTree

namespace Registry

open Action

inductive Call where
  | register (link : HandlerLink)
  | unregister (identity : Nat)
  deriving DecidableEq, Repr

def Call.perform : Call → Action Registry Unit
  | register link => .update (·.register link)
  | unregister identity => .update (·.unregister identity)

theorem after_of_fails {call : Call} {registry : Registry}
    (h : call.perform.succeeds registry = false) : call.perform.after registry = registry := by
  cases call <;> exact after_update_of_fails h

def run (calls : List Call) (registry : Registry) : Registry :=
  calls.foldl (fun registry call => call.perform.after registry) registry

def standardCalls : List Call :=
  standard.links.map .register

/-- Call number `n` has registered `link`, and none has unregistered it since. -/
structure StandsSince (calls : List Call) (link : HandlerLink) (n : Nat) : Prop where
  call_eq : calls[n]? = some (.register link)
  accepted : (Call.register link).perform.succeeds (run (calls.take n) .empty) = true
  kept : ∀ m, n < m → calls[m]? ≠ some (.unregister link.identity)

def Fits (link : HandlerLink) (name : String) : Prop :=
  EntryName.bytes link.handler.start <+: EntryName.bytes name

instance (link : HandlerLink) (name : String) : Decidable (Fits link name) :=
  inferInstanceAs (Decidable (_ <+: _))

variable {registry registry' : Registry} {calls : List Call} {call : Call} {link : HandlerLink}
  {identity n : Nat}

section Calls

def Has (registry : Registry) (identity : Nat) : Prop :=
  ∃ link ∈ registry.links, link.identity = identity

theorem any_identity_iff :
    registry.links.any (·.identity == identity) = true ↔ registry.Has identity := by
  simp [Has]

theorem register_eq_ok_iff : registry.register link = .ok registry' ↔
    link.handler.start ≠ "" ∧ ¬ registry.Has link.identity ∧ link.handler.start ∉ registry.starts
      ∧ registry' = ⟨registry.links ++ [link]⟩ := by
  unfold register
  by_cases hempty : link.handler.start.isEmpty = true
  . rw [if_pos hempty]
    simp [String.isEmpty_iff.mp hempty]
  . rw [if_neg hempty]
    have hstart := mt String.isEmpty_iff.mpr hempty
    by_cases hany : registry.links.any (·.identity == link.identity) = true
    . rw [if_pos hany]
      simp [any_identity_iff.mp hany]
    . rw [if_neg hany]
      have hhas := mt any_identity_iff.mpr hany
      by_cases htaken : registry.starts.contains link.handler.start = true
      . rw [if_pos htaken]
        simp [List.contains_iff_mem.mp htaken]
      . rw [if_neg htaken, Except.ok.injEq, eq_comm]
        simp [hstart, hhas, mt List.contains_iff_mem.mpr htaken]

theorem unregister_eq_ok_iff : registry.unregister identity = .ok registry' ↔
    registry.Has identity ∧ registry' = ⟨registry.links.filter (·.identity != identity)⟩ := by
  unfold unregister
  by_cases hany : registry.links.any (·.identity == identity) = true
  . rw [if_pos hany, Except.ok.injEq, eq_comm]
    simp [any_identity_iff.mp hany]
  . rw [if_neg hany]
    simp [mt any_identity_iff.mpr hany]

theorem register_succeeds_iff : (Call.register link).perform.succeeds registry = true ↔
    link.handler.start ≠ "" ∧ ¬ registry.Has link.identity ∧ link.handler.start ∉ registry.starts := by
  rw [Call.perform, succeeds_update_iff]
  simp [register_eq_ok_iff]

theorem unregister_succeeds_iff : (Call.unregister identity).perform.succeeds registry = true ↔
    registry.Has identity := by
  rw [Call.perform, succeeds_update_iff]
  simp [unregister_eq_ok_iff]

theorem links_after_register : ((Call.register link).perform.after registry).links =
    if (Call.register link).perform.succeeds registry then registry.links ++ [link] else registry.links := by
  split
  . next hsucceeds =>
    obtain ⟨registry', hok⟩ := succeeds_update_iff.mp hsucceeds
    rw [Call.perform, after_of_ok (update_eq_ok_iff.mpr hok)]
    obtain ⟨_, _, _, rfl⟩ := register_eq_ok_iff.mp hok
    rfl
  . next hfails => rw [after_of_fails (Bool.eq_false_iff.mpr hfails)]

theorem links_after_unregister : ((Call.unregister identity).perform.after registry).links =
    registry.links.filter (·.identity != identity) := by
  -- If the handler is not registered, there is nothing to take away.
  by_cases hsucceeds : (Call.unregister identity).perform.succeeds registry = true
  . obtain ⟨registry', hok⟩ := succeeds_update_iff.mp hsucceeds
    rw [Call.perform, after_of_ok (update_eq_ok_iff.mpr hok)]
    obtain ⟨_, rfl⟩ := unregister_eq_ok_iff.mp hok
    rfl
  . have hother : ∀ link ∈ registry.links, (link.identity != identity) = true := by
      intro link hlink
      apply bne_iff_ne.mpr
      intro heq
      exact hsucceeds (unregister_succeeds_iff.mpr ⟨link, hlink, heq⟩)
    rw [after_of_fails (Bool.eq_false_iff.mpr hsucceeds), List.filter_eq_self.mpr hother]

end Calls

section Invariant

structure WellFormed (registry : Registry) : Prop where
  identities_nodup : (registry.links.map (·.identity)).Nodup
  starts_nodup : registry.starts.Nodup
  starts_ne : ∀ start ∈ registry.starts, start ≠ ""

theorem wellFormed_empty : empty.WellFormed :=
  ⟨.nil, .nil, nofun⟩

theorem WellFormed.after (h : registry.WellFormed) (call : Call) :
    (call.perform.after registry).WellFormed := by
  cases call with
  | register link =>
    by_cases hsucceeds : (Call.register link).perform.succeeds registry = true
    . obtain ⟨hstart, hhas, hfree⟩ := register_succeeds_iff.mp hsucceeds
      have hlinks := @links_after_register registry link
      rw [if_pos hsucceeds] at hlinks
      have hstarts : ((Call.register link).perform.after registry).starts =
          registry.starts ++ [link.handler.start] := by
        rw [starts, hlinks, List.map_append]
        rfl
      constructor
      . rw [hlinks, List.map_append, List.map_singleton, ← List.concat_eq_append]
        exact h.identities_nodup.concat (mt List.mem_map.mp hhas)
      . rw [hstarts, ← List.concat_eq_append]
        exact h.starts_nodup.concat hfree
      . rw [hstarts]
        exact List.forall_mem_append.mpr ⟨h.starts_ne, by simpa using hstart⟩
    . rwa [after_of_fails (Bool.eq_false_iff.mpr hsucceeds)]
  | unregister identity =>
    have hlinks := @links_after_unregister registry identity
    have hsub : ((Call.unregister identity).perform.after registry).links.Sublist registry.links := by
      rw [hlinks]
      exact List.filter_sublist
    exact ⟨h.identities_nodup.sublist (hsub.map _), h.starts_nodup.sublist (hsub.map _),
      fun start hstart => h.starts_ne start ((hsub.map _).subset hstart)⟩

theorem WellFormed.run (h : registry.WellFormed) (calls : List Call) : (run calls registry).WellFormed := by
  induction calls generalizing registry with
  | nil => exact h
  | cons call calls ih => exact ih (h.after call)

end Invariant

section History

theorem run_append (calls calls' : List Call) (registry : Registry) :
    run (calls ++ calls') registry = run calls' (run calls registry) :=
  List.foldl_append

theorem standsSince_concat : StandsSince (calls ++ [call]) link n ↔
    StandsSince calls link n ∧ call ≠ .unregister link.identity
      ∨ n = calls.length ∧ call = .register link ∧ call.perform.succeeds (run calls .empty) = true := by
  constructor
  . rintro ⟨hcall, haccepted, hkept⟩
    have hn : n < (calls ++ [call]).length := (List.getElem?_eq_some_iff.mp hcall).1
    rw [List.length_append, List.length_singleton] at hn
    by_cases hlast : n = calls.length
    . subst hlast
      rw [List.getElem?_concat_length, Option.some.injEq] at hcall
      subst hcall
      rw [List.take_left] at haccepted
      exact .inr ⟨rfl, rfl, haccepted⟩
    . have hn : n < calls.length := by omega
      rw [List.getElem?_append_left hn] at hcall
      rw [List.take_append_of_le_length (Nat.le_of_lt hn)] at haccepted
      refine .inl ⟨⟨hcall, haccepted, fun m hm heq => ?_⟩, ?_⟩
      . have hlt : m < calls.length := (List.getElem?_eq_some_iff.mp heq).1
        exact hkept m hm ((List.getElem?_append_left hlt).trans heq)
      . rintro rfl
        exact hkept calls.length hn List.getElem?_concat_length
  . rintro (⟨⟨hcall, haccepted, hkept⟩, hne⟩ | ⟨rfl, rfl, haccepted⟩)
    . have hn : n < calls.length := (List.getElem?_eq_some_iff.mp hcall).1
      refine ⟨(List.getElem?_append_left hn).trans hcall, ?_, fun m hm heq => ?_⟩
      . rwa [List.take_append_of_le_length (Nat.le_of_lt hn)]
      . have hlt : m < (calls ++ [call]).length := (List.getElem?_eq_some_iff.mp heq).1
        rw [List.length_append, List.length_singleton] at hlt
        by_cases hlast : m = calls.length
        . subst hlast
          rw [List.getElem?_concat_length, Option.some.injEq] at heq
          exact hne heq
        . rw [List.getElem?_append_left (by omega)] at heq
          exact hkept m hm heq
    . refine ⟨List.getElem?_concat_length, ?_, fun m hm heq => ?_⟩
      . rwa [List.take_left]
      . have hlt : m < (calls ++ [Call.register link]).length := (List.getElem?_eq_some_iff.mp heq).1
        rw [List.length_append, List.length_singleton] at hlt
        omega

structure Dated (calls : List Call) (dated : List (Nat × HandlerLink)) : Prop where
  links_eq : (run calls .empty).links = dated.map Prod.snd
  sorted : dated.Pairwise (·.1 < ·.1)
  mem_iff : ∀ n link, (n, link) ∈ dated ↔ StandsSince calls link n

theorem StandsSince.lt (h : StandsSince calls link n) : n < calls.length :=
  (List.getElem?_eq_some_iff.mp h.call_eq).1

theorem exists_dated (calls : List Call) : ∃ dated, Dated calls dated := by
  induction calls using List.reverseRecOn with
  | nil => exact ⟨[], rfl, .nil, fun n link => ⟨nofun, fun h => absurd h.lt (Nat.not_lt_zero n)⟩⟩
  | append_singleton calls call ih =>
    obtain ⟨dated, hlinks, hsorted, hmem⟩ := ih
    have hrun : run (calls ++ [call]) .empty = call.perform.after (run calls .empty) := run_append ..
    -- A new handler comes last with the highest number yet; to take one away keeps the order.
    cases call with
    | register link =>
      by_cases hsucceeds : (Call.register link).perform.succeeds (run calls .empty) = true
      . refine ⟨dated ++ [(calls.length, link)], ?_, ?_, fun n link' => ?_⟩
        . rw [hrun, links_after_register, if_pos hsucceeds, hlinks, List.map_append]
          rfl
        . apply List.pairwise_append.mpr
          refine ⟨hsorted, List.pairwise_singleton .., fun entry hentry last hlast => ?_⟩
          rw [List.mem_singleton.mp hlast]
          exact ((hmem entry.1 entry.2).mp hentry).lt
        . rw [List.mem_append, hmem, standsSince_concat, List.mem_singleton, Prod.mk.injEq]
          refine or_congr (by simp) (and_congr_right fun _ => ⟨?_, fun h => ?_⟩)
          . rintro rfl
            exact ⟨rfl, hsucceeds⟩
          . exact (Call.register.inj h.1).symm
      . refine ⟨dated, ?_, hsorted, fun n link' => ?_⟩
        . rw [hrun, links_after_register, if_neg hsucceeds, hlinks]
        . rw [hmem, standsSince_concat]
          simp [hsucceeds]
    | unregister identity =>
      refine ⟨dated.filter (·.2.identity != identity), ?_, hsorted.filter _, fun n link => ?_⟩
      . rw [hrun, links_after_unregister, hlinks, List.filter_map]
        rfl
      . rw [List.mem_filter, hmem, standsSince_concat]
        simp [eq_comm (a := identity)]

theorem find?_map_snd_eq_some_iff {α : Type} {dated : List (Nat × α)} (h : dated.Pairwise (·.1 < ·.1))
    {p : α → Bool} {a : α} : (dated.map Prod.snd).find? p = some a ↔
      ∃ n, (n, a) ∈ dated ∧ p a = true ∧ ∀ entry ∈ dated, p entry.2 = true → n ≤ entry.1 := by
  induction dated with
  | nil => simp
  | cons head dated ih =>
    obtain ⟨hhead, htail⟩ := List.pairwise_cons.mp h
    rw [List.map_cons, List.find?_cons]
    cases hp : p head.2 with
    | true =>
      simp only [Option.some.injEq]
      constructor
      . rintro rfl
        refine ⟨head.1, List.mem_cons_self, hp, fun entry hentry _ => ?_⟩
        obtain rfl | hlater := List.mem_cons.mp hentry
        . exact Nat.le_refl _
        . exact Nat.le_of_lt (hhead entry hlater)
      . rintro ⟨n, hmem, _, hfirst⟩
        obtain heq | hlater := List.mem_cons.mp hmem
        . rw [← heq]
        . exact absurd (hhead _ hlater) (Nat.not_lt.mpr (hfirst head List.mem_cons_self hp))
    | false =>
      rw [ih htail]
      have hne : ∀ entry ∈ head :: dated, p entry.2 = true → entry ∈ dated := by
        intro entry hentry hentry'
        obtain rfl | hlater := List.mem_cons.mp hentry
        . rw [hp] at hentry'
          cases hentry'
        . exact hlater
      constructor
      . rintro ⟨n, hmem, ha, hfirst⟩
        exact ⟨n, List.mem_cons_of_mem _ hmem, ha, fun entry hentry hfits =>
          hfirst entry (hne entry hentry hfits) hfits⟩
      . rintro ⟨n, hmem, ha, hfirst⟩
        exact ⟨n, hne _ hmem ha, ha, fun entry hentry => hfirst entry (List.mem_cons_of_mem _ hentry)⟩

end History

structure Answers (history : List Call) (registry : Registry) : Prop where
  wellFormed : registry.WellFormed
  register_fails_iff : ∀ link, (Call.register link).perform.succeeds registry = false ↔
    link.handler.start = "" ∨ registry.Has link.identity ∨ link.handler.start ∈ registry.starts
  unregister_fails_iff : ∀ identity, (Call.unregister identity).perform.succeeds registry = false ↔
    ¬ registry.Has identity
  after_of_fails : ∀ call : Call, call.perform.succeeds registry = false →
    call.perform.after registry = registry
  mem_iff : ∀ link, link ∈ registry.links ↔ ∃ n, StandsSince history link n
  resolve?_eq_some_iff : ∀ name link, registry.resolve? name = some link ↔
    ∃ n, StandsSince history link n ∧ Fits link name
      ∧ ∀ link' n', StandsSince history link' n' → Fits link' name → n ≤ n'
  resolve?_eq_none_iff : ∀ name, registry.resolve? name = none ↔
    ∀ link n, StandsSince history link n → ¬ Fits link name

theorem startsWith_iff {name : String} :
    EntryName.startsWith name link.handler.start = true ↔ Fits link name :=
  List.isPrefixOf_iff_prefix

theorem answers_run (calls : List Call) : Answers calls (run calls .empty) := by
  obtain ⟨dated, hlinks, hsorted, hmem⟩ := exists_dated calls
  have hmem_iff : ∀ link, link ∈ (run calls .empty).links ↔ ∃ n, StandsSince calls link n := by
    intro link
    rw [hlinks, List.mem_map]
    constructor
    . rintro ⟨⟨n, _⟩, hentry, rfl⟩
      exact ⟨n, (hmem n _).mp hentry⟩
    . rintro ⟨n, hstands⟩
      exact ⟨(n, link), (hmem n link).mpr hstands, rfl⟩
  exact {
    wellFormed := wellFormed_empty.run calls
    register_fails_iff := fun link => by
      rw [← Bool.not_eq_true, register_succeeds_iff, not_and_or, not_and_or, not_not, not_not, not_not]
    unregister_fails_iff := fun identity => by
      rw [← Bool.not_eq_true, unregister_succeeds_iff]
    after_of_fails := fun call => after_of_fails
    mem_iff := hmem_iff
    resolve?_eq_some_iff := fun name link => by
      rw [resolve?, hlinks, find?_map_snd_eq_some_iff hsorted]
      simp only [hmem, startsWith_iff, Prod.forall]
      exact exists_congr fun n => and_congr_right fun _ => and_congr_right fun _ => forall_comm
    resolve?_eq_none_iff := fun name => by
      rw [resolve?, List.find?_eq_none]
      simp only [hmem_iff, startsWith_iff]
      exact forall_congr' fun link => forall_exists_index
  }

theorem run_standardCalls : run standardCalls .empty = .standard := by
  decide

theorem first_registered_serves (calls : List Call) :
    Answers calls (run calls .empty) ∧ Answers (standardCalls ++ calls) (run calls .standard) := by
  refine ⟨answers_run calls, ?_⟩
  have hrun : run (standardCalls ++ calls) .empty = run calls .standard := by
    rw [run_append, run_standardCalls]
  rw [← hrun]
  exact answers_run (standardCalls ++ calls)

/-- The shorter start comes first until its handler is registered anew. -/
example :
    let short : HandlerLink := ⟨0, .plain "a."⟩
    let long : HandlerLink := ⟨1, .plain "a.b."⟩
    let registry := run [.register short, .register long] .empty
    registry.resolve? "a.b.c" = some short
      ∧ (run [.unregister 0, .register short] registry).resolve? "a.b.c" = some long := by
  decide

end Registry

end AttrTree
