import AttrTree.Proofs.Later
import AttrTree.Proofs.Scanning

/-!
This module contains scans of a directory that changes between the items. Each time that the scan is
asked is a turn, and whatever can be done to a volume is done between two turns. An entry that stays
is found once, when the scan comes to its offset; what is new has an offset behind the scan.
-/

namespace AttrTree

namespace Scan

def HasPassed (offset : Nat) (scan : Scan) : Prop :=
  scan.finished = true ∨ scan.position < offset

theorem hasPassed_iff {scan : Scan} (hfinished : scan.finished = false) {offset : Nat} :
    scan.HasPassed offset ↔ scan.position < offset := by
  simp [HasPassed, hfinished]

def IsHidden (dir : ObjectId) (privateRoot : Option ObjectId) (name : String) (target : ObjectId) :
    Prop :=
  dir = MemStore.rootId ∧ (privateRoot = some target ∨ name = Volume.privateRootName)

instance (dir : ObjectId) (privateRoot : Option ObjectId) (name : String) (target : ObjectId) :
    Decidable (IsHidden dir privateRoot name target) :=
  inferInstanceAs (Decidable (_ ∧ _))

variable {scan : Scan} {d : Directory} {e : DirEntry} {parent : ObjectId}

theorem shows_iff (hroot : scan.atRoot = (scan.dir == MemStore.rootId))
    (hwf : d.WellFormed scan.dir parent) (he : e ∈ d.ordinary) :
    scan.shows d e = true ↔
      e.visible = true ∧ ¬ IsHidden scan.dir scan.privateRoot e.name e.target := by
  have hsize : ¬ EntryName.maxSize < EntryName.size e.name := by
    have hvalid := hwf.names_valid e he
    simp only [MemStore.isValidName, Bool.not_eq_true', Bool.or_eq_false_iff,
      decide_eq_false_iff_not] at hvalid
    exact hvalid.1.2
  simp only [shows, hides, hsize, hroot, IsHidden, Directory.slot, decide_false, Bool.false_or,
    Bool.and_eq_true, Bool.not_eq_true', ← Bool.not_eq_true, Bool.or_eq_true, beq_iff_eq]

end Scan

namespace Volume

open Action MemStore

structure Turn where
  /-- The volume when the scan is asked. -/
  volume : Volume MemStore
  scan : Scan
  found : Except Error (Option ScanItem)
  /-- The scan afterwards. -/
  next : Scan

def Turn.item? (turn : Turn) : Option ScanItem :=
  match turn.found with
  | .ok item => item
  | .error _ => none

def turns : List (List Op) → Scan → Volume MemStore → List Turn
  | [], _, _ => []
  | ops :: between, scan, volume =>
    let volume := run ops volume
    match Scan.next (volume.store, scan) with
    | .ok item (store, next) =>
      ⟨volume, scan, .ok item, next⟩ :: turns between next { volume with store }
    | .error e (store, next) =>
      ⟨volume, scan, .error e, next⟩ :: turns between next { volume with store }

def items (T : List Turn) : List ScanItem :=
  T.filterMap Turn.item?

def StaysLive (dir : ObjectId) (T : List Turn) : Prop :=
  ∀ turn ∈ T, (turn.volume.store.directory? dir).isSome = true

instance (dir : ObjectId) (T : List Turn) : Decidable (StaysLive dir T) :=
  inferInstanceAs (Decidable (∀ turn ∈ T, _))

/-- What the turns of a scan from `position` on have in common, whatever happens between them. -/
structure Faithful (dir : ObjectId) (privateRoot : Option ObjectId) (position : Nat)
    (T : List Turn) : Prop where
  succeeds : ∀ turn ∈ T, ∃ item, turn.found = .ok item
  /-- A turn passes what it finds and what lies behind, and everything if it finds nothing. -/
  passes : ∀ turn ∈ T, ∀ offset, turn.next.HasPassed offset ↔
    ∀ item, turn.item? = some item → item.slot.offset ≤ offset
  decreasing : (items T).Pairwise fun item later => later.slot.offset < item.slot.offset
  within : ∀ item ∈ items T,
    Directory.firstOffset ≤ item.slot.offset ∧ item.slot.offset ≤ position
  present : ∀ turn ∈ T, ∀ item, turn.item? = some item →
    ∃ d e, turn.volume.store.directory? dir = some d ∧ e ∈ d.entries ∧ e.visible = true
      ∧ item = Scan.itemOf d e
  hidden : ∀ item ∈ items T, ¬ Scan.IsHidden dir privateRoot item.name item.slot.target
  /-- An entry that is there and visible until the scan has passed it is found once. -/
  once : ∀ e : DirEntry, e.visible = true → Directory.firstOffset ≤ e.offset →
    e.offset ≤ position → ¬ Scan.IsHidden dir privateRoot e.name e.target →
    (∀ turn ∈ T, ¬ turn.scan.HasPassed e.offset →
      ∃ d, turn.volume.store.directory? dir = some d ∧ e ∈ d.entries) →
    (∃ turn ∈ T, turn.next.HasPassed e.offset) →
    ((items T).filter (·.slot.offset = e.offset)).map (fun item => (item.name, item.slot.target)) =
      [(e.name, e.target)]
  /-- After an item has been found, no entry is found that was not there by then. -/
  old : T.Pairwise fun turn later => turn.item?.isSome = true →
    ∀ item, later.item? = some item → ∃ d e, turn.volume.store.directory? dir = some d
      ∧ e ∈ d.entries ∧ e.offset = item.slot.offset ∧ e.name = item.name
      ∧ e.target = item.slot.target

variable {volume : Volume MemStore} {scan next : Scan} {ops : List Op} {between : List (List Op)}
  {T : List Turn} {d : Directory} {e : DirEntry} {dir parent : ObjectId}
  {privateRoot : Option ObjectId} {position : Nat} {turn : Turn}

theorem items_cons_none (h : turn.item? = none) (T : List Turn) : items (turn :: T) = items T :=
  List.filterMap_cons_none h

theorem items_cons_some {item : ScanItem} (h : turn.item? = some item) (T : List Turn) :
    items (turn :: T) = item :: items T :=
  List.filterMap_cons_some h

section Turns

theorem turns_run (ops ops' : List Op) (between : List (List Op)) :
    turns ((ops ++ ops') :: between) scan volume = turns (ops' :: between) scan (run ops volume) := by
  simp only [turns, run_append]

theorem turns_cons_ok {item : Option ScanItem} {store : MemStore}
    (hnext : Scan.next ((run ops volume).store, scan) = .ok item (store, next)) :
    turns (ops :: between) scan volume =
      ⟨run ops volume, scan, .ok item, next⟩ :: turns between next { run ops volume with store } := by
  simp only [turns, hnext]

theorem found_of_finished (hfinished : scan.finished = true) :
    ∀ turn ∈ turns between scan volume, turn.found = .ok none ∧ turn.next.finished = true := by
  induction between generalizing volume with
  | nil => simp [turns]
  | cons ops between ih =>
    have hnext : Scan.next ((run ops volume).store, scan) =
        .ok none ((run ops volume).store, scan) := by
      simp [Scan.next, hfinished]
    rw [turns_cons_ok hnext]
    exact List.forall_mem_cons.mpr ⟨⟨rfl, hfinished⟩, ih⟩

theorem items_of_none (h : ∀ turn ∈ T, turn.found = .ok none ∧ turn.next.finished = true) :
    items T = [] := by
  refine List.filterMap_eq_nil_iff.mpr fun turn hturn => ?_
  rw [Turn.item?, (h turn hturn).1]

theorem linked_withMoves (hlinked : volume.store.Linked) (moves : Nat) :
    (volume.withMoves moves).store.Linked :=
  hlinked.of_sameLinks (.of_objects_eq rfl rfl)

def turnOf (volume : Volume MemStore) (scan : Scan) (d : Directory) (e : DirEntry) : Turn where
  volume := volume
  scan := scan
  found := .ok (some (Scan.itemOf d e))
  next := scan.moveBefore e.offset

inductive TurnCases (ops : List Op) (between : List (List Op)) (scan : Scan)
    (volume : Volume MemStore) (d : Directory) : Prop
  | done (next : Scan) (moves : Nat) (hfinished : next.finished = true)
    (hhidden : ∀ e ∈ d.upTo scan.position, scan.shows d e = false)
    (hturns : turns (ops :: between) scan volume =
      ⟨run ops volume, scan, .ok none, next⟩ ::
        turns between next ((run ops volume).withMoves moves))
  | item (rest later : List DirEntry) (e : DirEntry) (moves : Nat)
    (hupTo : d.upTo scan.position = rest ++ e :: later) (hshown : scan.shows d e = true)
    (hhidden : ∀ e' ∈ later, scan.shows d e' = false)
    (hturns : turns (ops :: between) scan volume =
      turnOf (run ops volume) scan d e ::
        turns between (scan.moveBefore e.offset) ((run ops volume).withMoves moves))

theorem turnCases (hdir : (run ops volume).store.directory? scan.dir = some d)
    (hwf : d.WellFormed scan.dir parent) (hfinished : scan.finished = false)
    (between : List (List Op)) : TurnCases ops between scan volume d := by
  rcases Scan.next_cases hdir hwf hfinished with
    ⟨moves, position, hnext, hhidden⟩ | ⟨rest, e, later, moves, hupTo, hshown, hhidden, hnext⟩
  . exact .done _ moves rfl hhidden (turns_cons_ok hnext)
  . exact .item rest later e moves hupTo hshown hhidden (turns_cons_ok hnext)

theorem later_turns (hlinked : volume.store.Linked) :
    ∀ turn ∈ turns between scan volume, volume.store.Later turn.volume.store := by
  induction between generalizing scan volume with
  | nil => simp [turns]
  | cons ops between ih =>
    have hrun := later_run ops hlinked
    have hnext := (keeps_next (keptByAdding (keptByGains_later (run ops volume).store)).toKeptByLooking).holds
      ((run ops volume).store, scan) ⟨linked_run ops hlinked, .refl _⟩
    unfold after at hnext
    simp only [turns]
    cases hresult : Scan.next ((run ops volume).store, scan) with
    | ok item s =>
      simp only [hresult] at hnext
      exact List.forall_mem_cons.mpr ⟨hrun, fun turn hturn =>
        hrun.trans (hnext.2.trans (ih hnext.1 turn hturn))⟩
    | error e s =>
      simp only [hresult] at hnext
      exact List.forall_mem_cons.mpr ⟨hrun, fun turn hturn =>
        hrun.trans (hnext.2.trans (ih hnext.1 turn hturn))⟩

end Turns

section Faithful

theorem shows_of_stays (hdir : volume.store.directory? scan.dir = some d)
    (hwf : d.WellFormed scan.dir parent) (hroot : scan.atRoot = (scan.dir == rootId))
    (hfinished : scan.finished = false) (hvisible : e.visible = true)
    (hfirst : Directory.firstOffset ≤ e.offset) (hle : e.offset ≤ scan.position)
    (hhidden : ¬ Scan.IsHidden scan.dir scan.privateRoot e.name e.target)
    (hstay : ¬ scan.HasPassed e.offset →
      ∃ d, volume.store.directory? scan.dir = some d ∧ e ∈ d.entries) :
    e ∈ d.upTo scan.position ∧ scan.shows d e = true := by
  -- An entry that stays is shown as long as it is still to come.
  have hcoming : ¬ scan.HasPassed e.offset := by
    rw [Scan.hasPassed_iff hfinished]
    exact Nat.not_lt.mpr hle
  obtain ⟨d', hdir', he⟩ := hstay hcoming
  cases hdir.symm.trans hdir'
  have he : e ∈ d.ordinary := Directory.mem_ordinary he hfirst
  exact ⟨Directory.mem_upTo.mpr ⟨he, hle⟩, (Scan.shows_iff hroot hwf he).mpr ⟨hvisible, hhidden⟩⟩

theorem faithful_of_none (hfound : ∀ turn ∈ T, turn.found = .ok none ∧ turn.next.finished = true)
    (honce : ∀ e : DirEntry, e.visible = true → Directory.firstOffset ≤ e.offset →
      e.offset ≤ position → ¬ Scan.IsHidden dir privateRoot e.name e.target →
      (∃ turn ∈ T, turn.next.HasPassed e.offset) → ¬ ∀ turn ∈ T,
        ¬ turn.scan.HasPassed e.offset →
          ∃ d, turn.volume.store.directory? dir = some d ∧ e ∈ d.entries) :
    Faithful dir privateRoot position T := by
  have hitem : ∀ turn ∈ T, turn.item? = none := fun turn hturn => by
    rw [Turn.item?, (hfound turn hturn).1]
  have hitems : items T = [] := items_of_none hfound
  constructor
  . exact fun turn hturn => ⟨none, (hfound turn hturn).1⟩
  . intro turn hturn offset
    simp [Scan.HasPassed, (hfound turn hturn).2, hitem turn hturn]
  . simp [hitems]
  . simp [hitems]
  . intro turn hturn item hitem'
    rw [hitem turn hturn] at hitem'
    cases hitem'
  . simp [hitems]
  . intro e hvisible hfirst hle hhidden hstays hpassed
    exact absurd hstays (honce e hvisible hfirst hle hhidden hpassed)
  . refine List.pairwise_of_forall_mem_list fun turn hturn later _ hsome => ?_
    rw [hitem turn hturn] at hsome
    cases hsome

section Cons

variable {rest later : List DirEntry} (hlinked : volume.store.Linked)
  (hdir : volume.store.directory? scan.dir = some d)
  (hupTo : d.upTo scan.position = rest ++ e :: later)
  (h : Faithful scan.dir scan.privateRoot (e.offset - 1) T)
include hupTo h

omit hlinked hdir in
theorem Faithful.behind : ∀ item ∈ items T, item.slot.offset < e.offset := by
  intro item hitem
  have hfirst : 0 < e.offset :=
    Nat.lt_of_lt_of_le (by decide) (Directory.mem_of_upTo hupTo).2.1
  exact Nat.lt_of_le_pred hfirst (h.within item hitem).2

include hlinked hdir

theorem Faithful.once_cons (hroot : scan.atRoot = (scan.dir == rootId))
    (hfinished : scan.finished = false) (hlater : ∀ e' ∈ later, scan.shows d e' = false)
    {e₀ : DirEntry} (hvisible : e₀.visible = true)
    (hfirst : Directory.firstOffset ≤ e₀.offset) (hle : e₀.offset ≤ scan.position)
    (hhidden : ¬ Scan.IsHidden scan.dir scan.privateRoot e₀.name e₀.target)
    (hstays : ∀ turn ∈ turnOf volume scan d e :: T, ¬ turn.scan.HasPassed e₀.offset →
      ∃ d, turn.volume.store.directory? scan.dir = some d ∧ e₀ ∈ d.entries)
    (hpassed : ∃ turn ∈ turnOf volume scan d e :: T, turn.next.HasPassed e₀.offset) :
    ((Scan.itemOf d e :: items T).filter (·.slot.offset = e₀.offset)).map
      (fun item => (item.name, item.slot.target)) = [(e₀.name, e₀.target)] := by
  obtain ⟨parent, hwf, _⟩ := hlinked.placed hdir
  obtain ⟨hstay, hstays⟩ := List.forall_mem_cons.mp hstays
  obtain ⟨hmem, hshown⟩ := shows_of_stays hdir hwf hroot hfinished hvisible hfirst hle hhidden hstay
  have hsorted := Directory.sorted_upTo hwf scan.position
  rw [hupTo] at hmem hsorted
  obtain hrest | hmem := List.mem_append.mp hmem
  . -- It is still to come, so it is up to the turns after this one.
    have hlt : e₀.offset < e.offset :=
      (List.pairwise_append.mp hsorted).2.2 e₀ hrest e (List.mem_cons_self ..)
    have hpassed : ∃ turn ∈ T, turn.next.HasPassed e₀.offset := by
      obtain ⟨turn, hturn, hpass⟩ := hpassed
      obtain rfl | hturn := List.mem_cons.mp hturn
      . have hgoesOn : (scan.moveBefore e.offset).finished = false := hfinished
        have hbefore := (Scan.hasPassed_iff hgoesOn).mp hpass
        simp only [Scan.moveBefore] at hbefore
        omega
      . exact ⟨turn, hturn, hpass⟩
    have hother : ¬ decide ((Scan.itemOf d e).slot.offset = e₀.offset) = true :=
      fun heq => Nat.ne_of_gt hlt (of_decide_eq_true heq)
    rw [List.filter_cons, if_neg hother]
    exact h.once e₀ hvisible hfirst (Nat.le_pred_of_lt hlt) hhidden hstays hpassed
  . obtain rfl | hmem := List.mem_cons.mp hmem
    . have hnone : (items T).filter (·.slot.offset = e₀.offset) = [] := by
        refine List.filter_eq_nil_iff.mpr fun item hitem => ?_
        simpa using Nat.ne_of_lt (h.behind hupTo item hitem)
      have hself : decide ((Scan.itemOf d e₀).slot.offset = e₀.offset) = true := by
        simp [Scan.itemOf, Directory.slot]
      rw [List.filter_cons, if_pos hself, hnone]
      rfl
    . -- What lies between the position and the entry that is found is not shown.
      rw [hlater e₀ hmem] at hshown
      cases hshown

theorem Faithful.old_cons (hstores : ∀ turn ∈ T, volume.store.Later turn.volume.store) :
    ∀ turn ∈ T, ∀ item, turn.item? = some item → ∃ d e, volume.store.directory? scan.dir = some d
      ∧ e ∈ d.entries ∧ e.offset = item.slot.offset ∧ e.name = item.name
      ∧ e.target = item.slot.target := by
  intro turn hturn item hitem
  obtain ⟨parent, hwf, _⟩ := hlinked.placed hdir
  obtain ⟨he, _⟩ := Directory.mem_of_upTo hupTo
  have hmem : item ∈ items T := List.mem_filterMap.mpr ⟨turn, hturn, hitem⟩
  have hlow := (h.within item hmem).1
  have hlt := h.behind hupTo item hmem
  obtain ⟨d', e', hdir', he', _, rfl⟩ := h.present turn hturn item hitem
  obtain ⟨object, hobject, _⟩ := directory?_eq_some_iff.mp hdir
  obtain ⟨d₀, hdir₀, hdLater⟩ := (hstores turn hturn).directory (hlinked.id_lt hobject) hdir'
  cases hdir.symm.trans hdir₀
  -- The next offset of the directory lay in front of the entry, so the one behind it is no new one.
  obtain ⟨e₀, he₀, hsame⟩ := hdLater.old e' (Directory.mem_ordinary he' hlow)
    (Nat.lt_trans hlt (hwf.offset_lt e he))
  exact ⟨d, e₀, hdir, Directory.mem_entries_of_mem_ordinary he₀, hsame⟩

theorem Faithful.cons (hroot : scan.atRoot = (scan.dir == rootId))
    (hfinished : scan.finished = false) (hshown : scan.shows d e = true)
    (hlater : ∀ e' ∈ later, scan.shows d e' = false)
    (hstores : ∀ turn ∈ T, volume.store.Later turn.volume.store) :
    Faithful scan.dir scan.privateRoot scan.position (turnOf volume scan d e :: T) := by
  obtain ⟨parent, hwf, _⟩ := hlinked.placed hdir
  obtain ⟨he, hfirst, hle⟩ := Directory.mem_of_upTo hupTo
  have hpos : 0 < e.offset := Nat.lt_of_lt_of_le (by decide) hfirst
  have hbehind := h.behind hupTo
  have hitems : items (turnOf volume scan d e :: T) = Scan.itemOf d e :: items T :=
    items_cons_some rfl T
  obtain ⟨hvisible, hnotHidden⟩ := (Scan.shows_iff hroot hwf he).mp hshown
  constructor
  . exact List.forall_mem_cons.mpr ⟨⟨_, rfl⟩, h.succeeds⟩
  . refine List.forall_mem_cons.mpr ⟨fun offset => ?_, h.passes⟩
    have hgoesOn : (turnOf volume scan d e).next.finished = false := hfinished
    rw [Scan.hasPassed_iff hgoesOn]
    simp only [turnOf, Scan.moveBefore, Turn.item?, Option.some.injEq, forall_eq', Scan.itemOf,
      Directory.slot]
    omega
  . rw [hitems]
    exact .cons hbehind h.decreasing
  . rw [hitems]
    refine List.forall_mem_cons.mpr ⟨⟨hfirst, hle⟩, fun item hitem => ?_⟩
    obtain ⟨hlow, _⟩ := h.within item hitem
    exact ⟨hlow, Nat.le_of_lt (Nat.lt_of_lt_of_le (hbehind item hitem) hle)⟩
  . refine List.forall_mem_cons.mpr ⟨fun item hitem => ?_, h.present⟩
    cases hitem
    exact ⟨d, e, hdir, Directory.mem_entries_of_mem_ordinary he, hvisible, rfl⟩
  . rw [hitems]
    exact List.forall_mem_cons.mpr ⟨hnotHidden, h.hidden⟩
  . intro e₀ hvisible₀ hfirst₀ hle₀ hhidden₀ hstays hpassed
    rw [hitems]
    exact h.once_cons hlinked hdir hupTo hroot hfinished hlater hvisible₀ hfirst₀ hle₀ hhidden₀
      hstays hpassed
  . exact .cons (fun turn hturn _ => h.old_cons hlinked hdir hupTo hstores turn hturn) h.old

end Cons

theorem StaysLive.head (h : StaysLive dir (turns (ops :: between) scan volume)) :
    ((run ops volume).store.directory? dir).isSome = true := by
  simp only [turns] at h
  split at h
  . exact h _ (List.mem_cons_self ..)
  . exact h _ (List.mem_cons_self ..)

theorem faithful_turns (hlinked : volume.store.Linked)
    (hroot : scan.atRoot = (scan.dir == rootId)) (hfinished : scan.finished = false)
    (hlive : StaysLive scan.dir (turns between scan volume)) :
    Faithful scan.dir scan.privateRoot scan.position (turns between scan volume) := by
  induction between generalizing scan volume with
  | nil => exact faithful_of_none (by simp [turns]) (by simp [turns])
  | cons ops between ih =>
    have hlinked' := linked_run ops hlinked
    obtain ⟨d, hdir⟩ := Option.isSome_iff_exists.mp hlive.head
    obtain ⟨parent, hwf, _⟩ := hlinked'.placed hdir
    cases turnCases hdir hwf hfinished between with
    | done next moves hend hhidden hturns =>
      rw [hturns]
      refine faithful_of_none
        (List.forall_mem_cons.mpr ⟨⟨rfl, hend⟩, found_of_finished hend⟩) ?_
      -- An entry that is still to come would have been shown.
      intro e hvisible hfirst hle hnotHidden _ hstays
      obtain ⟨hmem, hshown⟩ := shows_of_stays hdir hwf hroot hfinished hvisible hfirst hle hnotHidden
        (hstays _ (List.mem_cons_self ..))
      rw [hhidden e hmem] at hshown
      cases hshown
    | item rest later e moves hupTo hshown hhidden hturns =>
      rw [hturns] at hlive ⊢
      have hmoved := linked_withMoves hlinked' moves
      have hlater : (run ops volume).store.Later ((run ops volume).withMoves moves).store :=
        later_of_gain hlinked' (.of_objects_eq rfl rfl)
      have hrest := @ih _ (scan.moveBefore e.offset) hmoved hroot hfinished
        (List.forall_mem_cons.mp hlive).2
      exact hrest.cons hlinked' hdir hupTo hroot hfinished hshown hhidden fun turn hturn =>
        hlater.trans (later_turns hmoved turn hturn)

end Faithful

section Undisturbed

def shownEntries (dir : ObjectId) (privateRoot : Option ObjectId) (position : Nat) (d : Directory) :
    List DirEntry :=
  d.entries.filter fun e => Directory.firstOffset ≤ e.offset ∧ e.offset ≤ position
    ∧ e.visible = true ∧ ¬ Scan.IsHidden dir privateRoot e.name e.target

theorem shownEntries_eq (hroot : scan.atRoot = (scan.dir == rootId))
    (hwf : d.WellFormed scan.dir parent) :
    shownEntries scan.dir scan.privateRoot scan.position d =
      (d.upTo scan.position).filter (scan.shows d) := by
  rw [Directory.upTo, Directory.ordinary, List.filter_filter, List.filter_filter, shownEntries]
  refine List.filter_congr fun e he => ?_
  by_cases hfirst : Directory.firstOffset ≤ e.offset
  . have hshows := Scan.shows_iff hroot hwf (Directory.mem_ordinary he hfirst)
    by_cases hle : e.offset ≤ scan.position
    . simp [hfirst, hle, ← hshows]
    . simp [hle]
  . simp [hfirst]

theorem items_undisturbed (count : Nat)
    (hdir : volume.store.directory? scan.dir = some d) (hwf : d.WellFormed scan.dir parent)
    (hfinished : scan.finished = false) :
    items (turns (List.replicate count []) scan volume) =
      ((((d.upTo scan.position).filter (scan.shows d)).reverse).map (Scan.itemOf d)).take count := by
  induction count generalizing scan volume with
  | zero => rfl
  | succ count ih =>
    have hdir' : (run [] volume).store.directory? scan.dir = some d := hdir
    rw [List.replicate_succ]
    cases turnCases hdir' hwf hfinished (List.replicate count []) with
    | done next moves hend hhidden hturns =>
      have hnone : (d.upTo scan.position).filter (scan.shows d) = [] :=
        List.filter_eq_nil_iff.mpr fun e he => by simp [hhidden e he]
      rw [hturns, items_cons_none rfl, items_of_none (found_of_finished hend), hnone]
      rfl
    | item rest later e moves hupTo hshown hhidden hturns =>
      have hlater : later.filter (scan.shows d) = [] :=
        List.filter_eq_nil_iff.mpr fun e he => by simp [hhidden e he]
      have hbefore : d.upTo (scan.moveBefore e.offset).position = rest :=
        Directory.upTo_before hwf hupTo
      have hrest := @ih ((run [] volume).withMoves moves) (scan.moveBefore e.offset) hdir hwf
        hfinished
      rw [hturns, items_cons_some rfl, hrest, hbefore, hupTo, List.filter_append,
        List.filter_cons_of_pos hshown, hlater]
      simp
      rfl

end Undisturbed

end Volume

end AttrTree
