import AttrTree.Proofs.Deletion
import AttrTree.Proofs.Surveying

/-!
This module contains what a list of attributes leaves in a buffer of any size, whatever has been put into
the directory of the object. The room of a name that does not fit is counted like that of the others, so the names
behind it do not fit either: what is written is the longest front of the list that there is room for.
-/

namespace AttrTree

variable {names front : List String} {name : String} {room : Nat}

theorem length_listed (names : List String) :
    (listed names).length = (names.map fun name => EntryName.size name + 1).sum := by
  induction names with
  | nil => rfl
  | cons name names ih =>
    rw [List.map_cons, List.sum_cons, ← ih]
    simp only [listed, List.flatMap_cons, List.length_append, EntryName.length_bytes, List.length_singleton]

structure IsLongestFitting (room : Nat) (names front : List String) : Prop where
  begins : front <+: names
  fits : (listed front).length ≤ room
  longest : ∀ front', front' <+: names → (listed front').length ≤ room → front' <+: front

theorem isLongestFitting_self (h : (listed names).length ≤ room) : IsLongestFitting room names names :=
  ⟨List.prefix_rfl, h, fun _ hfront _ => hfront⟩

theorem IsLongestFitting.unique {front' : List String} (h : IsLongestFitting room names front)
    (h' : IsLongestFitting room names front') : front = front' := by
  have hle := h'.longest front h.begins h.fits
  have hge := h.longest front' h'.begins h'.fits
  exact hle.eq_of_length (Nat.le_antisymm hle.length_le hge.length_le)

theorem IsLongestFitting.concat (h : IsLongestFitting room names front)
    (hmisfit : room < (listed (names ++ [name])).length) : IsLongestFitting room (names ++ [name]) front := by
  -- Behind a name that does not fit there is nothing more.
  refine ⟨h.begins.trans (List.prefix_append ..), h.fits, fun front' hfront hsize => ?_⟩
  obtain rfl | hfront := List.prefix_concat_iff.mp hfront
  . omega
  . exact h.longest front' hfront hsize

namespace Volume

structure Listing.Fills (listing : Listing) (names : List String) (buffer : Buffer) : Prop
    extends listing.Holds names buffer where
  front : ∀ ⦃bytes⦄, buffer = some bytes → ∃ front, IsLongestFitting bytes.length names front
    ∧ listing.buffer = some (AttrTree.listed front ++ bytes.drop (AttrTree.listed front).length)

theorem Listing.fills_nil (buffer : Buffer) : ({ buffer, length := 0 } : Listing).Fills [] buffer where
  toHolds := Listing.holds_nil buffer
  front _ hbytes := ⟨[], isLongestFitting_self (Nat.zero_le _), hbytes⟩

theorem Listing.Fills.add {listing : Listing} {buffer : Buffer} (h : listing.Fills names buffer) (name : String) :
    (listing.add (EntryName.size name) (EntryName.fill name)).Fills (names ++ [name]) buffer where
  toHolds := h.toHolds.add name
  front := by
    intro bytes hbytes
    by_cases hfits : (AttrTree.listed (names ++ [name])).length ≤ bytes.length
    . obtain ⟨content, hbuffer, _, hcontent⟩ := (h.toHolds.add name).content hbytes
      exact ⟨names ++ [name], isLongestFitting_self hfits, by rw [hbuffer, hcontent hfits]⟩
    . rw [Nat.not_le] at hfits
      obtain ⟨front, hlongest, hfront⟩ := h.front hbytes
      obtain ⟨content, hbuffer, hlength, _⟩ := h.content hbytes
      have hroom : ¬ listing.length + EntryName.size name + 1 ≤ content.length := by
        rw [h.length_eq, ← length_listed_concat, hlength]
        omega
      refine ⟨front, hlongest.concat hfits, ?_⟩
      rw [← hfront, Listing.add, hbuffer, Option.map_some, if_neg hroom]

def ListsFitting (result : EStateM.Result Error (Volume MemStore × Buffer) Nat) (rest : Volume MemStore)
    (names : List String) (buffer : Buffer) : Prop :=
  let size := (names.map fun name => EntryName.size name + 1).sum
  match buffer with
  | none => result = .ok size (rest, none)
  | some bytes =>
    if size ≤ bytes.length then
      result = .ok size (rest, some (AttrTree.listed names ++ bytes.drop size))
    else
      ∃ front, IsLongestFitting bytes.length names front
        ∧ result = .error listTooSmall
          (rest, some (AttrTree.listed front ++ bytes.drop (AttrTree.listed front).length))

theorem Listing.Fills.listsFitting {listing : Listing} {buffer : Buffer} (h : listing.Fills names buffer)
    {rest : Volume MemStore} {result : EStateM.Result Error (Volume MemStore × Buffer) Nat}
    (hresult : result =
      if listing.overflows then .error listTooSmall (rest, listing.buffer)
      else .ok listing.length (rest, listing.buffer)) : ListsFitting result rest names buffer := by
  unfold ListsFitting
  rw [hresult, ← length_listed]
  cases buffer with
  | none =>
    have hnone : listing.buffer = none := by
      simpa using h.isSome_eq
    simp [Listing.overflows, hnone, h.length_eq]
  | some bytes =>
    obtain ⟨content, hcontent, hlength, hall⟩ := h.content rfl
    by_cases hfits : (AttrTree.listed names).length ≤ bytes.length
    . simp [Listing.overflows, hcontent, h.length_eq, hall hfits, hfits, Nat.not_lt.mpr hfits]
    . obtain ⟨front, hlongest, hfront⟩ := h.front rfl
      rw [Nat.not_le] at hfits
      have hoverflows : listing.overflows = true := by
        simp [Listing.overflows, hcontent, h.length_eq, hlength, hfits]
      simp only [Nat.not_le.mpr hfits, if_false]
      exact ⟨front, hlongest, by rw [hoverflows, if_pos rfl, hfront]⟩

open Action MemStore

variable {volume now base : Volume MemStore} {root dir obj parent : ObjectId} {key : ObjectKey} {d : Directory}
  {e : DirEntry} {object : MemObject} {position : Nat} {entries : List DirEntry}

def shownNames (volume : Volume MemStore) (entries : List DirEntry) : List String :=
  ((entries.filter (·.visible)).reverse.map (·.name)).filter volume.lists

theorem shownNames_cons (volume : Volume MemStore) (e : DirEntry) (entries : List DirEntry) :
    volume.shownNames (e :: entries) =
      volume.shownNames entries ++ if e.visible && volume.lists e.name then [e.name] else [] := by
  unfold shownNames
  cases hvisible : e.visible with
  | false => simp [hvisible]
  | true => cases hlists : volume.lists e.name <;> simp [hvisible, hlists]

section ListDirectory

structure Filled (base : Volume MemStore) (d : Directory) (buffer : Buffer) (position : Nat)
    (now : Volume MemStore) (listing : Listing) : Prop where
  same : ∃ moves, now = base.withMoves moves
  later : ∃ later, d.ordinary = d.upTo position ++ later ∧ listing.Fills (base.shownNames later) buffer

theorem Filled.visit {listing : Listing} {buffer : Buffer} {front : List DirEntry}
    (h : base.Filled d buffer position now listing) (hwf : d.WellFormed dir parent)
    (hupTo : d.upTo position = front ++ [e]) :
    base.Filled d buffer (e.offset - 1) now
      (if e.visible then listEntry .standard now e.name listing else listing) := by
  obtain ⟨later, heq, hfills⟩ := h.later
  refine ⟨h.same, e :: later, ?_, ?_⟩
  . rw [Directory.upTo_pred hwf hupTo, heq, hupTo, List.append_assoc]
    rfl
  . obtain ⟨moves, rfl⟩ := h.same
    have hlists : (base.withMoves moves).lists = base.lists := lists_congr rfl
    rw [listEntry_eq (hwf.names_valid e (Directory.mem_of_upTo hupTo).1), hlists, shownNames_cons]
    cases hvisible : e.visible with
    | false => simpa using hfills
    | true =>
      cases hshown : base.lists e.name with
      | false => simpa using hfills
      | true => simpa using hfills.add e.name

theorem filling_loop (hdir : base.store.directory? dir = some d) (hwf : d.WellFormed dir parent)
    (hne : dir ≠ rootId) (volume : Volume MemStore) (buffer : Buffer) :
    LoopInvariant
      (fun item => modify fun (s : Volume MemStore × Listing) =>
        (s.1, listEntry .standard s.1 item.name s.2))
      (volume.scanAt dir Directory.lastOffset)
      fun position s => base.Filled d buffer position s.1 s.2 := by
  have hsame {position : Nat} {s : Volume MemStore × Listing} (h : base.Filled d buffer position s.1 s.2) :
      s.1.store.directory? dir = some d := by
    obtain ⟨moves, heq⟩ := h.same
    rw [heq]
    exact hdir
  have hshows {e : DirEntry} (he : e ∈ d.ordinary) :
      (volume.scanAt dir Directory.lastOffset).shows d e = e.visible := by
    have hiff := @Scan.shows_iff (volume.scanAt dir Directory.lastOffset) _ _ _ rfl hwf he
    rw [Bool.eq_iff_iff, hiff]
    exact and_iff_left fun hhidden => hne hhidden.1
  constructor
  . exact fun position s h => ⟨d, parent, hsame h, hwf⟩
  . intro position s h moves
    obtain ⟨_, heq⟩ := h.same
    exact ⟨⟨moves, by rw [heq]; rfl⟩, h.later⟩
  . intro position s d' front e h hdirectory hupTo hhidden
    obtain rfl : d = d' := Option.some.inj ((hsame h).symm.trans hdirectory)
    rw [hshows (Directory.mem_of_upTo hupTo).1] at hhidden
    have hnext := h.visit hwf hupTo
    rwa [hhidden, if_neg Bool.false_ne_true] at hnext
  . intro position s d' front e h hdirectory hupTo hshown
    obtain rfl : d = d' := Option.some.inj ((hsame h).symm.trans hdirectory)
    rw [hshows (Directory.mem_of_upTo hupTo).1] at hshown
    have hnext := h.visit hwf hupTo
    rw [hshown, if_pos rfl] at hnext
    exact ⟨_, rfl, hnext⟩

theorem listDirectory_fills (hunlocked : volume.IsUnlocked) (hdir : volume.store.directory? dir = some d)
    (hwf : d.WellFormed dir parent) (hne : dir ≠ rootId) (hbound : d.nextOffset ≤ 2 ^ 63) (buffer : Buffer) :
    ∃ rest listing, listing.Fills (volume.shownNames d.ordinary) buffer
      ∧ listDirectory .standard dir (volume, { buffer, length := 0 }) =
        if listing.overflows then .error listTooSmall (rest, listing)
        else .ok listing.length (rest, listing) := by
  have hfree : volume.locks.lock? dir = some { held := [dir] } := by
    rw [hunlocked]
    rfl
  let locked : Volume MemStore := { volume with locks := { held := [dir] } }
  have hstart : locked.Filled d buffer Directory.lastOffset locked { buffer, length := 0 } := by
    refine ⟨⟨locked.store.pendingMoves, rfl⟩, [], ?_, Listing.fills_nil buffer⟩
    rw [Directory.upTo_lastOffset hwf hbound, List.append_nil]
  obtain ⟨position, s, hrun, hend, hnil⟩ :=
    (filling_loop (show locked.store.directory? dir = some d from hdir) hwf hne volume buffer).forEachEntry hfree
      hstart
  obtain ⟨later, heq, hfills⟩ := hend.later
  obtain ⟨moves, hmoves⟩ := hend.same
  rw [hnil d (by rw [hmoves]; exact hdir), List.nil_append] at heq
  subst heq
  refine ⟨s.1.unlockDirectory dir, s.2, hfills, ?_⟩
  rw [Volume.listDirectory, bind_apply, hrun]
  simp only [bind_apply, get_apply]
  split <;> rfl

end ListDirectory

section ListAttributes

/-- The entries that `listAttributes` goes through. A scan begins at `Directory.lastOffset`, so with
`nextOffset ≤ 2 ^ 63` none lies behind it. -/
inductive HasAttrEntries (volume : Volume MemStore) (key : ObjectKey) : List DirEntry → Prop
  | directory {root dir : ObjectId} {d : Directory} (hroot : volume.attrRoot? = some root)
    (hchild : volume.store.child? root key.text = some dir) (hdir : volume.store.directory? dir = some d)
    (hbound : d.nextOffset ≤ 2 ^ 63) : HasAttrEntries volume key d.ordinary
  | noDirectory {root : ObjectId} {d : Directory} (hroot : volume.attrRoot? = some root)
    (hdir : volume.store.directory? root = some d) (hfree : d.find? key.text = none) : HasAttrEntries volume key []
  | noAttrRoot {priv : ObjectId} {d : Directory} (hpriv : volume.privateRoot = some priv)
    (hroot : volume.attrRoot = none) (hdir : volume.store.directory? priv = some d)
    (hfree : d.find? attrRootName = none) : HasAttrEntries volume key []

theorem options_opened (volume : Volume MemStore) (key : ObjectKey) (dir : ObjectId) :
    (volume.opened key dir).options = volume.options := by
  unfold opened
  split <;> rfl

theorem Coherent.get?_eq_none (h : volume.Coherent)
    (hchild : ∀ root, volume.attrRoot = some root → volume.store.child? root key.text = none) :
    (volume.cache.get? key).1 = none := by
  cases hcache : (volume.cache.get? key).1 with
  | none => rfl
  | some dir =>
    obtain ⟨_, root, hroot, hknown⟩ := h.2.of_get? hcache
    rw [hchild root hroot] at hknown
    cases hknown

theorem HasAttrEntries.listedDirectory? (h : volume.HasAttrEntries object.stat.key entries)
    (hcoherent : volume.Coherent) (henabled : volume.attributesEnabled = true)
    (hobject : volume.store.object? obj = some object) (hformat : object.format ≠ .legacy) :
    (entries = [] ∧ ∃ rest, Volume.listedDirectory? obj volume = .ok none rest)
      ∨ ∃ root dir d, entries = d.ordinary ∧ d.nextOffset ≤ 2 ^ 63
        ∧ volume.store.child? root object.stat.key.text = some dir ∧ volume.store.directory? dir = some d
        ∧ Volume.listedDirectory? obj volume = .ok (some dir) (volume.opened object.stat.key dir) := by
  have hcheck := checkObject_of_enabled henabled hobject hformat
  have hlisted {result : EStateM.Result Error (Volume MemStore) ObjectId}
      (hopen : openDirectory object.stat .looking volume = result) :
      Volume.listedDirectory? obj volume =
        match result with
        | .ok dir rest => .ok (some dir) rest
        | .error err rest => if err.isNoAttribute then .ok none rest else .error err rest := by
    simp only [Volume.listedDirectory?, bind_apply, hcheck, onStore, focus, stat_of_object? hobject, attempt, hopen]
    cases result with
    | ok dir rest => rfl
    | error err rest =>
      dsimp only
      split <;> rfl
  cases h with
  | @directory root dir d hroot hchild hdir hbound =>
    have hopen := openDirectory_found (hcoherent.directory?_eq hroot hchild) .looking
    exact .inr ⟨root, dir, d, rfl, hbound, hchild, hdir, hlisted hopen⟩
  | @noDirectory root d hroot hdir hfree =>
    have hcache : (volume.cache.get? object.stat.key).1 = none := by
      refine hcoherent.get?_eq_none fun known hknown => ?_
      rw [eq_of_attrRoot? hroot hknown, child?_of_directory? hdir, hfree]
      rfl
    exact .inl ⟨rfl, _, hlisted (openDirectory_noDirectory hcache hroot hdir hfree rfl)⟩
  | @noAttrRoot priv d hpriv hroot hdir hfree =>
    have hcache : (volume.cache.get? object.stat.key).1 = none := by
      refine hcoherent.get?_eq_none fun known hknown => ?_
      rw [hroot] at hknown
      cases hknown
    exact .inl ⟨rfl, _, hlisted (openDirectory_noAttrRoot hcache hpriv hroot hdir hfree rfl)⟩

variable {pageSize : Nat} {format : ObjectFormat} {hpage : Record.headerSize < pageSize}
  {options : MountOptions} {capacity : Nat} {ops : List Op}

theorem listAttributes_fills
    (hspares : SparesEntries ops (initial pageSize format hpage options capacity))
    (hrun : run ops (initial pageSize format hpage options capacity) = volume)
    (henabled : volume.attributesEnabled = true) (hobject : volume.store.object? obj = some object)
    (hformat : object.format ≠ .legacy) (hentries : volume.HasAttrEntries object.stat.key entries)
    (buffer : Buffer) :
    let names := ((entries.filter (·.visible)).reverse.map (·.name)).filter volume.lists
    ∃ rest, ListsFitting (listAttributes .standard obj (volume, buffer)) rest names buffer := by
  intro names
  have hlinked : volume.store.Linked := hrun ▸ linked_run ops (linked_empty ..)
  have hcoherent : volume.Coherent := hrun ▸ (run_uncached coherent_initial hspares).2.2
  have hunlocked : volume.IsUnlocked := hrun ▸ isUnlocked_run ops rfl
  obtain ⟨rfl, rest, hlisted⟩ | ⟨root, dir, d, rfl, hbound, hchild, hdir, hlisted⟩ :=
    hentries.listedDirectory? hcoherent henabled hobject hformat
  . refine ⟨rest, (Listing.fills_nil buffer).listsFitting ?_⟩
    have hfits : ({ buffer, length := 0 } : Listing).overflows = false := by
      cases buffer <;> simp [Listing.overflows]
    rw [hfits]
    simp [Volume.listAttributes, onFirst, hlisted]
  . obtain ⟨_, hwf, _⟩ := hlinked.placed hdir
    have hne : dir ≠ rootId := by
      rintro rfl
      exact hlinked.child?_ne_root hdir object.stat.key.isDots_text hchild
    obtain ⟨rest, listing, hfills, hrun⟩ := @listDirectory_fills (volume.opened object.stat.key dir) _ _ _
      ((locks_opened ..).trans hunlocked) ((store_opened ..).symm ▸ hdir) hwf hne hbound buffer
    have hnames : (volume.opened object.stat.key dir).shownNames d.ordinary = names := by
      rw [shownNames, lists_congr (options_opened ..)]
    rw [hnames] at hfills
    refine ⟨rest, hfills.listsFitting ?_⟩
    cases hover : listing.overflows <;>
      simp [Volume.listAttributes, onFirst, hlisted, focus, hrun, hover]

theorem listAttributes_fills_crowded :
    let volume := run crowded (initial 16 .current (by decide) .optional 64)
    SparesEntries crowded (initial 16 .current (by decide) .optional 64) ∧ volume.attributesEnabled = true
      ∧ volume.store.pendingMoves = 2
      ∧ ∃ rest, listAttributes .standard 3 (volume, some (List.replicate 10 0xee)) =
        .error listTooSmall (rest, some (EntryName.bytes "user.c" ++ [0, 0xee, 0xee, 0xee])) := by
  intro volume
  have hspares : SparesEntries crowded (initial 16 .current (by decide) .optional 64) := by
    refine sparesEntries_of_all (linked_empty ..) ?_
    simp [crowded, Op.All, MemStore.Op.SparesDirectory]
  have henabled : volume.attributesEnabled = true := by decide +kernel
  have hmoves : volume.store.pendingMoves = 2 := by decide +kernel
  have hroot : volume.attrRoot? = some 4 := by decide +kernel
  obtain ⟨object, hobject⟩ := Option.isSome_iff_exists.mp
    (show (volume.store.object? 3).isSome = true by decide +kernel)
  obtain ⟨d, hdir⟩ := Option.isSome_iff_exists.mp
    (show (volume.store.directory? 5).isSome = true by decide +kernel)
  have hfacts : (volume.store.object? 3).all (fun object => object.format ≠ .legacy
      ∧ volume.store.child? 4 object.stat.key.text = some 5) = true := by
    decide +kernel
  have hentries : (volume.store.directory? 5).all (fun d => d.nextOffset ≤ 2 ^ 63
      ∧ ((d.ordinary.filter (·.visible)).reverse.map (·.name)).filter volume.lists =
        ["user.c", "user.b", "user.a"]) = true := by
    decide +kernel
  rw [hobject, Option.all_some, decide_eq_true_eq] at hfacts
  rw [hdir, Option.all_some, decide_eq_true_eq] at hentries
  obtain ⟨hformat, hchild⟩ := hfacts
  obtain ⟨hbound, hnames⟩ := hentries
  obtain ⟨rest, hlist⟩ := listAttributes_fills hspares rfl henabled hobject hformat
    (.directory hroot hchild hdir hbound) (some (List.replicate 10 0xee))
  rw [hnames] at hlist
  obtain ⟨front, hfront, hresult⟩ := hlist
  have hone : IsLongestFitting 10 ["user.c"] ["user.c"] := isLongestFitting_self (by decide +kernel)
  have htwo : IsLongestFitting 10 ["user.c", "user.b"] ["user.c"] := hone.concat (by decide +kernel)
  obtain rfl := hfront.unique (htwo.concat (by decide +kernel))
  exact ⟨hspares, henabled, hmoves, rest, hresult⟩

end ListAttributes

end Volume

end AttrTree
