import AttrTree.Attribute.Access
import AttrTree.Proofs.Bulk

/-!
This module contains what a list of the attributes of an object has on a volume in order: the names of
all that have a value, each once and with a zero byte behind it.
-/

namespace AttrTree

def listed (names : List String) : Bytes :=
  names.flatMap fun name => EntryName.bytes name ++ [0]

theorem listed_concat (names : List String) (name : String) :
    listed (names ++ [name]) = listed names ++ (EntryName.bytes name ++ [0]) := by
  simp [listed]

theorem length_listed_concat (names : List String) (name : String) :
    (listed (names ++ [name])).length = (listed names).length + EntryName.size name + 1 := by
  rw [listed_concat, List.length_append, List.length_append, EntryName.length_bytes,
    List.length_singleton, Nat.add_assoc]

theorem EntryName.fill_of_length {name : String} {room : Bytes} (h : room.length = size name) :
    fill name room = bytes name := by
  rw [fill, h, ← length_bytes, List.take_length, Bytes.overlay_eq, List.take_zero, List.nil_append,
    Nat.zero_add, List.drop_of_length_le (by rw [length_bytes, h]), List.append_nil]

namespace Volume

structure Listing.Holds (listing : Listing) (names : List String) (buffer : Buffer) : Prop where
  length_eq : listing.length = (listed names).length
  isSome_eq : listing.buffer.isSome = buffer.isSome
  content : ∀ ⦃bytes⦄, buffer = some bytes → ∃ content, listing.buffer = some content
    ∧ content.length = bytes.length ∧ ((listed names).length ≤ bytes.length →
      content = listed names ++ bytes.drop (listed names).length)

theorem Listing.holds_nil (buffer : Buffer) : ({ buffer, length := 0 } : Listing).Holds [] buffer := by
  refine ⟨rfl, rfl, fun bytes hbytes => ⟨bytes, hbytes, rfl, fun _ => rfl⟩⟩

theorem Listing.Holds.add {listing : Listing} {names : List String} {buffer : Buffer}
    (h : listing.Holds names buffer) (name : String) :
    (listing.add (EntryName.size name) (EntryName.fill name)).Holds (names ++ [name]) buffer := by
  have hlength := length_listed_concat names name
  constructor
  . rw [hlength, ← h.length_eq]
    rfl
  . rw [← h.isSome_eq]
    simp [Listing.add]
  . intro bytes hbytes
    obtain ⟨content, hbuffer, hcontent, hfront⟩ := h.content hbytes
    by_cases hfits : (listed (names ++ [name])).length ≤ bytes.length
    . have hroom : listing.length + EntryName.size name + 1 ≤ content.length := by
        rw [h.length_eq, ← hlength, hcontent]
        exact hfits
      have hfill : EntryName.fill name ((content.drop listing.length).take (EntryName.size name)) =
          EntryName.bytes name := by
        apply EntryName.fill_of_length
        rw [List.length_take, List.length_drop]
        omega
      refine ⟨content.overlay listing.length (EntryName.bytes name ++ [0]), ?_, ?_, fun _ => ?_⟩
      . simp only [Listing.add, hbuffer, Option.map_some, if_pos hroom, hfill]
      . rw [Bytes.overlay_eq]
        simp only [List.length_append, List.length_take, List.length_drop, EntryName.length_bytes,
          List.length_singleton]
        omega
      . rw [hfront (by omega), Bytes.overlay_eq, h.length_eq, listed_concat, List.take_left,
          List.drop_append, List.drop_of_length_le (by omega), List.nil_append, List.drop_drop]
        simp
    . refine ⟨content, ?_, hcontent, fun hle => absurd hle hfits⟩
      have hroom : ¬ listing.length + EntryName.size name + 1 ≤ content.length := by
        rw [h.length_eq, ← hlength, hcontent]
        exact hfits
      simp only [Listing.add, hbuffer, Option.map_some, if_neg hroom]

def Lists (result : EStateM.Result Error (Volume MemStore × Buffer) Nat) (rest : Volume MemStore)
    (names : List String) (buffer : Buffer) : Prop :=
  match buffer with
  | none => result = .ok (listed names).length (rest, none)
  | some bytes =>
    if bytes.length < (listed names).length then
      ∃ err after, err.kind = .rangeTooSmall ∧ result = .error err (rest, after)
    else
      result = .ok (listed names).length (rest, some (listed names ++ bytes.drop (listed names).length))

theorem Listing.Holds.lists {listing : Listing} {names : List String} {buffer : Buffer}
    (h : listing.Holds names buffer) {rest : Volume MemStore}
    {result : EStateM.Result Error (Volume MemStore × Buffer) Nat}
    (hresult : result =
      if listing.overflows then .error listTooSmall (rest, listing.buffer)
      else .ok listing.length (rest, listing.buffer)) : Lists result rest names buffer := by
  rw [hresult]
  cases buffer with
  | none =>
    have hnone : listing.buffer = none := by
      simpa using h.isSome_eq
    simp [Lists, Listing.overflows, hnone, h.length_eq]
  | some bytes =>
    obtain ⟨content, hcontent, hlength, hfront⟩ := h.content rfl
    by_cases hfits : bytes.length < (listed names).length
    . simp only [Lists, hfits, if_true]
      refine ⟨listTooSmall, listing.buffer, rfl, ?_⟩
      simp [Listing.overflows, hcontent, hlength, h.length_eq, hfits]
    . simp [Lists, Listing.overflows, hcontent, h.length_eq, hfits,
        hfront (Nat.le_of_not_lt hfits)]

open Action MemStore

variable {volume now rest : Volume MemStore} {priv dir obj : ObjectId} {key : ObjectKey}
  {name n : String} {d : Directory} {e : DirEntry} {object : MemObject}

theorem Settled.listEntry_eq (h : volume.Settled priv) (hname : EntryName.size name ≠ 0)
    (hserved : (Registry.standard.resolve? name).isSome = true) (listing : Listing) :
    listEntry .standard volume name listing =
      listing.add (EntryName.size name) (EntryName.fill name) := by
  -- The handlers of the standard namespaces show all names that they serve.
  obtain ⟨link, hlink⟩ := Option.isSome_iff_exists.mp hserved
  have hmem : link ∈ Registry.standard.links := List.mem_of_find?_eq_some hlink
  have huser : volume.userEnabled = true := by
    simp [userEnabled, h.attributes_eq, h.user_eq]
  have hacl : volume.aclEnabled = true := by
    simp [aclEnabled, h.attributes_eq, h.acl_eq]
  have hsize : link.handler.listedSize volume name = EntryName.size name
      ∧ link.handler.fillListed volume name = EntryName.fill name := by
    simp only [Registry.standard, Registry.standardHandlers, List.mapIdx_cons, List.mapIdx_nil,
      List.mem_cons, List.not_mem_nil, or_false] at hmem
    rcases hmem with rfl | rfl | rfl | rfl | rfl
    all_goals
      constructor
      . simp [Handler.listedSize, Handler.isShown, Handler.trusted, Handler.security, huser, hacl]
      . funext room
        simp [Handler.fillListed, Handler.isShown, Handler.trusted, Handler.security, huser, hacl]
  simp [listEntry, hlink, hsize, hname]

theorem size_ne_zero (hvalid : isValidName name = true) : EntryName.size name ≠ 0 := by
  simp only [isValidName, Bool.not_eq_true', Bool.or_eq_false_iff] at hvalid
  intro hsize
  have hempty : name = "" := by
    simpa [EntryName.size] using hsize
  rw [hempty] at hvalid
  simp at hvalid

section ListDirectory

structure Listed (volume : Volume MemStore) (priv dir : ObjectId) (key : ObjectKey) (d : Directory)
    (buffer : Buffer) (position : Nat) (now : Volume MemStore) (listing : Listing) : Prop where
  becomes : volume.Becomes now priv (volume.store.attrValue? priv)
  attrDir_eq : now.store.attrDir? priv key = some dir
  directory_eq : now.store.directory? dir = some d
  later : ∃ later, d.ordinary = d.upTo position ++ later
    ∧ listing.Holds (later.reverse.map (·.name)) buffer

def AllServed (volume : Volume MemStore) (priv : ObjectId) (key : ObjectKey) : Prop :=
  ∀ ⦃n⦄, EntryName.isDots n = false → volume.store.attrValue? priv key n ≠ none →
    (Registry.standard.resolve? n).isSome = true

theorem Listed.visit {listing : Listing} {position : Nat} {buffer : Buffer} {front : List DirEntry}
    (h : volume.Listed priv dir key d buffer position now listing)
    (hserved : volume.AllServed priv key) (hupTo : d.upTo position = front ++ [e]) :
    volume.Listed priv dir key d buffer (e.offset - 1) now
      (listEntry .standard now e.name listing) := by
  have hsettled := h.becomes.settled
  have hmem : e ∈ d.ordinary := (Directory.mem_of_upTo hupTo).1
  obtain ⟨parent, _, value, hwf, _, hname, _, _, _, _, hvalue⟩ :=
    hsettled.entry h.attrDir_eq h.directory_eq hmem
  have hvalue' : volume.store.attrValue? priv key e.name ≠ none := by
    rw [← h.becomes.values_eq hname, hvalue]
    simp
  refine ⟨h.becomes, h.attrDir_eq, h.directory_eq, ?_⟩
  obtain ⟨later, heq, hholds⟩ := h.later
  refine ⟨e :: later, ?_, ?_⟩
  . rw [Directory.upTo_pred hwf hupTo, heq, hupTo, List.append_assoc]
    rfl
  . rw [hsettled.listEntry_eq (size_ne_zero (hwf.names_valid e hmem)) (hserved hname hvalue')]
    simpa using hholds.add e.name

theorem listing_loop (base : Volume MemStore) (buffer : Buffer)
    (hserved : volume.AllServed priv key) :
    LoopInvariant
      (fun item => modify fun (s : Volume MemStore × Listing) =>
        (s.1, listEntry .standard s.1 item.name s.2))
      (base.scanAt dir Directory.lastOffset)
      fun position s => volume.Listed priv dir key d buffer position s.1 s.2 := by
  constructor
  . intro position s h
    obtain ⟨parent, hwf, _⟩ := h.becomes.settled.tidy.linked.placed h.directory_eq
    exact ⟨d, parent, h.directory_eq, hwf⟩
  . intro position s h moves
    exact ⟨h.becomes.trans_same (h.becomes.settled.withMoves moves), h.attrDir_eq, h.directory_eq,
      h.later⟩
  . intro position s d' front e h hdirectory hupTo hhidden
    rw [h.becomes.settled.shows_eq_true h.attrDir_eq hdirectory (Directory.mem_of_upTo hupTo).1]
      at hhidden
    cases hhidden
  . intro position s d' front e h hdirectory hupTo _
    obtain rfl : d = d' := by
      have hsame : some d = some d' := h.directory_eq.symm.trans hdirectory
      injection hsame
    exact ⟨_, rfl, h.visit hserved hupTo⟩

theorem Settled.mem_names_iff (h : volume.Settled priv)
    (hdir : volume.store.attrDir? priv key = some dir)
    (hdirectory : volume.store.directory? dir = some d) :
    n ∈ d.ordinary.reverse.map (·.name) ↔
      EntryName.isDots n = false ∧ volume.store.attrValue? priv key n ≠ none := by
  rw [List.mem_map]
  constructor
  . rintro ⟨e, hmem, rfl⟩
    obtain ⟨_, _, value, _, _, hname, _, _, _, _, hvalue⟩ :=
      h.entry hdir hdirectory (List.mem_reverse.mp hmem)
    exact ⟨hname, by simp [hvalue]⟩
  . rintro ⟨hname, hvalue⟩
    rw [ne_eq, h.tidy.attrValue?_eq_none_iff hname, attrRecord?_of_attrDir? hdir] at hvalue
    obtain ⟨id, hchild⟩ := Option.ne_none_iff_exists'.mp hvalue
    obtain ⟨d', e, hdirectory', hmem, he, _⟩ := (h.tidy.linked.child?_eq_some_iff hname).mp hchild
    obtain rfl : d = d' := by
      have hsame : some d = some d' := hdirectory.symm.trans hdirectory'
      injection hsame
    exact ⟨e, List.mem_reverse.mpr hmem, he⟩

theorem Settled.listDirectory (h : volume.Settled priv)
    (hdir : volume.store.attrDir? priv key = some dir) (hserved : volume.AllServed priv key)
    (hlocks : volume.locks = .empty) (hbound : volume.store.nextId ≤ 2 ^ 63) (buffer : Buffer) :
    ∃ rest names listing, volume.Becomes rest priv (volume.store.attrValue? priv) ∧ names.Nodup
      ∧ (∀ n, n ∈ names ↔
        EntryName.isDots n = false ∧ volume.store.attrValue? priv key n ≠ none)
      ∧ listing.Holds names buffer
      ∧ listDirectory .standard dir (volume, { buffer, length := 0 }) =
        if listing.overflows then .error listTooSmall (rest, listing)
        else .ok listing.length (rest, listing) := by
  obtain ⟨_, d, parent, _, _, _, hdirectory, hwf, hnext, _⟩ := h.tidy.attrDir_entry hdir
  have hfree : volume.locks.lock? dir = some { held := [dir] } := by
    rw [hlocks]
    rfl
  have hstart : ({ volume with locks := { held := [dir] } } : Volume MemStore).Listed priv dir key d
      buffer Directory.lastOffset { volume with locks := { held := [dir] } }
      { buffer, length := 0 } := by
    refine ⟨.refl (h.withLocks _), hdir, hdirectory, [], ?_, Listing.holds_nil buffer⟩
    rw [Directory.upTo_lastOffset hwf (Nat.le_trans hnext hbound), List.append_nil]
  have hserved' : ({ volume with locks := { held := [dir] } } : Volume MemStore).AllServed priv key :=
    hserved
  obtain ⟨position, s, hrun, hend, hnil⟩ :=
    (listing_loop volume buffer hserved').forEachEntry hfree hstart
  obtain ⟨later, heq, hholds⟩ := hend.later
  rw [hnil d hend.directory_eq, List.nil_append] at heq
  subst heq
  refine ⟨s.1.unlockDirectory dir, _, s.2, hend.becomes.unlock hfree, ?_, fun n => ?_, hholds, ?_⟩
  . rw [List.map_reverse, List.nodup_reverse]
    exact hwf.names_nodup
  . exact h.mem_names_iff hdir hdirectory
  . rw [Volume.listDirectory, bind_apply, hrun]
    simp only [bind_apply, get_apply]
    split <;> rfl

end ListDirectory

section ListAttributes

theorem checkObject_of_enabled (henabled : volume.attributesEnabled = true)
    (hobject : volume.store.object? obj = some object) (hformat : object.format ≠ .legacy) :
    checkObject obj volume = .ok () volume := by
  simp [checkObject, henabled, onStore, focus, statWithAttributes_eq hobject hformat]

variable (h : volume.Settled priv) (hobject : volume.store.object? obj = some object)
  (hformat : object.format ≠ .legacy)
include h hobject hformat

theorem Settled.checkObject_eq : checkObject obj volume = .ok () volume :=
  checkObject_of_enabled h.attributes_eq hobject hformat

theorem Settled.listAttributes (hserved : volume.AllServed priv object.stat.key)
    (hlocks : volume.locks = .empty) (hbound : volume.store.nextId ≤ 2 ^ 63) (buffer : Buffer) :
    ∃ rest names, volume.Becomes rest priv (volume.store.attrValue? priv) ∧ names.Nodup
      ∧ (∀ n, n ∈ names ↔
        EntryName.isDots n = false ∧ volume.store.attrValue? priv object.stat.key n ≠ none)
      ∧ Lists (listAttributes .standard obj (volume, buffer)) rest names buffer := by
  have hcheck := h.checkObject_eq hobject hformat
  cases hdir : volume.store.attrDir? priv object.stat.key with
  | none =>
    obtain ⟨err, rest, herr, hopen, _, hbecomes⟩ :=
      h.openDirectory_absent hdir (show SetFlags.looking.allowsCreate = false from rfl)
    have hlisted : listedDirectory? obj volume = .ok none rest := by
      simp [listedDirectory?, hcheck, onStore, focus, stat_of_object? hobject, attempt, hopen, herr]
    refine ⟨rest, [], hbecomes, List.nodup_nil, fun n => ?_, ?_⟩
    . simp [attrValue?, attrRecord?, hdir]
    . cases buffer <;>
        simp [Lists, listed, Volume.listAttributes, onFirst, hlisted]
  | some dir =>
    have hopen := openDirectory_found ((h.directory?_eq object.stat.key).trans hdir) .looking
    have hlisted : listedDirectory? obj volume =
        .ok (some dir) (volume.opened object.stat.key dir) := by
      simp [listedDirectory?, hcheck, onStore, focus, stat_of_object? hobject, attempt, hopen]
    have hopened := h.opened hdir
    obtain ⟨rest, names, listing, hbecomes, hnodup, hnames, hholds, hrun⟩ :=
      hopened.settled.listDirectory (by rw [store_opened, hdir])
        (by rw [AllServed, store_opened]; exact hserved) (hopened.locks_eq.trans hlocks)
        (by rw [store_opened]; exact hbound) buffer
    rw [store_opened] at hnames
    refine ⟨rest, names, hopened.trans_same hbecomes, hnodup, hnames, ?_⟩
    have hresult : Volume.listAttributes .standard obj (volume, buffer) =
        if listing.overflows then .error listTooSmall (rest, listing.buffer)
        else .ok listing.length (rest, listing.buffer) := by
      cases hover : listing.overflows <;>
        simp [Volume.listAttributes, onFirst, hlisted, focus, hrun, hover]
    exact hholds.lists hresult

end ListAttributes

end Volume

end AttrTree
