import AttrTree.Proofs.Answering

/-!
This module contains what the calls on all attributes of an object answer on an intact volume: the list of
its names, their removal and their change of owner. All of them go through the book from its end.
-/

namespace AttrTree

open Action MemStore

namespace Volume

variable {volume now rest : Volume MemStore} {priv dir obj : ObjectId} {key : ObjectKey}
  {object : MemObject} {name : String} {buffer : Buffer} {d : Directory} {e : DirEntry}
  {books : ObjectKey → Book} {position : Nat} {change : AttrChange}

section Locks

theorem Intact.withLocks (h : volume.Intact priv) (locks : DirLocks) :
    ({ volume with locks } : Volume MemStore).Intact priv :=
  ⟨h.settled.withLocks locks, h.names⟩

theorem Revises.unlock {locks : DirLocks}
    (h : ({ volume with locks } : Volume MemStore).Revises now priv books)
    (hfree : volume.locks.lock? dir = some locks) :
    volume.Revises (now.unlockDirectory dir) priv books := by
  refine ⟨h.intact.withLocks _, h.book_eq, ?_, h.options_eq, h.outside, h.quiet⟩
  rw [unlockDirectory, h.locks_eq]
  exact DirLocks.unlock_of_lock? hfree

theorem Intact.shows_eq_true (h : volume.Intact priv)
    (hdir : volume.store.attrDir? priv key = some dir)
    (hdirectory : volume.store.directory? dir = some d) (hmem : e ∈ d.ordinary)
    (base : Volume MemStore) : (base.scanAt dir Directory.lastOffset).shows d e = true :=
  h.settled.shows_eq_true ((attrDir?_mended ..).trans hdir)
    ((MemStore.directory?_mended ..).trans hdirectory)
    hmem base

end Locks

section List

def lists (volume : Volume MemStore) (name : String) : Bool :=
  (Registry.standard.resolve? name).any fun link => link.handler.isShown volume

def listedNames (volume : Volume MemStore) (book : Book) : List String :=
  book.names.reverse.filter volume.lists

def namesAnswer (names : List String) (buffer : Buffer) : Except Error (Nat × Buffer) :=
  let content := listed names
  match buffer with
  | none => .ok (content.length, none)
  | some bytes =>
    if bytes.length < content.length then .error listTooSmall
    else .ok (content.length, some (content ++ bytes.drop content.length))

def listAnswer (volume : Volume MemStore) (books : Except Error (ObjectKey → Book)) (obj : ObjectId)
    (buffer : Buffer) : Except Error (Nat × Buffer) := do
  let subject ← volume.checkedSubject obj
  namesAnswer (volume.listedNames ((← books) subject.key)) buffer

theorem lists_congr {volume' : Volume MemStore} (h : volume'.options = volume.options) :
    volume'.lists = volume.lists := by
  funext name
  simp only [lists, Handler.isShown_congr h]

theorem listEntry_eq (hvalid : isValidName name = true) (listing : Listing) :
    listEntry .standard volume name listing =
      if volume.lists name then listing.add (EntryName.size name) (EntryName.fill name)
      else listing := by
  -- A name that no handler serves is passed over like one that is not shown.
  have hsize := size_ne_zero hvalid
  cases hlink : Registry.standard.resolve? name with
  | none => simp [listEntry, lists, hlink]
  | some link =>
    have hlisted : link.handler.listedSize volume name =
          (if link.handler.isShown volume then EntryName.size name else 0)
        ∧ (link.handler.isShown volume = true →
          link.handler.fillListed volume name = EntryName.fill name) := by
      obtain heq | ⟨start, heq⟩ | ⟨kind, heq⟩ := Registry.handler_cases hlink
      all_goals
        rw [heq]
        refine ⟨rfl, fun hshown => funext fun room => ?_⟩
        simp [Handler.fillListed, hshown]
    cases hshown : link.handler.isShown volume with
    | true => simp [listEntry, lists, hlink, hlisted, hshown, hsize]
    | false => simp [listEntry, lists, hlink, hlisted, hshown]

structure Surveyed (volume : Volume MemStore) (priv dir : ObjectId) (key : ObjectKey) (d : Directory)
    (buffer : Buffer) (position : Nat) (now : Volume MemStore) (listing : Listing) : Prop where
  revises : volume.Revises now priv (volume.store.book priv)
  attrDir_eq : now.store.attrDir? priv key = some dir
  directory_eq : now.store.directory? dir = some d
  later : ∃ later, d.ordinary = d.upTo position ++ later
    ∧ listing.Holds ((later.reverse.map (·.name)).filter volume.lists) buffer

theorem Surveyed.visit {listing : Listing} {front : List DirEntry}
    (h : volume.Surveyed priv dir key d buffer position now listing)
    (hupTo : d.upTo position = front ++ [e]) :
    volume.Surveyed priv dir key d buffer (e.offset - 1) now
      (listEntry .standard now e.name listing) := by
  have hintact := h.revises.intact
  have hmem : e ∈ d.ordinary := (Directory.mem_of_upTo hupTo).1
  obtain ⟨_, hwf, _⟩ := hintact.linked.placed h.directory_eq
  refine ⟨h.revises, h.attrDir_eq, h.directory_eq, ?_⟩
  obtain ⟨later, heq, hholds⟩ := h.later
  refine ⟨e :: later, ?_, ?_⟩
  . rw [Directory.upTo_pred hwf hupTo, heq, hupTo, List.append_assoc]
    rfl
  . rw [listEntry_eq (hwf.names_valid e hmem), lists_congr h.revises.options_eq, List.reverse_cons, List.map_append,
      List.filter_append]
    cases hshown : volume.lists e.name with
    | true => simpa [hshown] using hholds.add e.name
    | false => simpa [hshown] using hholds

theorem survey_loop (volume base : Volume MemStore) (buffer : Buffer) :
    LoopInvariant
      (fun item => modify fun (s : Volume MemStore × Listing) =>
        (s.1, listEntry .standard s.1 item.name s.2))
      (base.scanAt dir Directory.lastOffset)
      fun position s => volume.Surveyed priv dir key d buffer position s.1 s.2 := by
  constructor
  . intro position s h
    obtain ⟨parent, hwf, _⟩ := h.revises.intact.linked.placed h.directory_eq
    exact ⟨d, parent, h.directory_eq, hwf⟩
  . intro position s h moves
    exact ⟨h.revises.trans_same (h.revises.intact.withMoves moves), h.attrDir_eq, h.directory_eq,
      h.later⟩
  . intro position s d' front e h hdirectory hupTo hhidden
    rw [h.revises.intact.shows_eq_true h.attrDir_eq hdirectory (Directory.mem_of_upTo hupTo).1]
      at hhidden
    cases hhidden
  . intro position s d' front e h hdirectory hupTo _
    obtain rfl : d = d' := Option.some.inj (h.directory_eq.symm.trans hdirectory)
    exact ⟨_, rfl, h.visit hupTo⟩

theorem Intact.listDirectory (h : volume.Intact priv)
    (hdir : volume.store.attrDir? priv key = some dir) (hlocks : volume.locks = .empty)
    (hbound : volume.store.nextId ≤ 2 ^ 63) (buffer : Buffer) :
    ∃ rest listing, volume.Revises rest priv (volume.store.book priv)
      ∧ listing.Holds (volume.listedNames (volume.store.book priv key)) buffer
      ∧ listDirectory .standard dir (volume, { buffer, length := 0 }) =
        if listing.overflows then .error listTooSmall (rest, listing)
        else .ok listing.length (rest, listing) := by
  obtain ⟨_, d, parent, _, _, _, hdirectory, hwf, hnext, _⟩ := h.attrDir_entry hdir
  have hfree : volume.locks.lock? dir = some { held := [dir] } := by
    rw [hlocks]
    rfl
  have hstart : ({ volume with locks := { held := [dir] } } : Volume MemStore).Surveyed priv dir key d
      buffer Directory.lastOffset { volume with locks := { held := [dir] } }
      { buffer, length := 0 } := by
    refine ⟨.refl (h.withLocks _), hdir, hdirectory, [], ?_, Listing.holds_nil buffer⟩
    rw [Directory.upTo_lastOffset hwf (Nat.le_trans hnext hbound), List.append_nil]
  obtain ⟨position, s, hrun, hend, hnil⟩ :=
    (survey_loop _ volume buffer).forEachEntry hfree hstart
  obtain ⟨later, heq, hholds⟩ := hend.later
  rw [hnil d hend.directory_eq, List.nil_append] at heq
  subst heq
  have hnames : volume.listedNames (volume.store.book priv key) =
      (d.ordinary.reverse.map (·.name)).filter volume.lists := by
    rw [listedNames, book_of_some hdir hdirectory, names_bookOf, List.map_reverse]
  refine ⟨s.1.unlockDirectory dir, s.2, hend.revises.unlock hfree, hnames ▸ hholds, ?_⟩
  rw [Volume.listDirectory, bind_apply, hrun]
  simp only [bind_apply, get_apply]
  split <;> rfl

theorem Yields.of_lists {act : Action (Volume MemStore × Buffer) Nat} {names : List String}
    (hrevises : volume.Revises rest priv (volume.store.book priv))
    (hlists : Lists (act (volume, buffer)) rest names buffer) :
    volume.Yields priv (volume.store.book priv) (act.answering buffer volume)
      (namesAnswer names buffer) := by
  cases buffer with
  | none =>
    rw [answering_of_ok (show act (volume, none) = .ok _ (rest, none) from hlists)]
    exact .done hrevises
  | some bytes =>
    simp only [Lists] at hlists
    unfold namesAnswer
    split at hlists
    . next hsmall =>
      obtain ⟨err, _, hkind, hrun⟩ := hlists
      rw [answering_of_error hrun]
      simp only [hsmall, if_true]
      exact .refused hkind hrevises
    . next hfits =>
      rw [answering_of_ok hlists]
      simp only [hfits, if_false]
      exact .done hrevises

theorem Intact.lists_listAttributes (h : volume.Intact priv) (hlocks : volume.locks = .empty)
    (hbound : volume.store.nextId ≤ 2 ^ 63) {subject : Subject}
    (hchecked : volume.checkedSubject obj = .ok subject) (buffer : Buffer) :
    ∃ rest, volume.Revises rest priv (volume.store.book priv)
      ∧ Lists (listAttributes .standard obj (volume, buffer)) rest
        (volume.listedNames (volume.store.book priv subject.key)) buffer := by
  have hcheck := checkObject_checkedSubject volume obj
  rw [hchecked] at hcheck
  obtain ⟨_, object, hobject, _, rfl⟩ := checkedSubject_eq_ok_iff.mp hchecked
  have hkey : object.subject.key = object.stat.key := rfl
  rw [hkey]
  cases hdir : volume.store.attrDir? priv object.stat.key with
  | none =>
    obtain ⟨err, rest, herr, hopen, hrevises⟩ :=
      h.openDirectory_absent hdir (show SetFlags.looking.allowsCreate = false from rfl)
    have habsent : err.isNoAttribute = true := by
      simpa [Error.isNoAttribute] using herr
    have hlisted : listedDirectory? obj volume = .ok none rest := by
      simp [listedDirectory?, hcheck, onStore, focus, stat_of_object? hobject, attempt, hopen,
        habsent]
    refine ⟨rest, hrevises, ?_⟩
    rw [book_of_none hdir]
    cases buffer <;>
      simp [Lists, listedNames, Book.names, listed, Volume.listAttributes, onFirst, hlisted]
  | some dir =>
    have hopen := h.openDirectory_found hdir .looking
    have hlisted : listedDirectory? obj volume =
        .ok (some dir) (volume.opened object.stat.key dir) := by
      simp [listedDirectory?, hcheck, onStore, focus, stat_of_object? hobject, attempt, hopen]
    have hopened := h.opened hdir
    obtain ⟨rest, listing, hrevises, hholds, hrun⟩ := hopened.intact.listDirectory
      (by rw [store_opened, hdir]) (hopened.locks_eq.trans hlocks) (by rw [store_opened]; exact hbound)
      buffer
    rw [listedNames, lists_congr hopened.options_eq, ← listedNames, store_opened] at hholds
    refine ⟨rest, hopened.trans_same hrevises, hholds.lists ?_⟩
    cases hover : listing.overflows <;>
      simp [Volume.listAttributes, onFirst, hlisted, focus, hrun, hover]

theorem Intact.yields_listAttributes (h : volume.Intact priv) (hlocks : volume.locks = .empty)
    (hbound : volume.store.nextId ≤ 2 ^ 63) (obj : ObjectId) (buffer : Buffer) :
    volume.Yields priv (volume.store.book priv)
      ((listAttributes .standard obj).answering buffer volume)
      (volume.listAnswer (.ok (volume.store.book priv)) obj buffer) := by
  cases hchecked : volume.checkedSubject obj with
  | error err =>
    have hcheck := checkObject_checkedSubject volume obj
    rw [hchecked] at hcheck
    have hrun : listAttributes .standard obj (volume, buffer) = .error err (volume, buffer) := by
      simp [Volume.listAttributes, onFirst, listedDirectory?, hcheck]
    have hanswer : volume.listAnswer (.ok (volume.store.book priv)) obj buffer = .error err := by
      simp [listAnswer, hchecked, bind, Except.bind]
    rw [answering_of_error hrun, hanswer]
    exact .failed h err
  | ok subject =>
    obtain ⟨rest, hrevises, hlists⟩ := h.lists_listAttributes hlocks hbound hchecked buffer
    have hanswer : volume.listAnswer (.ok (volume.store.book priv)) obj buffer =
        namesAnswer (volume.listedNames (volume.store.book priv subject.key)) buffer := by
      simp only [listAnswer, hchecked, bind, Except.bind]
    rw [hanswer]
    exact .of_lists hrevises hlists

end List

section Delete

structure Cleared (volume : Volume MemStore) (priv dir : ObjectId) (key : ObjectKey)
    (position : Nat) (now : Volume MemStore) : Prop where
  revises : ∃ book, volume.Revises now priv (withBook (volume.store.book priv) key book)
  attrDir_eq : now.store.attrDir? priv key = some dir
  left : ∀ ⦃d⦄, now.store.directory? dir = some d → ∀ e ∈ d.ordinary, e.offset ≤ position
  nextId_eq : now.store.nextId = volume.store.nextId

theorem Cleared.intact (h : volume.Cleared priv dir key position now) : now.Intact priv := by
  obtain ⟨_, hrevises⟩ := h.revises
  exact hrevises.intact

theorem Cleared.removeEntry (h : volume.Cleared priv dir key position now)
    (hdirectory : now.store.directory? dir = some d) {front : List DirEntry}
    (hupTo : d.upTo position = front ++ [e]) :
    ∃ store, Volume.removeEntry dir e.name now.store = .ok () store
      ∧ volume.Cleared priv dir key (e.offset - 1) { now with store } := by
  have hintact := h.intact
  have hmem : e ∈ d.ordinary := (Directory.mem_of_upTo hupTo).1
  obtain ⟨_, hwf, _⟩ := hintact.linked.placed hdirectory
  obtain ⟨hdots, hrecord⟩ := hintact.entry h.attrDir_eq hdirectory hmem
  obtain ⟨target, _, htarget, hprivate, _, hbody, _⟩ := hintact.file_of_record hdots hrecord
  have hkind : target.body.isDirectory = false := by
    rw [hbody]
    rfl
  have hfind := hwf.find?_name (Directory.mem_entries_of_mem_ordinary hmem)
  obtain ⟨owner, hleaf⟩ := hintact.linked.isLeaf hdirectory hfind htarget hkind
  have hremoved := hintact.removed h.attrDir_eq hleaf
  refine ⟨_, removeEntry_file hintact.linked hdirectory hfind htarget hkind hprivate, ?_, ?_, ?_, ?_⟩
  . obtain ⟨book, hrevises⟩ := h.revises
    refine ⟨(now.store.book priv key).without e.name, (hrevises.trans hremoved).congr fun key' => ?_⟩
    simp only [withBook, hrevises.book_eq]
    split <;> rfl
  . have hkept := (hintact.tidy.removed (by simpa using h.attrDir_eq) hleaf.mended).attrDir_eq key
    rw [← mended_detach, attrDir?_mended, attrDir?_mended] at hkept
    exact hkept.trans h.attrDir_eq
  . intro d' hdirectory' e' hmem'
    rw [hleaf.directory?_detach, if_neg hleaf.ne.symm, if_pos rfl] at hdirectory'
    obtain rfl := Option.some.inj hdirectory'
    exact Directory.offset_le_of_mem_remove hwf hupTo (h.left hdirectory) hmem'
  . exact (IsLeaf.nextId_detach ..).trans h.nextId_eq

theorem clear_loop (volume base : Volume MemStore) :
    LoopInvariant (β := Unit) (fun item => onFirst (onStore (Volume.removeEntry dir item.name)))
      (base.scanAt dir Directory.lastOffset)
      fun position s => volume.Cleared priv dir key position s.1 := by
  constructor
  . intro position s h
    obtain ⟨_, d, parent, _, _, _, hdirectory, hwf, _⟩ := h.intact.attrDir_entry h.attrDir_eq
    exact ⟨d, parent, hdirectory, hwf⟩
  . intro position s h moves
    obtain ⟨book, hrevises⟩ := h.revises
    exact ⟨⟨book, hrevises.trans_same (hrevises.intact.withMoves moves)⟩, h.attrDir_eq, h.left,
      h.nextId_eq⟩
  . intro position s d front e h hdirectory hupTo hhidden
    rw [h.intact.shows_eq_true h.attrDir_eq hdirectory (Directory.mem_of_upTo hupTo).1] at hhidden
    cases hhidden
  . intro position s d front e h hdirectory hupTo _
    obtain ⟨store, hremove, hnext⟩ := h.removeEntry hdirectory hupTo
    refine ⟨({ s.1 with store }, s.2), ?_, hnext⟩
    simp [onFirst, onStore, focus, Scan.itemOf, hremove]

theorem Intact.visitEntries_removeEntry (h : volume.Intact priv)
    (hdir : volume.store.attrDir? priv key = some dir) (hlocks : volume.locks = .empty)
    (hbound : volume.store.nextId ≤ 2 ^ 63) :
    ∃ rest, visitEntries dir (Volume.removeEntry dir) volume = .ok () rest
      ∧ volume.Revises rest priv (withBook (volume.store.book priv) key [])
      ∧ rest.store.attrDir? priv key = some dir
      ∧ rest.store.nextId = volume.store.nextId := by
  have hfree : volume.locks.lock? dir = some { held := [dir] } := by
    rw [hlocks]
    rfl
  have hstart : ({ volume with locks := { held := [dir] } } : Volume MemStore).Cleared priv dir key
      Directory.lastOffset { volume with locks := { held := [dir] } } := by
    refine ⟨⟨_, (Revises.refl (h.withLocks _)).congr fun key' => (withBook_eq_self rfl key').symm⟩, hdir,
      fun d hdirectory e hmem => ?_, rfl⟩
    obtain ⟨_, d', parent, _, _, _, hdirectory', hwf, hnext, _⟩ := h.attrDir_entry hdir
    obtain rfl : d = d' := Option.some.inj (hdirectory.symm.trans hdirectory')
    rw [← Directory.upTo_lastOffset hwf (Nat.le_trans hnext hbound)] at hmem
    exact (Directory.mem_upTo.mp hmem).2
  obtain ⟨position, s, hrun, hend, hnil⟩ := (clear_loop _ _).forEachEntry (b := ()) hfree hstart
  obtain ⟨book, hrevises⟩ := hend.revises
  have hempty : book = [] := by
    obtain ⟨_, d, _, _, _, _, hdirectory, _⟩ := hend.intact.attrDir_entry hend.attrDir_eq
    have hnone : d.ordinary = [] := by
      -- An entry that was left would have been visited.
      rw [← hnil d hdirectory]
      exact (List.filter_eq_self.mpr fun e hmem => by simpa using hend.left hdirectory e hmem).symm
    have hbook := hrevises.book_eq key
    rw [withBook, if_pos rfl, book_of_some hend.attrDir_eq hdirectory, bookOf, hnone] at hbook
    exact hbook.symm
  subst hempty
  refine ⟨s.1.unlockDirectory dir, ?_, hrevises.unlock hfree, hend.attrDir_eq, hend.nextId_eq⟩
  simp [visitEntries, withSecond, hrun]

end Delete

section Chown

theorem chowned_loop (volume base : Volume MemStore) (hsize : change.fields.has .size = false) :
    LoopInvariant (β := Unit) (fun item => onFirst (onStore (chownEntry dir change item.name)))
      (base.scanAt dir Directory.lastOffset)
      fun _ s => volume.Revises s.1 priv (volume.store.book priv)
        ∧ s.1.store.attrDir? priv key = some dir := by
  constructor
  . intro position s ⟨hrevises, hdir⟩
    obtain ⟨_, d, parent, _, _, _, hdirectory, hwf, _⟩ := hrevises.intact.attrDir_entry hdir
    exact ⟨d, parent, hdirectory, hwf⟩
  . intro position s ⟨hrevises, hdir⟩ moves
    exact ⟨hrevises.trans_same (hrevises.intact.withMoves moves), hdir⟩
  . exact fun position s d front e h _ _ _ => h
  . intro position s d front e ⟨hrevises, hdir⟩ hdirectory hupTo _
    have hdirectory : s.1.store.directory? dir = some d := hdirectory
    have hintact := hrevises.intact
    have hmem : e ∈ d.ordinary := (Directory.mem_of_upTo hupTo).1
    obtain ⟨_, hwf, _⟩ := hintact.linked.placed hdirectory
    obtain ⟨hdots, hrecord⟩ := hintact.entry hdir hdirectory hmem
    obtain ⟨target, _, htarget, _, _, hbody, _⟩ := hintact.file_of_record hdots hrecord
    have hkind := hintact.linked.isDirectory_stat htarget
    rw [hbody, Body.isDirectory] at hkind
    have hfind := hwf.find?_name (Directory.mem_entries_of_mem_ordinary hmem)
    refine ⟨({ s.1 with store := s.1.store.changed e.target change }, s.2), ?_,
      hrevises.trans_same (hintact.changed htarget (.record hdots hrecord) hsize),
      (attrDir?_congr (child?_changed htarget hsize) ..).trans hdir⟩
    simp [onFirst, onStore, focus, Scan.itemOf, chownEntry, lookup_of_directory? hdirectory, hfind,
      stat_of_object? htarget, hkind, setAttr_eq htarget hsize]

theorem Intact.visitEntries_chownEntry (h : volume.Intact priv)
    (hdir : volume.store.attrDir? priv key = some dir) (hlocks : volume.locks = .empty)
    (hsize : change.fields.has .size = false) :
    ∃ rest, visitEntries dir (chownEntry dir change) volume = .ok () rest
      ∧ volume.Revises rest priv (volume.store.book priv)
      ∧ rest.store.attrDir? priv key = some dir := by
  have hfree : volume.locks.lock? dir = some { held := [dir] } := by
    rw [hlocks]
    rfl
  have hstart := Revises.refl (h.withLocks { held := [dir] })
  obtain ⟨_, s, hrun, ⟨hrevises, hdir'⟩, _⟩ :=
    (chowned_loop _ _ hsize).forEachEntry (b := ()) hfree ⟨hstart, hdir⟩
  refine ⟨s.1.unlockDirectory dir, ?_, hrevises.unlock hfree, hdir'⟩
  simp [visitEntries, withSecond, hrun]

end Chown

section Bulk

def reaches (volume : Volume MemStore) (subject : Subject) : Bool :=
  !(subject.isPrivate || subject.isLegacy || !volume.attributesEnabled)

def bulkAnswer (volume : Volume MemStore) (books : Except Error (ObjectKey → Book)) (obj : ObjectId) :
    Except Error Unit :=
  match volume.subject? obj with
  | none => .error objectNotFound
  | some subject => if volume.reaches subject then books.map fun _ => () else .ok ()

theorem bulkAnswer_of_none (hobject : volume.store.object? obj = none)
    (books : Except Error (ObjectKey → Book)) :
    volume.bulkAnswer books obj = .error objectNotFound := by
  simp [bulkAnswer, subject?, hobject]

theorem bulkAnswer_of_object? (hobject : volume.store.object? obj = some object)
    (books : ObjectKey → Book) : volume.bulkAnswer (.ok books) obj = .ok () := by
  simp [bulkAnswer, subject?_of_object? hobject, Except.map]

def deleteBooks (volume : Volume MemStore) (books : ObjectKey → Book) (obj : ObjectId) :
    ObjectKey → Book :=
  match volume.subject? obj with
  | none => books
  | some subject => if volume.reaches subject then withBook books subject.key [] else books

theorem bulkDirectory?_apply (stat : ObjectStat) (volume : Volume MemStore) :
    bulkDirectory? stat volume =
      if stat.isPrivate || stat.isLegacy || !volume.attributesEnabled then .ok none volume
      else (do
        match ← (openDirectory stat .looking).attempt with
        | .ok dir => return some dir
        | .error e => if e.isNoAttribute then return none else throw e) volume := by
  rw [bulkDirectory?, bind_apply]
  change (if stat.isPrivate || stat.isLegacy || !volume.attributesEnabled then pure none
    else _ : Action (Volume MemStore) _) volume = _
  split <;> rfl

theorem bulkDirectory?_of_reaches (hreaches : volume.reaches object.subject = true) :
    bulkDirectory? object.stat volume = (do
      match ← (openDirectory object.stat .looking).attempt with
      | .ok dir => return some dir
      | .error e => if e.isNoAttribute then return none else throw e) volume := by
  have hskip : (object.stat.isPrivate || object.stat.isLegacy || !volume.attributesEnabled) = false := by
    rw [← Bool.not_eq_true']
    exact hreaches
  rw [bulkDirectory?_apply, hskip, if_neg Bool.false_ne_true]

theorem bulkDirectory?_of_not_reaches (hreaches : volume.reaches object.subject = false) :
    bulkDirectory? object.stat volume = .ok none volume := by
  have hskip : (object.stat.isPrivate || object.stat.isLegacy || !volume.attributesEnabled) = true := by
    rw [← Bool.not_eq_false']
    exact hreaches
  rw [bulkDirectory?_apply, hskip, if_pos rfl]

variable (h : volume.Intact priv)
include h

theorem Intact.bulkDirectory?_cases (object : MemObject) :
    (∃ rest, bulkDirectory? object.stat volume = .ok none rest
        ∧ volume.Revises rest priv (volume.store.book priv)
        ∧ (volume.reaches object.subject = true →
          volume.store.attrDir? priv object.stat.key = none))
      ∨ ∃ dir, volume.store.attrDir? priv object.stat.key = some dir
        ∧ volume.reaches object.subject = true
        ∧ bulkDirectory? object.stat volume = .ok (some dir) (volume.opened object.stat.key dir) := by
  cases hreaches : volume.reaches object.subject with
  | false => exact .inl ⟨volume, bulkDirectory?_of_not_reaches hreaches, .refl h, nofun⟩
  | true =>
    have hbulk := bulkDirectory?_of_reaches hreaches
    cases hdir : volume.store.attrDir? priv object.stat.key with
    | none =>
      obtain ⟨err, rest, herr, hopen, hrevises⟩ :=
        h.openDirectory_absent hdir (show SetFlags.looking.allowsCreate = false from rfl)
      have habsent : err.isNoAttribute = true := by
        simpa [Error.isNoAttribute] using herr
      refine .inl ⟨rest, ?_, hrevises, fun _ => rfl⟩
      simp [hbulk, attempt, hopen, habsent]
    | some dir =>
      refine .inr ⟨dir, rfl, rfl, ?_⟩
      simp [hbulk, attempt, h.openDirectory_found hdir .looking]

variable (hlocks : volume.locks = .empty)
include hlocks

theorem Intact.acts_deleteAttributes (hbound : volume.store.nextId ≤ 2 ^ 63) (obj : ObjectId) :
    volume.Acts priv (volume.deleteBooks (volume.store.book priv) obj)
      (deleteAttributes obj volume) (volume.bulkAnswer (.ok (volume.store.book priv)) obj) := by
  rw [deleteAttributes_eq_onAttrDirectory]
  cases hobject : volume.store.object? obj with
  | none =>
    rw [onAttrDirectory_of_none hobject, bulkAnswer_of_none hobject]
    exact .failed h _
  | some object =>
    have hsubject := subject?_of_object? hobject
    have hkey : object.subject.key = object.stat.key := rfl
    simp only [bulkAnswer_of_object? hobject, deleteBooks, hsubject, hkey]
    obtain ⟨rest, hbulk, hrevises, hnone⟩ | ⟨dir, hdir, hreaches, hbulk⟩ :=
      h.bulkDirectory?_cases object
    . rw [onAttrDirectory_skipped hobject hbulk]
      refine .done (hrevises.congr fun key => ?_)
      split
      . next hreaches => exact (withBook_eq_self (book_of_none (hnone hreaches)).symm key).symm
      . rfl
    . have hopened := h.opened hdir
      obtain ⟨emptied, hvisit, hemptied, hdir', hnext⟩ := hopened.intact.visitEntries_removeEntry
        (by rw [store_opened]; exact hdir) (hopened.locks_eq.trans hlocks)
        (by rw [store_opened]; exact hbound)
      have hmiddle := hopened.trans_withBook (f := fun _ => []) hemptied
      obtain ⟨rest, hpruned, hprune⟩ :=
        hemptied.intact.prune hdir' (by rw [hnext, store_opened]; exact hbound)
      have hall := hmiddle.trans_same hpruned
      rw [if_pos hreaches, onAttrDirectory_found hobject hbulk]
      obtain hprune | ⟨err, hplanned, hprune⟩ := hprune
      . have hrun : emptyDirectory object.stat dir (volume.opened object.stat.key dir) = .ok () rest := by
          simp [emptyDirectory, attempt, hvisit, hprune]
        rw [hrun]
        exact .done hall
      . have hrun : emptyDirectory object.stat dir (volume.opened object.stat.key dir) =
            .error err rest := by
          simp [emptyDirectory, attempt, hvisit, hprune]
        rw [hrun]
        exact .unpruned (fun hnone => hplanned (hmiddle.quiet.rmdirFault_eq hnone)) hall

theorem Intact.yields_chownAttributes (obj : ObjectId) (change : AttrChange) :
    volume.Yields priv (volume.store.book priv) (chownAttributes obj change volume)
      (volume.bulkAnswer (.ok (volume.store.book priv)) obj) := by
  have hsize : (change.restricted .ownership).fields.has .size = false :=
    FieldMask.not_has_inter _ (by decide) (by decide)
  rw [chownAttributes_eq_onAttrDirectory]
  cases hobject : volume.store.object? obj with
  | none =>
    rw [onAttrDirectory_of_none hobject, bulkAnswer_of_none hobject]
    exact .failed h _
  | some object =>
    rw [bulkAnswer_of_object? hobject]
    obtain ⟨rest, hbulk, hrevises, _⟩ | ⟨dir, hdir, _, hbulk⟩ := h.bulkDirectory?_cases object
    . rw [onAttrDirectory_skipped hobject hbulk]
      exact .done hrevises
    . have hopened := h.opened hdir
      obtain ⟨passed, hvisit, hpassed, hdir'⟩ := hopened.intact.visitEntries_chownEntry
        (by rw [store_opened]; exact hdir) (hopened.locks_eq.trans hlocks) hsize
      obtain ⟨owner, _, _, howner, _⟩ := hpassed.intact.attrDir_entry hdir'
      have hchanged := hpassed.intact.changed howner (.attrDir hdir') hsize
      have hrun : chownDirectory change dir (volume.opened object.stat.key dir) = .ok ()
          { passed with store := passed.store.changed dir (change.restricted .ownership) } := by
        simp [chownDirectory, onStore, focus, hvisit, setAttr_eq howner hsize]
      rw [onAttrDirectory_found hobject hbulk, hrun]
      exact .done ((hopened.trans_same hpassed).trans_same hchanged)

end Bulk

end Volume

end AttrTree
