import AttrTree.Proofs.Untampered

/-!
This module contains why nothing is learned of the attributes of users where they are turned off. Two
volumes that differ in them alone answer all calls alike, and go on to differ in nothing else.
-/

namespace AttrTree

open Action MemStore

def isForeign (name : String) : Bool :=
  !EntryName.startsWith name Handler.user.start

theorem Registry.resolve?_user {name : String} (hname : isForeign name = false) :
    ∃ link, standard.resolve? name = some link ∧ link.handler = .user := by
  refine ⟨⟨0, .user⟩, ?_, rfl⟩
  simp only [resolve?, standard, standardHandlers, List.mapIdx_cons, List.mapIdx_nil]
  exact List.find?_cons_of_pos (by simpa [isForeign] using hname)

namespace Volume

variable {volume volume' rest rest' : Volume MemStore} {priv obj : ObjectId} {subject : Subject}
  {name : String} {α : Type}

section Replies

variable {act : Action (Volume MemStore) α} {result : EStateM.Result Error (Volume MemStore) α}
  {answer : Except Error (ObjectKey → Book) → Except Error α}
  {change : (ObjectKey → Book) → ObjectKey → Book}

def IsOutside (volume : Volume MemStore) (obj : ObjectId) : Prop :=
  ∀ ⦃priv⦄, volume.store.child? rootId privateRootName = some priv → ¬ volume.store.InTree priv obj

structure Continues (volume rest : Volume MemStore) : Prop where
  sound : rest.Sound
  quiet : rest.store.Quiet
  options_eq : rest.options = volume.options
  outside : ∀ ⦃obj object⦄, volume.store.object? obj = some object → volume.IsOutside obj →
    rest.store.object? obj = some object ∧ rest.IsOutside obj

inductive Replies (volume : Volume MemStore) (change : (ObjectKey → Book) → ObjectKey → Book) :
    EStateM.Result Error (Volume MemStore) α → Except Error α → Prop
  | done {a : α} {rest : Volume MemStore} (hcontinues : volume.Continues rest)
    (hbooks : rest.books = volume.books.map change) : Replies volume change (.ok a rest) (.ok a)
  | refused {err err' : Error} {rest : Volume MemStore} (hkind : err.kind = err'.kind)
    (hcontinues : volume.Continues rest) (hbooks : rest.books = volume.books) :
    Replies volume change (.error err rest) (.error err')

theorem Intact.books_eq (h : volume.Intact priv) : volume.books = .ok (volume.store.book priv) := by
  obtain ⟨_, d, _, _, _, hdir⟩ := h.tidy.privateRoot.directory?
  rw [MemStore.directory?_mended, ← getDirectory_eq_ok_iff] at hdir
  simp [books, h.privateRoot_eq, hdir, Except.map]

theorem Intact.isOutside_iff (h : volume.Intact priv) :
    volume.IsOutside obj ↔ ¬ volume.store.InTree priv obj := by
  have hroot := h.tidy.root
  rw [child?_mended] at hroot
  simp [IsOutside, hroot]

theorem Revises.continues {books : ObjectKey → Book} (h : volume.Revises rest priv books)
    (hintact : volume.Intact priv) (hlocks : volume.locks = .empty) (hquiet : volume.store.Quiet) :
    volume.Continues rest where
  sound := .intact h.intact (h.locks_eq.trans hlocks)
  quiet := h.quiet.quiet hquiet
  options_eq := h.options_eq
  outside obj object hobject hout := by
    rw [hintact.isOutside_iff] at hout
    rw [h.intact.isOutside_iff]
    exact h.outside hobject hout

theorem Shut.continues (h : volume.Shut) (hquiet : volume.store.Quiet) {cache : DirCache}
    (hcache : ∀ key, cache.peek? key = none) : volume.Continues { volume with cache } :=
  ⟨.shut (h.withCache hcache), hquiet, rfl, fun _ _ hobject hout => ⟨hobject, hout⟩⟩

theorem Serves.replies (h : volume.Serves result answer change) (hquiet : volume.store.Quiet) :
    volume.Replies change result (answer volume.books) := by
  cases h with
  | shut h hrefuses =>
    obtain ⟨err, hbooks⟩ := h.books_error
    generalize answer volume.books = answered at hrefuses
    cases hrefuses with
    | done => exact .done (h.continues hquiet h.cache) (by rw [hbooks]; rfl)
    | refused hkind hcache => exact .refused hkind (h.continues hquiet hcache) rfl
  | @intact priv h hlocks hacts =>
    rw [h.books_eq]
    generalize answer (.ok (volume.store.book priv)) = answered at hacts
    cases hacts with
    | disturbed hplanned => exact absurd hquiet.1 hplanned
    | unpruned hplanned => exact absurd hquiet.2 hplanned
    | undisturbed hyields =>
      cases hyields with
      | done hrevises =>
        refine .done (hrevises.continues h hlocks hquiet) ?_
        rw [hrevises.intact.books_eq, h.books_eq, funext hrevises.book_eq]
        rfl
      | refused hkind hrevises =>
        refine .refused hkind (hrevises.continues h hlocks hquiet) ?_
        rw [hrevises.intact.books_eq, h.books_eq, funext hrevises.book_eq]

end Replies

section Users

variable (hname : isForeign name = false) (huser : volume.userEnabled = false)
include hname huser

theorem gate_user (obj : ObjectId) :
    (∃ err, volume.gate obj name = .error err)
      ∨ ∃ subject err, volume.gate obj name = .ok (.user, subject)
        ∧ Handler.user.check volume name = .error err := by
  obtain ⟨link, hlink, hhandler⟩ := Registry.resolve?_user hname
  cases hchecked : volume.checkedSubject obj with
  | error err => exact .inl ⟨err, by simp [gate, hlink, hchecked, Except.map]⟩
  | ok subject =>
    refine .inr ⟨subject, ?_⟩
    have hgate : volume.gate obj name = .ok (.user, subject) := by
      simp [gate, hlink, hchecked, hhandler, Except.map]
    rw [hgate]
    by_cases hsize : EntryName.size name ≤ EntryName.size Handler.user.start
    . exact ⟨_, rfl, by simp [Handler.check, Handler.checkSuffix, hsize, bind, Except.bind]; rfl⟩
    . exact ⟨_, rfl, by
        simp [Handler.check, Handler.checkSuffix, hsize, huser, bind, Except.bind]; rfl⟩

theorem stopped_getAttribute_user (obj : ObjectId) (buffer : Buffer) :
    volume.Stopped ((getAttribute .standard obj name).answering buffer volume)
      (volume.getAnswer · obj name buffer) := by
  obtain ⟨err, hgate⟩ | ⟨subject, err, hgate, hcheck⟩ := gate_user hname huser obj
  . have hrun : getAttribute .standard obj name (volume, buffer) = .error err (volume, buffer) := by
      simp [getAttribute, onFirst, handlerFor_gate, hgate]
    refine ⟨err, err, rfl, answering_of_error hrun, fun books => ?_⟩
    simp [getAnswer, hgate, bind, Except.bind]
  . have hrun := getAttribute_gate hgate buffer
    rw [hcheck] at hrun
    refine ⟨err, err, rfl, answering_of_error hrun, fun books => ?_⟩
    simp [getAnswer, hgate, hcheck, bind, Except.bind]

theorem stopped_setAttribute_user (obj : ObjectId) (value : Bytes) (flags : SetFlags) :
    volume.Stopped (setAttribute .standard obj name value flags volume)
      (volume.setAnswer · obj name value flags) := by
  obtain ⟨err, hgate⟩ | ⟨subject, err, hgate, hcheck⟩ := gate_user hname huser obj
  . refine ⟨err, err, rfl, ?_, fun books => ?_⟩
    . simp [setAttribute, handlerFor_gate, hgate]
    . simp [setAnswer, hgate, bind, Except.bind]
  . have hrun := @setAttribute_gate _ _ _ flags value _ _ hgate
    rw [hcheck] at hrun
    refine ⟨err, err, rfl, hrun, fun books => ?_⟩
    simp [setAnswer, hgate, hcheck, bind, Except.bind]

theorem stopped_removeAttribute_user (obj : ObjectId) :
    volume.Stopped (removeAttribute .standard obj name volume) (volume.removeAnswer · obj name) := by
  have hhandler := handlerFor_gate volume obj name
  obtain ⟨err, hgate⟩ | ⟨subject, err, hgate, hcheck⟩ := gate_user hname huser obj
  . refine ⟨err, err, rfl, ?_, fun books => ?_⟩
    . simp [removeAttribute, hhandler, hgate]
    . simp [removeAnswer, hgate, bind, Except.bind]
  . refine ⟨err, err, rfl, ?_, fun books => ?_⟩
    . simp [removeAttribute, hhandler, hgate, Handler.allowRemoval, hcheck]
    . simp [removeAnswer, hgate, Handler.allowRemoval, hcheck, bind, Except.bind]

omit hname in
theorem listedNames_only (book : Book) :
    volume.listedNames (book.only isForeign) = volume.listedNames book := by
  have hlists (name : String) : (volume.lists name && isForeign name) = volume.lists name := by
    cases hname : isForeign name with
    | true => rw [Bool.and_true]
    | false =>
      obtain ⟨link, hlink, hhandler⟩ := Registry.resolve?_user hname
      simp [lists, hlink, hhandler, Handler.isShown, huser]
  rw [listedNames, listedNames, Book.names_only, ← List.filter_reverse, List.filter_filter]
  congr 1
  funext name
  exact hlists name

end Users

section Congr

variable (hoptions : volume'.options = volume.options)
  (hsubject : volume'.subject? obj = volume.subject? obj)
include hoptions hsubject

omit hsubject in
theorem attributesEnabled_congr : volume'.attributesEnabled = volume.attributesEnabled :=
  congrArg MountOptions.attributes hoptions

omit hsubject in
theorem reaches_congr : volume'.reaches = volume.reaches := by
  funext subject
  rw [reaches, reaches, attributesEnabled_congr hoptions]

theorem checkedSubject_congr : volume'.checkedSubject obj = volume.checkedSubject obj := by
  simp only [checkedSubject, attributesEnabled_congr hoptions, hsubject]

theorem gate_congr (name : String) : volume'.gate obj name = volume.gate obj name := by
  simp only [gate, checkedSubject_congr hoptions hsubject]

theorem getAnswer_congr (books : Except Error (ObjectKey → Book)) (name : String) (buffer : Buffer) :
    volume'.getAnswer books obj name buffer = volume.getAnswer books obj name buffer := by
  simp only [getAnswer, gate_congr hoptions hsubject, Handler.check_congr hoptions]

theorem setAnswer_congr (books : Except Error (ObjectKey → Book)) (name : String) (value : Bytes)
    (flags : SetFlags) :
    volume'.setAnswer books obj name value flags = volume.setAnswer books obj name value flags := by
  simp only [setAnswer, gate_congr hoptions hsubject, Handler.check_congr hoptions]

theorem removeAnswer_congr (books : Except Error (ObjectKey → Book)) (name : String) :
    volume'.removeAnswer books obj name = volume.removeAnswer books obj name := by
  simp only [removeAnswer, gate_congr hoptions hsubject, Handler.allowRemoval_congr hoptions]

theorem listAnswer_congr (books : Except Error (ObjectKey → Book)) (buffer : Buffer) :
    volume'.listAnswer books obj buffer = volume.listAnswer books obj buffer := by
  simp only [listAnswer, listedNames, checkedSubject_congr hoptions hsubject, lists_congr hoptions]

theorem bulkAnswer_congr (books : Except Error (ObjectKey → Book)) :
    volume'.bulkAnswer books obj = volume.bulkAnswer books obj := by
  simp only [bulkAnswer, reaches_congr hoptions, hsubject]

end Congr

section Alike

def Alike (result result' : Except Error α) : Prop :=
  result.mapError Error.kind = result'.mapError Error.kind

theorem Alike.refl (result : Except Error α) : Alike result result :=
  rfl

theorem Stopped.alike {result : EStateM.Result Error (Volume MemStore) α}
    {answer : Except Error (ObjectKey → Book) → Except Error α} (h : volume.Stopped result answer)
    (books books' : Except Error (ObjectKey → Book)) : Alike (answer books) (answer books') := by
  obtain ⟨_, _, _, _, hanswer⟩ := h
  rw [hanswer, hanswer]
  exact .refl _

/-- The books differ in attributes of users at most, for the `keys`. Or they can be opened on neither side. -/
inductive SameForeign (keys : ObjectKey → Prop) :
    Except Error (ObjectKey → Book) → Except Error (ObjectKey → Book) → Prop
  | opened {books books' : ObjectKey → Book}
    (h : ∀ ⦃key⦄, keys key → (books' key).only isForeign = (books key).only isForeign) :
    SameForeign keys (.ok books) (.ok books')
  | closed {err err' : Error} (hkind : err'.kind = err.kind) : SameForeign keys (.error err) (.error err')

variable {keys : ObjectKey → Prop} {books books' : Except Error (ObjectKey → Book)} {key : ObjectKey}

theorem SameForeign.bind (h : SameForeign keys books books') (hkey : keys key)
    {f : Book → Except Error α} (hf : ∀ book, f book = f (book.only isForeign)) :
    Alike (books.bind fun books => f (books key)) (books'.bind fun books => f (books key)) := by
  cases h with
  | closed hkind => simp [Alike, Except.bind, Except.mapError, hkind]
  | opened h =>
    simp only [Except.bind]
    rw [hf, ← h hkey, ← hf]
    exact .refl _

def ofContent (answer : Bytes → Except Error α) : Option Bytes → Except Error α
  | none => .error attrNotFound
  | some content => answer content

theorem SameForeign.content (h : SameForeign keys books books') (hkey : keys key)
    (hname : isForeign name = true) (answer : Option Bytes → Except Error α) :
    Alike (books.bind fun books => answer ((books key).content? name))
      (books'.bind fun books => answer ((books key).content? name)) :=
  h.bind hkey (f := fun book => answer (book.content? name)) fun book => by
    rw [Book.content?_only hname]

variable (huser : volume.userEnabled = false) (h : SameForeign keys books books')
  (hobj : ∀ ⦃subject⦄, volume.subject? obj = some subject → keys subject.key)
include huser h hobj

theorem getAnswer_alike (name : String) (buffer : Buffer) :
    Alike (volume.getAnswer books obj name buffer) (volume.getAnswer books' obj name buffer) := by
  cases hname : isForeign name with
  | false => exact (stopped_getAttribute_user hname huser obj buffer).alike books books'
  | true =>
    obtain hstopped | ⟨object, hobject, _, _, _, hanswer⟩ :=
      @getAttribute_cases volume obj name buffer
    . exact hstopped.alike books books'
    . rw [hanswer, hanswer]
      exact h.content (hobj (subject?_of_object? hobject)) hname (ofContent fun content =>
        (readOutcome content buffer).1.map (·, (readOutcome content buffer).2))

theorem setAnswer_alike (name : String) (value : Bytes) (flags : SetFlags) :
    Alike (volume.setAnswer books obj name value flags) (volume.setAnswer books' obj name value flags) := by
  cases hname : isForeign name with
  | false => exact (stopped_setAttribute_user hname huser obj value flags).alike books books'
  | true =>
    obtain hstopped | ⟨object, hobject, _, _, _, hanswer⟩ :=
      @setAttribute_cases volume obj name value flags
    . exact hstopped.alike books books'
    . have hwritten := h.content (hobj (subject?_of_object? hobject)) hname (writeAnswer flags)
      rw [hanswer, hanswer]
      cases aclKind? name with
      | none => exact hwritten
      | some kind =>
        simp only
        split
        . cases h with
          | closed hkind => simp [Alike, Except.map, Except.mapError, hkind]
          | opened => exact .refl _
        . split
          . exact .refl _
          . cases Acl.validate value with
            | error err => exact .refl _
            | ok count => exact hwritten

theorem removeAnswer_alike (name : String) :
    Alike (volume.removeAnswer books obj name) (volume.removeAnswer books' obj name) := by
  cases hname : isForeign name with
  | false => exact (stopped_removeAttribute_user hname huser obj).alike books books'
  | true =>
    obtain hstopped | ⟨object, hobject, _, _, hanswer⟩ :=
      @removeAttribute_cases volume obj name
    . exact hstopped.alike books books'
    . rw [hanswer, hanswer]
      exact h.content (hobj (subject?_of_object? hobject)) hname (ofContent fun _ => .ok ())

theorem listAnswer_alike (buffer : Buffer) :
    Alike (volume.listAnswer books obj buffer) (volume.listAnswer books' obj buffer) := by
  cases hchecked : volume.checkedSubject obj with
  | error err => simp [listAnswer, hchecked, bind, Except.bind, Alike]
  | ok subject =>
    have hanswer (books : Except Error (ObjectKey → Book)) : volume.listAnswer books obj buffer =
        books.bind fun books => namesAnswer (volume.listedNames (books subject.key)) buffer := by
      simp only [listAnswer, hchecked, bind, Except.bind]
    obtain ⟨_, object, hobject, _, rfl⟩ := checkedSubject_eq_ok_iff.mp hchecked
    rw [hanswer, hanswer]
    exact h.bind (hobj (subject?_of_object? hobject))
      (f := fun book => namesAnswer (volume.listedNames book) buffer)
      fun book => by rw [listedNames_only huser]

omit huser hobj in
theorem bulkAnswer_alike : Alike (volume.bulkAnswer books obj) (volume.bulkAnswer books' obj) := by
  unfold bulkAnswer
  split
  . exact .refl _
  . split
    . cases h with
      | closed hkind => simp [Alike, Except.map, Except.mapError, hkind]
      | opened => exact .refl _
    . exact .refl _

end Alike

section Changes

variable {keys : ObjectKey → Prop} {books books' : Except Error (ObjectKey → Book)}

theorem SameForeign.mono {keys' : ObjectKey → Prop} (h : SameForeign keys books books')
    (hkeys : ∀ ⦃key⦄, keys' key → keys key) : SameForeign keys' books books' := by
  cases h with
  | opened h => exact .opened fun key hkey => h (hkeys hkey)
  | closed hkind => exact .closed hkind

theorem SameForeign.withBook {books books' : ObjectKey → Book} {f : Book → Book}
    (h : ∀ ⦃key⦄, keys key → (books' key).only isForeign = (books key).only isForeign)
    (hf : ∀ ⦃book book' : Book⦄, book'.only isForeign = book.only isForeign →
      (f book').only isForeign = (f book).only isForeign) (changed : ObjectKey) ⦃key : ObjectKey⦄
    (hkey : keys key) :
    (Volume.withBook books' changed (f (books' changed)) key).only isForeign =
      (Volume.withBook books changed (f (books changed)) key).only isForeign := by
  unfold Volume.withBook
  split
  . next heq => exact hf (heq ▸ h hkey)
  . exact h hkey

variable (h : SameForeign keys books books') (hsubject : volume'.subject? obj = volume.subject? obj)
include h hsubject

theorem SameForeign.withBookOf {f : Book → Book}
    (hf : ∀ ⦃book book' : Book⦄, book'.only isForeign = book.only isForeign →
      (f book').only isForeign = (f book).only isForeign) :
    SameForeign keys (books.map (volume.withBookOf · obj f)) (books'.map (volume'.withBookOf · obj f)) := by
  cases h with
  | closed hkind => exact .closed hkind
  | opened h =>
    refine .opened fun key hkey => ?_
    cases hfound : volume.subject? obj with
    | none => simpa only [Volume.withBookOf, hsubject, hfound] using h hkey
    | some subject =>
      simpa only [Volume.withBookOf, hsubject, hfound] using withBook h hf subject.key hkey

theorem SameForeign.deleteBooks (hoptions : volume'.options = volume.options) :
    SameForeign keys (books.map (volume.deleteBooks · obj)) (books'.map (volume'.deleteBooks · obj)) := by
  cases h with
  | closed hkind => exact .closed hkind
  | opened h =>
    refine .opened fun key hkey => ?_
    cases hfound : volume.subject? obj with
    | none => simpa only [Volume.deleteBooks, hsubject, hfound] using h hkey
    | some subject =>
      simp only [Volume.deleteBooks, hsubject, hfound, reaches_congr hoptions]
      cases volume.reaches subject with
      | false => exact h hkey
      | true => exact withBook (f := fun _ => []) h (fun _ _ _ => rfl) subject.key hkey

omit h hsubject in
theorem only_setBook (name : String) (value : Bytes) ⦃book book' : Book⦄
    (h : book'.only isForeign = book.only isForeign) :
    (setBook name value book').only isForeign = (setBook name value book).only isForeign := by
  unfold setBook
  cases keptValue name value with
  | none => simp only [Book.only_without, h]
  | some value =>
    cases hname : isForeign name with
    | true => simp only [Book.only_put hname, h]
    | false => simp only [Book.only_put_of_not hname, h]

end Changes

section Peers

variable {objs : ObjectId → Prop}

def Holds (volume : Volume MemStore) (obj : ObjectId) (subject : Subject) : Prop :=
  volume.subject? obj = some subject ∧ volume.IsOutside obj

def HasKey (volume : Volume MemStore) (objs : ObjectId → Prop) (key : ObjectKey) : Prop :=
  ∃ obj subject, objs obj ∧ volume.subject? obj = some subject ∧ subject.key = key

structure Peers (objs : ObjectId → Prop) (volume volume' : Volume MemStore) : Prop where
  options_eq : volume'.options = volume.options
  objects : ∀ ⦃obj⦄, objs obj → ∃ subject, volume.Holds obj subject ∧ volume'.Holds obj subject
  books : SameForeign (volume.HasKey objs) volume.books volume'.books

theorem Sound.isOutside (h : volume.Sound) (hpriv : volume.privateRoot = some priv)
    (hopen : volume.store.directory? priv ≠ none) (hsubject : volume.subject? obj = some subject)
    (hpublic : subject.isPrivate = false) : volume.IsOutside obj := by
  obtain ⟨object, hobject, rfl⟩ := Option.map_eq_some_iff.mp hsubject
  cases h with
  | shut h => exact absurd (h.privateRoot hpriv).1 hopen
  | @intact priv' h =>
    rw [h.isOutside_iff, ← inTree_mended_iff]
    intro hin
    obtain ⟨_, hobject', hprivate⟩ := hin.isPrivate h.tidy
    rw [object?_mended_of hobject] at hobject'
    obtain rfl := Option.some.inj hobject'
    exact Bool.noConfusion (hpublic.symm.trans hprivate)

theorem Sound.books_eq (h : volume.Sound) (hpriv : volume.privateRoot = some priv)
    (hopen : volume.store.directory? priv ≠ none) : volume.books = .ok (volume.store.book priv) := by
  cases h with
  | shut h => exact absurd (h.privateRoot hpriv).1 hopen
  | @intact priv' h =>
    obtain rfl : priv' = priv := Option.some.inj (h.privateRoot_eq.symm.trans hpriv)
    exact h.books_eq

structure SoundPeers (objs : ObjectId → Prop) (volume volume' : Volume MemStore) : Prop where
  peers : Peers objs volume volume'
  user_eq : volume.options.user = false
  sound : volume.Sound
  sound' : volume'.Sound
  quiet : volume.store.Quiet
  quiet' : volume'.store.Quiet

theorem Continues.holds (h : volume.Continues rest) {subject : Subject} (hholds : volume.Holds obj subject) :
    rest.Holds obj subject := by
  obtain ⟨hsubject, hout⟩ := hholds
  obtain ⟨object, hobject, rfl⟩ := Option.map_eq_some_iff.mp hsubject
  obtain ⟨hobject', hout'⟩ := h.outside hobject hout
  exact ⟨subject?_of_object? hobject', hout'⟩

theorem SoundPeers.continue (h : SoundPeers objs volume volume') (hrest : volume.Continues rest)
    (hrest' : volume'.Continues rest')
    (hbooks : SameForeign (volume.HasKey objs) rest.books rest'.books) : SoundPeers objs rest rest' := by
  refine ⟨⟨?_, fun obj hobj => ?_, ?_⟩, ?_, hrest.sound, hrest'.sound, hrest.quiet, hrest'.quiet⟩
  . rw [hrest'.options_eq, hrest.options_eq, h.peers.options_eq]
  . obtain ⟨subject, hholds, hholds'⟩ := h.peers.objects hobj
    exact ⟨subject, hrest.holds hholds, hrest'.holds hholds'⟩
  . refine hbooks.mono fun key hkey => ?_
    obtain ⟨obj, subject, hobj, hsubject, rfl⟩ := hkey
    obtain ⟨subject', hholds, _⟩ := h.peers.objects hobj
    have hsame := (hrest.holds hholds).1
    rw [hsubject] at hsame
    exact ⟨obj, subject', hobj, hholds.1, by rw [Option.some.inj hsame]⟩
  . rw [hrest.options_eq]
    exact h.user_eq

theorem SoundPeers.call (h : SoundPeers objs volume volume') {act act' : Action (Volume MemStore) α}
    {answer answer' : Except Error (ObjectKey → Book) → Except Error α}
    {change change' : (ObjectKey → Book) → ObjectKey → Book}
    (hserves : volume.Serves (act volume) answer change)
    (hserves' : volume'.Serves (act' volume') answer' change')
    (halike : Alike (answer volume.books) (answer' volume'.books))
    (hchange : SameForeign (volume.HasKey objs) (volume.books.map change) (volume'.books.map change')) :
    Alike (act.result volume) (act'.result volume')
      ∧ SoundPeers objs (act.after volume) (act'.after volume') := by
  have hreplies := hserves.replies h.quiet
  have hreplies' := hserves'.replies h.quiet'
  unfold Action.result Action.after
  generalize answer volume.books = answered at halike hreplies
  generalize answer' volume'.books = answered' at halike hreplies'
  generalize act volume = result at hreplies
  generalize act' volume' = result' at hreplies'
  cases hreplies with
  | done hcontinues hbooks =>
    cases hreplies' with
    | refused => simp [Alike, Except.mapError] at halike
    | done hcontinues' hbooks' =>
      exact ⟨halike, h.continue hcontinues hcontinues' (by rwa [hbooks, hbooks'])⟩
  | refused hkind hcontinues hbooks =>
    cases hreplies' with
    | done => simp [Alike, Except.mapError] at halike
    | refused hkind' hcontinues' hbooks' =>
      refine ⟨?_, h.continue hcontinues hcontinues' (by rw [hbooks, hbooks']; exact h.peers.books)⟩
      simp only [Alike, Except.mapError, Except.error.injEq] at halike ⊢
      rw [hkind, hkind', halike]

end Peers

section Runs

variable {objs : ObjectId → Prop} {op : Op} {ops : List Op}

namespace Op

def Asks (objs : ObjectId → Prop) : Op → Prop
  | getAttribute registry obj .. | removeAttribute registry obj _ | listAttributes registry obj _ =>
    registry = .standard ∧ objs obj
  | setAttribute registry obj _ _ flags => registry = .standard ∧ flags.other = false ∧ objs obj
  | deleteAttributes obj | chownAttributes obj _ => objs obj
  | _ => False

def isOnUser : Op → Bool
  | getAttribute _ _ name _ | setAttribute _ _ name .. | removeAttribute _ _ name => !isForeign name
  | _ => false

def outcome (op : Op) (volume : Volume MemStore) : Except ErrorKind (Nat × Buffer) :=
  match op with
  | getAttribute registry obj name buffer =>
    (((Volume.getAttribute registry obj name).answering buffer).result volume).mapError Error.kind
  | listAttributes registry obj buffer =>
    (((Volume.listAttributes registry obj).answering buffer).result volume).mapError Error.kind
  | op => ((op.perform.result volume).map fun _ => (0, none)).mapError Error.kind

end Op

/-- No call of a run has another `outcome` over `volume'` than over `volume`, and those on names of users fail
and change nothing. -/
def Indistinct : List Op → Volume MemStore → Volume MemStore → Prop
  | [], _, _ => True
  | op :: ops, volume, volume' =>
    op.outcome volume = op.outcome volume'
      ∧ (op.isOnUser = true → (∃ kind, op.outcome volume = .error kind)
        ∧ op.perform.after volume = volume ∧ op.perform.after volume' = volume')
      ∧ Indistinct ops (op.perform.after volume) (op.perform.after volume')

theorem Alike.map {β : Type} {result result' : Except Error α} (h : Alike result result') (f : α → β) :
    Alike (result.map f) (result'.map f) := by
  cases result with
  | ok a =>
    cases result' with
    | ok a' =>
      obtain rfl : a = a' := by simpa [Alike, Except.mapError] using h
      exact .refl _
    | error err => simp [Alike, Except.mapError] at h
  | error err =>
    cases result' with
    | ok a => simp [Alike, Except.mapError] at h
    | error err' => simpa [Alike, Except.mapError, Except.map] using h

theorem SoundPeers.perform (h : SoundPeers objs volume volume') (hop : op.Asks objs)
    (hbound : volume.store.nextId ≤ 2 ^ 63) (hbound' : volume'.store.nextId ≤ 2 ^ 63) :
    op.outcome volume = op.outcome volume'
      ∧ SoundPeers objs (op.perform.after volume) (op.perform.after volume') := by
  have hoptions := h.peers.options_eq
  have huser : volume.userEnabled = false := by
    rw [userEnabled, h.user_eq, Bool.and_false]
  have hobject {obj : ObjectId} (hobj : objs obj) :
      volume'.subject? obj = volume.subject? obj
        ∧ ∀ ⦃subject⦄, volume.subject? obj = some subject → volume.HasKey objs subject.key := by
    obtain ⟨subject, hholds, hholds'⟩ := h.peers.objects hobj
    exact ⟨hholds'.1.trans hholds.1.symm, fun subject' hsubject => ⟨obj, subject', hobj, hsubject, rfl⟩⟩
  have hid {books books' : Except Error (ObjectKey → Book)} {keys : ObjectKey → Prop}
      (hbooks : SameForeign keys books books') : SameForeign keys (books.map id) (books'.map id) := by
    cases hbooks with
    | opened h => exact .opened h
    | closed hkind => exact .closed hkind
  cases op with
  | getAttribute registry obj name buffer =>
    obtain ⟨rfl, hobj⟩ : registry = .standard ∧ objs obj := hop
    obtain ⟨hsubject, hkey⟩ := hobject hobj
    simp only [Op.perform, after_discard, ← after_answering]
    refine h.call (h.sound.serves_getAttribute hbound obj name buffer)
      (h.sound'.serves_getAttribute hbound' obj name buffer) ?_ (hid h.peers.books)
    rw [getAnswer_congr hoptions hsubject]
    exact getAnswer_alike huser h.peers.books hkey name buffer
  | listAttributes registry obj buffer =>
    obtain ⟨rfl, hobj⟩ : registry = .standard ∧ objs obj := hop
    obtain ⟨hsubject, hkey⟩ := hobject hobj
    simp only [Op.perform, after_discard, ← after_answering]
    refine h.call (h.sound.serves_listAttributes hbound obj buffer)
      (h.sound'.serves_listAttributes hbound' obj buffer) ?_ (hid h.peers.books)
    rw [listAnswer_congr hoptions hsubject]
    exact listAnswer_alike huser h.peers.books hkey buffer
  | setAttribute registry obj name value flags =>
    obtain ⟨rfl, hother, hobj⟩ : registry = .standard ∧ flags.other = false ∧ objs obj := hop
    obtain ⟨hsubject, hkey⟩ := hobject hobj
    refine (h.call (h.sound.serves_setAttribute hbound hother obj name value)
      (h.sound'.serves_setAttribute hbound' hother obj name value) ?_
      (h.peers.books.withBookOf hsubject (only_setBook name value))).imp_left (·.map _)
    rw [setAnswer_congr hoptions hsubject]
    exact setAnswer_alike huser h.peers.books hkey name value flags
  | removeAttribute registry obj name =>
    obtain ⟨rfl, hobj⟩ : registry = .standard ∧ objs obj := hop
    obtain ⟨hsubject, hkey⟩ := hobject hobj
    refine (h.call (h.sound.serves_removeAttribute hbound obj name)
      (h.sound'.serves_removeAttribute hbound' obj name) ?_
      (h.peers.books.withBookOf hsubject fun book book' heq => by
        simp only [Book.only_without, heq])).imp_left (·.map _)
    rw [removeAnswer_congr hoptions hsubject]
    exact removeAnswer_alike huser h.peers.books hkey name
  | deleteAttributes obj =>
    obtain ⟨hsubject, hkey⟩ := hobject hop
    refine (h.call (h.sound.serves_deleteAttributes hbound obj)
      (h.sound'.serves_deleteAttributes hbound' obj) ?_
      (h.peers.books.deleteBooks hsubject hoptions)).imp_left (·.map _)
    rw [bulkAnswer_congr hoptions hsubject]
    exact bulkAnswer_alike h.peers.books
  | chownAttributes obj change =>
    obtain ⟨hsubject, hkey⟩ := hobject hop
    refine (h.call (h.sound.serves_chownAttributes obj change)
      (h.sound'.serves_chownAttributes obj change) ?_ (hid h.peers.books)).imp_left (·.map _)
    rw [bulkAnswer_congr hoptions hsubject]
    exact bulkAnswer_alike h.peers.books
  | _ => exact hop.elim

theorem Op.refused_user (hop : op.Asks objs) (huser : volume.userEnabled = false)
    (hname : op.isOnUser = true) :
    (∃ kind, op.outcome volume = .error kind) ∧ op.perform.after volume = volume := by
  cases op with
  | getAttribute registry obj name buffer =>
    obtain ⟨rfl, _⟩ : registry = .standard ∧ objs obj := hop
    obtain ⟨err, _, _, hrun, _⟩ :=
      stopped_getAttribute_user (by simpa [Op.isOnUser] using hname) huser obj buffer
    refine ⟨⟨err.kind, by simp [Op.outcome, Action.result, hrun, Except.mapError]⟩, ?_⟩
    rw [Op.perform, after_discard, ← after_answering, after_of_error hrun]
  | setAttribute registry obj name value flags =>
    obtain ⟨rfl, _⟩ : registry = .standard ∧ flags.other = false ∧ objs obj := hop
    obtain ⟨err, _, _, hrun, _⟩ :=
      stopped_setAttribute_user (by simpa [Op.isOnUser] using hname) huser obj value flags
    refine ⟨⟨err.kind, ?_⟩, after_of_error hrun⟩
    simp [Op.outcome, Op.perform, Action.result, hrun, Except.mapError, Except.map]
  | removeAttribute registry obj name =>
    obtain ⟨rfl, _⟩ : registry = .standard ∧ objs obj := hop
    obtain ⟨err, _, _, hrun, _⟩ :=
      stopped_removeAttribute_user (by simpa [Op.isOnUser] using hname) huser obj
    refine ⟨⟨err.kind, ?_⟩, after_of_error hrun⟩
    simp [Op.outcome, Op.perform, Action.result, hrun, Except.mapError, Except.map]
  | _ => cases hname

theorem SoundPeers.indistinct (h : SoundPeers objs volume volume') (hops : ∀ op ∈ ops, op.Asks objs)
    (hbound : (run ops volume).store.nextId ≤ 2 ^ 63)
    (hbound' : (run ops volume').store.nextId ≤ 2 ^ 63) : Indistinct ops volume volume' := by
  induction ops generalizing volume volume' with
  | nil => trivial
  | cons op ops ih =>
    have hop := hops op (by simp)
    have hnow := Nat.le_trans (nextId_le_run (op :: ops) h.sound.linked) hbound
    have hnow' := Nat.le_trans (nextId_le_run (op :: ops) h.sound'.linked) hbound'
    obtain ⟨houtcome, hnext⟩ := h.perform hop hnow hnow'
    refine ⟨houtcome, fun hname => ?_, ih hnext (fun op hmem => hops op (by simp [hmem])) hbound hbound'⟩
    have huser : volume.userEnabled = false := by
      rw [userEnabled, h.user_eq, Bool.and_false]
    have huser' : volume'.userEnabled = false := by
      rw [userEnabled, h.peers.options_eq, h.user_eq, Bool.and_false]
    obtain ⟨hfails, hsame⟩ := Op.refused_user hop huser hname
    exact ⟨hfails, hsame, (Op.refused_user hop huser' hname).2⟩

theorem user_attributes_hidden (h : Untampered volume) (h' : Untampered volume')
    (hpeers : Peers objs volume volume') (huser : volume.options.user = false)
    (hquiet : volume.store.Quiet) (hquiet' : volume'.store.Quiet) (hops : ∀ op ∈ ops, op.Asks objs)
    (hbound : (run ops volume).store.nextId ≤ 2 ^ 63)
    (hbound' : (run ops volume').store.nextId ≤ 2 ^ 63) : Indistinct ops volume volume' := by
  have hsound := h.sound (Nat.le_trans (nextId_le_run ops h.linked) hbound)
  have hsound' := h'.sound (Nat.le_trans (nextId_le_run ops h'.linked) hbound')
  exact SoundPeers.indistinct ⟨hpeers, huser, hsound, hsound', hquiet, hquiet'⟩ hops hbound hbound'

def secretive (secrets : List String) : Volume MemStore :=
  let created := (Op.store (.create 1 "f" 0o644)).perform.after
    (initial 64 .current headerSize_lt_sixtyFour .optional 4)
  run ((.mount ⟨false⟩ :: secrets.map (.setAttribute .standard 2 · [1] .none))
    ++ [.setAttribute .standard 2 "trusted.b" [2, 3] .none,
      .setOptions { MountOptions.all with user := false }]) created

theorem untampered_secretive (secrets : List String) : Untampered (secretive secrets) := by
  let start : Volume MemStore := initial 64 .current headerSize_lt_sixtyFour .optional 4
  have hcreate : Op.Careful start (.store (.create 1 "f" 0o644)) := by
    refine .inr fun priv hroot => ?_
    have hnone : start.store.child? rootId privateRootName = none := by decide +kernel
    rw [hnone] at hroot
    cases hroot
  have hcreated := (Untampered.initial 64 .current headerSize_lt_sixtyFour .optional 4).step hcreate
  refine hcreated.run fun op hmem volume => ?_
  simp only [List.mem_cons, List.mem_append, List.mem_map, List.not_mem_nil, or_false] at hmem
  obtain (rfl | ⟨name, _, rfl⟩) | rfl | rfl := hmem
  . trivial
  . exact ⟨rfl, rfl⟩
  . exact ⟨rfl, rfl⟩
  . trivial

def curiousRun : List Op :=
  [.listAttributes .standard 2 none, .getAttribute .standard 2 "user.a" none,
    .setAttribute .standard 2 "user.a" [4] { SetFlags.none with replace := true },
    .setAttribute .standard 2 "trusted.c" [5] { SetFlags.none with create := true },
    .removeAttribute .standard 2 "trusted.b", .deleteAttributes 2,
    .listAttributes .standard 2 (some [0, 0, 0, 0])]

theorem user_attributes_hidden_secretive :
    Peers (· = 2) (secretive ["user.a", "user.c"]) (secretive [])
      ∧ Indistinct curiousRun (secretive ["user.a", "user.c"]) (secretive []) := by
  have h := (untampered_secretive ["user.a", "user.c"]).sound (by decide +kernel)
  have h' := (untampered_secretive []).sound (by decide +kernel)
  have hpeers : Peers (· = 2) (secretive ["user.a", "user.c"]) (secretive []) := by
    have hpriv : (secretive ["user.a", "user.c"]).privateRoot = some 3 := by decide +kernel
    have hpriv' : (secretive []).privateRoot = some 3 := by decide +kernel
    have hopen : (secretive ["user.a", "user.c"]).store.directory? 3 ≠ none := by decide +kernel
    have hopen' : (secretive []).store.directory? 3 ≠ none := by decide +kernel
    have hsubject : (secretive ["user.a", "user.c"]).subject? 2 = some ⟨⟨2, 1⟩, false, false, false⟩ := by
      decide +kernel
    have hsubject' : (secretive []).subject? 2 = some ⟨⟨2, 1⟩, false, false, false⟩ := by
      decide +kernel
    refine ⟨by decide +kernel, ?_, ?_⟩
    . rintro _ rfl
      exact ⟨_, ⟨hsubject, h.isOutside hpriv hopen hsubject rfl⟩,
        hsubject', h'.isOutside hpriv' hopen' hsubject' rfl⟩
    . rw [h.books_eq hpriv hopen, h'.books_eq hpriv' hopen']
      refine .opened ?_
      rintro _ ⟨_, subject, rfl, hfound, rfl⟩
      obtain rfl := Option.some.inj (hsubject.symm.trans hfound)
      decide +kernel
  refine ⟨hpeers, user_attributes_hidden (untampered_secretive _) (untampered_secretive _) hpeers
    (by decide +kernel) ⟨by decide +kernel, by decide +kernel⟩ ⟨by decide +kernel, by decide +kernel⟩ ?_
    (by decide +kernel) (by decide +kernel)⟩
  simp [curiousRun, Op.Asks, SetFlags.none]

end Runs

end Volume

end AttrTree
