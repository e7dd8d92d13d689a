import AttrTree.Proofs.Untampered

/-!
This module contains why listing, reading and removing agree. Each of them goes another way to find out
which names can be had, and it is the names in the books that make them come to the same: on a volume that
nobody has tampered with, they are names of attributes, even after writes that failed halfway.
-/

namespace AttrTree

open Action MemStore

namespace Handler

variable {σ : Type} {handler : Handler} {volume : Volume σ} {name : String}

theorem isShown_iff_check (hserves : handler.serves name = true) :
    handler.isShown volume = true ↔ handler.check volume name = .ok () := by
  cases handler with
  | user =>
    have hsize : ¬ EntryName.size name ≤ EntryName.size user.start :=
      Nat.not_le.mpr (of_decide_eq_true hserves)
    cases henabled : volume.userEnabled <;>
      simp [isShown, check, checkSuffix, hsize, henabled, bind, Except.bind, pure, Except.pure, throw,
        throwThe, MonadExceptOf.throw]
  | plain start =>
    have hsize : ¬ EntryName.size name ≤ EntryName.size start :=
      Nat.not_le.mpr (of_decide_eq_true hserves)
    simp [isShown, check, checkSuffix, hsize]
  | acl kind =>
    have hname : name = kind.attrName := by
      simpa [serves] using hserves
    cases henabled : volume.aclEnabled <;>
      simp [isShown, check, hname, henabled, pure, Except.pure, throw, throwThe, MonadExceptOf.throw]
  | fixed start answers => cases hserves

theorem allowRemoval_iff_check (hserves : handler.serves name = true) :
    handler.allowRemoval volume name = .ok () ↔ handler.check volume name = .ok () := by
  cases handler with
  | plain start =>
    have hsize : ¬ EntryName.size name ≤ EntryName.size start :=
      Nat.not_le.mpr (of_decide_eq_true hserves)
    simp [allowRemoval, check, checkSuffix, hsize]
  | fixed start answers => cases hserves
  | user => exact Iff.rfl
  | acl kind => exact Iff.rfl

end Handler

namespace Volume

variable {volume rest : Volume MemStore} {priv obj : ObjectId} {name : String} {buffer : Buffer}
  {subject : Subject} {books : ObjectKey → Book} {key : ObjectKey} {content : Bytes} {α : Type}

theorem succeeds_answering {β : Type} (act : Action (Volume MemStore × β) α) (b : β) :
    (act.answering b).succeeds volume = act.succeeds (volume, b) := by
  unfold Action.succeeds answering
  cases act (volume, b) <;> rfl

theorem Yields.succeeds_iff {act : Action (Volume MemStore) α} {answer : Except Error α}
    (h : volume.Yields priv books (act volume) answer) :
    act.succeeds volume = true ↔ ∃ a, answer = .ok a := by
  unfold Action.succeeds
  generalize act volume = result at h
  cases h with
  | done h => simp
  | refused hkind h => simp

namespace Intact

variable (h : volume.Intact priv)
include h

theorem isAttrName_of_mem (hmem : name ∈ (volume.store.book priv key).names) :
    isAttrName name = true := by
  cases hdir : volume.store.attrDir? priv key with
  | none =>
    rw [book_of_none hdir] at hmem
    cases hmem
  | some dir =>
    obtain ⟨_, d, _, _, _, _, hdirectory, _⟩ := h.attrDir_entry hdir
    rw [book_of_some hdir hdirectory, names_bookOf, List.mem_map] at hmem
    obtain ⟨e, hmem, rfl⟩ := hmem
    obtain ⟨hdots, hrecord⟩ := h.entry hdir hdirectory hmem
    exact h.names hdots (by rw [hrecord]; nofun)

theorem names_nodup (key : ObjectKey) : (volume.store.book priv key).names.Nodup := by
  cases hdir : volume.store.attrDir? priv key with
  | none => simp [book_of_none hdir, Book.names]
  | some dir =>
    obtain ⟨_, d, _, _, _, _, hdirectory, hwf, _⟩ := h.attrDir_entry hdir
    rw [book_of_some hdir hdirectory, names_bookOf]
    exact hwf.names_nodup

theorem headerSize_le (hname : EntryName.isDots name = false)
    (hcontent : (volume.store.book priv key).content? name = some content) :
    Record.headerSize ≤ content.length := by
  rw [h.content?_book hname, Option.bind_eq_some_iff] at hcontent
  obtain ⟨record, hrecord, hcontent⟩ := hcontent
  obtain ⟨file, content', hfile, _, _, hbody, hlength⟩ := h.file_of_record hname hrecord
  rw [content?_of_object? hfile hbody] at hcontent
  exact Option.some.inj hcontent ▸ hlength

variable (hchecked : volume.checkedSubject obj = .ok subject)
include hchecked

omit h in
theorem getAnswer_isOk_iff :
    (∃ a, volume.getAnswer (.ok books) obj name none = .ok a) ↔
      ∃ link, Registry.standard.resolve? name = some link
        ∧ link.handler.check volume name = .ok () ∧ isValidName name = true
        ∧ ∃ content, (books subject.key).content? name = some content
          ∧ Record.headerSize ≤ content.length := by
  cases hlink : Registry.standard.resolve? name with
  | none => simp [getAnswer, gate, hlink, bind, Except.bind]
  | some link =>
    cases hcheck : link.handler.check volume name with
    | error err => simp [getAnswer, gate, hlink, hchecked, hcheck, Except.map, bind, Except.bind]
    | ok _ =>
      cases hvalid : isValidName name with
      | false =>
        obtain ⟨err, hname, _⟩ := checkAttrName_of_invalid hvalid
        simp [getAnswer, gate, hlink, hchecked, hcheck, hname, Except.map, bind, Except.bind]
      | true =>
        have hname := checkAttrName_of_valid hvalid
        cases hcontent : (books subject.key).content? name with
        | none =>
          simp [getAnswer, gate, hlink, hchecked, hcheck, hname, hcontent, Except.map, bind, Except.bind]
        | some content =>
          by_cases hlength : content.length < Record.headerSize
          . simp [getAnswer, gate, hlink, hchecked, hcheck, hname, hcontent, Except.map, bind,
              Except.bind, readOutcome, hlength]
          . simp [getAnswer, gate, hlink, hchecked, hcheck, hname, hcontent, Except.map, bind,
              Except.bind, readOutcome, hlength, Nat.le_of_not_lt hlength]

omit h in
theorem removeAnswer_isOk_iff :
    (∃ a, volume.removeAnswer (.ok books) obj name = .ok a) ↔
      ∃ link, Registry.standard.resolve? name = some link
        ∧ link.handler.allowRemoval volume name = .ok () ∧ isValidName name = true
        ∧ ∃ content, (books subject.key).content? name = some content := by
  cases hlink : Registry.standard.resolve? name with
  | none => simp [removeAnswer, gate, hlink, bind, Except.bind]
  | some link =>
    cases hallow : link.handler.allowRemoval volume name with
    | error err => simp [removeAnswer, gate, hlink, hchecked, hallow, Except.map, bind, Except.bind]
    | ok _ =>
      cases hvalid : isValidName name with
      | false =>
        obtain ⟨err, hname, _⟩ := checkAttrName_of_invalid hvalid
        simp [removeAnswer, gate, hlink, hchecked, hallow, hname, Except.map, bind, Except.bind]
      | true =>
        have hname := checkAttrName_of_valid hvalid
        cases hcontent : (books subject.key).content? name with
        | none =>
          simp [removeAnswer, gate, hlink, hchecked, hallow, hname, hcontent, Except.map, bind,
            Except.bind]
        | some content =>
          simp [removeAnswer, gate, hlink, hchecked, hallow, hname, hcontent, Except.map, bind,
            Except.bind]

omit hchecked in
theorem mem_listedNames_iff :
    name ∈ volume.listedNames (volume.store.book priv key) ↔
      ∃ link, Registry.standard.resolve? name = some link
        ∧ link.handler.check volume name = .ok () ∧ isValidName name = true
        ∧ ∃ content, (volume.store.book priv key).content? name = some content
          ∧ Record.headerSize ≤ content.length := by
  rw [listedNames, List.mem_filter, List.mem_reverse]
  constructor
  . rintro ⟨hmem, hlists⟩
    obtain ⟨hvalid, link, hlink, hserves⟩ := isAttrName_eq_true_iff.mp (h.isAttrName_of_mem hmem)
    obtain ⟨content, hcontent⟩ := Option.isSome_iff_exists.mp (Book.mem_names_iff.mp hmem)
    have hshown : link.handler.isShown volume = true := by
      simpa [lists, hlink] using hlists
    exact ⟨link, hlink, (Handler.isShown_iff_check hserves).mp hshown, hvalid, content, hcontent,
      h.headerSize_le (isDots_of_isValidName hvalid) hcontent⟩
  . rintro ⟨link, hlink, hcheck, _, content, hcontent, _⟩
    have hmem : name ∈ (volume.store.book priv key).names :=
      Book.mem_names_iff.mpr (by rw [hcontent]; rfl)
    have hserves := serves_of_isAttrName (h.isAttrName_of_mem hmem) hlink
    refine ⟨hmem, ?_⟩
    simpa [lists, hlink] using (Handler.isShown_iff_check hserves).mpr hcheck

theorem mem_listedNames_iff_get :
    name ∈ volume.listedNames (volume.store.book priv subject.key) ↔
      ∃ a, volume.getAnswer (.ok (volume.store.book priv)) obj name none = .ok a :=
  h.mem_listedNames_iff.trans (getAnswer_isOk_iff hchecked).symm

theorem mem_listedNames_iff_remove :
    name ∈ volume.listedNames (volume.store.book priv subject.key) ↔
      ∃ a, volume.removeAnswer (.ok (volume.store.book priv)) obj name = .ok a := by
  rw [h.mem_listedNames_iff, removeAnswer_isOk_iff hchecked]
  have hknown {content : Bytes}
      (hcontent : (volume.store.book priv subject.key).content? name = some content) :
      isAttrName name = true :=
    h.isAttrName_of_mem (Book.mem_names_iff.mpr (by rw [hcontent]; rfl))
  constructor
  . rintro ⟨link, hlink, hcheck, hvalid, content, hcontent, _⟩
    have hserves := serves_of_isAttrName (hknown hcontent) hlink
    exact ⟨link, hlink, (Handler.allowRemoval_iff_check hserves).mpr hcheck, hvalid, content,
      hcontent⟩
  . rintro ⟨link, hlink, hallow, hvalid, content, hcontent⟩
    have hserves := serves_of_isAttrName (hknown hcontent) hlink
    exact ⟨link, hlink, (Handler.allowRemoval_iff_check hserves).mp hallow, hvalid, content,
      hcontent, h.headerSize_le (isDots_of_isValidName hvalid) hcontent⟩

end Intact

theorem Shut.not_lists (h : volume.Shut) (obj : ObjectId) (buffer : Buffer) :
    (listAttributes .standard obj).succeeds (volume, buffer) = false := by
  have hrefuses := h.refuses_listAttributes obj buffer
  obtain ⟨err, hbooks⟩ := h.books_error
  have hanswer : ∃ err', volume.listAnswer volume.books obj buffer = .error err' := by
    rw [hbooks]
    cases hchecked : volume.checkedSubject obj with
    | error err' => exact ⟨err', by simp [listAnswer, hchecked, bind, Except.bind]⟩
    | ok subject => exact ⟨err, by simp [listAnswer, hchecked, bind, Except.bind]⟩
  obtain ⟨err', hanswer⟩ := hanswer
  rw [← succeeds_answering]
  unfold Action.succeeds
  rw [hanswer] at hrefuses
  generalize (listAttributes .standard obj).answering buffer volume = result at hrefuses
  cases hrefuses
  rfl

theorem listed_iff_read_iff_removed (h : Untampered volume) (hbound : volume.store.nextId ≤ 2 ^ 63)
    (hlist : (listAttributes .standard obj).succeeds (volume, buffer) = true) :
    ∃ names, names.Nodup ∧ (∀ name ∈ names, isAttrName name = true)
      ∧ (∀ room, ∃ rest, Lists (listAttributes .standard obj (volume, room)) rest names room)
      ∧ ∀ name,
        (name ∈ names ↔ (getAttribute .standard obj name).succeeds (volume, none) = true)
        ∧ ((getAttribute .standard obj name).succeeds (volume, none) = true ↔
          (removeAttribute .standard obj name).succeeds volume = true) := by
  cases h.sound hbound with
  | shut h =>
    rw [h.not_lists] at hlist
    cases hlist
  | @intact priv h hlocks =>
    rw [← succeeds_answering, (h.yields_listAttributes hlocks hbound obj buffer).succeeds_iff] at hlist
    cases hchecked : volume.checkedSubject obj with
    | error err =>
      obtain ⟨a, hlist⟩ := hlist
      simp [listAnswer, hchecked, bind, Except.bind] at hlist
    | ok subject =>
      refine ⟨volume.listedNames (volume.store.book priv subject.key), ?_, ?_, fun room => ?_,
        fun name => ?_⟩
      . exact (List.nodup_reverse.mpr (h.names_nodup subject.key)).filter _
      . intro name hmem
        rw [listedNames, List.mem_filter, List.mem_reverse] at hmem
        exact h.isAttrName_of_mem hmem.1
      . obtain ⟨rest, _, hlists⟩ := h.lists_listAttributes hlocks hbound hchecked room
        exact ⟨rest, hlists⟩
      . have hget := h.yields_getAttribute (Nat.le_trans hbound (by decide)) obj name none
        have hremove := h.yields_removeAttribute hbound obj name
        rw [← succeeds_answering, hget.succeeds_iff, hremove.succeeds_iff,
          ← h.mem_listedNames_iff_get hchecked, ← h.mem_listedNames_iff_remove hchecked]
        exact ⟨.rfl, .rfl⟩

def damagingRun : List Op :=
  [.store (.create 1 "f" 0o644), .mount ⟨false⟩, .setAttribute .standard 2 "user.a" [1] .none,
    .store (.planWriteFault 0), .setAttribute .standard 2 "trusted.b" [2, 3] .none,
    .setOptions { MountOptions.all with user := false }]

def damaged : Volume MemStore :=
  run damagingRun (initial 64 .current headerSize_lt_sixtyFour .optional 4)

theorem untampered_damaged : Untampered damaged := by
  let start : Volume MemStore := initial 64 .current headerSize_lt_sixtyFour .optional 4
  have hcreate : Op.Careful start (.store (.create 1 "f" 0o644)) := by
    refine .inr fun priv hroot => ?_
    have hnone : start.store.child? rootId privateRootName = none := by decide +kernel
    rw [hnone] at hroot
    cases hroot
  have hmounted := ((Untampered.initial 64 .current headerSize_lt_sixtyFour .optional 4).step hcreate).step
    (show Op.Careful _ (.mount ⟨false⟩) from trivial)
  have hfirst := hmounted.step
    (show Op.Careful _ (.setAttribute .standard 2 "user.a" [1] .none) from ⟨rfl, rfl⟩)
  have hplanned := hfirst.step (show Op.Careful _ (.store (.planWriteFault 0)) from .inl rfl)
  have hsecond := hplanned.step
    (show Op.Careful _ (.setAttribute .standard 2 "trusted.b" [2, 3] .none) from ⟨rfl, rfl⟩)
  exact hsecond.step
    (show Op.Careful _ (.setOptions { MountOptions.all with user := false }) from trivial)

theorem listed_iff_read_iff_removed_damaged :
    Untampered damaged ∧ damaged.store.nextId ≤ 2 ^ 63
      ∧ (listAttributes .standard 2).succeeds (damaged, none) = true
      ∧ ∃ names, names.Nodup ∧ (∃ rest, Lists (listAttributes .standard 2 (damaged, none)) rest names none)
        ∧ "trusted.b" ∈ names ∧ (removeAttribute .standard 2 "trusted.b").succeeds damaged = true
        ∧ "user.a" ∉ names := by
  have hbound : damaged.store.nextId ≤ 2 ^ 63 := by decide +kernel
  have hlist : (listAttributes .standard 2).succeeds (damaged, none) = true := by decide +kernel
  obtain ⟨names, hnodup, _, hlists, hagree⟩ :=
    listed_iff_read_iff_removed untampered_damaged hbound hlist
  have hread : (getAttribute .standard 2 "trusted.b").succeeds (damaged, none) = true := by
    decide +kernel
  have hhidden : (getAttribute .standard 2 "user.a").succeeds (damaged, none) = false := by
    decide +kernel
  refine ⟨untampered_damaged, hbound, hlist, names, hnodup, hlists none, ?_, ?_, ?_⟩
  . exact (hagree "trusted.b").1.mpr hread
  . exact (hagree "trusted.b").2.mp hread
  . rw [(hagree "user.a").1, hhidden]
    nofun

end Volume

end AttrTree
