import AttrTree.Proofs.Intact

/-!
This module contains the steps that revise the books of a volume. A directory is made, a record is written
or removed, an empty directory goes: each step keeps the volume intact and what is outside of the private
tree as it is.
-/

namespace AttrTree

namespace MemStore

variable {store store' : MemStore}

theorem book_of_objects_eq (h : store'.objects = store.objects) (priv : ObjectId) (key : ObjectKey) :
    store'.book priv key = store.book priv key := by
  have hbook (d : Directory) : store'.bookOf d = store.bookOf d :=
    bookOf_congr fun e _ => content?_congr (object?_congr h e.target)
  have hdirectory (id : ObjectId) : store'.directory? id = store.directory? id := by
    rw [directory?, object?_congr h, directory?]
  simp only [book, attrDir?_congr (child?_of_objects_eq h), funext hdirectory, funext hbook]

end MemStore

namespace Volume

open Action MemStore

variable {volume middle rest : Volume MemStore} {priv parent root dir dir' record record' : ObjectId}
  {stat : ObjectStat} {key key' : ObjectKey} {name n : String} {content : Bytes}
  {object owner target : MemObject} {d : Directory} {e : DirEntry} {flags : SetFlags}
  {change : AttrChange}

namespace Intact

variable (h : volume.Intact priv)
include h

section Apart

theorem attrRoot_isPrivateDirectory (hroot : volume.store.attrRoot? priv = some root) :
    volume.store.mended.Has root MemObject.IsPrivateDirectory :=
  h.tidy.attrRoot (by simpa using hroot)

theorem attrDir_isPrivateDirectory (hdir : volume.store.attrDir? priv key = some dir) :
    volume.store.mended.Has dir MemObject.IsPrivateDirectory :=
  (h.tidy.attrDir (by simpa using hdir)).2.isPrivateDirectory

theorem dir_ne_attrRoot (hroot : volume.store.attrRoot? priv = some root)
    (hdir : volume.store.attrDir? priv key = some dir) : dir ≠ root :=
  (h.tidy.attrRoot_ne_attrDir (by simpa using hroot) (by simpa using hdir)).symm

theorem dir_ne_dir (hdir : volume.store.attrDir? priv key = some dir)
    (hdir' : volume.store.attrDir? priv key' = some dir') (hne : key' ≠ key) : dir' ≠ dir := by
  rintro rfl
  exact hne (h.tidy.attrDir_unique (by simpa using hdir) (by simpa using hdir'))

section Record

variable (hname : EntryName.isDots name = false)
  (hrecord : volume.store.attrRecord? priv key name = some record)
include hname hrecord

theorem record_ne (hid : volume.store.mended.Has x MemObject.IsPrivateDirectory) : record ≠ x :=
  h.tidy.record_ne hname (by simpa using hrecord) hid

theorem record_ne_record (hn : EntryName.isDots n = false)
    (hrecord' : volume.store.attrRecord? priv key' n = some record')
    (hne : ¬ (key' = key ∧ n = name)) : record' ≠ record := by
  rintro rfl
  exact hne (h.tidy.record_unique hname hn (by simpa using hrecord) (by simpa using hrecord'))

end Record

end Apart

section Same

theorem sameObjects (hsettled : rest.mended.Settled priv)
    (hobjects : rest.store.objects = volume.store.objects) (hlocks : rest.locks = volume.locks)
    (hoptions : rest.options = volume.options) (hquiet : volume.store.KeepsQuiet rest.store) :
    volume.Revises rest priv (volume.store.book priv) := by
  have hchild := child?_of_objects_eq hobjects
  refine ⟨⟨hsettled, fun key n hn hrecord => ?_⟩, book_of_objects_eq hobjects priv, hlocks, hoptions,
    fun x object hobject hout => ?_, hquiet⟩
  . rw [attrRecord?_congr hchild] at hrecord
    exact h.names hn hrecord
  . rw [object?_congr hobjects, inTree_congr hchild]
    exact ⟨hobject, hout⟩

theorem looked (key : ObjectKey) :
    volume.Revises (volume.looked key) priv (volume.store.book priv) :=
  h.sameObjects (mended_looked .. ▸ (h.settled.looked key).settled) rfl rfl rfl (.refl _)

theorem opened (hdir : volume.store.attrDir? priv key = some dir) :
    volume.Revises (volume.opened key dir) priv (volume.store.book priv) := by
  have hsettled : (volume.opened key dir).mended.Settled priv :=
    mended_opened .. ▸ (h.settled.opened (by simpa [mended] using hdir)).settled
  refine h.sameObjects hsettled ?_ ?_ ?_ ?_
  all_goals
    unfold Volume.opened
    split
  all_goals first | rfl | exact .refl _

theorem forgot (hroot : volume.store.attrRoot? priv = some root) (key : ObjectKey) :
    volume.Revises { volume with attrRoot := some root, cache := volume.cache.erase key } priv
      (volume.store.book priv) := by
  have hnoted : volume.mended.Becomes
      { volume.mended with attrRoot := some root, cache := volume.cache.erase key } priv
      (volume.mended.store.attrValue? priv) := by
    refine h.settled.noted (fun root' heq => ?_) fun key' dir hpeek => ?_
    . cases heq
      exact (MemStore.attrRoot?_mended ..).trans hroot
    . rw [DirCache.peek?_erase] at hpeek
      split at hpeek
      . cases hpeek
      . exact h.settled.cache hpeek
  exact h.sameObjects hnoted.settled rfl rfl rfl (.refl _)

theorem withMoves (moves : Nat) :
    volume.Revises (volume.withMoves moves) priv (volume.store.book priv) :=
  h.sameObjects (h.settled.withMoves moves).settled rfl rfl rfl ⟨id, id⟩

end Same

section Record

variable (hdir : volume.store.attrDir? priv key = some dir) (hname : isAttrName name = true)

include hdir hname in
theorem revises_of_place {store : MemStore} {child : Option ObjectId} {value : Option Bytes}
    {book : Book}
    (hchanged : volume.store.mended.ValueChanged store.mended priv key name value)
    (hplace : volume.store.PlaceChanged store dir name child)
    (hchild : ∀ ⦃id⦄, child = some id →
      volume.store.attrRecord? priv key name = some id ∨ id = volume.store.nextId)
    (hothers : ∀ ⦃x object⦄, volume.store.object? x = some object → x ≠ dir →
      volume.store.attrRecord? priv key name ≠ some x → store.object? x = some object)
    (hbook : store.book priv key = book) (hquiet : volume.store.KeepsQuiet store) :
    volume.Revises { volume with store } priv (withBook (volume.store.book priv) key book) := by
  have hdots := isDots_of_isValidName (isAttrName_eq_true_iff.mp hname).1
  have hroot : store.attrRoot? priv = volume.store.attrRoot? priv := by
    simpa using hchanged.attrRoot_eq
  have hdirs (key' : ObjectKey) : store.attrDir? priv key' = volume.store.attrDir? priv key' := by
    simpa using hchanged.attrDir_eq key'
  have hrecords ⦃n : String⦄ (hn : EntryName.isDots n = false) (key' : ObjectKey) :
      store.attrRecord? priv key' n =
        if key' = key ∧ n = name then child else volume.store.attrRecord? priv key' n := by
    have hplace' : volume.store.mended.PlaceChanged store dir name child := fun n hn x => by
      simpa using hplace hn x
    simpa using h.tidy.attrRecord?_of_name (by simpa using hdir) hplace' hn key'
  refine ⟨⟨(h.settled.withStore hchanged).settled, fun key' n hn hrecord => ?_⟩, fun key' => ?_, rfl,
    rfl, fun x object hobject hout => ⟨?_, fun hx => ?_⟩, hquiet⟩
  . rw [hrecords hn] at hrecord
    split at hrecord
    . next hsame => exact hsame.2 ▸ hname
    . exact h.names hn hrecord
  . by_cases hkey : key' = key
    . rw [withBook, if_pos hkey, hkey, hbook]
    . rw [withBook, if_neg hkey]
      refine h.book_congr (hdirs key') (fun dir' hdir' => ?_) fun n record hn hrecord => ?_
      . obtain ⟨owner, d, _, howner, _, hbody, hdirectory, _⟩ := h.attrDir_entry hdir'
        rw [hdirectory]
        refine directory?_of_object? (hothers howner (h.dir_ne_dir hdir hdir' hkey) fun heq => ?_)
          hbody
        exact h.record_ne hdots heq (h.attrDir_isPrivateDirectory hdir') rfl
      . obtain ⟨file, _, hfile, _⟩ := h.file_of_record hn hrecord
        refine content?_congr ((hothers hfile ?_ fun heq => ?_).trans hfile.symm)
        . exact h.record_ne hn hrecord (h.attrDir_isPrivateDirectory hdir)
        . exact h.record_ne_record hdots heq hn hrecord (fun hsame => hkey hsame.1) rfl
  . refine hothers hobject ?_ fun heq => hout (.record hdots heq)
    rintro rfl
    exact hout (.attrDir hdir)
  . have hcases := inTree_cases volume.store volume.store.nextId
      (fun _ heq => .inl (.attrRoot (hroot ▸ heq))) (fun key' _ heq => .inl (.attrDir (hdirs key' ▸ heq)))
      (fun key' n record hn heq => ?_) hx
    . exact hcases.elim hout (h.linked.ne_nextId hobject)
    . rw [hrecords hn] at heq
      split at heq
      . exact (hchild heq).imp (.record hdots) id
      . exact .inl (.record hn heq)

include hname

theorem overwritten (hrecord : volume.store.attrRecord? priv key name = some record)
    (hlength : Record.headerSize ≤ content.length) :
    volume.Revises { volume with store := volume.store.setContent record content } priv
      (withBook (volume.store.book priv) key ((volume.store.book priv key).put name content)) := by
  have hdots := isDots_of_isValidName (isAttrName_eq_true_iff.mp hname).1
  obtain ⟨dir, hdir, hchild⟩ := attrRecord?_eq_some_iff.mp hrecord
  obtain ⟨file, old, hfile, _, _, hbody, _⟩ := h.file_of_record hdots hrecord
  have hkind : file.body.isDirectory = false := by
    rw [hbody]
    rfl
  have hwritten := object?_setContent hfile content
  have hchanged := h.tidy.overwritten hdots (by simpa using hrecord)
    (content.drop Record.headerSize)
  rw [← Record.mend_of_le hlength, ← mended_setContent] at hchanged
  have hplace : volume.store.PlaceChanged (volume.store.setContent record content) dir name
      (some record) := by
    intro n hn x
    rw [child?_setContent hfile hkind]
    split
    . next hplace => rw [hplace.1, hplace.2, hchild]
    . rfl
  refine h.revises_of_place hdir hname hchanged hplace (fun _ heq => .inl (hrecord.trans heq)) ?_ ?_
    ⟨id, id⟩
  . intro x object hobject _ hne
    rw [hwritten, if_neg, hobject]
    rintro rfl
    exact hne hrecord
  . obtain ⟨_, d, _, _, _, _, hdirectory, hwf, _⟩ := h.attrDir_entry hdir
    rw [child?_of_directory? hdirectory, Option.map_eq_some_iff] at hchild
    obtain ⟨e, hfind, rfl⟩ := hchild
    obtain ⟨hmem, rfl⟩ := hwf.mem_ordinary_of_find? hdots hfind
    have hdir' : (volume.store.setContent e.target content).attrDir? priv key = some dir := by
      rw [attrDir?_congr (child?_setContent hfile hkind content), hdir]
    have hdirectory' : (volume.store.setContent e.target content).directory? dir = some d := by
      rw [directory?_setContent hfile hkind, hdirectory]
    rw [book_of_some hdir' hdirectory', book_of_some hdir hdirectory]
    refine bookOf_put hwf hmem ?_ fun e' hmem' hne => content?_congr ?_
    . rw [MemStore.content?, hwritten, if_pos rfl]
      rfl
    . obtain ⟨hdots', hrecord'⟩ := h.entry hdir hdirectory hmem'
      rw [hwritten, if_neg]
      exact h.record_ne_record hdots hrecord hdots' hrecord' fun hsame => hne hsame.2

include hdir

theorem recorded (hfree : volume.store.attrRecord? priv key name = none)
    (hlength : Record.headerSize ≤ content.length) :
    volume.Revises
      { volume with store := (volume.store.madeRecord dir name).setContent volume.store.nextId content }
      priv (withBook (volume.store.book priv) key ((volume.store.book priv key).put name content)) := by
  have hvalid := (isAttrName_eq_true_iff.mp hname).1
  have hdots := isDots_of_isValidName hvalid
  obtain ⟨owner, d, _, howner, _, hbody, hdirectory, hwf, _⟩ := h.attrDir_entry hdir
  have hchanged := h.tidy.recorded (by simpa using hdir) (by simpa using hfree) hvalid
    (content.drop Record.headerSize)
  rw [← Record.mend_of_le hlength, ← mended_madeRecord] at hchanged
  have hfind : d.find? name = none := by
    rw [attrRecord?_of_attrDir? hdir] at hfree
    exact find?_eq_none_of_child? hdirectory hfree
  have hmade : (volume.store.madeRecord dir name).object? volume.store.nextId =
      some (volume.store.newRecord owner.isPrivate) := by
    rw [object?_madeRecord h.linked howner, if_pos rfl]
  have hwritten := object?_setContent hmade content
  have hothers ⦃x : ObjectId⦄ ⦃object : MemObject⦄ (hobject : volume.store.object? x = some object)
      (hne : x ≠ dir) :
      ((volume.store.madeRecord dir name).setContent volume.store.nextId content).object? x =
        some object := by
    have hnew := h.linked.ne_nextId hobject
    rw [hwritten, if_neg hnew, object?_madeRecord h.linked howner, if_neg hnew, if_neg hne, hobject]
  have hplace : volume.store.PlaceChanged
      ((volume.store.madeRecord dir name).setContent volume.store.nextId content) dir name
      (some volume.store.nextId) := by
    intro n hn x
    rw [child?_setContent hmade rfl, child?_madeRecord h.linked hdirectory hfind hn]
  refine h.revises_of_place hdir hname (mended_setContent .. ▸ hchanged) hplace
    (fun _ heq => .inr (Option.some.inj heq).symm) (fun x object hobject hne _ => hothers hobject hne)
    ?_ ⟨id, id⟩
  . have hdir' : ((volume.store.madeRecord dir name).setContent volume.store.nextId content).attrDir?
        priv key = some dir := by
      have heq := hchanged.attrDir_eq key
      rw [show volume.store.mended.nextId = volume.store.nextId from rfl, ← mended_setContent] at heq
      simpa [hdir] using heq
    have hdirectory' : ((volume.store.madeRecord dir name).setContent volume.store.nextId
        content).directory? dir = some (d.insert name volume.store.nextId) := by
      rw [directory?_setContent hmade rfl, directory?_madeRecord h.linked howner hbody,
        if_neg (h.linked.ne_nextId howner), if_pos rfl]
    rw [book_of_some hdir' hdirectory', book_of_some hdir hdirectory]
    refine bookOf_insert hwf hdots hfind ?_ fun e hmem => ?_
    . rw [MemStore.content?, hwritten, if_pos rfl]
      rfl
    . obtain ⟨hdots', hrecord'⟩ := h.entry hdir hdirectory hmem
      obtain ⟨file, _, hfile, _⟩ := h.file_of_record hdots' hrecord'
      refine content?_congr ((hothers hfile ?_).trans hfile.symm)
      exact h.record_ne hdots' hrecord' (h.attrDir_isPrivateDirectory hdir)

end Record

theorem removed (hdir : volume.store.attrDir? priv key = some dir)
    (hleaf : volume.store.IsLeaf dir owner d e target) :
    volume.Revises { volume with store := volume.store.detach dir e target } priv
      (withBook (volume.store.book priv) key ((volume.store.book priv key).without e.name)) := by
  obtain ⟨hdots, hrecord⟩ := h.entry hdir hleaf.directory? hleaf.mem
  have hname : isAttrName e.name = true := @h.names key _ hdots (by simp [hrecord])
  have hchanged := h.tidy.removed (by simpa using hdir) hleaf.mended
  rw [← mended_detach] at hchanged
  have hothers ⦃x : ObjectId⦄ ⦃object : MemObject⦄ (hobject : volume.store.object? x = some object)
      (hne : x ≠ dir) (hne' : x ≠ e.target) :
      (volume.store.detach dir e target).object? x = some object := by
    rw [hleaf.object?_detach, if_neg hne', if_neg hne, hobject]
  have hplace : volume.store.PlaceChanged (volume.store.detach dir e target) dir e.name none :=
    fun n hn x => child?_detach h.linked hleaf hn x
  refine h.revises_of_place hdir hname hchanged hplace nofun ?_ ?_ (.detach ..)
  . intro x object hobject hne hother
    refine hothers hobject hne ?_
    rintro rfl
    exact hother hrecord
  . obtain ⟨_, hwf⟩ := hleaf.wellFormed h.linked
    have hdir' : (volume.store.detach dir e target).attrDir? priv key = some dir := by
      simpa [hdir] using hchanged.attrDir_eq key
    have hdirectory' : (volume.store.detach dir e target).directory? dir = some (d.remove e.offset) := by
      rw [hleaf.directory?_detach, if_neg hleaf.ne.symm, if_pos rfl]
    rw [book_of_some hdir' hdirectory', book_of_some hdir hleaf.directory?]
    refine bookOf_remove hwf hleaf.mem fun e' hmem' hne => ?_
    obtain ⟨hdots', hrecord'⟩ := h.entry hdir hleaf.directory? hmem'
    obtain ⟨file, _, hfile, _⟩ := h.file_of_record hdots' hrecord'
    refine content?_congr ((hothers hfile ?_ ?_).trans hfile.symm)
    . exact h.record_ne hdots' hrecord' (h.attrDir_isPrivateDirectory hdir)
    . exact h.record_ne_record hdots hrecord hdots' hrecord' fun hsame => hne hsame.2

section Directory

theorem revises_of_directory (hsettled : rest.mended.Settled priv)
    (hlocks : rest.locks = volume.locks) (hoptions : rest.options = volume.options)
    (hquiet : volume.store.KeepsQuiet rest.store) (hparent : volume.store.InTree priv parent)
    (hkind : volume.store.mended.Has parent MemObject.IsPrivateDirectory)
    (happart : ∀ ⦃key' dir'⦄, volume.store.attrDir? priv key' = some dir' → dir' ≠ parent)
    (hothers : ∀ ⦃x object⦄, volume.store.object? x = some object → x ≠ parent →
      volume.store.attrDir? priv key ≠ some x → rest.store.object? x = some object)
    (hroot : ∀ ⦃root⦄, rest.store.attrRoot? priv = some root →
      volume.store.attrRoot? priv = some root ∨ root = volume.store.nextId)
    (hdirs : ∀ ⦃key'⦄, key' ≠ key → rest.store.attrDir? priv key' = volume.store.attrDir? priv key')
    (hself : ∀ ⦃dir⦄, rest.store.attrDir? priv key = some dir → dir = volume.store.nextId)
    (hrecords : ∀ ⦃n⦄, EntryName.isDots n = false → ∀ key',
      rest.store.attrRecord? priv key' n = volume.store.attrRecord? priv key' n)
    (hempty : volume.store.book priv key = []) (hempty' : rest.store.book priv key = []) :
    volume.Revises rest priv (volume.store.book priv) := by
  refine ⟨⟨hsettled, fun key' n hn hrecord => ?_⟩, fun key' => ?_, hlocks, hoptions,
    fun x object hobject hout => ⟨?_, fun hx => ?_⟩, hquiet⟩
  . rw [hrecords hn] at hrecord
    exact h.names hn hrecord
  . by_cases hkey : key' = key
    . rw [hkey, hempty, hempty']
    . refine h.book_congr (hdirs hkey) (fun dir' hdir' => ?_) fun n record hn hrecord => ?_
      . obtain ⟨owner, d, _, howner, _, hbody, hdirectory, _⟩ := h.attrDir_entry hdir'
        rw [hdirectory]
        refine directory?_of_object? (hothers howner (happart hdir') fun heq => ?_) hbody
        exact h.dir_ne_dir heq hdir' hkey rfl
      . obtain ⟨file, _, hfile, _⟩ := h.file_of_record hn hrecord
        refine content?_congr ((hothers hfile (h.record_ne hn hrecord hkind) fun heq => ?_).trans
          hfile.symm)
        exact h.record_ne hn hrecord (h.attrDir_isPrivateDirectory heq) rfl
  . refine hothers hobject ?_ fun heq => hout (.attrDir heq)
    rintro rfl
    exact hout hparent
  . have hcases := inTree_cases volume.store volume.store.nextId
      (fun _ heq => (hroot heq).imp .attrRoot id) (fun key' dir heq => ?_)
      (fun key' n record hn heq => .inl (.record hn (hrecords hn key' ▸ heq))) hx
    . exact hcases.elim hout (h.linked.ne_nextId hobject)
    . by_cases hkey : key' = key
      . subst hkey
        exact .inr (hself heq)
      . exact .inl (.attrDir (hdirs hkey ▸ heq))

theorem made (hroot : volume.store.attrRoot? priv = some root)
    (hnone : volume.store.attrDir? priv key = none) (hvalid : isValidName key.text = true)
    (hid : key.id < volume.store.nextId) :
    let rest := volume.made (volume.store.madeDirectory root key.text) key root volume.store.nextId
    volume.Revises rest priv (volume.store.book priv)
      ∧ rest.store.attrDir? priv key = some volume.store.nextId := by
  intro rest
  have hstore : rest.store = volume.store.madeDirectory root key.text := rfl
  have hmended : rest.mended = volume.mended.made (volume.mended.store.madeDirectory root key.text)
      key root volume.mended.store.nextId := by
    simp only [rest, Volume.made, Volume.mended, mended_madeDirectory]
    rfl
  have hroot' : volume.store.mended.attrRoot? priv = some root := by
    simpa using hroot
  have hnone' : volume.store.mended.attrDir? priv key = none := by
    simpa using hnone
  have hdirs (key' : ObjectKey) : rest.store.attrDir? priv key' =
      if key' = key then some volume.store.nextId else volume.store.attrDir? priv key' := by
    have hmade := h.tidy.attrDir?_madeAttrDir hroot' hnone' hvalid key'
    rw [← mended_madeDirectory, attrDir?_mended, attrDir?_mended] at hmade
    exact hmade
  have hdir : rest.store.attrDir? priv key = some volume.store.nextId := by
    rw [hdirs, if_pos rfl]
  have hkind := h.attrRoot_isPrivateDirectory hroot
  obtain ⟨owner, d, howner, _, hbody, hdirectory⟩ := (isPrivateDirectory_of_mended hkind).directory?
  have hnew : rest.store.directory? volume.store.nextId = some (.fresh volume.store.nextId root) := by
    rw [hstore, directory?_madeDirectory h.linked howner hbody, if_pos rfl]
  have hsettled : rest.mended.Settled priv := by
    rw [hmended]
    exact (h.settled.made hroot' hnone' hvalid hid).1.settled
  refine ⟨h.revises_of_directory hsettled rfl rfl ⟨id, id⟩ (.attrRoot hroot) hkind
    (fun key' dir' hdir' => h.dir_ne_attrRoot hroot hdir') ?_ ?_ ?_ ?_ ?_ (book_of_none hnone) ?_, hdir⟩
  . intro x object hobject hne _
    rw [hstore, object?_madeDirectory h.linked howner, if_neg (h.linked.ne_nextId hobject), if_neg hne,
      hobject]
  . intro root' heq
    have hplace := (h.tidy.directoryMade_attrDir hroot' hnone' hvalid).place
    have hsame := Tidy.attrRoot?_of_key hplace priv
    rw [← mended_madeDirectory, MemStore.attrRoot?_mended, MemStore.attrRoot?_mended] at hsame
    exact .inl (hsame ▸ heq)
  . intro key' hne
    rw [hdirs, if_neg hne]
  . intro dir hdir'
    rw [hdir] at hdir'
    exact (Option.some.inj hdir').symm
  . intro n hn key'
    simpa [hstore, ← mended_madeDirectory] using
      h.tidy.attrRecord?_madeAttrDir hroot' hnone' hvalid hn key'
  . rw [book_of_some hdir hnew, bookOf, Directory.ordinary_fresh]
    rfl

theorem madeRoot (hnone : volume.store.attrRoot? priv = none) :
    let rest : Volume MemStore := { volume with
      store := volume.store.madeDirectory priv attrRootName
      attrRoot := some volume.store.nextId }
    volume.Revises rest priv (volume.store.book priv)
      ∧ rest.store.attrRoot? priv = some volume.store.nextId
      ∧ ∀ key, rest.store.attrDir? priv key = none := by
  intro rest
  have hstore : rest.store = volume.store.madeDirectory priv attrRootName := rfl
  have hnone' : volume.store.mended.attrRoot? priv = none := by
    simpa using hnone
  obtain ⟨_, hroot, hdirs⟩ := h.tidy.madeAttrRoot hnone'
  have hsettled : rest.mended.Settled priv := by
    simp only [rest, Volume.mended, mended_madeDirectory]
    exact (h.settled.madeRoot hnone').1.settled
  rw [← mended_madeDirectory] at hroot hdirs
  simp only [MemStore.attrRoot?_mended, attrDir?_mended] at hroot hdirs
  have hbefore (key : ObjectKey) : volume.store.attrDir? priv key = none := by
    rw [attrDir?, hnone]
    rfl
  have hkind := h.tidy.privateRoot
  obtain ⟨owner, d, howner, _⟩ := (isPrivateDirectory_of_mended hkind).directory?
  refine ⟨h.revises_of_directory hsettled rfl rfl ⟨id, id⟩ .privateRoot hkind ?_ ?_ ?_ ?_ ?_ ?_
    (book_of_none (hbefore ⟨0, 0⟩)) (book_of_none (hdirs ⟨0, 0⟩)), hroot, hdirs⟩
  . intro key' dir' hdir'
    rw [hbefore] at hdir'
    cases hdir'
  . intro x object hobject hne _
    rw [hstore, object?_madeDirectory h.linked howner, if_neg (h.linked.ne_nextId hobject), if_neg hne,
      hobject]
  . intro root heq
    exact .inr (Option.some.inj (heq.symm.trans hroot))
  . exact fun key' _ => (hdirs key').trans (hbefore key').symm
  . intro dir hdir
    rw [show rest.store.attrDir? priv _ = none from hdirs _] at hdir
    cases hdir
  . intro n _ key'
    rw [attrRecord?, show rest.store.attrDir? priv key' = none from hdirs key', attrRecord?, hbefore]
    rfl

theorem pruned (hroot : volume.store.attrRoot? priv = some root)
    (hleaf : volume.store.IsLeaf root owner d e target) (hname : e.name = stat.key.text) :
    volume.Revises { volume with
        store := volume.store.detach root e target
        attrRoot := some root
        cache := volume.cache.erase stat.key } priv (volume.store.book priv) := by
  have hroot' : volume.store.mended.attrRoot? priv = some root := by
    simpa using hroot
  have hsettled := (h.settled.pruned hroot' hleaf.mended hname).settled
  have hself : volume.store.attrDir? priv stat.key = some e.target := by
    simpa using h.tidy.attrDir?_of_leaf hroot' hleaf.mended hname
  have hdirs (key' : ObjectKey) : (volume.store.detach root e target).attrDir? priv key' =
      if key' = stat.key then none else volume.store.attrDir? priv key' := by
    simpa [← mended_detach] using h.tidy.attrDir?_pruned hroot' hleaf.mended hname key'
  have hnone : (volume.store.detach root e target).attrDir? priv stat.key = none := by
    rw [hdirs, if_pos rfl]
  have hempty : volume.store.book priv stat.key = [] := by
    obtain ⟨target', d', _, htarget, _, hbody, hdirectory, _⟩ := h.attrDir_entry hself
    obtain rfl : target = target' := Option.some.inj (hleaf.target_eq.symm.trans htarget)
    have hempty := hleaf.empty
    rw [hbody, Body.ordinary] at hempty
    rw [book_of_some hself hdirectory, bookOf, hempty]
    rfl
  refine h.revises_of_directory ?_ rfl rfl (.detach ..) (.attrRoot hroot)
    (h.attrRoot_isPrivateDirectory hroot) (fun key' dir' hdir' => h.dir_ne_attrRoot hroot hdir') ?_ ?_ ?_
    ?_ ?_ hempty (book_of_none hnone)
  . simp only [Volume.mended, mended_detach]
    exact hsettled
  . intro x object hobject hne hother
    rw [hleaf.object?_detach, if_neg, if_neg hne, hobject]
    rintro rfl
    exact hother hself
  . intro root' heq
    have hplace := h.tidy.placeChanged_pruned hleaf.mended hname
    have hsame := Tidy.attrRoot?_of_key hplace priv
    rw [← mended_detach, MemStore.attrRoot?_mended, MemStore.attrRoot?_mended] at hsame
    exact .inl (hsame ▸ heq)
  . intro key' hne
    rw [hdirs, if_neg hne]
  . intro dir hdir
    rw [hnone] at hdir
    cases hdir
  . intro n hn key'
    simpa [← mended_detach] using h.tidy.attrRecord?_pruned hroot' hleaf.mended hname hn key'

end Directory

section Whole

theorem changed (hobject : volume.store.object? x = some object)
    (hin : volume.store.InTree priv x) (hsize : change.fields.has .size = false) :
    volume.Revises { volume with store := volume.store.changed x change } priv
      (volume.store.book priv) := by
  have hchild := child?_changed hobject hsize
  have hbody (y : ObjectId) {object' : MemObject} (hold : volume.store.object? y = some object') :
      ∃ new, (volume.store.changed x change).object? y = some new ∧ new.body = object'.body := by
    rw [object?_changed hobject]
    split
    . next heq =>
      obtain rfl : object = object' := Option.some.inj (hobject.symm.trans (heq ▸ hold))
      exact ⟨_, rfl, (alike_apply hsize object).body_eq⟩
    . exact ⟨object', hold, rfl⟩
  refine ⟨⟨?_, fun key n hn hrecord => ?_⟩, fun key => ?_, rfl, rfl, ?_, ⟨id, id⟩⟩
  . have hsettled := (h.settled.setAttr (object?_mended_of hobject) hsize).1.settled
    simp only [Volume.mended, mended_changed _ _ hsize]
    exact hsettled
  . rw [attrRecord?_congr hchild] at hrecord
    exact h.names hn hrecord
  . refine h.book_congr (attrDir?_congr hchild ..) (fun dir hdir => ?_) fun n record hn hrecord => ?_
    . obtain ⟨owner, d, _, howner, _, howner', hdirectory, _⟩ := h.attrDir_entry hdir
      obtain ⟨new, hnew, hsame⟩ := hbody dir howner
      rw [hdirectory, directory?_of_object? hnew (hsame.trans howner')]
    . obtain ⟨file, content, hfile, _, _, hcontent, _⟩ := h.file_of_record hn hrecord
      obtain ⟨new, hnew, hsame⟩ := hbody record hfile
      rw [content?_of_object? hfile hcontent, content?_of_object? hnew (hsame.trans hcontent)]
  . exact .mapObject hin (fun _ => rfl) fun y hy => (inTree_congr hchild).mp hy

theorem withFaults (writeFault : Option Nat) (rmdirFault : Bool)
    (hquiet : volume.store.KeepsQuiet { volume.store with writeFault, rmdirFault }) :
    volume.Revises { volume with store := { volume.store with writeFault, rmdirFault } } priv
      (volume.store.book priv) :=
  h.sameObjects h.settled rfl rfl rfl hquiet

end Whole

end Intact

end Volume

end AttrTree
