import AttrTree.Proofs.Reading
import AttrTree.Proofs.Settled
import AttrTree.Proofs.Write

/-!
This module contains what the calls on a single attribute answer and do on a volume in order, told by
the values of attributes alone: a value is read, set and removed as in a map.
-/

namespace AttrTree

namespace MemStore.Tidy

variable {store : MemStore} {priv : ObjectId} {key : ObjectKey} {name : String}

theorem attrValue?_eq_none_iff (h : store.Tidy priv) (hname : EntryName.isDots name = false) :
    store.attrValue? priv key name = none ↔ store.attrRecord? priv key name = none := by
  constructor
  . intro hnone
    cases hrecord : store.attrRecord? priv key name with
    | none => rfl
    | some record =>
      obtain ⟨_, value, _, _, _, _, hvalue⟩ := h.image hname hrecord
      rw [hnone] at hvalue
      cases hvalue
  . intro hnone
    rw [attrValue?, hnone, Option.bind_none]

end MemStore.Tidy

namespace Volume

open Action MemStore

variable {volume middle rest : Volume MemStore} {priv dir record obj : ObjectId} {stat : ObjectStat}
  {key : ObjectKey} {name n : String} {flags : SetFlags} {object : MemObject} {value : Bytes}

def readAnswer (value : Option Bytes) (buffer : Buffer) : Except ErrorKind Nat × Buffer :=
  match value, buffer with
  | none, buffer => (.error .noAttribute, buffer)
  | some value, none => (.ok value.length, none)
  | some value, some bytes =>
    if bytes.length < value.length then (.error .rangeTooSmall, some bytes)
    else (.ok value.length, some (value ++ bytes.drop value.length))

def Answers (result : EStateM.Result Error (Volume MemStore × Buffer) Nat)
    (rest : Volume MemStore) (answer : Except ErrorKind Nat × Buffer) : Prop :=
  match answer with
  | (.ok n, buffer) => result = .ok n (rest, buffer)
  | (.error kind, buffer) => ∃ err, err.kind = kind ∧ result = .error err (rest, buffer)

theorem readValue_absent {err : Error} (hexisting : existingRecord obj name volume = .error err rest)
    (herr : err.isNoAttribute = true) (buffer : Buffer) :
    Answers (readValue obj name (volume, buffer)) rest (readAnswer none buffer) :=
  ⟨err, by simpa [Error.isNoAttribute] using herr, by simp [readValue, onFirst, hexisting]⟩

theorem readValue_image (hexisting : existingRecord obj name volume = .ok record rest)
    (hobject : rest.store.object? record = some object)
    (hbody : object.body = .file (Record.image value)) (buffer : Buffer) :
    Answers (readValue obj name (volume, buffer)) rest (readAnswer (some value) buffer) := by
  have hread := readRecord_eq hobject hbody buffer
  rw [readOutcome_image] at hread
  cases buffer with
  | none => simp [Answers, readAnswer, readValue, onFirst, hexisting, onStoreWith, focus, hread]
  | some bytes =>
    by_cases hfits : bytes.length < value.length
    . simp [Answers, readAnswer, readValue, onFirst, hexisting, onStoreWith, focus, hread, hfits,
        bufferTooSmall]
    . simp [Answers, readAnswer, readValue, onFirst, hexisting, onStoreWith, focus, hread, hfits,
        Bytes.overlay_eq]

namespace Settled

section OpenRecord

variable (h : volume.Settled priv) (hvalid : isValidName name = true)
include h hvalid

theorem openRecord_found (hrecord : volume.store.attrRecord? priv stat.key name = some record)
    (flags : SetFlags) :
    ∃ rest, volume.Becomes rest priv (volume.store.attrValue? priv) ∧ rest.store = volume.store
      ∧ openRecord stat name flags volume =
        if flags.create then .error attrExists rest else .ok record rest := by
  obtain ⟨dir, hdir, hchild⟩ := attrRecord?_eq_some_iff.mp hrecord
  obtain ⟨d, e, hdirectory, hfind, rfl⟩ := child?_eq_some_iff.mp hchild
  have hfound : volume.directory? stat.key = some dir := (h.directory?_eq stat.key).trans hdir
  refine ⟨volume.opened stat.key dir, h.opened hdir, store_opened .., ?_⟩
  rw [openRecord_eq hvalid (openDirectory_found hfound flags) (by simpa using hdirectory), hfind]

variable (hnone : volume.store.attrRecord? priv stat.key name = none)
  (hid : stat.id < volume.store.nextId) (hbound : volume.store.nextId ≤ 2 ^ 64)
include hnone hid hbound

theorem openDirectory_empty
    (hflags : volume.store.attrDir? priv stat.key = none → flags.allowsCreate = true) :
    ∃ dir middle, openDirectory stat flags volume = .ok dir middle
      ∧ volume.Becomes middle priv (volume.store.attrValue? priv)
      ∧ middle.store.attrDir? priv stat.key = some dir
      ∧ middle.store.attrRecord? priv stat.key name = none := by
  cases hdir : volume.store.attrDir? priv stat.key with
  | none =>
    obtain ⟨dir, middle, hopen, hbecomes, hmade, hempty⟩ :=
      h.openDirectory_made hdir (hflags hdir) hid hbound
    exact ⟨dir, middle, hopen, hbecomes, hmade, hempty (isDots_of_isValidName hvalid)⟩
  | some dir =>
    have hfound : volume.directory? stat.key = some dir := (h.directory?_eq stat.key).trans hdir
    refine ⟨dir, volume.opened stat.key dir, openDirectory_found hfound flags, h.opened hdir, ?_, ?_⟩
    . rw [store_opened, hdir]
    . rw [store_opened, hnone]

omit h hnone hid hbound in
theorem openRecord_empty (hsettled : middle.Settled priv)
    (hopen : openDirectory stat flags volume = .ok dir middle)
    (hdir : middle.store.attrDir? priv stat.key = some dir)
    (hempty : middle.store.attrRecord? priv stat.key name = none) :
    openRecord stat name flags volume =
      if flags.onlyExisting then .error attrNotFound middle
      else .ok middle.store.nextId
        { middle with store := middle.store.madeRecord dir name } := by
  obtain ⟨_, d, _, _, _, _, hdirectory, _⟩ := hsettled.tidy.attrDir_entry hdir
  rw [attrRecord?_of_attrDir? hdir] at hempty
  rw [openRecord_eq hvalid hopen hdirectory, find?_eq_none_of_child? hdirectory hempty]

theorem openRecord_absent (hflags : flags.onlyExisting = true) :
    ∃ err rest, err.isNoAttribute = true ∧ openRecord stat name flags volume = .error err rest
      ∧ volume.Becomes rest priv (volume.store.attrValue? priv) := by
  by_cases hdir : volume.store.attrDir? priv stat.key = none ∧ flags.allowsCreate = false
  . obtain ⟨err, rest, herr, hopen, _, hbecomes⟩ := h.openDirectory_absent hdir.1 hdir.2
    exact ⟨err, rest, herr, openRecord_of_error hvalid hopen, hbecomes⟩
  . obtain ⟨dir, middle, hopen, hbecomes, hfound, hempty⟩ :=
      h.openDirectory_empty hvalid hnone hid hbound fun hdirNone => by
        simpa [hdirNone] using hdir
    refine ⟨attrNotFound, middle, rfl, ?_, hbecomes⟩
    rw [openRecord_empty hvalid hbecomes.settled hopen hfound hempty, if_pos hflags]

end OpenRecord

section WriteValue

variable (h : volume.Settled priv) (hobject : volume.store.object? obj = some object)
  (hformat : object.format ≠ .legacy) (hvalid : isValidName name = true)
  (hbound : volume.store.nextId ≤ 2 ^ 64)
include h hobject hformat

omit hformat in
theorem id_lt : object.stat.id < volume.store.nextId := by
  rw [show object.stat.id = object.id from rfl, id_of_object? hobject]
  exact h.tidy.linked.id_lt hobject

omit h in
theorem writeValue_of_error {err : Error}
    (hopen : openRecord object.stat name flags volume = .error err rest) (value : Bytes) :
    writeValue obj name value flags volume = .error err rest := by
  rw [writeValue_eq hobject hformat, bind_apply, unsharedRecord_of_error hopen]

omit h in
theorem writeValue_of_single {file : MemObject} {old : Bytes}
    (hopen : openRecord object.stat name flags volume = .ok record rest)
    (hfile : rest.store.object? record = some file) (hbody : file.body = .file old)
    (hnlink : file.nlink = 1) (hfault : rest.store.writeFault = none)
    (hlinked : rest.store.Linked) (value : Bytes) :
    writeValue obj name value flags volume =
      .ok () { rest with store := rest.store.setContent record (Record.image value) } := by
  have hwrite := writeImage_eq hlinked.ids_distinct hfile hfault hbody (Record.image value)
  rw [writeValue_eq hobject hformat, bind_apply,
    unsharedRecord_single hopen hfile (Nat.le_of_eq hnlink)]
  simp only [onStore, focus, hwrite]

include hvalid

theorem writeValue_exists (hvalue : volume.store.attrValue? priv object.stat.key name ≠ none)
    (hflags : flags.create = true) (value : Bytes) :
    ∃ rest, writeValue obj name value flags volume = .error attrExists rest
      ∧ volume.Becomes rest priv (volume.store.attrValue? priv) := by
  have hname := isDots_of_isValidName hvalid
  rw [ne_eq, h.tidy.attrValue?_eq_none_iff hname] at hvalue
  obtain ⟨record, hrecord⟩ := Option.ne_none_iff_exists'.mp hvalue
  obtain ⟨rest, hbecomes, _, hopen⟩ := h.openRecord_found hvalid hrecord flags
  rw [hflags, if_pos rfl] at hopen
  exact ⟨rest, writeValue_of_error hobject hformat hopen value, hbecomes⟩

theorem writeValue_found (hvalue : volume.store.attrValue? priv object.stat.key name ≠ none)
    (hflags : flags.create = false) (value : Bytes) :
    ∃ rest, writeValue obj name value flags volume = .ok () rest
      ∧ volume.Becomes rest priv
        (withValue (volume.store.attrValue? priv) object.stat.key name (some value)) := by
  have hname := isDots_of_isValidName hvalid
  rw [ne_eq, h.tidy.attrValue?_eq_none_iff hname] at hvalue
  obtain ⟨record, hrecord⟩ := Option.ne_none_iff_exists'.mp hvalue
  obtain ⟨middle, hbecomes, hstore, hopen⟩ := h.openRecord_found hvalid hrecord flags
  rw [hflags, if_neg (by simp)] at hopen
  rw [← hstore] at hrecord
  have htidy := hbecomes.settled.tidy
  obtain ⟨file, old, hfile, _, hnlink, hbody, _⟩ := htidy.image hname hrecord
  refine ⟨_, writeValue_of_single hobject hformat hopen hfile hbody hnlink
    htidy.writeFault_eq htidy.linked value, ?_⟩
  exact hbecomes.trans_withValue (hbecomes.settled.withStore (htidy.overwritten hname hrecord value))

include hbound

theorem writeValue_absent (hvalue : volume.store.attrValue? priv object.stat.key name = none)
    (hflags : flags.onlyExisting = true) (value : Bytes) :
    ∃ err rest, err.isNoAttribute = true
      ∧ writeValue obj name value flags volume = .error err rest
      ∧ volume.Becomes rest priv (volume.store.attrValue? priv) := by
  rw [h.tidy.attrValue?_eq_none_iff (isDots_of_isValidName hvalid)] at hvalue
  obtain ⟨err, rest, herr, hopen, hbecomes⟩ :=
    h.openRecord_absent hvalid hvalue (h.id_lt hobject) hbound hflags
  exact ⟨err, rest, herr, writeValue_of_error hobject hformat hopen value, hbecomes⟩

theorem writeValue_made (hvalue : volume.store.attrValue? priv object.stat.key name = none)
    (honly : flags.onlyExisting = false) (hflags : flags.allowsCreate = true) (value : Bytes) :
    ∃ rest, writeValue obj name value flags volume = .ok () rest
      ∧ volume.Becomes rest priv
        (withValue (volume.store.attrValue? priv) object.stat.key name (some value)) := by
  rw [h.tidy.attrValue?_eq_none_iff (isDots_of_isValidName hvalid)] at hvalue
  obtain ⟨dir, middle, hopenDir, hbecomes, hdir, hempty⟩ :=
    h.openDirectory_empty hvalid hvalue (h.id_lt hobject) hbound fun _ => hflags
  have htidy := hbecomes.settled.tidy
  obtain ⟨hlinked, file, hfile, hbody, hnlink⟩ := htidy.recordMade hdir hempty hvalid
  have hopen := openRecord_empty hvalid hbecomes.settled hopenDir hdir hempty
  rw [honly, if_neg (by simp)] at hopen
  refine ⟨_, writeValue_of_single hobject hformat hopen hfile hbody hnlink htidy.writeFault_eq hlinked
    value, ?_⟩
  exact hbecomes.trans_withValue
    (hbecomes.settled.withStore (htidy.recorded hdir hempty hvalid value))

end WriteValue

section ReadValue

variable (h : volume.Settled priv) (hobject : volume.store.object? obj = some object)
  (hformat : object.format ≠ .legacy) (hvalid : isValidName name = true)
  (hbound : volume.store.nextId ≤ 2 ^ 64)
include h hobject hformat hvalid hbound

theorem readValue (buffer : Buffer) :
    ∃ rest, volume.Becomes rest priv (volume.store.attrValue? priv)
      ∧ Answers (readValue obj name (volume, buffer)) rest
        (readAnswer (volume.store.attrValue? priv object.stat.key name) buffer) := by
  have hname := isDots_of_isValidName hvalid
  have hexisting := existingRecord_eq hobject hformat name
  cases hrecord : volume.store.attrRecord? priv object.stat.key name with
  | none =>
    obtain ⟨err, rest, herr, hopen, hbecomes⟩ :=
      h.openRecord_absent hvalid hrecord (h.id_lt hobject) hbound
        (show SetFlags.looking.onlyExisting = true from rfl)
    rw [(h.tidy.attrValue?_eq_none_iff hname).mpr hrecord]
    exact ⟨rest, hbecomes, readValue_absent (hexisting.trans hopen) herr buffer⟩
  | some record =>
    obtain ⟨rest, hbecomes, hstore, hopen⟩ := h.openRecord_found hvalid hrecord .looking
    rw [if_neg (by simp [SetFlags.looking, SetFlags.none])] at hopen
    obtain ⟨file, value, hfile, _, _, hbody, hvalue⟩ := h.tidy.image hname hrecord
    rw [hvalue]
    exact ⟨rest, hbecomes, readValue_image (hexisting.trans hopen) (hstore ▸ hfile) hbody buffer⟩

end ReadValue

section RemoveRecord

variable (h : volume.Settled priv)
include h

theorem removeRecord_found (hvalid : isValidName name = true)
    (hvalue : volume.store.attrValue? priv stat.key name ≠ none) :
    ∃ rest, removeRecord stat name volume = .ok () rest
      ∧ volume.Becomes rest priv
        (withValue (volume.store.attrValue? priv) stat.key name none)
      ∧ rest.store.nextId = volume.store.nextId := by
  have hname := isDots_of_isValidName hvalid
  rw [ne_eq, h.tidy.attrValue?_eq_none_iff hname] at hvalue
  obtain ⟨record, hrecord⟩ := Option.ne_none_iff_exists'.mp hvalue
  obtain ⟨target, _, htarget, hprivate, _, hbody, _⟩ := h.tidy.image hname hrecord
  obtain ⟨dir, hdir, hchild⟩ := attrRecord?_eq_some_iff.mp hrecord
  obtain ⟨d, e, hdirectory, hfind, rfl⟩ := child?_eq_some_iff.mp hchild
  have hkind : target.body.isDirectory = false := by
    rw [hbody]
    rfl
  have hfound : volume.directory? stat.key = some dir := (h.directory?_eq stat.key).trans hdir
  have hopened := h.opened hdir
  have hlinked := h.tidy.linked
  obtain ⟨owner, hleaf⟩ := hlinked.isLeaf hdirectory hfind htarget hkind
  have hremoved := hopened.settled.tidy.removed (by rw [store_opened]; exact hdir)
    (by rw [store_opened]; exact hleaf)
  rw [show e.name = name by simpa using List.find?_some hfind] at hremoved
  refine ⟨_, ?_, hopened.trans_withValue (hopened.settled.withStore hremoved), ?_⟩
  . rw [removeRecord_eq hvalid (openDirectory_found hfound .looking)]
    simp [onStore, focus, removeEntry_file hlinked hdirectory hfind htarget hkind hprivate]
  . rw [IsLeaf.nextId_detach, store_opened]

theorem removeRecord_absent (hvalid : isValidName name = true)
    (hvalue : volume.store.attrValue? priv stat.key name = none) :
    ∃ err rest, err.isNoAttribute = true ∧ removeRecord stat name volume = .error err rest
      ∧ volume.Becomes rest priv (volume.store.attrValue? priv) := by
  rw [h.tidy.attrValue?_eq_none_iff (isDots_of_isValidName hvalid)] at hvalue
  cases hdir : volume.store.attrDir? priv stat.key with
  | none =>
    obtain ⟨err, rest, herr, hopen, _, hbecomes⟩ :=
      h.openDirectory_absent hdir (show SetFlags.looking.allowsCreate = false from rfl)
    refine ⟨err, rest, herr, ?_, hbecomes⟩
    rw [removeRecord, bind_apply, checkAttrName_of_valid hvalid]
    simp only [ofExcept_ok, bind_apply, hopen]
  | some dir =>
    obtain ⟨_, d, _, _, _, _, hdirectory, _⟩ := h.tidy.attrDir_entry hdir
    rw [attrRecord?_of_attrDir? hdir] at hvalue
    have hfind := find?_eq_none_of_child? hdirectory hvalue
    have hfound : volume.directory? stat.key = some dir := (h.directory?_eq stat.key).trans hdir
    refine ⟨attrNotFound, _, rfl, ?_, h.opened hdir⟩
    rw [removeRecord_eq hvalid (openDirectory_found hfound .looking)]
    have hsame : ({ volume.opened stat.key dir with store := volume.store } : Volume MemStore) =
        volume.opened stat.key dir := by
      rw [← store_opened volume stat.key dir]
    simp [onStore, focus, removeEntry_absent hdirectory hfind, hsame]

end RemoveRecord

end Settled

end Volume

end AttrTree
