import AttrTree.Proofs.Effect
import AttrTree.Proofs.Place

/-!
This module contains what a volume over the store in memory does to open the record of an attribute, to
have one without other links to write to, and to remove one.
-/

namespace AttrTree

namespace Volume

open Action MemStore

variable {volume middle : Volume MemStore} {stat : ObjectStat} {name : String} {flags : SetFlags}
  {dir : ObjectId} {d : Directory} {e : DirEntry}

theorem checkAttrName_of_valid (h : isValidName name = true) : checkAttrName name = .ok () := by
  simp only [isValidName, Bool.not_eq_true', Bool.or_eq_false_iff, decide_eq_false_iff_not] at h
  obtain ⟨⟨⟨hempty, hdots⟩, hsize⟩, hseparator⟩ := h
  simp [checkAttrName, hempty, hdots, hsize, hseparator]

theorem checkAttrName_of_invalid (h : isValidName name = false) :
    ∃ err, checkAttrName name = .error err ∧ err.kind = .invalidInput := by
  unfold checkAttrName
  split
  . exact ⟨_, rfl, rfl⟩
  . next hshape =>
    split
    . exact ⟨_, rfl, rfl⟩
    . next hseparator =>
      simp only [Bool.not_eq_true, Bool.or_eq_false_iff] at hshape hseparator
      simp [isValidName, hshape, hseparator] at h

section OpenRecord

theorem openRecord_eq (hvalid : isValidName name = true)
    (hopen : openDirectory stat flags volume = .ok dir middle)
    (hdir : middle.store.directory? dir = some d) :
    openRecord stat name flags volume =
      match d.find? name with
      | some e => if flags.create then .error attrExists middle else .ok e.target middle
      | none =>
        if flags.onlyExisting then .error attrNotFound middle
        else .ok middle.store.nextId
          { middle with store := middle.store.madeRecord dir name } := by
  rw [openRecord, bind_apply, checkAttrName_of_valid hvalid]
  simp only [ofExcept_ok, bind_apply, hopen, onStore, focus, lookup_of_directory? hdir]
  cases hfind : d.find? name with
  | some e => cases flags.create <;> simp
  | none => cases flags.onlyExisting <;> simp [focus, makeRecord_made hdir hfind hvalid]

theorem openRecord_of_missing (hvalid : isValidName name = true)
    (hopen : openDirectory stat flags volume = .ok dir middle)
    (hdir : middle.store.directory? dir = none) :
    ∃ err, IsMissing err ∧ openRecord stat name flags volume = .error err middle := by
  obtain ⟨err, herr, hlookup⟩ := lookup_of_none hdir
  refine ⟨err, herr, ?_⟩
  rw [openRecord, bind_apply, checkAttrName_of_valid hvalid]
  simp only [ofExcept_ok, bind_apply, hopen, onStore, focus, hlookup]

theorem openRecord_of_error (hvalid : isValidName name = true) {err : Error}
    (hopen : openDirectory stat flags volume = .error err middle) :
    openRecord stat name flags volume = .error err middle := by
  rw [openRecord, bind_apply, checkAttrName_of_valid hvalid]
  simp only [ofExcept_ok, bind_apply, hopen]

theorem openRecord_of_invalid (hinvalid : isValidName name = false) (stat : ObjectStat)
    (flags : SetFlags) (volume : Volume MemStore) :
    ∃ err, err.kind = .invalidInput ∧ openRecord stat name flags volume = .error err volume := by
  obtain ⟨err, hcheck, hkind⟩ := checkAttrName_of_invalid hinvalid
  exact ⟨err, hkind, by rw [openRecord, bind_apply, hcheck]; rfl⟩

theorem removeRecord_eq (hvalid : isValidName name = true)
    (hopen : openDirectory stat .looking volume = .ok dir middle) :
    removeRecord stat name volume = onStore (removeEntry dir name) middle := by
  rw [removeRecord, bind_apply, checkAttrName_of_valid hvalid]
  simp only [ofExcept_ok, bind_apply, hopen]

end OpenRecord

section ExistingRecord

variable {obj record : ObjectId} {object : MemObject} {rest : Volume MemStore}

theorem statWithAttributes_eq {store : MemStore} (hobject : store.object? obj = some object)
    (hformat : object.format ≠ .legacy) :
    statWithAttributes obj store = .ok object.stat store := by
  have hlegacy : object.stat.isLegacy = false := by
    simpa [ObjectStat.isLegacy, MemObject.stat] using hformat
  simp [statWithAttributes, stat_of_object? hobject, hlegacy]

theorem statWithAttributes_of_error {store : MemStore}
    (h : ∀ object, store.object? obj = some object → object.format = .legacy) :
    ∃ err, (err = objectNotFound ∨ err = legacyObject)
      ∧ statWithAttributes obj store = .error err store := by
  cases hobject : store.object? obj with
  | none => exact ⟨_, .inl rfl, by simp [statWithAttributes, stat_of_none hobject]⟩
  | some object =>
    have hlegacy : object.stat.isLegacy = true := by
      simpa [ObjectStat.isLegacy, MemObject.stat] using h object hobject
    exact ⟨_, .inr rfl, by simp [statWithAttributes, stat_of_object? hobject, hlegacy]⟩

theorem existingRecord_eq (hobject : volume.store.object? obj = some object)
    (hformat : object.format ≠ .legacy) (name : String) :
    existingRecord obj name volume = openRecord object.stat name .looking volume := by
  simp [existingRecord, onStore, focus, statWithAttributes_eq hobject hformat]

theorem existingRecord_found (hvalid : isValidName name = true)
    (hobject : volume.store.object? obj = some object) (hformat : object.format ≠ .legacy)
    (hfound : volume.directory? object.stat.key = some dir)
    (hdir : volume.store.directory? dir = some d) (hfind : d.find? name = some e) :
    existingRecord obj name volume = .ok e.target (volume.opened object.stat.key dir) := by
  rw [existingRecord_eq hobject hformat,
    openRecord_eq hvalid (openDirectory_found hfound .looking) (by simpa using hdir), hfind]
  rfl

theorem existingRecord_eq_ok_iff :
    existingRecord obj name volume = .ok record rest ↔
      isValidName name = true ∧ ∃ object dir d e, volume.store.object? obj = some object
        ∧ object.format ≠ .legacy ∧ volume.directory? object.stat.key = some dir
        ∧ volume.store.directory? dir = some d ∧ d.find? name = some e ∧ record = e.target
        ∧ rest = volume.opened object.stat.key dir := by
  constructor
  . intro h
    by_cases hlegacy : ∀ object, volume.store.object? obj = some object → object.format = .legacy
    . obtain ⟨err, _, hstat⟩ := statWithAttributes_of_error hlegacy
      simp [existingRecord, onStore, focus, hstat] at h
    . simp only [not_forall] at hlegacy
      obtain ⟨object, hobject, hformat⟩ := hlegacy
      rw [existingRecord_eq hobject hformat] at h
      cases hvalid : isValidName name with
      | false =>
        obtain ⟨err, _, hopen⟩ := openRecord_of_invalid hvalid object.stat .looking volume
        rw [hopen] at h
        cases h
      | true =>
        cases hopen : openDirectory object.stat .looking volume with
        | error err middle =>
          rw [openRecord_of_error hvalid hopen] at h
          cases h
        | ok dir middle =>
          obtain ⟨hfound, rfl⟩ := directory?_of_openDirectory rfl hopen
          cases hdir : volume.store.directory? dir with
          | none =>
            obtain ⟨err, _, herr⟩ := openRecord_of_missing hvalid hopen (by simpa using hdir)
            rw [herr] at h
            cases h
          | some d =>
            rw [openRecord_eq hvalid hopen (by simpa using hdir)] at h
            cases hfind : d.find? name with
            | none =>
              rw [hfind] at h
              cases h
            | some e =>
              rw [hfind] at h
              injection h with hrecord hrest
              exact ⟨rfl, object, dir, d, e, hobject, hformat, hfound, hdir, hfind, hrecord.symm,
                hrest.symm⟩
  . rintro ⟨hvalid, object, dir, d, e, hobject, hformat, hfound, hdir, hfind, rfl, rfl⟩
    exact existingRecord_found hvalid hobject hformat hfound hdir hfind

end ExistingRecord

section UnsharedRecord

variable {record : ObjectId} {object : MemObject} {rest : Volume MemStore} {err : Error}

theorem unsharedRecord_of_error (hopen : openRecord stat name flags volume = .error err rest)
    (rounds : Nat) : unsharedRecord stat name (rounds + 1) flags volume = .error err rest := by
  simp [unsharedRecord, hopen]

theorem unsharedRecord_of_dead (hopen : openRecord stat name flags volume = .ok record rest)
    (hdead : rest.store.object? record = none) (rounds : Nat) :
    unsharedRecord stat name (rounds + 1) flags volume = .error objectNotFound rest := by
  simp [unsharedRecord, hopen, onStore, focus, stat_of_none hdead]

theorem unsharedRecord_single (hopen : openRecord stat name flags volume = .ok record rest)
    (hobject : rest.store.object? record = some object) (hnlink : object.nlink ≤ 1)
    (rounds : Nat) :
    unsharedRecord stat name (rounds + 1) flags volume = .ok record rest := by
  have hstat : object.stat.nlink ≤ 1 := hnlink
  simp [unsharedRecord, hopen, onStore, focus, stat_of_object? hobject, hstat]

theorem unsharedRecord_shared (hopen : openRecord stat name flags volume = .ok record rest)
    (hobject : rest.store.object? record = some object) (hnlink : 1 < object.nlink)
    (rounds : Nat) :
    unsharedRecord stat name (rounds + 1) flags volume =
      (removeRecord stat name >>= fun _ =>
        unsharedRecord stat name rounds { flags with replace := false }) rest := by
  have hstat : ¬ object.stat.nlink ≤ 1 := Nat.not_le.mpr hnlink
  simp [unsharedRecord, hopen, onStore, focus, stat_of_object? hobject, hstat]

end UnsharedRecord

end Volume

end AttrTree
