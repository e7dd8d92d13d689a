import AttrTree.Proofs.Bounds
import AttrTree.Proofs.Isolation
import AttrTree.Proofs.Paging
import AttrTree.Proofs.Values

/-!
This module contains what a write that succeeds has stored, also if a fault is planned for a later one:
the image of a record for the value, written page by page, which can be read back at once. The same is
stored by `Guarded.writeValue`, whose loop goes through the first and the later pages.
-/

namespace AttrTree

open Action MemStore

theorem Record.image_eq (value : Bytes) :
    image value = Bytes.littleEndian 4 mark.toNat
      ++ (Bytes.littleEndian 4 (if value = [] then 0 else Checksum.crc32 value).toNat ++ value) := by
  cases value <;> simp [image, Header.toBytes, Header.ofChecksum, checksum]

namespace Volume

variable {volume rest : Volume MemStore} {stat : ObjectStat} {name : String} {flags : SetFlags}
  {obj dir record : ObjectId} {object target : MemObject} {d : Directory} {e : DirEntry} {value : Bytes}

section Subdirectory

theorem unsharedRecord_subdirectory (hlinked : volume.store.Linked) (hvalid : isValidName name = true)
    (hfound : volume.directory? stat.key = some dir) (hdir : volume.store.directory? dir = some d)
    (hfind : d.find? name = some e) (htarget : volume.store.object? e.target = some target)
    (hkind : target.body.isDirectory = true) (rounds : Nat) :
    unsharedRecord stat name rounds flags volume ≠ .ok record rest := by
  have hnlink : 1 < target.nlink := by
    cases hbody : target.body with
    | file content => simp [hbody, Body.isDirectory] at hkind
    | directory dir =>
      rw [hlinked.directory_nlink htarget hbody]
      omega
  induction rounds generalizing volume flags with
  | zero =>
    intro hrecord
    cases hrecord
  | succ rounds ih =>
    have hopen := openRecord_eq hvalid (openDirectory_found hfound flags) (by simpa using hdir)
    simp only [hfind] at hopen
    cases hcreate : flags.create with
    | true =>
      rw [hcreate, if_pos rfl] at hopen
      rw [unsharedRecord_of_error hopen]
      intro hrecord
      cases hrecord
    | false =>
      rw [hcreate, if_neg Bool.false_ne_true] at hopen
      have hfound' : (volume.opened stat.key dir).directory? stat.key = some dir :=
        (remembers_opened hfound).directory?_eq
      rw [unsharedRecord_shared hopen (by simpa using htarget) hnlink, bind_apply,
        removeRecord_eq hvalid (openDirectory_found hfound' .looking)]
      simp only [onStore, focus, store_opened,
        removeEntry_directory hlinked hdir hfind htarget hkind]
      apply ih
      . simpa using hlinked
      . exact ((remembers_opened hfound').withStore fun root hchild => by simpa using hchild).directory?_eq
      . simpa using hdir
      . simpa using htarget

theorem isNoDirectory_of_unsharedRecord (hlinked : volume.store.Linked) {rounds : Nat}
    (h : unsharedRecord stat name rounds flags volume = .ok record rest) :
    volume.IsNoDirectory stat.key name := by
  intro hvalid old target hold htarget
  obtain ⟨dir, hfound, hchild⟩ := Option.bind_eq_some_iff.mp hold
  obtain ⟨d, e, hdir, hfind, rfl⟩ := child?_eq_some_iff.mp hchild
  cases hkind : target.body.isDirectory with
  | false => rfl
  | true => exact absurd h (unsharedRecord_subdirectory hlinked hvalid hfound hdir hfind htarget hkind rounds)

end Subdirectory

section Pages

/-- `writePages` has written the `pages` of `image` to `record`, each to a page of its own. -/
structure Paged (volume rest : Volume MemStore) (record : ObjectId) (image : Bytes) (pages : List Bytes) :
    Prop where
  flatten_eq : pages.flatten = image
  length_eq : pages.length = (image.length + volume.store.pageSize - 1) / volume.store.pageSize
  fits : ∀ page ∈ pages, page.length ≤ volume.store.pageSize
  written : ∃ before, before.writeFault = volume.store.writeFault
    ∧ writePages record 0 pages before = .ok () rest.store
  counted : volume.store.CountsDown pages.length rest.store

theorem writePages_of_writeImage {store store' : MemStore} {image old : Bytes}
    (hids : store.HasDistinctIds) (hobject : store.object? record = some object)
    (hbody : object.body = .file old) (h : writeImage record image store = .ok () store') :
    (∃ before, before.writeFault = store.writeFault
      ∧ writePages record 0 (image.chunks store.pageSize) before = .ok () store')
    ∧ ∃ fault, store' = (store.setContent record image).withFault fault := by
  constructor
  . refine ⟨store.setContent record (old.resize image.length), rfl, ?_⟩
    rw [writeImage, bind_apply, setAttr_resize hids hobject hbody image.length] at h
    exact h
  . obtain ⟨fault, hwrite⟩ | ⟨err, _, _, _, _, hwrite⟩ := writeImage_cases hids hobject hbody image
    . rw [hwrite] at h
      cases h
      exact ⟨fault, rfl⟩
    . rw [hwrite] at h
      cases h

theorem existingRecord_withFault {after : Volume MemStore} (h : existingRecord obj name volume = .ok record after)
    (fault : Option Nat) :
    ∃ after', existingRecord obj name { volume with store := volume.store.withFault fault } = .ok record after' := by
  obtain ⟨hvalid, object, dir, d, e, hobject, hformat, hopen, hdir, hfind, rfl, _⟩ :=
    existingRecord_eq_ok_iff.mp h
  exact ⟨_, existingRecord_found hvalid hobject hformat hopen hdir hfind⟩

theorem Stored.withFault (h : volume.Stored rest obj name value dir record) (fault : Option Nat) :
    volume.Stored { rest with store := rest.store.withFault fault } obj name value dir record := by
  obtain ⟨⟨after, hfound⟩, hchild, hfile, hothers, hparted⟩ := h
  exact ⟨existingRecord_withFault hfound fault, hchild, hfile, hothers, hparted⟩

theorem stored_of_writeValue (hlinked : volume.store.Linked) (hobj : obj < 2 ^ 64)
    (h : writeValue obj name value flags volume = .ok () rest) :
    ∃ dir record, volume.Stored rest obj name value dir record
      ∧ volume.Paged rest record (Record.image value) ((Record.image value).chunks volume.store.pageSize) := by
  by_cases hlegacy : ∀ object, volume.store.object? obj = some object → object.format = .legacy
  . obtain ⟨err, _, hwrite⟩ := writeValue_of_statError hlegacy name value flags
    rw [hwrite] at h
    cases h
  . simp only [not_forall] at hlegacy
    obtain ⟨object, hobject, hformat⟩ := hlegacy
    have hid : object.stat.id < 2 ^ 64 := by
      rw [show object.stat.id = object.id from rfl, id_of_object? hobject]
      exact hobj
    rw [writeValue_eq hobject hformat] at h
    obtain ⟨record, middle, hopened, hwrite⟩ := bind_eq_ok_iff.mp h
    have hnoDir := isNoDirectory_of_unsharedRecord hlinked hopened
    obtain ⟨result, hunshared, hrounds⟩ := unshared hlinked hid hnoDir flags
    have hsize := pageSize_unsharedRecord hopened
    rw [hrounds] at hopened
    subst hopened
    cases hunshared with
    | @ready _ dir _ hready =>
      obtain ⟨file, old, hfile, hbody, _⟩ := hready.file
      simp only [onStore, focus] at hwrite
      split at hwrite
      . next store hwritten =>
        cases hwrite
        obtain ⟨⟨before, hbefore, hpages⟩, fault, rfl⟩ :=
          writePages_of_writeImage hready.changed.linked.ids_distinct hfile hbody hwritten
        have hfault := hbefore.trans hready.changed.writeFault_eq
        have hpos : 0 < volume.store.pageSize :=
          Nat.zero_lt_of_lt volume.store.headerSize_lt_pageSize
        refine ⟨dir, record, ?_, ?_⟩
        . exact (hready.stored hobject hformat hlinked hnoDir value).withFault fault
        . rw [hsize] at hpages
          have hcount := countsDown_writePages hpages
          rw [CountsDown, hfault] at hcount
          exact ⟨Bytes.flatten_chunks _ (Nat.ne_of_gt hpos), Bytes.length_chunks _ hpos,
            fun page hpage => Bytes.length_le_of_mem_chunks hpage, ⟨before, hfault, hpages⟩, hcount⟩
      . cases hwrite

end Pages

section Run

theorem store_of_existingRecord (h : existingRecord obj name volume = .ok record rest) :
    rest.store = volume.store := by
  obtain ⟨_, _, _, _, _, _, _, _, _, _, _, rfl⟩ := existingRecord_eq_ok_iff.mp h
  exact store_opened ..

theorem Stored.read (h : volume.Stored rest obj name value dir record) (buffer : Buffer) :
    ∃ after, Answers (readValue obj name (rest, buffer)) after (readAnswer (some value) buffer) := by
  obtain ⟨after, hfound⟩ := h.found
  obtain ⟨file, hfile, hbody, _⟩ := h.file
  rw [← store_of_existingRecord hfound] at hfile
  exact ⟨after, readValue_image hfound hfile hbody buffer⟩

variable {pageSize cacheCapacity : Nat} {format : ObjectFormat}
  {hpage : Record.headerSize < pageSize} {options : MountOptions} {ops : List Op}

theorem writeValue_stores_image (hobj : obj < 2 ^ 64)
    (hwrite : writeValue obj name value flags (run ops (initial pageSize format hpage options cacheCapacity)) =
      .ok () rest) :
    let volume := run ops (initial pageSize format hpage options cacheCapacity)
    let image := Bytes.littleEndian 4 Record.mark.toNat
      ++ (Bytes.littleEndian 4 (if value = [] then 0 else Checksum.crc32 value).toNat ++ value)
    volume.store.pageSize = pageSize
    ∧ image.length = 8 + value.length
    ∧ (Guarded.writeValue obj name value flags).run volume = .ok (.ok ()) rest
    ∧ ∃ record after object pages, existingRecord obj name rest = .ok record after
      ∧ rest.store.object? record = some object ∧ object.body = .file image ∧ object.nlink = 1
      ∧ volume.Paged rest record image pages
      ∧ ∀ buffer, ∃ after,
        Answers (readValue obj name (rest, buffer)) after (readAnswer (some value) buffer) := by
  intro volume image
  have himage : Record.image value = image := Record.image_eq value
  have hlinked : volume.store.Linked := linked_run ops (linked_empty pageSize format hpage)
  obtain ⟨dir, record, hstored, hpaged⟩ := stored_of_writeValue hlinked hobj hwrite
  obtain ⟨after, hfound⟩ := hstored.found
  obtain ⟨object, hobject, hbody, hnlink⟩ := hstored.file
  have hlength : image.length = 8 + value.length := by
    rw [← himage, Record.length_image]
    rfl
  have hloop : (Guarded.writeValue obj name value flags).run volume = .ok (.ok ()) rest := by
    have hclears := Guarded.clears_writeValue obj name value flags volume
    rw [Guarded.Clears, map_apply, hwrite] at hclears
    exact hclears
  rw [himage] at hbody hpaged
  exact ⟨pageSize_run ops _, hlength, hloop, record, after, object, _, hfound, hobject, hbody, hnlink, hpaged,
    hstored.read⟩

def pagedRun : List Op :=
  [.store (.create 1 "f" 0o644), .mount ⟨false⟩, .writeValue 2 "user.x" [1, 2] .none,
    .store (.planWriteFault 6)]

theorem writeValue_stores_image_paged :
    let volume := run pagedRun (initial 16 .current (by decide) .optional 64)
    let value : Bytes := List.replicate 41 7
    ∃ rest pages record image, writeValue 2 "user.x" value .none volume = .ok () rest
      ∧ volume.Paged rest record image pages ∧ pages.length = 4 ∧ rest.store.writeFault = some 2 := by
  intro volume value
  have hok : (writeValue 2 "user.x" value .none).succeeds volume = true := by
    decide +kernel
  obtain ⟨_, hwrite⟩ := eq_ok_of_succeeds hok
  obtain ⟨hsize, hlength, _, record, _, _, pages, _, _, _, _, hpaged, _⟩ :=
    writeValue_stores_image (by decide) hwrite
  have hpages : pages.length = 4 := by
    rw [hpaged.length_eq, hsize, hlength, show value.length = 41 from List.length_replicate]
  have hfault : volume.store.writeFault = some 6 := by
    decide +kernel
  refine ⟨_, pages, record, _, hwrite, hpaged, hpages, ?_⟩
  rw [hpaged.counted.1, hfault, hpages]
  rfl

end Run

end Volume

end AttrTree
