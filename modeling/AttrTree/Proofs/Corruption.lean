import AttrTree.Proofs.Checksum
import AttrTree.Proofs.Storing

/-!
This module contains why damage to a record does not go unnoticed. The header of a record is told by its
payload, so no other header will do; and of two payloads that differ in a few bytes, one does not have the
checksum of the other.
-/

namespace AttrTree

namespace Record

variable {content content' value : Bytes} {start count : Nat}

structure SameOutside (content content' : Bytes) (start count : Nat) : Prop where
  length_eq : content'.length = content.length
  take_eq : content'.take start = content.take start
  drop_eq : content'.drop (start + count) = content.drop (start + count)

/-- Bytes of the header were changed, or bytes of the payload within four that lie next to each other. -/
inductive Damaged (content content' : Bytes) : Prop
  | header (hne : content' ≠ content) (h : SameOutside content content' 0 headerSize)
  | payload {start : Nat} (hne : content' ≠ content) (hstart : headerSize ≤ start)
    (h : SameOutside content content' start 4)

theorem Header.toBytes_of_ofBytes {header : Header} (h : ofBytes content = .ok header) :
    header.mark = Record.mark ∧ content.take headerSize = header.toBytes := by
  have hword {bytes : Bytes} (hlength : bytes.length = 4) :
      Bytes.littleEndian 4 (UInt32.ofNat (Bytes.toNat bytes)).toNat = bytes := by
    have hlt : Bytes.toNat bytes < 2 ^ 32 := by
      have hlt := Bytes.toNat_lt bytes
      rwa [hlength] at hlt
    rw [UInt32.toNat_ofNat', Nat.mod_eq_of_lt hlt, ← hlength, Bytes.littleEndian_toNat]
  unfold ofBytes at h
  split at h
  . cases h
  . next hlength =>
    rw [Nat.not_lt] at hlength
    have hsize : headerSize = 4 + 4 := rfl
    dsimp only at h
    split at h
    . next hmark =>
      cases h
      refine ⟨hmark, ?_⟩
      rw [toBytes, hword (by rw [List.length_take]; omega),
        hword (by rw [List.length_take, List.length_drop]; omega), ← List.take_add, hsize]
    . cases h

theorem Header.corrupted_of_ofBytes {err : Error} (h : ofBytes content = .error err) :
    err.kind = .corrupted := by
  unfold ofBytes at h
  split at h
  . cases h
    rfl
  . dsimp only at h
    split at h
    . cases h
    . cases h
      rfl

theorem eq_image {header : Header} (hheader : Header.ofBytes content = .ok header)
    (hsum : checksum (content.drop headerSize) = header.checksum) :
    content = image (content.drop headerSize) := by
  obtain ⟨hmark, hbytes⟩ := Header.toBytes_of_ofBytes hheader
  have hofChecksum : header = .ofChecksum (checksum (content.drop headerSize)) := by
    rw [hsum, Header.ofChecksum, ← hmark]
  conv_lhs => rw [← List.take_append_drop headerSize content, hbytes, hofChecksum]
  rfl

theorem eq_of_checksum_eq {value' : Bytes} (h : SameOutside value value' start 4)
    (hsum : checksum value' = checksum value) : value' = value := by
  have hsplit (bytes : Bytes) :
      bytes.take start ++ (bytes.drop start).take 4 ++ bytes.drop (start + 4) = bytes := by
    rw [List.append_assoc, ← List.drop_drop, List.take_append_drop, List.take_append_drop]
  cases value with
  | nil => exact List.eq_nil_of_length_eq_zero h.length_eq
  | cons b value =>
    have hcrc : Checksum.crc32 value' = Checksum.crc32 (b :: value) := by
      cases value' with
      | nil => exact absurd h.length_eq (by simp)
      | cons b' value' => simpa [checksum] using hsum
    have hlength : ((value'.drop start).take 4).length = (((b :: value).drop start).take 4).length := by
      rw [List.length_take, List.length_take, List.length_drop, List.length_drop, h.length_eq]
    rw [← hsplit value', ← hsplit (b :: value), h.take_eq, h.drop_eq] at hcrc ⊢
    rw [Checksum.crc32_inj_of_short (by rw [List.length_take]; omega) hlength hcrc]

theorem SameOutside.payload (h : SameOutside content content' start count) (hstart : headerSize ≤ start) :
    content'.take headerSize = content.take headerSize
      ∧ SameOutside (content.drop headerSize) (content'.drop headerSize) (start - headerSize) count := by
  constructor
  . have htake := congrArg (List.take headerSize) h.take_eq
    rwa [List.take_take, List.take_take, Nat.min_eq_left hstart] at htake
  . constructor
    . rw [List.length_drop, List.length_drop, h.length_eq]
    . have hdrop := congrArg (List.drop headerSize) h.take_eq
      rwa [List.drop_take, List.drop_take] at hdrop
    . have hdrop := h.drop_eq
      rw [List.drop_drop, List.drop_drop]
      rwa [show headerSize + (start - headerSize + count) = start + count by omega]

theorem Damaged.not_image (h : Damaged (image value) content) (payload : Bytes) :
    content ≠ image payload := by
  rintro rfl
  cases h with
  | header hne h =>
    have hpayload := h.drop_eq
    rw [Nat.zero_add, drop_image, drop_image] at hpayload
    exact hne (congrArg image hpayload)
  | payload hne hstart h =>
    obtain ⟨hheader, hpayload⟩ := h.payload hstart
    rw [take_image, take_image] at hheader
    rw [drop_image, drop_image] at hpayload
    have hsum : checksum payload = checksum value := by
      have hread := Header.ofBytes_toBytes_append (checksum payload) []
      rw [hheader, Header.ofBytes_toBytes_append] at hread
      injection hread with hread
      exact (congrArg Header.checksum hread).symm
    exact hne (congrArg image (eq_of_checksum_eq hpayload hsum))

end Record

namespace Volume

open Action MemStore

variable {volume rest after : Volume MemStore} {obj record : ObjectId} {name : String} {flags : SetFlags}
  {value content bytes : Bytes} {object : MemObject}

theorem readOutcome_damaged (h : Record.Damaged (Record.image value) content)
    (hfits : value.length ≤ bytes.length) :
    ∃ err buffer, readOutcome content (some bytes) = (.error err, buffer) ∧ err.kind = .corrupted := by
  have hlength : content.length = Record.headerSize + value.length := by
    rw [← Record.length_image]
    cases h with
    | header _ h => exact h.length_eq
    | payload _ _ h => exact h.length_eq
  have hsize : ¬ content.length < Record.headerSize := by omega
  have hroom : ¬ bytes.length < content.length - Record.headerSize := by omega
  cases hheader : Record.Header.ofBytes content with
  | error err =>
    refine ⟨err, some bytes, ?_, Record.Header.corrupted_of_ofBytes hheader⟩
    simp [readOutcome, hsize, hroom, hheader]
  | ok header =>
    have hsum : checksum (content.drop Record.headerSize) ≠ header.checksum := fun hsum =>
      h.not_image _ (Record.eq_image hheader hsum)
    refine ⟨checksumMismatch, some (bytes.overlay 0 (content.drop Record.headerSize)), ?_, rfl⟩
    simp [readOutcome, hsize, hroom, hheader, hsum]

theorem readValue_of_content (hfound : existingRecord obj name volume = .ok record after)
    (hobject : volume.store.object? record = some object) (hbody : object.body = .file content)
    (buffer : Buffer) :
    readValue obj name (volume, buffer) =
      match readOutcome content buffer with
      | (.ok length, buffer) => .ok length (after, buffer)
      | (.error err, buffer) => .error err (after, buffer) := by
  rw [← store_of_existingRecord hfound] at hobject
  simp only [readValue, bind_apply, onFirst, hfound, onStoreWith, focus, readRecord_eq hobject hbody]
  cases readOutcome content buffer with
  | mk result buffer => cases result <;> rfl

def altered (volume : Volume MemStore) (record : ObjectId) (content : Bytes) : Volume MemStore :=
  { volume with store := volume.store.setContent record content }

theorem existingRecord_altered (hfound : existingRecord obj name volume = .ok record after)
    (hobject : volume.store.object? record = some object) (hkind : object.body.isDirectory = false)
    (content : Bytes) :
    ∃ after, existingRecord obj name (volume.altered record content) = .ok record after := by
  obtain ⟨hvalid, owner, dir, d, e, howner, hformat, hopen, hdir, hfind, rfl, _⟩ :=
    existingRecord_eq_ok_iff.mp hfound
  obtain ⟨owner', howner', hkey, hformat'⟩ := keepsIdentities_setContent hobject content howner
  apply existingRecord_of_record? hvalid howner' (hformat'.symm ▸ hformat)
  have hopen' : (volume.altered e.target content).directory? owner'.stat.key = some dir := by
    rw [hkey, ← hopen]
    simp only [directory?, attrRoot?, altered, child?_setContent hobject hkind]
  rw [record?, hopen', Option.bind_some]
  exact (child?_setContent hobject hkind content dir name).trans (child?_eq_some_iff.mpr ⟨d, e, hdir, hfind, rfl⟩)

section Run

variable {pageSize cacheCapacity : Nat} {format : ObjectFormat}
  {hpage : Record.headerSize < pageSize} {options : MountOptions} {ops : List Op}

theorem damaged_record_detected (hobj : obj < 2 ^ 64)
    (hwrite : writeValue obj name value flags (run ops (initial pageSize format hpage options cacheCapacity)) =
      .ok () rest) :
    ∃ record after, existingRecord obj name rest = .ok record after
      ∧ rest.store.content? record = some (Record.image value)
      ∧ ∀ content, Record.Damaged (Record.image value) content →
        ∀ bytes : Bytes, value.length ≤ bytes.length →
          ∃ err after, readValue obj name (rest.altered record content, some bytes) = .error err after
            ∧ err.kind = .corrupted := by
  have hlinked : (run ops (initial pageSize format hpage options cacheCapacity)).store.Linked :=
    linked_run ops (linked_empty pageSize format hpage)
  obtain ⟨dir, record, hstored, _⟩ := stored_of_writeValue hlinked hobj hwrite
  obtain ⟨after, hfound⟩ := hstored.found
  obtain ⟨file, hfile, hbody, _⟩ := hstored.file
  refine ⟨record, after, hfound, content?_of_object? hfile hbody, fun content hdamaged bytes hfits => ?_⟩
  have hkind : file.body.isDirectory = false := by
    rw [hbody]
    rfl
  obtain ⟨after', hfound'⟩ := existingRecord_altered hfound hfile hkind content
  have hfile' := object?_setContent hfile content record
  rw [if_pos rfl] at hfile'
  obtain ⟨err, buffer, houtcome, hkind⟩ := readOutcome_damaged hdamaged hfits
  have hread := readValue_of_content hfound' hfile' rfl (some bytes)
  rw [houtcome] at hread
  exact ⟨err, _, hread, hkind⟩

def crossingRun : List Op :=
  [.store (.create 1 "f" 0o644), .mount ⟨false⟩]

theorem damaged_record_detected_crossing :
    let volume := run crossingRun (initial 16 .current (by decide) .optional 64)
    let value : Bytes := List.replicate 12 7
    ∃ rest record err after, writeValue 2 "user.x" value .none volume = .ok () rest
      ∧ readValue 2 "user.x" (rest.altered record (((Record.image value).set 14 1).set 17 2),
        some (List.replicate 12 0)) = .error err after
      ∧ err.kind = .corrupted := by
  intro volume value
  have hok : (writeValue 2 "user.x" value .none).succeeds volume = true := by
    decide +kernel
  obtain ⟨_, hwrite⟩ := eq_ok_of_succeeds hok
  obtain ⟨record, _, _, _, hdetected⟩ := damaged_record_detected (by decide) hwrite
  have hdamaged : Record.Damaged (Record.image value) (((Record.image value).set 14 1).set 17 2) := by
    refine .payload (by decide +kernel) (show Record.headerSize ≤ 14 by decide) ?_
    exact ⟨by decide +kernel, by decide +kernel, by decide +kernel⟩
  obtain ⟨err, after, hread, hkind⟩ :=
    hdetected _ hdamaged (List.replicate 12 0) (by decide)
  exact ⟨_, record, err, after, hwrite, hread, hkind⟩

end Run

end Volume

end AttrTree
