import AttrTree.Proofs.Corruption

/-!
This module contains a decoder of records that has all their bytes at once. Reading a record page by page gives
what the decoder gives, whatever the bytes are and however they lie on the pages.
-/

namespace AttrTree

namespace Record

variable {content : Bytes}

def wordAt (content : Bytes) (start : Nat) : Nat :=
  Bytes.toNat ((content.drop start).take 4)

/-- Decode the bytes of a record at once, as `readValue` decodes them page by page. -/
def decode (content : Bytes) (buffer : Buffer) : Except Error Nat × Buffer :=
  if content.length < headerSize then
    (.error Volume.truncatedRecord, buffer)
  else
    let payload := content.drop headerSize
    match buffer with
    | none => (.ok payload.length, none)
    | some bytes =>
      if bytes.length < payload.length then
        (.error Volume.bufferTooSmall, buffer)
      else if wordAt content 0 ≠ mark.toNat then
        (.error markMismatch, buffer)
      else if wordAt content 4 ≠ (checksum payload).toNat then
        (.error Volume.checksumMismatch, some (payload ++ bytes.drop payload.length))
      else
        (.ok payload.length, some (payload ++ bytes.drop payload.length))

theorem wordAt_lt (content : Bytes) (start : Nat) : wordAt content start < 2 ^ 32 := by
  have hlt := Bytes.toNat_lt ((content.drop start).take 4)
  exact Nat.lt_of_lt_of_le hlt (Nat.pow_le_pow_right (by decide) (List.length_take_le ..))

theorem ofNat_wordAt_eq_iff {start : Nat} {word : UInt32} :
    UInt32.ofNat (wordAt content start) = word ↔ wordAt content start = word.toNat := by
  rw [← UInt32.toNat_inj, UInt32.toNat_ofNat', Nat.mod_eq_of_lt (wordAt_lt content start)]

theorem Header.ofBytes_eq (h : headerSize ≤ content.length) :
    ofBytes content =
      if wordAt content 0 = Record.mark.toNat then
        .ok { mark := Record.mark, checksum := UInt32.ofNat (wordAt content 4) }
      else
        .error markMismatch := by
  rw [ofBytes, if_neg (Nat.not_lt.mpr h)]
  change (if UInt32.ofNat (wordAt content 0) = Record.mark then _ else _) = _
  by_cases hmark : wordAt content 0 = Record.mark.toNat
  . have hword := ofNat_wordAt_eq_iff.mpr hmark
    rw [if_pos hword, if_pos hmark]
    exact congrArg (fun word => Except.ok (Header.mk word _)) hword
  . rw [if_neg (mt ofNat_wordAt_eq_iff.mp hmark), if_neg hmark]

end Record

namespace Volume

open Action MemStore Record

variable {volume : Volume MemStore} {obj dir : ObjectId} {object : MemObject} {d : Directory} {e : DirEntry}
  {content : Bytes}

theorem readOutcome_eq_decode (content : Bytes) (buffer : Buffer) :
    readOutcome content buffer = decode content buffer := by
  by_cases hsize : content.length < headerSize
  . cases buffer <;> simp [readOutcome, decode, hsize]
  . cases buffer with
    | none => simp [readOutcome, decode, hsize]
    | some bytes =>
      have hheader := Header.ofBytes_eq (Nat.le_of_not_lt hsize)
      have hsum : checksum (content.drop headerSize) = UInt32.ofNat (wordAt content 4) ↔
          wordAt content 4 = (checksum (content.drop headerSize)).toNat :=
        eq_comm.trans ofNat_wordAt_eq_iff
      by_cases hfits : bytes.length < content.length - headerSize
      . simp [readOutcome, decode, hsize, hfits]
      . by_cases hmark : wordAt content 0 = mark.toNat
        . simp only [readOutcome, decode, hsize, hfits, hheader, hmark, hsum, if_false, if_true,
            List.length_drop, ne_eq, not_true_eq_false, ite_not, Bytes.overlay_eq]
          split <;> simp
        . simp [readOutcome, decode, hsize, hfits, hheader, hmark]

section Run

variable {pageSize capacity : Nat} {format : ObjectFormat} {hpage : headerSize < pageSize}
  {options : MountOptions} {ops : List Op}

theorem readValue_decodes (hrun : run ops (initial pageSize format hpage options capacity) = volume)
    (hobject : volume.store.object? obj = some object) (hformat : object.format ≠ .legacy)
    (hfound : volume.directory? object.stat.key = some dir) (hdir : volume.store.directory? dir = some d)
    (hentry : e ∈ d.entries) (hvalid : isValidName e.name = true)
    (hcontent : volume.store.content? e.target = some content) (buffer : Buffer) :
    ∃ rest, rest.store = volume.store
      ∧ readValue obj e.name (volume, buffer) =
        ofExcept (decode content buffer).1 (rest, (decode content buffer).2) := by
  have hlinked : volume.store.Linked := hrun ▸ linked_run ops (linked_empty ..)
  obtain ⟨parent, hwf, _⟩ := hlinked.placed hdir
  obtain ⟨file, hfile, hbody⟩ := content?_eq_some_iff.mp hcontent
  have hexisting := existingRecord_found hvalid hobject hformat hfound hdir (hwf.find?_name hentry)
  refine ⟨volume.opened object.stat.key dir, store_opened .., ?_⟩
  rw [readValue_of_content hexisting hfile hbody buffer, readOutcome_eq_decode]
  cases decode content buffer with
  | mk result buffer' => cases result <;> rfl

def lengthened : List Op :=
  [.store (.create 1 "f" 0o644), .mount ⟨false⟩, .writeValue 2 "user.x" (List.replicate 20 7) .none,
    .store (.writePage 6 1 12 [9])]

theorem readValue_decodes_lengthened :
    let volume := run lengthened (initial 16 .current (by decide) .optional 64)
    let buffer : Buffer := some (List.replicate 24 0)
    ∃ rest, rest.store = volume.store
      ∧ readValue 2 "user.x" (volume, buffer) =
        .error checksumMismatch (rest, some (List.replicate 20 7 ++ [9, 0, 0, 0])) := by
  intro volume buffer
  obtain ⟨object, hobject⟩ := Option.isSome_iff_exists.mp
    (show (volume.store.object? 2).isSome = true by decide +kernel)
  obtain ⟨d, hdir⟩ := Option.isSome_iff_exists.mp
    (show (volume.store.directory? 5).isSome = true by decide +kernel)
  obtain ⟨content, hcontent⟩ := Option.isSome_iff_exists.mp
    (show (volume.store.content? 6).isSome = true by decide +kernel)
  have hfacts : (volume.store.object? 2).all (fun object => object.format ≠ .legacy
      ∧ volume.directory? object.stat.key = some 5) = true := by
    decide +kernel
  have hentries : (volume.store.directory? 5).all (fun d => (⟨3, "user.x", 6, true⟩ : DirEntry) ∈ d.entries)
      = true := by
    decide +kernel
  have hdecode : (volume.store.content? 6).all (fun content => decode content buffer =
      (.error checksumMismatch, some (List.replicate 20 7 ++ [9, 0, 0, 0]))) = true := by
    decide +kernel
  rw [hobject, Option.all_some, decide_eq_true_eq] at hfacts
  rw [hdir, Option.all_some, decide_eq_true_eq] at hentries
  rw [hcontent, Option.all_some, decide_eq_true_eq] at hdecode
  obtain ⟨rest, hstore, hread⟩ := readValue_decodes rfl hobject hfacts.1 hfacts.2 hdir hentries (by decide)
    hcontent buffer
  rw [hdecode] at hread
  exact ⟨rest, hstore, hread⟩

end Run

end Volume

end AttrTree
