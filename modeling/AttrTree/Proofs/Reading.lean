import AttrTree.Proofs.Outcome

/-!
This module contains what a read of a record answers. The pages are read one by one; together they
are the content of the file, whatever their size.
-/

namespace AttrTree

namespace Bytes

theorem toNat_littleEndian (width n : Nat) :
    toNat (littleEndian width n) = n % 256 ^ width := by
  induction width generalizing n with
  | zero => simp [littleEndian, toNat, Nat.mod_one]
  | succ width ih =>
    have hb : (UInt8.ofNat n).toNat = n % 256 := by simp
    rw [littleEndian, toNat, ih, hb, Nat.pow_succ, Nat.mul_comm (256 ^ width), Nat.mod_mul]

theorem overlay_overlay {bytes : Bytes} {start : Nat} (h : start ≤ bytes.length)
    (xs ys : Bytes) :
    overlay (overlay bytes start xs) (start + xs.length) ys = overlay bytes start (xs ++ ys) := by
  have hfront : (bytes.take start).length = start := by
    rw [List.length_take]
    omega
  have htake : (bytes.take start ++ (xs ++ bytes.drop (start + xs.length))).take
      (start + xs.length) = bytes.take start ++ xs := by
    rw [← List.append_assoc, List.take_append_of_le_length (by simp [hfront]),
      List.take_of_length_le (by simp [hfront])]
  have hdrop : (bytes.take start ++ (xs ++ bytes.drop (start + xs.length))).drop
      (start + xs.length + ys.length) = bytes.drop (start + xs.length + ys.length) := by
    rw [← List.append_assoc, List.drop_append, List.drop_of_length_le (by simp [hfront]),
      List.nil_append, List.drop_drop]
    congr 1
    simp only [List.length_append, hfront]
    omega
  rw [overlay_eq, overlay_eq, overlay_eq, htake, hdrop, List.length_append, List.append_assoc,
    List.append_assoc, Nat.add_assoc]

theorem le_length_overlay {bytes : Bytes} {start : Nat} (h : start ≤ bytes.length) (data : Bytes) :
    start + data.length ≤ (overlay bytes start data).length := by
  simp only [overlay_eq, List.length_append, List.length_take]
  omega

theorem take_window {bytes : Bytes} {start n length : Nat} (hpage : length ≤ n)
    (hfile : start + length ≤ bytes.length) :
    (window bytes start n).take length = (bytes.drop start).take length := by
  simp only [window, resize, List.rightpad]
  rw [List.take_append_of_le_length, List.take_take, Nat.min_eq_left hpage]
  simp
  omega

theorem take_drop_append_drop (bytes : Bytes) (start n : Nat) :
    (bytes.drop start).take n ++ bytes.drop (start + n) = bytes.drop start := by
  rw [← List.drop_drop, List.take_append_drop]

section Piece

variable {bytes buffer : Bytes} {start n copied : Nat} (hbuffer : copied ≤ buffer.length)
  (hpiece : start + n ≤ bytes.length)
include hbuffer hpiece

theorem le_length_overlay_piece :
    copied + n ≤ (buffer.overlay copied ((bytes.drop start).take n)).length := by
  have hlength := le_length_overlay hbuffer ((bytes.drop start).take n)
  rwa [List.length_take, List.length_drop, Nat.min_eq_left (by omega)] at hlength

theorem overlay_piece :
    (buffer.overlay copied ((bytes.drop start).take n)).overlay (copied + n)
      (bytes.drop (start + n)) = buffer.overlay copied (bytes.drop start) := by
  have hover := overlay_overlay hbuffer ((bytes.drop start).take n) (bytes.drop (start + n))
  rwa [List.length_take, List.length_drop, Nat.min_eq_left (by omega),
    take_drop_append_drop] at hover

end Piece

end Bytes

theorem RunningChecksum.feed_piece (sum : RunningChecksum) (bytes : Bytes) (start n : Nat) :
    (sum.feed ((bytes.drop start).take n)).feed (bytes.drop (start + n)) =
      sum.feed (bytes.drop start) := by
  rw [← feed_append, Bytes.take_drop_append_drop]

namespace Record

namespace Header

theorem ofBytes_toBytes_append (checksum : UInt32) (rest : Bytes) :
    ofBytes ((ofChecksum checksum).toBytes ++ rest) = .ok (ofChecksum checksum) := by
  have hlen : ¬ ((ofChecksum checksum).toBytes ++ rest).length < headerSize := by
    simp
  have hmark : ((ofChecksum checksum).toBytes ++ rest).take 4
      = Bytes.littleEndian 4 Record.mark.toNat := by
    simp [toBytes, ofChecksum]
  have hsum : (((ofChecksum checksum).toBytes ++ rest).drop 4).take 4
      = Bytes.littleEndian 4 checksum.toNat := by
    simp [toBytes, ofChecksum]
  have hword (w : UInt32) : UInt32.ofNat (Bytes.toNat (Bytes.littleEndian 4 w.toNat)) = w := by
    rw [Bytes.toNat_littleEndian, Nat.mod_eq_of_lt (show w.toNat < 256 ^ 4 from w.toNat_lt),
      UInt32.ofNat_toNat]
  rw [ofBytes, if_neg hlen, hmark, hsum, hword, hword]
  simp [ofChecksum]

theorem ofBytes_append {front rest : Bytes} (h : front.length = headerSize) :
    ofBytes (front ++ rest) = ofBytes front := by
  have hlen : ¬ (front ++ rest).length < headerSize := by
    rw [List.length_append]
    omega
  have hlen' : ¬ front.length < headerSize := by omega
  have hmark : (front ++ rest).take 4 = front.take 4 :=
    List.take_append_of_le_length (by rw [h]; decide)
  have hsum : ((front ++ rest).drop 4).take 4 = (front.drop 4).take 4 := by
    rw [List.drop_append_of_le_length (by rw [h]; decide),
      List.take_append_of_le_length (by rw [List.length_drop, h]; decide)]
  rw [ofBytes, ofBytes, if_neg hlen, if_neg hlen', hmark, hsum]

theorem ofBytes_take {bytes : Bytes} (h : headerSize ≤ bytes.length) :
    ofBytes (bytes.take headerSize) = ofBytes bytes := by
  have happend : ofBytes (bytes.take headerSize ++ bytes.drop headerSize) =
      ofBytes (bytes.take headerSize) := ofBytes_append (by rw [List.length_take]; omega)
  rw [List.take_append_drop] at happend
  exact happend.symm

theorem ofBytes_firstPage {bytes : Bytes} {pageSize : Nat} (h : headerSize ≤ bytes.length)
    (hpage : headerSize < pageSize) :
    ofBytes (bytes.window (0 * pageSize) pageSize) = ofBytes bytes := by
  have hfront : (bytes.window (0 * pageSize) pageSize).take headerSize =
      bytes.take headerSize := by
    rw [Nat.zero_mul, Bytes.take_window (Nat.le_of_lt hpage) (by omega), List.drop_zero]
  rw [← ofBytes_take (by rw [Bytes.length_window]; omega), hfront, ofBytes_take h]

end Header

end Record

namespace Volume

open Action MemStore

variable {store : MemStore} {record : ObjectId} {object : MemObject} {content : Bytes}

theorem readPage_eq (hobject : store.object? record = some object)
    (hbody : object.body = .file content) (index length : Nat) :
    ObjectStore.readPage record index length store =
      .ok (content.window (index * store.pageSize) length) store := by
  have hget : store.getContent record readDirectory = .ok content :=
    getContent_eq_ok_iff.mpr ⟨object, hobject, hbody⟩
  simp [ObjectStore.readPage, query, MemStore.readPage, hget, bind, Except.bind, pure, Except.pure]

theorem copyPieces_eq (hobject : store.object? record = some object)
    (hbody : object.body = .file content) {size : Nat} (hsize : store.pageSize = size) (n : Nat)
    (index copied : Nat) (sum : RunningChecksum) (buffer : Bytes)
    (hindex : n ≠ 0 → index * size = Record.headerSize + copied)
    (hcontent : content.length = Record.headerSize + copied + n)
    (hbuffer : copied ≤ buffer.length) :
    copyPieces record size (Record.fullPieces size n) index copied sum (store, some buffer) =
      .ok (sum.feed (content.drop (Record.headerSize + copied)))
        (store, some (buffer.overlay copied (content.drop (Record.headerSize + copied)))) := by
  have hpos : size ≠ 0 := by
    rw [← hsize]
    exact Nat.ne_of_gt (Nat.zero_lt_of_lt store.headerSize_lt_pageSize)
  fun_induction Record.fullPieces size n generalizing index copied sum buffer with
  | case1 n hdone =>
    obtain rfl : n = 0 := by simpa [hpos] using hdone
    rw [List.drop_of_length_le (by omega)]
    simp [copyPieces]
  | case2 n hmore ih =>
    have hn : n ≠ 0 := fun h => hmore (.inl h)
    have hpiece : (content.window (index * size) size).take (min n size) =
        (content.drop (Record.headerSize + copied)).take (min n size) := by
      rw [hindex hn, Bytes.take_window (Nat.min_le_right ..) (by omega)]
    have hfits : Record.headerSize + copied + min n size ≤ content.length := by omega
    have hindex' : n - size ≠ 0 →
        (index + 1) * size = Record.headerSize + (copied + min n size) := by
      intro hleft
      rw [Nat.add_mul, hindex hn, Nat.min_eq_right (by omega)]
      omega
    -- The pieces after this one are what the file holds behind it.
    have hrest := ih (index + 1) (copied + min n size)
      (sum.feed ((content.drop (Record.headerSize + copied)).take (min n size)))
      (buffer.overlay copied ((content.drop (Record.headerSize + copied)).take (min n size)))
      hindex' (by omega) (Bytes.le_length_overlay_piece hbuffer hfits)
    rw [← Nat.add_assoc, Bytes.overlay_piece hbuffer hfits, RunningChecksum.feed_piece] at hrest
    rw [copyPieces, bind_apply, onFirst]
    simp only [readPage_eq hobject hbody, hsize, bind_apply, fillBuffer, modify_apply,
      Option.map_some, hpiece]
    exact hrest

theorem copyPayload_eq (hobject : store.object? record = some object)
    (hbody : object.body = .file content) (buffer : Bytes) {header : Record.Header}
    (hheader : Record.Header.ofBytes content = .ok header)
    (hsize : Record.headerSize ≤ content.length) :
    copyPayload record (content.length - Record.headerSize) (store, some buffer) =
      if checksum (content.drop Record.headerSize) = header.checksum then
        .ok () (store, some (buffer.overlay 0 (content.drop Record.headerSize)))
      else
        .error checksumMismatch
          (store, some (buffer.overlay 0 (content.drop Record.headerSize))) := by
  have hpage := store.headerSize_lt_pageSize
  have hofBytes : Record.Header.ofBytes (content.window (0 * store.pageSize) store.pageSize) =
      .ok header := by
    rw [Record.Header.ofBytes_firstPage hsize hpage, hheader]
  obtain ⟨first, hfirst⟩ : ∃ first, first = Record.firstPiece store.pageSize
    (content.length - Record.headerSize) := ⟨_, rfl⟩
  have hle : first ≤ content.length - Record.headerSize ∧
      first ≤ store.pageSize - Record.headerSize := by
    unfold Record.firstPiece at hfirst
    omega
  have hpiece : ((content.window (0 * store.pageSize) store.pageSize).drop
      Record.headerSize).take first = (content.drop Record.headerSize).take first := by
    rw [List.take_drop, List.take_drop, Nat.zero_mul,
      Bytes.take_window (by omega) (by omega), List.drop_zero]
  have hfits : Record.headerSize + first ≤ content.length := by omega
  have hbuffer := Bytes.le_length_overlay_piece (Nat.zero_le buffer.length) hfits
  have hover := Bytes.overlay_piece (Nat.zero_le buffer.length) hfits
  rw [Nat.zero_add] at hbuffer hover
  have hlater := copyPieces_eq hobject hbody rfl (content.length - Record.headerSize - first) 1 first
    (RunningChecksum.start.feed ((content.drop Record.headerSize).take first))
    (buffer.overlay 0 ((content.drop Record.headerSize).take first))
    (by unfold Record.firstPiece at hfirst; omega) (by omega) hbuffer
  rw [hover, RunningChecksum.feed_piece] at hlater
  simp only [copyPayload, bind_apply, get_apply, onFirst, readPage_eq hobject hbody,
    ObjectStore.pageSize, hofBytes, ofExcept_ok, fillBuffer, modify_apply, Option.map_some,
    ← hfirst, hpiece, Record.laterPieces, hlater, RunningChecksum.finish_feed_start]
  by_cases hsum : checksum (content.drop Record.headerSize) = header.checksum
  . simp [hsum]
  . simp [hsum]

def readOutcome (content : Bytes) : Buffer → Except Error Nat × Buffer
  | none =>
    if content.length < Record.headerSize then (.error truncatedRecord, none)
    else (.ok (content.length - Record.headerSize), none)
  | some buffer =>
    if content.length < Record.headerSize then (.error truncatedRecord, some buffer)
    else if buffer.length < content.length - Record.headerSize then
      (.error bufferTooSmall, some buffer)
    else
      match Record.Header.ofBytes content with
      | .error e => (.error e, some buffer)
      | .ok header =>
        let payload := content.drop Record.headerSize
        (if checksum payload = header.checksum then .ok payload.length else .error checksumMismatch,
          some (buffer.overlay 0 payload))

theorem readRecord_eq (hobject : store.object? record = some object)
    (hbody : object.body = .file content) (buffer : Buffer) :
    readRecord record (store, buffer) =
      match readOutcome content buffer with
      | (.ok length, buffer) => .ok length (store, buffer)
      | (.error e, buffer) => .error e (store, buffer) := by
  have hstat : object.stat.size = content.length := by
    simp [MemObject.stat, hbody, Body.size]
  by_cases hsize : content.length < Record.headerSize
  . cases buffer <;>
      simp [readRecord, readOutcome, onFirst, stat_of_object? hobject, hstat, hsize]
  . cases buffer with
    | none => simp [readRecord, readOutcome, onFirst, stat_of_object? hobject, hstat, hsize]
    | some buffer =>
      by_cases hfits : buffer.length < content.length - Record.headerSize
      . simp [readRecord, readOutcome, onFirst, stat_of_object? hobject, hstat, hsize, hfits]
      . cases hheader : Record.Header.ofBytes content with
        | error e =>
          have hpage : Record.Header.ofBytes (content.window 0 store.pageSize) = .error e := by
            rw [← Nat.zero_mul store.pageSize, Record.Header.ofBytes_firstPage
              (Nat.le_of_not_lt hsize) store.headerSize_lt_pageSize, hheader]
          simp [readRecord, readOutcome, onFirst, stat_of_object? hobject, hstat, hsize, hfits,
            hheader, copyPayload, readPage_eq hobject hbody, ObjectStore.pageSize, hpage]
        | ok header =>
          have hcopy := copyPayload_eq hobject hbody buffer hheader (Nat.le_of_not_lt hsize)
          by_cases hsum : checksum (content.drop Record.headerSize) = header.checksum
          . simp [readRecord, readOutcome, onFirst, stat_of_object? hobject, hstat, hsize, hfits,
              hheader, hcopy, hsum]
          . simp [readRecord, readOutcome, onFirst, stat_of_object? hobject, hstat, hsize, hfits,
              hheader, hcopy, hsum]

theorem readOutcome_image (value : Bytes) (buffer : Buffer) :
    readOutcome (Record.image value) buffer =
      match buffer with
      | none => (.ok value.length, none)
      | some bytes =>
        if bytes.length < value.length then (.error bufferTooSmall, some bytes)
        else (.ok value.length, some (bytes.overlay 0 value)) := by
  have hheader : Record.Header.ofBytes (Record.image value) =
      .ok (Record.Header.ofChecksum (checksum value)) :=
    Record.Header.ofBytes_toBytes_append ..
  cases buffer with
  | none => simp [readOutcome]
  | some bytes => simp [readOutcome, hheader, Record.Header.ofChecksum]

end Volume

end AttrTree
