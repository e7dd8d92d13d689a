import AttrTree.Proofs.Guarded
import AttrTree.Proofs.Paging
import AttrTree.Proofs.Reading
import AttrTree.Store.Scripted

/-!
This module contains why the reading and writing of values never leave their bounds. Both are written down
once more, turn by turn, with a guard in front of every subtraction, every range of bytes and every turn of
a loop. Whatever size of pages a volume is told and whatever the store answers, no guard stops them, and
they do what they do without guards.
-/

namespace AttrTree

open Action

namespace Guarded

variable {σ τ : Type}

section Reading

variable [ObjectStore σ]

def fillBuffer (start stop : Nat) (data : Bytes) : Guarded (τ × Buffer) Unit := do
  match (← perform get).2 with
  | none => return
  | some buffer =>
    let buffer ← check (splice buffer start stop data)
    perform (modify fun (t, _) => (t, some buffer))

def decode (page : Bytes) : Except Fault (Except Error Record.Header) := do
  if page.length < Record.headerSize then
    return .error Record.truncatedHeader
  let mark ← slice page 0 4
  let checksum ← slice page 4 8
  let header : Record.Header := {
    mark := UInt32.ofNat (Bytes.toNat mark)
    checksum := UInt32.ofNat (Bytes.toNat checksum)
  }
  return if header.mark = Record.mark then .ok header else .error Record.markMismatch

/-- Copy the payload behind `offset` in `page` to the buffer behind the `copied` bytes, and go on with the next
page until all `length` bytes are there. -/
def copyPages (record : ObjectId) (pageSize length : Nat) : (turns : Nat) → (page : Bytes) →
    (index offset copied : Nat) → RunningChecksum → Guarded (σ × Buffer) RunningChecksum
  | 0, _, _, _, _, _ => throw .endless
  | turns + 1, page, index, offset, copied, sum => do
    let left ← check (sub length copied)
    let room ← check (sub pageSize offset)
    let piece ← check (slice page offset (offset + min left room))
    fillBuffer copied (copied + min left room) piece
    if length ≤ copied + min left room then
      return sum.feed piece
    let page ← perform (Action.onFirst (ObjectStore.readPage record (index + 1) pageSize))
    copyPages record pageSize length turns page (index + 1) 0 (copied + min left room) (sum.feed piece)

def copyPayload (record : ObjectId) (length : Nat) : Guarded (σ × Buffer) Unit := do
  let pageSize := ObjectStore.pageSize (← perform get).1
  let page ← perform (Action.onFirst (ObjectStore.readPage record 0 pageSize))
  let header ← check (decode page)
  let header ← perform (Action.ofExcept header)
  let sum ← copyPages record pageSize length (length + 1) page 0 Record.headerSize 0 .start
  if sum.finish ≠ header.checksum then
    perform (throw Volume.checksumMismatch)

def readRecord (record : ObjectId) : Guarded (σ × Buffer) Nat := do
  let size := (← perform (Action.onFirst (ObjectStore.stat record))).size
  if size < Record.headerSize then
    perform (throw Volume.truncatedRecord)
  let length ← check (sub size Record.headerSize)
  match (← perform get).2 with
  | none => return length
  | some buffer =>
    if buffer.length < length then
      perform (throw Volume.bufferTooSmall)
    copyPayload record length
    return length

def readValue (obj : ObjectId) (name : String) : Guarded (Volume σ × Buffer) Nat := do
  let record ← perform (Action.onFirst (Volume.existingRecord obj name))
  onStoreWith (readRecord record)

end Reading

section Writing

variable [ObjectStore σ]

def encode (header : Record.Header) (page : Bytes) : Except Fault Bytes := do
  let page ← splice page 0 4 (Bytes.littleEndian 4 header.mark.toNat)
  splice page 4 8 (Bytes.littleEndian 4 header.checksum.toNat)

def firstPage (pageSize : Nat) (value : Bytes) : Except Fault (Bytes × Nat) := do
  let room ← sub pageSize Record.headerSize
  let n := min value.length room
  let page ← encode (.ofChecksum (checksum value)) (List.replicate pageSize 0)
  let piece ← slice value 0 n
  let page ← splice page Record.headerSize (Record.headerSize + n) piece
  let chunk ← slice page 0 (Record.headerSize + n)
  return (chunk, n)

def laterPage (pageSize : Nat) (value : Bytes) (position : Nat) : Except Fault (Bytes × Nat) := do
  let left ← sub value.length position
  let n := min left pageSize
  let chunk ← slice value position (position + n)
  return (chunk, n)

def writeChunk (record : ObjectId) (pageSize index : Nat) (chunk : Bytes) : Guarded σ Unit := do
  if pageSize < chunk.length then
    throw .outOfRange
  perform (ObjectStore.writePage record index 0 chunk)

/-- Write the pages from `index` on, with what lies behind `position` in the value. -/
def writeChunks (record : ObjectId) (pageSize : Nat) (value : Bytes) : (turns : Nat) →
    (index position : Nat) → Guarded σ Unit
  | 0, _, _ => throw .endless
  | turns + 1, index, position => do
    let (chunk, written) ← check <|
      if index = 0 then firstPage pageSize value else laterPage pageSize value position
    writeChunk record pageSize index chunk
    if value.length ≤ position + written then
      return
    writeChunks record pageSize value turns (index + 1) (position + written)

def writeImage (record : ObjectId) (pageSize : Nat) (value : Bytes) : Guarded σ Unit := do
  perform (ObjectStore.setAttr record (.resize (Record.headerSize + value.length)))
  writeChunks record pageSize value (value.length + 1) 0 0

def writeValue (obj : ObjectId) (name : String) (value : Bytes) (flags : SetFlags) :
    Guarded (Volume σ) Unit := do
  let stat ← perform (Volume.onStore (Volume.statWithAttributes obj))
  let pageSize := ObjectStore.pageSize (← perform get).store
  if pageSize ≤ Record.headerSize then
    perform (throw Volume.pageTooSmall)
  let rounds := Volume.recordRounds (← perform get).store
  let record ← perform (Volume.unsharedRecord stat name rounds flags)
  onStore (writeImage record pageSize value)

end Writing

variable {pageSize position : Nat} {value : Bytes}

theorem decode_eq (page : Bytes) : decode page = .ok (Record.Header.ofBytes page) := by
  unfold decode Record.Header.ofBytes
  split
  . rfl
  . next hlength =>
    rw [Nat.not_lt] at hlength
    have hmark := slice_eq 0 4 (Nat.le_trans (by decide) hlength)
    have hsum := slice_eq 4 4 hlength
    simp only [Nat.zero_add, Nat.reduceAdd, List.drop_zero] at hmark hsum
    rw [hmark, hsum]
    rfl

theorem headerSize_le_of_ofBytes {page : Bytes} {header : Record.Header}
    (h : Record.Header.ofBytes page = .ok header) : Record.headerSize ≤ page.length := by
  by_contra hlength
  rw [Record.Header.ofBytes, if_pos (Nat.not_le.mp hlength)] at h
  cases h

theorem encode_eq (header : Record.Header) {page : Bytes} (h : Record.headerSize ≤ page.length) :
    encode header page = .ok (header.overlay page) := by
  have hmark := Bytes.length_littleEndian 4 header.mark.toNat
  have hsum := Bytes.length_littleEndian 4 header.checksum.toNat
  have hfront : splice page 0 4 _ = .ok _ := splice_eq hmark (Nat.le_trans (by decide) h)
  have hkept : (page.overlay 0 (Bytes.littleEndian 4 header.mark.toNat)).length = page.length :=
    Bytes.length_overlay (by rw [hmark]; exact Nat.le_trans (by decide) h)
  have hback : splice (page.overlay 0 (Bytes.littleEndian 4 header.mark.toNat)) 4 8 _ = .ok _ :=
    splice_eq hsum (hkept ▸ h)
  have hjoin := Bytes.overlay_overlay (Nat.zero_le page.length) (Bytes.littleEndian 4 header.mark.toNat)
    (Bytes.littleEndian 4 header.checksum.toNat)
  rw [hmark] at hjoin
  rw [encode, hfront]
  simp only [bind, Except.bind]
  rw [hback]
  exact congrArg Except.ok hjoin

theorem take_image_page (hsize : Record.headerSize ≤ pageSize) :
    (Record.image value).take pageSize =
      (Record.Header.ofChecksum (checksum value)).toBytes ++
        value.take (min value.length (pageSize - Record.headerSize)) := by
  rw [Record.image, List.take_append, List.take_of_length_le (by simpa using hsize),
    Record.Header.length_toBytes, Nat.min_comm, ← List.take_eq_take_min]

theorem drop_image_page (hsize : Record.headerSize ≤ pageSize) :
    (Record.image value).drop pageSize = value.drop (pageSize - Record.headerSize) := by
  rw [Record.image, List.drop_append, List.drop_of_length_le (by simpa using hsize),
    Record.Header.length_toBytes, List.nil_append]

theorem drop_min (bytes : Bytes) (n : Nat) : bytes.drop (min bytes.length n) = bytes.drop n := by
  rcases Nat.le_total bytes.length n with h | h
  . rw [Nat.min_eq_left h, List.drop_length, List.drop_of_length_le h]
  . rw [Nat.min_eq_right h]

theorem slice_overlay (page data : Bytes) :
    slice (page.overlay 0 data) 0 data.length = .ok data := by
  have hoverlay : page.overlay 0 data = data ++ page.drop data.length := by
    simp [Bytes.overlay_eq]
  have hfits : 0 + data.length ≤ (data ++ page.drop data.length).length := by
    rw [Nat.zero_add, List.length_append]
    exact Nat.le_add_right ..
  have hslice := slice_eq 0 data.length hfits
  rwa [Nat.zero_add, List.drop_zero, List.take_left, ← hoverlay] at hslice

theorem firstPage_eq (hsize : Record.headerSize ≤ pageSize) :
    firstPage pageSize value =
      .ok ((Record.image value).take pageSize, min value.length (pageSize - Record.headerSize)) := by
  rw [take_image_page hsize]
  generalize hn : min value.length (pageSize - Record.headerSize) = n
  have hpiece : (value.take n).length = n := by
    rw [List.length_take]
    omega
  obtain ⟨page, hpage⟩ : ∃ page : Bytes, List.replicate pageSize 0 = page := ⟨_, rfl⟩
  have hzeros : page.length = pageSize := by rw [← hpage, List.length_replicate]
  generalize hheader : Record.Header.ofChecksum (checksum value) = header
  have hfront := header.length_toBytes
  have hencode : encode header page = .ok (page.overlay 0 header.toBytes) :=
    encode_eq header (by rwa [hzeros])
  have hslice := slice_eq 0 n (show 0 + n ≤ value.length by omega)
  have hsplice : splice (page.overlay 0 header.toBytes) Record.headerSize (Record.headerSize + n)
      (value.take n) = .ok (page.overlay 0 (header.toBytes ++ value.take n)) := by
    have hjoin := Bytes.overlay_overlay (Nat.zero_le page.length) header.toBytes (value.take n)
    rw [Nat.zero_add, hfront] at hjoin
    rw [← hjoin]
    exact splice_eq hpiece (by rw [Bytes.length_overlay (by omega)]; omega)
  have hlength : (header.toBytes ++ value.take n).length = Record.headerSize + n := by
    rw [List.length_append, hfront, hpiece]
  have hchunk := slice_overlay page (header.toBytes ++ value.take n)
  rw [hlength] at hchunk
  rw [Nat.zero_add, List.drop_zero] at hslice
  simp only [firstPage, sub_eq hsize, hn, hpage, hheader, hencode, hslice, hsplice, hchunk, bind,
    Except.bind]
  rfl

theorem laterPage_eq (hposition : position ≤ value.length) :
    laterPage pageSize value position =
      .ok ((value.drop position).take pageSize, min (value.length - position) pageSize) := by
  have hslice : slice value position (position + min (value.length - position) pageSize) =
      .ok ((value.drop position).take (min (value.length - position) pageSize)) :=
    slice_eq _ _ (by omega)
  have htake : (value.drop position).take (min (value.length - position) pageSize) =
      (value.drop position).take pageSize := by
    rw [Nat.min_comm, ← List.length_drop, ← List.take_eq_take_min]
  rw [htake] at hslice
  simp only [laterPage, sub_eq hposition, bind, Except.bind, hslice]
  rfl

end Guarded

/-- What a store is relied on for, whatever else it answers: `pageSize` stays, and `readPage` fills the room
that it is given. -/
class FixedPages (σ : Type) [ObjectStore σ] : Prop where
  keeps : ∀ size, KeptByCalls fun store : σ => ObjectStore.pageSize store = size
  fills : ∀ {record : ObjectId} {index length : Nat} {page : Bytes} {store store' : σ},
    ObjectStore.readPage record index length store = .ok page store' → page.length = length

namespace Guarded

variable {σ : Type} [ObjectStore σ]

section Reading

variable {record : ObjectId} {pageSize length : Nat} {store : σ} {buffer : Bytes}

omit [ObjectStore σ] in
theorem clears_fillBuffer {start n : Nat} {data : Bytes} (hdata : data.length = n)
    (h : start + n ≤ buffer.length) :
    Clears (fillBuffer start (start + n) data) (Volume.fillBuffer start data) (store, some buffer) := by
  have hcheck : Clears (check (splice buffer start (start + n) data) >>= fun buffer =>
      perform (modify fun (t, _) => (t, some buffer))) (Volume.fillBuffer start data)
      (store, some buffer) := .check (splice_eq hdata h) rfl
  exact hcheck

theorem clears_copyPages [FixedPages σ] (hsize : pageSize ≠ 0) (hbuffer : length ≤ buffer.length)
    {page : Bytes} (hpage : page.length = pageSize) {offset copied n stop left turns : Nat}
    (hoffset : offset ≤ pageSize) (hcopied : copied ≤ length)
    (hn : n = min (length - copied) (pageSize - offset)) (hstop : copied + n = stop)
    (hleft : stop + left = length) (hturns : left < turns) (index : Nat) (sum : RunningChecksum) :
    Clears (copyPages record pageSize length turns page index offset copied sum)
      (do
        Volume.fillBuffer copied ((page.drop offset).take n)
        Volume.copyPieces record pageSize (Record.fullPieces pageSize left) (index + 1) stop
          (sum.feed ((page.drop offset).take n)))
      (store, some buffer) := by
  -- The pages that the loop still goes through are those that the lengths of the pieces say. Every
  -- page behind the first one takes it further, so it ends.
  induction turns generalizing page offset copied n stop left index sum store buffer with
  | zero => omega
  | succ turns ih =>
    have hpiece : ((page.drop offset).take n).length = n := by
      rw [List.length_take, List.length_drop, hpage]
      omega
    rw [copyPages]
    refine .check (sub_eq hcopied) (.check (sub_eq hoffset) ?_)
    rw [← hn]
    refine .check (slice_eq _ _ (by omega)) ?_
    refine (clears_fillBuffer hpiece (by omega)).bind fun _ s' hfilled => ?_
    cases hfilled
    rw [hstop]
    by_cases hend : left = 0
    . subst hend
      rw [if_pos (by omega), Record.fullPieces, dif_pos (.inl rfl)]
      exact .pure _ _
    . rw [if_neg (by omega), Record.fullPieces, dif_neg (not_or.mpr ⟨hend, hsize⟩)]
      refine .nextOnFirst fun page' store' hread => ?_
      have hbuffer' : length ≤ (buffer.overlay copied ((page.drop offset).take n)).length := by
        rwa [Bytes.length_overlay (by omega)]
      exact ih hbuffer' (FixedPages.fills hread) (Nat.zero_le _) (by omega)
        (show min left pageSize = min (length - stop) (pageSize - 0) by omega) rfl (by omega) (by omega) _ _

theorem clears_copyPayload [FixedPages σ] (hbuffer : length ≤ buffer.length) :
    Clears (copyPayload record length) (Volume.copyPayload record length) (store, some buffer) := by
  -- A page that is too small for a header is found out before anything is subtracted from its size.
  refine .next fun s s' hget => ?_
  cases hget
  refine .nextOnFirst fun page store' hread => ?_
  have hpage := FixedPages.fills hread
  refine .check (decode_eq page) ?_
  cases hheader : Record.Header.ofBytes page with
  | error e => exact .next fun _ _ h => nomatch h
  | ok header =>
    refine .next fun _ _ h => ?_
    cases h
    have hsize := hpage ▸ headerSize_le_of_ofBytes hheader
    have hpos := Nat.ne_of_gt (Nat.lt_of_lt_of_le (show 0 < Record.headerSize by decide) hsize)
    have hleft := Nat.add_sub_of_le (Nat.min_le_left length
      (ObjectStore.pageSize store - Record.headerSize))
    simp only [← bind_assoc]
    refine (clears_copyPages hpos hbuffer hpage hsize (Nat.zero_le length) rfl (Nat.zero_add _) hleft
      (Nat.lt_succ_of_le (Nat.sub_le ..)) 0 .start).bind fun sum s' _ => ?_
    exact .ite (fun _ => .perform _ _) fun _ => .pure _ _

theorem clears_readRecord [FixedPages σ] (s : σ × Buffer) :
    Clears (readRecord record) (Volume.readRecord record) s := by
  obtain ⟨store, buffer⟩ := s
  refine .nextOnFirst fun stat store' _ => ?_
  refine .throwIf _ fun hsize => .check (sub_eq (Nat.not_lt.mp hsize)) (.next fun s s' hget => ?_)
  cases hget
  cases buffer with
  | none => exact .pure _ _
  | some buffer =>
    refine .throwIf _ fun hfits => ?_
    exact (clears_copyPayload (Nat.not_lt.mp hfits)).bind fun _ _ _ => .pure _ _

theorem clears_readValue [FixedPages σ] (obj : ObjectId) (name : String) (s : Volume σ × Buffer) :
    Clears (readValue obj name) (Volume.readValue obj name) s :=
  .next fun _ _ _ => (clears_readRecord _).onStoreWith

end Reading

section Writing

variable {record : ObjectId} {pageSize index position : Nat} {value : Bytes} {s : σ}

theorem clears_writeChunk {chunk : Bytes} (h : chunk.length ≤ pageSize) :
    Clears (writeChunk record pageSize index chunk) (ObjectStore.writePage record index 0 chunk) s := by
  rw [writeChunk, if_neg (Nat.not_lt.mpr h)]
  exact .perform _ _

theorem clears_writeChunks_end (hend : value.length ≤ position) :
    Clears (Pure.pure ())
      (Volume.writePages record index (Bytes.chunks (value.drop position) pageSize)) s := by
  rw [List.drop_of_length_le hend, Bytes.chunks, dif_pos (.inl rfl)]
  exact .pure _ _

theorem clears_writeChunks_later (hsize : pageSize ≠ 0) {turns : Nat} (hindex : index ≠ 0)
    (hturns : value.length - position ≤ turns) :
    Clears
      (if value.length ≤ position then return else writeChunks record pageSize value turns index position)
      (Volume.writePages record index (Bytes.chunks (value.drop position) pageSize)) s := by
  -- Every page takes the loop further, so it ends.
  induction turns generalizing index position s with
  | zero =>
    have hend : value.length ≤ position := by omega
    rw [if_pos hend]
    exact clears_writeChunks_end hend
  | succ turns ih =>
    by_cases hend : value.length ≤ position
    . rw [if_pos hend]
      exact clears_writeChunks_end hend
    . have hmore : ¬ (value.drop position = [] ∨ pageSize = 0) := by
        rw [not_or, List.drop_eq_nil_iff]
        exact ⟨hend, hsize⟩
      have hrest : (value.drop position).drop pageSize =
          value.drop (position + min (value.length - position) pageSize) := by
        rw [← List.drop_drop, ← List.length_drop, drop_min]
      rw [if_neg hend, writeChunks, if_neg hindex, Bytes.chunks, dif_neg hmore, Volume.writePages, hrest]
      refine .check (laterPage_eq (Nat.le_of_not_le hend)) ?_
      refine (clears_writeChunk (List.length_take_le ..)).bind fun _ s' _ => ?_
      exact ih (Nat.succ_ne_zero _) (by omega)

theorem clears_writeChunks (hsize : Record.headerSize < pageSize) :
    Clears (writeChunks record pageSize value (value.length + 1) 0 0)
      (Volume.writePages record 0 ((Record.image value).chunks pageSize)) s := by
  have hpos : pageSize ≠ 0 := Nat.ne_of_gt (Nat.zero_lt_of_lt hsize)
  have hmore : ¬ (Record.image value = [] ∨ pageSize = 0) := by
    rw [not_or, ← List.length_eq_zero_iff, Record.length_image, Record.headerSize]
    omega
  rw [writeChunks, if_pos rfl, Bytes.chunks, dif_neg hmore, Volume.writePages]
  refine .check (firstPage_eq (Nat.le_of_lt hsize)) ?_
  refine (clears_writeChunk (List.length_take_le ..)).bind fun _ s' _ => ?_
  rw [drop_image_page (Nat.le_of_lt hsize), ← drop_min, Nat.zero_add]
  exact clears_writeChunks_later hpos (Nat.succ_ne_zero _) (Nat.sub_le ..)

theorem clears_writeImage [FixedPages σ] (hpages : ObjectStore.pageSize s = pageSize)
    (hsize : Record.headerSize < pageSize) :
    Clears (writeImage record pageSize value) (Volume.writeImage record (Record.image value)) s := by
  unfold writeImage Volume.writeImage
  rw [Record.length_image]
  refine .next fun _ s' hset => .get ?_
  have hkept := ((FixedPages.keeps (σ := σ) pageSize).setAttr record
    (.resize (Record.headerSize + value.length))).holds s hpages
  rw [Action.after_of_ok hset] at hkept
  rw [hkept]
  exact clears_writeChunks hsize

theorem clears_writeValue [FixedPages σ] (obj : ObjectId) (name : String) (value : Bytes)
    (flags : SetFlags) (volume : Volume σ) :
    Clears (writeValue obj name value flags) (Volume.writeValue obj name value flags) volume := by
  refine .next fun stat before _ => .next fun _ _ hget => ?_
  cases hget
  refine .throwIf _ fun hsize => .next fun _ _ hget => ?_
  cases hget
  refine .next fun record rest hrecord => .onStore (clears_writeImage ?_ (Nat.lt_of_not_le hsize))
  have hparts := Volume.followedByParts_store
    (FixedPages.keeps (σ := σ) (ObjectStore.pageSize before.store))
  have hkept := (Volume.follows_unsharedRecord hparts stat name (Volume.recordRounds before.store)
    flags).keeps.holds before rfl
  rwa [Action.after_of_ok hrecord] at hkept

end Writing

end Guarded

namespace Volume

variable {σ : Type} [ObjectStore σ]

theorem writeValue_pageTooSmall {obj : ObjectId} {stat : ObjectStat} {volume : Volume σ} {store : σ}
    (hstat : ObjectStore.stat obj volume.store = .ok stat store) (hformat : stat.isLegacy = false)
    (hsize : ObjectStore.pageSize store ≤ Record.headerSize) (name : String) (value : Bytes)
    (flags : SetFlags) :
    writeValue obj name value flags volume = .error pageTooSmall { volume with store } := by
  -- Nothing but the status of the object is asked for.
  simp [writeValue, onStore, Action.focus, statWithAttributes, hstat, hformat, hsize]

end Volume

instance : FixedPages MemStore where
  keeps := MemStore.keptByCalls_pageSize
  fills {record index length page store store'} h := by
    have hread : store.readPage record index length = .ok page := by
      have hquery : query (·.readPage record index length) store = .ok page store' := h
      unfold query at hquery
      split at hquery
      . next hread =>
        cases hquery
        exact hread
      . cases hquery
    obtain ⟨content, _, hpage⟩ := Action.exceptBind_eq_ok_iff.mp hread
    cases hpage
    exact Bytes.length_window ..

namespace ScriptedStore

variable {σ α : Type} {call : StoreCall} {found : ScriptedAnswer → Option α} {act : Action σ α}

theorem keeps_answer {P : ScriptedStore σ → Prop}
    (hscript : ∀ store script, P store → P { store with script }) (hact : Keeps P (onBase act)) :
    Keeps P (answer call found act) := by
  refine .bind .get fun store => ?_
  refine .bind (.modify fun store hs => hscript store _ hs) fun _ => ?_
  split
  . exact hact
  . exact .throw _
  . split
    . exact .pure _
    . exact hact

theorem onBase_eq_ok {store store' : ScriptedStore σ} {a : α} (h : onBase act store = .ok a store') :
    ∃ base, act store.base = .ok a base := by
  unfold onBase focus at h
  cases hact : act store.base with
  | ok a' base =>
    simp only [hact] at h
    cases h
    exact ⟨base, rfl⟩
  | error e base => simp [hact] at h

theorem orFail_eq_ok {store store' : ScriptedStore σ} {a : α} (h : orFail call act store = .ok a store') :
    ∃ base, act store.base = .ok a base := by
  obtain ⟨_, _, hget, h⟩ := bind_eq_ok_iff.mp h
  cases hget
  obtain ⟨_, _, hmodify, h⟩ := bind_eq_ok_iff.mp h
  cases hmodify
  cases htaken : (Cue.take call store.script).1 with
  | none =>
    rw [htaken] at h
    exact (onBase_eq_ok h :)
  | some scripted =>
    rw [htaken] at h
    cases scripted with
    | failure e => cases h
    | absent | name => exact (onBase_eq_ok h :)

variable [ObjectStore σ]

theorem keeps_answer_pageSize (hact : ∀ size, Keeps (fun base => ObjectStore.pageSize base = size) act)
    (call : StoreCall) (found : ScriptedAnswer → Option α) (size : Nat) :
    Keeps (fun store => ObjectStore.pageSize store = size) (answer call found act) := by
  refine keeps_answer (fun _ _ hs => hs) ⟨fun store hs => ?_⟩
  have hbase := (hact (ObjectStore.pageSize store.base)).holds store.base rfl
  have hafter : (onBase act).after store = { store with base := act.after store.base } := by
    unfold after onBase focus
    cases act store.base <;> simp
  rw [hafter, ← hs]
  exact congrArg store.reportedPageSize.getD hbase

end ScriptedStore

open ScriptedStore in
instance {σ : Type} [ObjectStore σ] [FixedPages σ] : FixedPages (ScriptedStore σ) where
  keeps size := by
    have hbase := FixedPages.keeps (σ := σ)
    exact {
      lookup := fun dir name => keeps_answer_pageSize (fun size => (hbase size).lookup dir name)
        { op := .lookup, id := dir, name } (fun _ => some none) size
      stat := fun id => keeps_answer_pageSize (fun size => (hbase size).stat id)
        { op := .stat, id } (fun _ => none) size
      readPage := fun id index length => keeps_answer_pageSize
        (fun size => (hbase size).readPage id index length)
        { op := .readPage, id, index } (fun _ => none) size
      locateEntry := fun dir position => keeps_answer_pageSize
        (fun size => (hbase size).locateEntry dir position)
        { op := .locateEntry, id := dir } (fun _ => some none) size
      entryName := fun dir slot => keeps_answer_pageSize (fun size => (hbase size).entryName dir slot)
        { op := .entryName, id := dir } (fun answer => some (scriptedName answer)) size
      mkdir := fun dir name mode => keeps_answer_pageSize (fun size => (hbase size).mkdir dir name mode)
        { op := .mkdir, id := dir, name } (fun _ => none) size
      create := fun dir name mode => keeps_answer_pageSize (fun size => (hbase size).create dir name mode)
        { op := .create, id := dir, name } (fun _ => none) size
      setAttr := fun id change => keeps_answer_pageSize (fun size => (hbase size).setAttr id change)
        { op := .setAttr, id } (fun _ => none) size
      writePage := fun id index offset data => keeps_answer_pageSize
        (fun size => (hbase size).writePage id index offset data)
        { op := .writePage, id, index } (fun _ => none) size
      markPrivate := fun id => keeps_answer_pageSize (fun size => (hbase size).markPrivate id)
        { op := .markPrivate, id } (fun _ => none) size
      unlink := fun dir name => keeps_answer_pageSize (fun size => (hbase size).unlink dir name)
        { op := .unlink, id := dir, name } (fun _ => none) size
      rmdir := fun dir name hname => keeps_answer_pageSize (fun size => (hbase size).rmdir dir name hname)
        { op := .rmdir, id := dir, name } (fun _ => none) size }
  fills h := by
    obtain ⟨base, hread⟩ := ScriptedStore.orFail_eq_ok h
    exact FixedPages.fills hread

namespace Volume

/-- `Except.ok` says that no `Fault` comes up, `endless` among them: a loop has one turn for every byte and one
more. -/
theorem page_loops_in_bounds (σ : Type) [ObjectStore σ] [FixedPages σ] :
    (∀ obj name (s : Volume σ × Buffer),
        (Guarded.readValue obj name).run s = (Except.ok <$> readValue obj name) s)
      ∧ (∀ obj name value flags (volume : Volume σ),
        (Guarded.writeValue obj name value flags).run volume =
          (Except.ok <$> writeValue obj name value flags) volume)
      ∧ ∀ obj name value flags (volume : Volume σ) stat store,
        ObjectStore.stat obj volume.store = .ok stat store → stat.isLegacy = false →
          ObjectStore.pageSize store ≤ Record.headerSize →
            writeValue obj name value flags volume = .error pageTooSmall { volume with store }
              ∧ pageTooSmall.kind = .invalidInput :=
  ⟨Guarded.clears_readValue, Guarded.clears_writeValue,
    fun _ name value flags _ _ _ hstat hformat hsize =>
      ⟨writeValue_pageTooSmall hstat hformat hsize name value flags, rfl⟩⟩

def twentyBytes : Volume MemStore :=
  run [.store (.create 1 "a" 0o644), .mount ⟨false⟩,
    .setAttribute .standard 2 "trusted.a" ((List.range 20).map UInt8.ofNat) .none]
    (initial 64 .current headerSize_lt_sixtyFour .optional 64)

def told (size : Nat) : Volume (ScriptedStore MemStore) where
  store := { base := twentyBytes.store, reportedPageSize := some size, script := [] }
  options := twentyBytes.options
  aclFlag := twentyBytes.aclFlag
  privateRoot := twentyBytes.privateRoot
  attrRoot := twentyBytes.attrRoot
  locks := twentyBytes.locks
  cache := twentyBytes.cache

theorem page_loops_in_bounds_told :
    let room : Buffer := some (List.replicate 20 0)
    let read := (Guarded.readValue (σ := ScriptedStore MemStore) 2 "trusted.a").run
    let value : Bytes := List.replicate 30 7
    let write := (Guarded.writeValue (σ := ScriptedStore MemStore) 2 "trusted.a" value .none).run
    (read.result (told 0, room) = .error Record.truncatedHeader
        ∧ read.result (told 8, room) = .error checksumMismatch
        ∧ read.result (told 9, room) = .error checksumMismatch
        ∧ read.result (told 30, room) = .ok (.ok 20))
      ∧ write.result (told 9) = .ok (.ok ())
      ∧ writeValue 2 "trusted.a" value .none (told 8) = .error pageTooSmall (told 8) := by
  intro room read value write
  obtain ⟨hread, hwrite, hsmall⟩ := page_loops_in_bounds (ScriptedStore MemStore)
  have hresult {size : Nat} {result : Except Error Nat}
      (h : (readValue 2 "trusted.a").result (told size, room) = result) :
      read.result (told size, room) = result.map .ok := by
    rw [← h]
    exact Guarded.Clears.result_eq (hread 2 "trusted.a" (told size, room))
  have hwritten : write.result (told 9) = _ :=
    Guarded.Clears.result_eq (hwrite 2 "trusted.a" value .none (told 9))
  have hempty : (readValue 2 "trusted.a").result (told 0, room) = .error Record.truncatedHeader := by
    decide +kernel
  have hheader : (readValue 2 "trusted.a").result (told 8, room) = .error checksumMismatch := by
    decide +kernel
  have hshort : (readValue 2 "trusted.a").result (told 9, room) = .error checksumMismatch := by
    decide +kernel
  have hlarge : (readValue 2 "trusted.a").result (told 30, room) = .ok 20 := by decide +kernel
  have hok : (writeValue 2 "trusted.a" value .none).result (told 9) = .ok () := by decide +kernel
  let stat : ObjectStat := ⟨2, 1, .current, 0o100644, 1, 0, 0, 0, 0, false⟩
  have hbase : twentyBytes.store.stat 2 = .ok stat := by decide +kernel
  have hstat : ObjectStore.stat 2 (told 8).store = .ok stat (told 8).store := by
    simp [ObjectStore.stat, ScriptedStore.orFail, ScriptedStore.answer, Cue.take, ScriptedStore.onBase,
      focus, query, told, hbase]
  refine ⟨⟨hresult hempty, hresult hheader, hresult hshort, hresult hlarge⟩, ?_, ?_⟩
  . rw [hwritten, hok]
    rfl
  . exact (hsmall 2 "trusted.a" value .none (told 8) stat _ hstat rfl (by decide)).1

end Volume

end AttrTree
