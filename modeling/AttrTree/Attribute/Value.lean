import AttrTree.Attribute.Removal
import AttrTree.Record.Pieces

/-!
This module contains the reading and writing of attribute values. A value is written as the image
of its record, page by page, and read back the same way, with the checksum computed on the way.
-/

namespace AttrTree

abbrev Buffer := Option Bytes

namespace Volume

variable {σ : Type} [ObjectStore σ]

def legacyObject : Error := ⟨.unsupported, "legacy object has no xattrs"⟩
def pageTooSmall : Error := ⟨.invalidInput, "page too small for xattr header"⟩
def nameIsSubdirectory : Error := ⟨.isDirectory, "xattr name is a subdirectory"⟩
def truncatedRecord : Error := ⟨.corrupted, "xattr record truncated"⟩
def bufferTooSmall : Error := ⟨.rangeTooSmall, "xattr buffer too small"⟩
def checksumMismatch : Error := ⟨.corrupted, "xattr hash mismatch"⟩

def statWithAttributes (obj : ObjectId) : Action σ ObjectStat := do
  let stat ← ObjectStore.stat obj
  if stat.isLegacy then
    throw legacyObject
  return stat

/-- Open a record with `nlink ≤ 1`. One with other links is left to them and made anew. A subdirectory under
the name always has other links and `removeEntry` leaves it alone, so only an error ends its rounds. -/
def unsharedRecord (stat : ObjectStat) (name : String) :
    (rounds : Nat) → SetFlags → Action (Volume σ) ObjectId
  | 0, _ => throw nameIsSubdirectory
  | rounds + 1, flags => do
    let record ← openRecord stat name flags
    if (← onStore (ObjectStore.stat record)).nlink ≤ 1 then
      return record
    removeRecord stat name
    unsharedRecord stat name rounds { flags with replace := false }

/-- One round in which the record is left to its other links, the last one, and one for every planned answer.
A round of a subdirectory that meets none is like the one before it and would come again for ever. -/
def recordRounds (store : σ) : Nat :=
  ObjectStore.plannedAnswers store + 2

def writePages (record : ObjectId) (index : Nat) : List Bytes → Action σ Unit
  | [] => return
  | page :: pages => do
    ObjectStore.writePage record index 0 page
    writePages record (index + 1) pages

/-- Make a file hold exactly `image`. The loop over the first and the later pages that comes to the same is
`Guarded.writeChunks`. -/
def writeImage (record : ObjectId) (image : Bytes) : Action σ Unit := do
  ObjectStore.setAttr record (.resize image.length)
  writePages record 0 (image.chunks (ObjectStore.pageSize (← get)))

def writeValue (obj : ObjectId) (name : String) (value : Bytes) (flags : SetFlags) :
    Action (Volume σ) Unit := do
  let stat ← onStore (statWithAttributes obj)
  if ObjectStore.pageSize (← get).store ≤ Record.headerSize then
    throw pageTooSmall
  let record ← unsharedRecord stat name (recordRounds (← get).store) flags
  onStore (writeImage record (Record.image value))

def fillBuffer {τ : Type} (start : Nat) (data : Bytes) : Action (τ × Buffer) Unit :=
  modify fun (t, buffer) => (t, buffer.map (·.overlay start data))

def copyPieces (record : ObjectId) (pageSize : Nat) :
    List Nat → (index copied : Nat) → RunningChecksum → Action (σ × Buffer) RunningChecksum
  | [], _, _, sum => return sum
  | length :: lengths, index, copied, sum => do
    let page ← Action.onFirst (ObjectStore.readPage record index pageSize)
    let piece := page.take length
    fillBuffer copied piece
    copyPieces record pageSize lengths (index + 1) (copied + length) (sum.feed piece)

def copyPayload (record : ObjectId) (length : Nat) : Action (σ × Buffer) Unit := do
  let pageSize := ObjectStore.pageSize (← get).1
  let page ← Action.onFirst (ObjectStore.readPage record 0 pageSize)
  let header ← Action.ofExcept (Record.Header.ofBytes page)
  let first := Record.firstPiece pageSize length
  let piece := (page.drop Record.headerSize).take first
  fillBuffer 0 piece
  let sum ← copyPieces record pageSize (Record.laterPieces pageSize length) 1 first
    (RunningChecksum.start.feed piece)
  if sum.finish ≠ header.checksum then
    throw checksumMismatch

def readRecord (record : ObjectId) : Action (σ × Buffer) Nat := do
  let size := (← Action.onFirst (ObjectStore.stat record)).size
  if size < Record.headerSize then
    throw truncatedRecord
  let length := size - Record.headerSize
  match (← get).2 with
  | none => return length
  | some buffer =>
    if buffer.length < length then
      throw bufferTooSmall
    copyPayload record length
    return length

def existingRecord (obj : ObjectId) (name : String) : Action (Volume σ) ObjectId := do
  let stat ← onStore (statWithAttributes obj)
  openRecord stat name .looking

def onStoreWith {α β : Type} (act : Action (σ × β) α) : Action (Volume σ × β) α :=
  act.focus (fun (volume, b) => (volume.store, b))
    fun (store, b) (volume, _) => ({ volume with store }, b)

def readValue (obj : ObjectId) (name : String) : Action (Volume σ × Buffer) Nat := do
  let record ← Action.onFirst (existingRecord obj name)
  onStoreWith (readRecord record)

end Volume

end AttrTree
