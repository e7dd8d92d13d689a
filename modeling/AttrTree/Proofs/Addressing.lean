import AttrTree.Proofs.Guarded
import AttrTree.Proofs.InPlace

/-!
This module contains the reading and writing of pages with every place in a file a word of 64 bits. The
store counts places without a limit; by `clears_readPage` and `clears_writePage` this is the same as long as
the places fit into words. Beyond that `overflow` decides: where places wrap around, `clears_writePage_wraps`
names the page that is written instead.
-/

namespace AttrTree

open Action

def MemStore.overwrite (start : Nat) (data : Bytes) (object : MemObject) : MemObject :=
  { object with body := object.body.write start data }

namespace Guarded

variable (overflow : Nat → Except Fault Nat)

/-- `overflow` is what becomes of a number that is no word: `wrapAround`, or a fault. -/
def word (n : Nat) : Except Fault Nat :=
  if n < UInt64.size then .ok n else overflow n

def readContent (content : Bytes) (pageSize index length : Nat) : Except Fault Bytes := do
  let start ← word overflow (index * pageSize)
  if start < content.length then
    let stop ← word overflow (start + length)
    let n ← sub (min stop content.length) start
    let piece ← slice content start (min stop content.length)
    splice (List.replicate length 0) 0 n piece
  else
    return List.replicate length 0

def writeContent (content : Bytes) (start : Nat) (data : Bytes) : Except Fault Bytes := do
  let stop ← word overflow (start + data.length)
  splice (if content.length < stop then content.resize stop else content) start stop data

def countWrite : Action MemStore Unit := fun store =>
  match store.writeFault with
  | none => .ok () store
  | some 0 => .error MemStore.injectedWriteFault { store with writeFault := none }
  | some (count + 1) => .ok () { store with writeFault := some count }

def readPage (id : ObjectId) (index length : Nat) : Guarded MemStore Bytes := do
  let store ← perform get
  let content ← perform (query (·.getContent id MemStore.readDirectory))
  check (readContent overflow content store.pageSize index length)

def writePage (id : ObjectId) (index offset : Nat) (data : Bytes) : Guarded MemStore Unit := do
  let store ← perform get
  let stop ← check (word overflow (offset + data.length))
  if store.pageSize < stop then
    perform (throw MemStore.pageBoundary)
  perform countWrite
  let content ← perform (query (·.getContent id MemStore.writeDirectory))
  let page ← check (word overflow (index * store.pageSize))
  let start ← check (word overflow (page + offset))
  let _ ← check (writeContent overflow content start data)
  perform (modify (·.mapObject id (MemStore.overwrite start data)))

def wrapAround (n : Nat) : Except Fault Nat :=
  .ok (n % UInt64.size)

variable {overflow} {store : MemStore} {id : ObjectId} {content data : Bytes}
  {index index' offset length start : Nat}

theorem word_eq {n : Nat} (h : n < UInt64.size) : word overflow n = .ok n :=
  if_pos h

theorem word_wrapAround (n : Nat) : word wrapAround n = .ok (n % UInt64.size) := by
  unfold word
  split
  . next h => rw [Nat.mod_eq_of_lt h]
  . rfl

section Reading

theorem readContent_eq {pageSize : Nat} (hplace : word overflow (index * pageSize) = .ok start)
    (h : start + length < UInt64.size) :
    readContent overflow content pageSize index length = .ok (content.window start length) := by
  rw [readContent, hplace]
  by_cases hstart : start < content.length
  . obtain ⟨n, hn⟩ := Nat.exists_eq_add_of_le
      (show start ≤ min (start + length) content.length by omega)
    have hwindow := MemStore.InPlace.overlay_replicate_eq_window content length hstart
    rw [hn, Nat.add_sub_cancel_left] at hwindow
    have hsub : sub (start + n) start = .ok n := by
      rw [sub_eq (by omega), Nat.add_sub_cancel_left]
    have hpiece : ((content.drop start).take n).length = n := by
      rw [List.length_take, List.length_drop]
      omega
    have hslice : slice content start (start + n) = .ok ((content.drop start).take n) :=
      slice_eq _ n (by omega)
    have hsplice : splice (List.replicate length 0) 0 n ((content.drop start).take n) =
        .ok (content.window start length) := by
      have hroom : 0 + n ≤ (List.replicate length (0 : UInt8)).length := by
        rw [List.length_replicate]
        omega
      rw [← hwindow, ← splice_eq hpiece hroom, Nat.zero_add]
    simp only [bind, Except.bind, hstart, if_true, word_eq h, hn, hsub, hslice, hsplice]
  . have hwindow : content.window start length = List.replicate length 0 := by
      rw [Bytes.window, List.drop_eq_nil_of_le (Nat.not_lt.mp hstart)]
      simp [Bytes.resize, List.rightpad]
    simp only [bind, Except.bind, hstart, if_false, hwindow]
    rfl

theorem query_readPage_eq : query (·.readPage id index length) store =
    (do
      let store ← get
      let content ← query (·.getContent id MemStore.readDirectory)
      return content.window (index * store.pageSize) length : Action MemStore Bytes) store := by
  simp only [bind_apply, get_apply, query, MemStore.readPage]
  cases store.getContent id MemStore.readDirectory <;> rfl

theorem clears_readPage_at
    (hplace : word overflow (index * store.pageSize) = .ok (index' * store.pageSize))
    (h : index' * store.pageSize + length < UInt64.size) :
    Clears (readPage overflow id index length) (query (·.readPage id index' length)) store := by
  refine .congr query_readPage_eq (.next fun _ _ hget => ?_)
  cases hget
  refine .next fun content rest _ => ?_
  rw [readContent_eq hplace h]
  exact .pure _ _

theorem clears_readPage (h : index * store.pageSize + length < UInt64.size) :
    Clears (readPage overflow id index length) (query (·.readPage id index length)) store :=
  clears_readPage_at (word_eq (by omega)) h

theorem clears_readPage_wraps (hplace : index * store.pageSize % UInt64.size = index' * store.pageSize)
    (h : index' * store.pageSize + length < UInt64.size) :
    Clears (readPage wrapAround id index length) (query (·.readPage id index' length)) store :=
  clears_readPage_at (by rw [word_wrapAround, hplace]) h

end Reading

section Writing

theorem writeContent_eq (h : start + data.length < UInt64.size) :
    writeContent overflow content start data = .ok (content.write start data) := by
  rw [writeContent, word_eq h]
  refine splice_eq rfl ?_
  split
  . rw [Bytes.length_resize]
  . omega

theorem writePageFaulty_eq : MemStore.writePageFaulty id index offset data store =
    (do
      let store ← get
      if store.pageSize < offset + data.length then
        throw MemStore.pageBoundary
      countWrite
      let _ ← query (·.getContent id MemStore.writeDirectory)
      modify (·.mapObject id (MemStore.overwrite (index * store.pageSize + offset) data)) :
        Action MemStore Unit) store := by
  have hwrite (store' : MemStore) (hsize : store'.pageSize = store.pageSize) :
      Action.update (·.writePage id index offset data) store' =
        (do
          let _ ← query (·.getContent id MemStore.writeDirectory)
          modify (·.mapObject id (MemStore.overwrite (index * store.pageSize + offset) data)) :
            Action MemStore Unit) store' := by
    simp only [bind_apply, query, update, MemStore.writePage, ← hsize]
    cases store'.getContent id MemStore.writeDirectory <;> rfl
  simp only [bind_apply, get_apply, MemStore.writePageFaulty]
  split
  . rfl
  . rw [bind_apply, countWrite]
    cases hfault : store.writeFault with
    | none => exact hwrite store rfl
    | some count =>
      cases count with
      | zero => rfl
      | succ count => exact hwrite { store with writeFault := some count } rfl

theorem clears_writePage_at
    (hplace : word overflow (index * store.pageSize) = .ok (index' * store.pageSize))
    (h : index' * store.pageSize + offset + data.length < UInt64.size) :
    Clears (writePage overflow id index offset data)
      (MemStore.writePageFaulty id index' offset data) store := by
  refine .congr writePageFaulty_eq (.next fun _ _ hget => ?_)
  cases hget
  refine .check (word_eq (by omega)) (.throwIf _ fun _ => .next fun _ _ _ => .next fun _ _ _ => ?_)
  refine .check hplace (.check (word_eq (by omega)) (.check (writeContent_eq h) ?_))
  exact .perform _ _

theorem clears_writePage (h : index * store.pageSize + offset + data.length < UInt64.size) :
    Clears (writePage overflow id index offset data) (MemStore.writePageFaulty id index offset data)
      store :=
  clears_writePage_at (word_eq (by omega)) h

theorem clears_writePage_wraps (hplace : index * store.pageSize % UInt64.size = index' * store.pageSize)
    (h : index' * store.pageSize + offset + data.length < UInt64.size) :
    Clears (writePage wrapAround id index offset data) (MemStore.writePageFaulty id index' offset data)
      store :=
  clears_writePage_at (by rw [word_wrapAround, hplace]) h

/-- With pages of 16 bytes a write to page `2 ^ 60` comes to the first page. -/
example : 2 ^ 60 * 16 % UInt64.size = 0 * 16 := by decide

end Writing

end Guarded

end AttrTree
