import AttrTree.Proofs.Addressing
import AttrTree.Proofs.Book
import AttrTree.Proofs.Paging

/-!
This module contains that a file is one array of bytes, whatever the size of the pages. Writes, new sizes
and reads are compared byte by byte with those of an array that knows no pages, as long as the places fit
into words.
-/

namespace AttrTree

open Action

namespace Bytes

def byte (bytes : Bytes) (k : Nat) : UInt8 :=
  bytes[k]?.getD 0

def tabulate (n : Nat) (f : Nat → UInt8) : Bytes :=
  (List.range n).map f

def written (bytes : Bytes) (start : Nat) (data : Bytes) : Bytes :=
  tabulate (max bytes.length (start + data.length)) fun k =>
    if start ≤ k ∧ k < start + data.length then data.byte (k - start) else bytes.byte k

def sized (bytes : Bytes) (n : Nat) : Bytes :=
  tabulate n bytes.byte

def readFrom (bytes : Bytes) (start n : Nat) : Bytes :=
  tabulate n fun k => bytes.byte (start + k)

section Places

variable {bytes : Bytes} {start n k : Nat} {f : Nat → UInt8}

theorem byte_of_length_le (h : bytes.length ≤ k) : bytes.byte k = 0 := by
  rw [byte, List.getElem?_eq_none h, Option.getD_none]

theorem byte_append (front rest : Bytes) (k : Nat) :
    byte (front ++ rest) k = if k < front.length then front.byte k else rest.byte (k - front.length) := by
  rw [byte, List.getElem?_append]
  split <;> rfl

theorem byte_take (bytes : Bytes) (n k : Nat) :
    byte (bytes.take n) k = if k < n then bytes.byte k else 0 := by
  rw [byte, List.getElem?_take]
  split <;> rfl

theorem byte_drop (bytes : Bytes) (start k : Nat) :
    byte (bytes.drop start) k = bytes.byte (start + k) := by
  rw [byte, List.getElem?_drop, byte]

@[simp]
theorem length_tabulate (n : Nat) (f : Nat → UInt8) : (tabulate n f).length = n := by
  rw [tabulate, List.length_map, List.length_range]

theorem byte_tabulate (n : Nat) (f : Nat → UInt8) (k : Nat) :
    (tabulate n f).byte k = if k < n then f k else 0 := by
  split
  . next hk => simp [byte, tabulate, hk]
  . next hk => exact byte_of_length_le (by simpa using hk)

theorem eq_tabulate (hlength : bytes.length = n) (hbyte : ∀ k < n, bytes.byte k = f k) :
    bytes = tabulate n f := by
  apply List.ext_getElem
  . rw [hlength, length_tabulate]
  . intro k hk _
    have heq := hbyte k (hlength ▸ hk)
    rw [byte, List.getElem?_eq_getElem hk, Option.getD_some] at heq
    rw [heq]
    simp [tabulate]

theorem byte_resize (bytes : Bytes) (n k : Nat) :
    (bytes.resize n).byte k = if k < n then bytes.byte k else 0 := by
  have hzeros (m j : Nat) : byte (List.replicate m 0) j = 0 := by
    rw [byte, List.getElem?_replicate]
    split <;> rfl
  rw [resize, List.rightpad, byte_append, hzeros, byte_take, List.length_take]
  by_cases hn : k < n
  . by_cases hk : k < bytes.length
    . simp [hn, hk]
    . simp [hn, byte_of_length_le (Nat.le_of_not_lt hk)]
  . simp [hn]

theorem byte_resize_of_le (h : bytes.length ≤ n) (k : Nat) : (bytes.resize n).byte k = bytes.byte k := by
  rw [byte_resize]
  split
  . rfl
  . next hk => exact (byte_of_length_le (by omega)).symm

theorem byte_overlay (h : start ≤ bytes.length) (data : Bytes) (k : Nat) :
    (bytes.overlay start data).byte k =
      if start ≤ k ∧ k < start + data.length then data.byte (k - start) else bytes.byte k := by
  rw [overlay_eq, byte_append, byte_append, byte_take, byte_drop, List.length_take, Nat.min_eq_left h]
  by_cases hfront : k < start
  . rw [if_pos hfront, if_pos hfront, if_neg (by omega)]
  . rw [if_neg hfront]
    by_cases hdata : k - start < data.length
    . rw [if_pos hdata, if_pos (by omega)]
    . have hplace : start + data.length + (k - start - data.length) = k := by omega
      rw [if_neg hdata, if_neg (by omega), hplace]

end Places

theorem resize_eq_sized (bytes : Bytes) (n : Nat) : bytes.resize n = bytes.sized n :=
  eq_tabulate (length_resize bytes n) fun k hk => by rw [byte_resize, if_pos hk]

theorem window_eq_readFrom (bytes : Bytes) (start n : Nat) :
    bytes.window start n = bytes.readFrom start n :=
  eq_tabulate (length_window bytes start n) fun k hk => by
    rw [window, byte_resize, if_pos hk, byte_drop]

theorem write_eq_written (bytes : Bytes) (start : Nat) (data : Bytes) :
    bytes.write start data = bytes.written start data := by
  refine eq_tabulate (length_write bytes start data) fun k _ => ?_
  by_cases hshort : bytes.length < start + data.length
  . have hroom : start ≤ (bytes.resize (start + data.length)).length := by
      rw [length_resize]
      exact Nat.le_add_right ..
    rw [write, if_pos hshort, byte_overlay hroom, byte_resize_of_le (Nat.le_of_lt hshort)]
  . rw [write, if_neg hshort, byte_overlay (by omega)]

end Bytes

namespace MemStore

inductive FileOp where
  | write (id : ObjectId) (index offset : Nat) (data : Bytes)
  | setAttr (id : ObjectId) (change : AttrChange)
  | planFault (count : Nat)
  deriving DecidableEq, Repr

namespace FileOp

def toOp : FileOp → Op
  | write id index offset data => .writePage id index offset data
  | setAttr id change => .setAttr id change
  | planFault count => .planWriteFault count

def perform (op : FileOp) : Action MemStore Unit :=
  op.toOp.perform

theorem perform_write (id : ObjectId) (index offset : Nat) (data : Bytes) :
    (write id index offset data).perform = writePageFaulty id index offset data :=
  rfl

theorem perform_setAttr (id : ObjectId) (change : AttrChange) :
    (setAttr id change).perform = .update (·.setAttr id change) :=
  rfl

/-- The places that the operation computes are words of 64 bits. -/
def FitsWords (pageSize : Nat) : FileOp → Prop
  | write _ index offset data => index * pageSize + offset + data.length < UInt64.size
  | setAttr _ change => change.size < UInt64.size
  | planFault _ => True

def inWords (overflow : Nat → Except Fault Nat) : FileOp → Guarded MemStore Unit
  | write id index offset data => Guarded.writePage overflow id index offset data
  | op => Guarded.perform op.perform

def effect (pageSize : Nat) (id : ObjectId) : FileOp → Bytes → Bytes
  | write id' index offset data, bytes =>
    if id' = id then bytes.written (index * pageSize + offset) data else bytes
  | setAttr id' change, bytes =>
    if id' = id ∧ change.fields.has .size = true then bytes.sized change.size else bytes
  | planFault _, bytes => bytes

def Names (id : ObjectId) : FileOp → Prop
  | write id' .. => id' = id
  | setAttr id' _ => id' = id
  | planFault _ => False

def Covers (pageSize : Nat) (id : ObjectId) (k : Nat) : FileOp → Prop
  | write id' index offset data =>
    id' = id ∧ index * pageSize + offset ≤ k ∧ k < index * pageSize + offset + data.length
  | _ => False

def run (ops : List FileOp) (store : MemStore) : MemStore :=
  ops.foldl (fun store op => op.perform.after store) store

def succeeding : List FileOp → MemStore → List FileOp
  | [], _ => []
  | op :: ops, store =>
    let rest := succeeding ops (op.perform.after store)
    if op.perform.succeeds store then op :: rest else rest

def replay (pageSize : Nat) (id : ObjectId) (ops : List FileOp) (bytes : Bytes) : Bytes :=
  ops.foldl (fun bytes op => op.effect pageSize id bytes) bytes

end FileOp

variable {store : MemStore} {id : ObjectId} {op : FileOp} {ops : List FileOp} {bytes : Bytes}

/-- The store answers for the file `id` as for the array `bytes`. -/
structure Serves (store : MemStore) (id : ObjectId) (bytes : Bytes) : Prop where
  readAll_eq : store.readAll id = .ok bytes
  size_eq : (store.stat id).map (·.size) = .ok bytes.length
  readPage_eq : ∀ index length, index * store.pageSize + length < UInt64.size →
    ObjectStore.readPage id index length store =
      .ok (bytes.readFrom (index * store.pageSize) length) store
  write_succeeds_iff : ∀ index offset data, (FileOp.write id index offset data).FitsWords store.pageSize →
    ((FileOp.write id index offset data).perform.succeeds store = true ↔
      offset + data.length ≤ store.pageSize ∧ store.writeFault ≠ some 0)
  setAttr_succeeds : ∀ change, (FileOp.setAttr id change).FitsWords store.pageSize →
    (FileOp.setAttr id change).perform.succeeds store = true

section Step

theorem map_eq_self {f : Bytes → Bytes} (h : ∀ bytes, f bytes = bytes) {content : Option Bytes} :
    content.map f = content := by
  cases content with
  | none => rfl
  | some bytes => rw [Option.map_some, h]

theorem content?_mapObject (store : MemStore) (id : ObjectId) {f : MemObject → MemObject}
    {g : Bytes → Bytes} (hf : ∀ object, (f object).id = object.id)
    (hg : ∀ object, (f object).body.content? = object.body.content?.map g) (id' : ObjectId) :
    (store.mapObject id f).content? id' =
      if id = id' then (store.content? id').map g else store.content? id' := by
  rw [content?, object?_mapObject store id hf, content?]
  by_cases hid : id = id'
  . rw [if_pos hid, if_pos hid.symm]
    cases store.object? id' with
    | none => rfl
    | some object => exact hg object
  . rw [if_neg hid, if_neg (Ne.symm hid)]

theorem content?_withFault (store : MemStore) (fault : Option Nat) (id : ObjectId) :
    (store.withFault fault).content? id = store.content? id :=
  rfl

theorem writePage_overwrites_iff {store' : MemStore} {index offset : Nat} {data : Bytes} :
    store.writePage id index offset data = .ok store' ↔ (store.content? id).isSome = true
      ∧ store' = store.mapObject id (overwrite (index * store.pageSize + offset) data) := by
  rw [writePage_eq_ok_iff, Option.isSome_iff_exists]
  simp only [content?_eq_some_iff]
  constructor
  . rintro ⟨object, content, hobject, hbody, heq⟩
    exact ⟨⟨content, object, hobject, hbody⟩, heq⟩
  . rintro ⟨⟨content, object, hobject, hbody⟩, heq⟩
    exact ⟨object, content, hobject, hbody, heq⟩

structure CanWrite (store : MemStore) (id : ObjectId) (offset : Nat) (data : Bytes) : Prop where
  live : (store.content? id).isSome = true
  fits : offset + data.length ≤ store.pageSize
  unplanned : store.writeFault ≠ some 0

variable {index offset : Nat} {data : Bytes}

theorem CanWrite.write_eq (h : store.CanWrite id offset data) (index : Nat) : ∃ fault,
    writePageFaulty id index offset data store = .ok () ((store.withFault fault).mapObject id
      (overwrite (index * store.pageSize + offset) data)) := by
  have hwrite (fault : Option Nat) : Action.update (·.writePage id index offset data)
      (store.withFault fault) = .ok () ((store.withFault fault).mapObject id
        (overwrite (index * store.pageSize + offset) data)) :=
    update_eq_ok_iff.mpr (writePage_overwrites_iff.mpr ⟨h.live, rfl⟩)
  rw [writePageFaulty, if_neg (Nat.not_lt.mpr h.fits)]
  cases hfault : store.writeFault with
  | none =>
    have hrun := hwrite none
    rw [withFault_eq_self hfault] at hrun
    exact ⟨none, by rwa [withFault_eq_self hfault]⟩
  | some count =>
    cases count with
    | zero => exact absurd hfault h.unplanned
    | succ count => exact ⟨some count, hwrite (some count)⟩

theorem write_eq_error (h : ¬ store.CanWrite id offset data) (index : Nat) : ∃ e fault,
    writePageFaulty id index offset data store = .error e (store.withFault fault) := by
  rw [writePageFaulty]
  by_cases hfits : store.pageSize < offset + data.length
  . rw [if_pos hfits]
    exact ⟨pageBoundary, store.writeFault, rfl⟩
  . rw [if_neg hfits]
    have hwrite (hfault : store.writeFault ≠ some 0) (fault : Option Nat) : ∃ e,
        Action.update (·.writePage id index offset data) (store.withFault fault) =
          .error e (store.withFault fault) := by
      cases hresult : (store.withFault fault).writePage id index offset data with
      | ok store' =>
        have hlive := (writePage_overwrites_iff.mp hresult).1
        exact absurd ⟨hlive, Nat.le_of_not_lt hfits, hfault⟩ h
      | error e => exact ⟨e, by simp only [Action.update, hresult]⟩
    cases hfault : store.writeFault with
    | none =>
      obtain ⟨e, hrun⟩ := hwrite (by simp [hfault]) none
      rw [withFault_eq_self hfault] at hrun
      exact ⟨e, none, by rwa [withFault_eq_self hfault]⟩
    | some count =>
      cases count with
      | zero => exact ⟨injectedWriteFault, none, rfl⟩
      | succ count =>
        obtain ⟨e, hrun⟩ := hwrite (by simp [hfault]) (some count)
        exact ⟨e, some count, hrun⟩

theorem write_succeeds_iff : (FileOp.write id index offset data).perform.succeeds store = true ↔
    store.CanWrite id offset data := by
  rw [FileOp.perform_write, Action.succeeds]
  by_cases h : store.CanWrite id offset data
  . obtain ⟨fault, hrun⟩ := h.write_eq index
    simp [hrun, h]
  . obtain ⟨e, fault, hrun⟩ := write_eq_error h index
    simp [hrun, h]

theorem content?_overwrite (start : Nat) (data : Bytes) (object : MemObject) :
    (overwrite start data object).body.content? = object.body.content?.map (·.written start data) := by
  cases hbody : object.body <;> simp [overwrite, hbody, Body.write, Body.content?, Bytes.write_eq_written]

theorem content?_apply (change : AttrChange) (object : MemObject) :
    (object.apply change).body.content? = object.body.content?.map fun bytes =>
      if change.fields.has .size then bytes.sized change.size else bytes := by
  by_cases hsize : change.fields.has .size = true
  . cases hbody : object.body <;>
      simp [MemObject.apply, hbody, hsize, Body.resize, Body.content?, Bytes.resize_eq_sized]
  . cases hbody : object.body <;> simp [MemObject.apply, hbody, hsize, Body.content?]

theorem content?_after_of_fails (h : op.perform.succeeds store = false) (id : ObjectId) :
    (op.perform.after store).content? id = store.content? id := by
  cases op with
  | write id' index offset data =>
    have hcannot : ¬ store.CanWrite id' offset data := fun hcan => by
      rw [write_succeeds_iff.mpr hcan] at h
      cases h
    obtain ⟨e, fault, hrun⟩ := write_eq_error hcannot index
    rw [FileOp.perform_write, after_of_error hrun, content?_withFault]
  | setAttr id' change => rw [FileOp.perform_setAttr, after_update_of_fails h]
  | planFault count => cases h

theorem content?_after_of_succeeds (h : op.perform.succeeds store = true) (id : ObjectId) :
    (op.perform.after store).content? id = (store.content? id).map (op.effect store.pageSize id) := by
  cases op with
  | write id' index offset data =>
    obtain ⟨fault, hrun⟩ := (write_succeeds_iff.mp h).write_eq index
    have hcontent := content?_mapObject (f := overwrite (index * store.pageSize + offset) data)
      (store.withFault fault) id' (fun _ => rfl) (content?_overwrite _ data) id
    rw [FileOp.perform_write, after_of_ok hrun, hcontent, content?_withFault]
    split
    . next hid => exact Option.map_congr fun bytes _ => (if_pos hid).symm
    . next hid => exact (map_eq_self fun bytes => if_neg hid).symm
  | setAttr id' change =>
    obtain ⟨store', hok⟩ := succeeds_update_iff.mp h
    rw [FileOp.perform_setAttr, after_of_ok (update_eq_ok_iff.mpr hok)]
    obtain ⟨_, _, _, rfl⟩ := setAttr_eq_ok_iff.mp hok
    rw [content?_mapObject (f := (·.apply change)) store id' (fun _ => rfl) (content?_apply change)]
    split
    . next hid =>
      refine Option.map_congr fun bytes _ => ?_
      simp only [FileOp.effect, hid, true_and]
    . next hid => exact (map_eq_self fun bytes => if_neg fun h => hid h.1).symm
  | planFault count => exact (map_eq_self fun _ => rfl).symm

theorem FileOp.inWords_eq {overflow : Nat → Except Fault Nat} (h : op.FitsWords store.pageSize) :
    (op.inWords overflow).run store = (Except.ok <$> op.perform) store := by
  cases op with
  | write id index offset data => exact Guarded.clears_writePage h
  | setAttr id change => rfl
  | planFault count => rfl

theorem pageSize_after (op : FileOp) (store : MemStore) :
    (op.perform.after store).pageSize = store.pageSize :=
  (Op.keeps_pageSize store.pageSize op.toOp).holds store rfl

end Step

section Run

theorem FileOp.pageSize_run (ops : List FileOp) (store : MemStore) :
    (run ops store).pageSize = store.pageSize := by
  induction ops generalizing store with
  | nil => rfl
  | cons op ops ih => exact (ih _).trans (pageSize_after op store)

theorem FileOp.content?_run (ops : List FileOp) (store : MemStore) (id : ObjectId) :
    (run ops store).content? id =
      (store.content? id).map (replay store.pageSize id (succeeding ops store)) := by
  induction ops generalizing store with
  | nil => exact (map_eq_self fun _ => rfl).symm
  | cons op ops ih =>
    have hrest := ih (op.perform.after store)
    rw [pageSize_after] at hrest
    rw [succeeding]
    split
    . next hsucceeds =>
      rw [content?_after_of_succeeds hsucceeds, Option.map_map] at hrest
      exact hrest
    . next hfails =>
      rw [content?_after_of_fails (Bool.eq_false_iff.mpr hfails)] at hrest
      exact hrest

theorem FileOp.succeeding_append (ops ops' : List FileOp) (store : MemStore) :
    succeeding (ops ++ ops') store = succeeding ops store ++ succeeding ops' (run ops store) := by
  induction ops generalizing store with
  | nil => rfl
  | cons op ops ih =>
    rw [List.cons_append, succeeding, succeeding, ih]
    split <;> rfl

theorem FileOp.replay_append (pageSize : Nat) (id : ObjectId) (ops ops' : List FileOp) (bytes : Bytes) :
    replay pageSize id (ops ++ ops') bytes = replay pageSize id ops' (replay pageSize id ops bytes) :=
  List.foldl_append

theorem FileOp.byte_effect {pageSize k : Nat} (h : bytes.byte k = 0) (hcovers : ¬ op.Covers pageSize id k) :
    (op.effect pageSize id bytes).byte k = 0 := by
  cases op with
  | write id' index offset data =>
    rw [effect]
    split
    . next hid =>
      rw [Bytes.written, Bytes.byte_tabulate, if_neg fun hplace => hcovers ⟨hid, hplace⟩, h, ite_self]
    . exact h
  | setAttr id' change =>
    rw [effect]
    split
    . rw [Bytes.sized, Bytes.byte_tabulate, h, ite_self]
    . exact h
  | planFault count => exact h

theorem FileOp.byte_replay {pageSize k : Nat} (h : bytes.byte k = 0)
    (hcovers : ∀ op ∈ ops, ¬ op.Covers pageSize id k) : (replay pageSize id ops bytes).byte k = 0 := by
  induction ops generalizing bytes with
  | nil => exact h
  | cons op ops ih =>
    obtain ⟨hfirst, hrest⟩ := List.forall_mem_cons.mp hcovers
    exact ih (byte_effect h hfirst) hrest

theorem FileOp.effect_of_not_names (h : ¬ op.Names id) (pageSize : Nat) (bytes : Bytes) :
    op.effect pageSize id bytes = bytes := by
  cases op with
  | write id' index offset data => exact if_neg h
  | setAttr id' change => exact if_neg fun hid => h hid.1
  | planFault count => rfl

theorem FileOp.replay_of_not_names (h : ∀ op ∈ ops, ¬ op.Names id) (pageSize : Nat) (bytes : Bytes) :
    replay pageSize id ops bytes = bytes := by
  induction ops generalizing bytes with
  | nil => rfl
  | cons op ops ih =>
    obtain ⟨hfirst, hrest⟩ := List.forall_mem_cons.mp h
    rw [replay, List.foldl_cons, effect_of_not_names hfirst]
    exact ih hrest bytes

theorem setAttr_succeeds {object : MemObject} (hobject : store.object? id = some object)
    (hbody : object.body = .file bytes) (change : AttrChange) :
    (FileOp.setAttr id change).perform.succeeds store = true := by
  refine succeeds_update_iff.mpr ⟨_, setAttr_eq_ok_iff.mpr ⟨object, hobject, ?_, rfl⟩⟩
  simp [hbody, Body.isDirectory]

theorem serves (h : store.content? id = some bytes) : store.Serves id bytes := by
  obtain ⟨object, hobject, hbody⟩ := content?_eq_some_iff.mp h
  have hcontent (e : Error) : store.getContent id e = .ok bytes :=
    getContent_eq_ok_iff.mpr ⟨object, hobject, hbody⟩
  have hlive : (store.content? id).isSome = true := by
    rw [h]
    rfl
  have hstat : store.stat id = .ok object.stat := by
    rw [stat, getObject, hobject]
    rfl
  constructor
  . exact hcontent _
  . rw [hstat, Except.map, MemObject.stat, hbody]
    rfl
  . intro index length _
    have hpage : store.readPage id index length = .ok (bytes.window (index * store.pageSize) length) := by
      rw [readPage, hcontent]
      rfl
    rw [← Bytes.window_eq_readFrom]
    simp [ObjectStore.readPage, query, hpage]
  . intro index offset data _
    rw [write_succeeds_iff]
    exact ⟨fun hcan => ⟨hcan.fits, hcan.unplanned⟩, fun hcan => ⟨hlive, hcan.1, hcan.2⟩⟩
  . intro change _
    exact setAttr_succeeds hobject hbody change

theorem FileOp.byte_of_cut {earlier later : List FileOp} {change : AttrChange} {k : Nat}
    (hbytes : store.content? id = some bytes) (hsize : change.fields.has .size = true)
    (hk : change.size ≤ k)
    (hcovers : ∀ op ∈ succeeding later (run (earlier ++ [.setAttr id change]) store),
      ¬ op.Covers store.pageSize id k) :
    (replay store.pageSize id (succeeding (earlier ++ .setAttr id change :: later) store) bytes).byte k
      = 0 := by
  have hmiddle : (run earlier store).content? id =
      some (replay store.pageSize id (succeeding earlier store) bytes) := by
    rw [content?_run, hbytes, Option.map_some]
  have hcut : succeeding [.setAttr id change] (run earlier store) = [.setAttr id change] := by
    obtain ⟨object, hobject, hbody⟩ := content?_eq_some_iff.mp hmiddle
    rw [succeeding, if_pos (setAttr_succeeds hobject hbody change), succeeding]
  -- The new size makes the byte zero, and nothing that comes later puts another one there.
  rw [List.append_cons, succeeding_append, succeeding_append, hcut, replay_append, replay_append]
  refine byte_replay ?_ hcovers
  rw [replay, List.foldl_cons, List.foldl_nil, effect, if_pos ⟨rfl, hsize⟩, Bytes.sized,
    Bytes.byte_tabulate, if_neg (Nat.not_lt.mpr hk)]

end Run

/-- `replay` makes of a file what the operations of `succeeding` make of an array. Beyond `FitsWords` the
`overflow` decides, see `clears_readPage_wraps` and `clears_writePage_wraps`. -/
theorem file_is_array (overflow : Nat → Except Fault Nat) (store : MemStore) (ops : List FileOp)
    (hfits : ∀ op ∈ ops, op.FitsWords store.pageSize) :
    let rest := FileOp.run ops store
    let done := FileOp.succeeding ops store
    rest.pageSize = store.pageSize
    ∧ (∀ op ∈ ops, ∀ s : MemStore, s.pageSize = store.pageSize →
      (op.inWords overflow).run s = (Except.ok <$> op.perform) s)
    ∧ (∀ id index length, index * store.pageSize + length < UInt64.size →
      (Guarded.readPage overflow id index length).run rest =
        (Except.ok <$> ObjectStore.readPage id index length) rest)
    ∧ (∀ id, rest.content? id = (store.content? id).map (FileOp.replay store.pageSize id done))
    ∧ (∀ id, (∀ op ∈ done, ¬ op.Names id) → rest.content? id = store.content? id)
    ∧ (∀ id bytes, store.content? id = some bytes →
      rest.Serves id (FileOp.replay store.pageSize id done bytes)
      ∧ ∀ earlier change later k, ops = earlier ++ .setAttr id change :: later →
        change.fields.has .size = true → change.size ≤ k →
        (∀ op ∈ FileOp.succeeding later (FileOp.run (earlier ++ [.setAttr id change]) store),
          ¬ op.Covers store.pageSize id k) →
        (FileOp.replay store.pageSize id done bytes).byte k = 0) := by
  intro rest done
  have hsize : rest.pageSize = store.pageSize := FileOp.pageSize_run ops store
  have hcontent (id : ObjectId) : rest.content? id =
      (store.content? id).map (FileOp.replay store.pageSize id done) := FileOp.content?_run ops store id
  refine ⟨hsize, fun op hop s hs => ?_, fun id index length hread => ?_, hcontent, fun id hnames => ?_,
    fun id bytes hbytes => ⟨?_, ?_⟩⟩
  . have hop := hfits op hop
    rw [← hs] at hop
    exact FileOp.inWords_eq hop
  . rw [← hsize] at hread
    exact Guarded.clears_readPage hread
  . rw [hcontent]
    exact map_eq_self (FileOp.replay_of_not_names hnames store.pageSize)
  . apply serves
    rw [hcontent, hbytes]
    rfl
  . rintro earlier change later k rfl hsize hk hcovers
    exact FileOp.byte_of_cut hbytes hsize hk hcovers

def cutAndGrown : List FileOp :=
  [.write 2 0 12 [1, 2, 3, 4], .write 2 1 0 [5, 6], .write 3 0 0 [9], .write 2 0 10 [1, 2, 3, 4, 5, 6, 7],
    .setAttr 2 (.resize 14), .write 2 1 3 [], .planFault 0, .write 2 0 0 [7]]

theorem file_is_array_cutAndGrown :
    let store := (performAll [.create 1 "f" 0o644, .create 1 "g" 0o644, .create 1 "h" 0o644]).after
      (empty 16 .current (by decide))
    let rest := FileOp.run cutAndGrown store
    let bytes : Bytes := [0, 0, 0, 0, 0, 0, 0, 0, 0, 0, 0, 0, 1, 2, 0, 0, 0, 0, 0]
    (∀ op ∈ cutAndGrown, op.FitsWords store.pageSize)
      ∧ rest.pageSize = 16
      ∧ (FileOp.inWords Guarded.wrapAround (.write 2 1 3 [])).run store =
        (Except.ok <$> (FileOp.write 2 1 3 []).perform) store
      ∧ (Guarded.readPage Guarded.wrapAround 2 0 20).run rest = .ok (.ok (bytes ++ [0])) rest
      ∧ rest.content? 3 = some [9] ∧ rest.content? 4 = store.content? 4
      ∧ rest.Serves 2 bytes ∧ bytes.byte 17 = 0 := by
  intro store rest bytes
  have hfits : ∀ op ∈ cutAndGrown, op.FitsWords store.pageSize := by
    have hsize : store.pageSize = 16 := by decide +kernel
    rw [hsize]
    simp [cutAndGrown, FileOp.FitsWords, AttrChange.resize, UInt64.size]
  obtain ⟨hpage, hwords, hread, hcontent, hothers, hserves⟩ :=
    file_is_array Guarded.wrapAround store cutAndGrown hfits
  -- The write over the end of its page fails, and the one that a fault is planned for.
  have hdone : FileOp.succeeding cutAndGrown store = (cutAndGrown.take 7).eraseIdx 3 := by
    decide +kernel
  rw [hdone] at hcontent hothers hserves
  have hbytes : FileOp.replay store.pageSize 2 ((cutAndGrown.take 7).eraseIdx 3) [] = bytes := by
    decide +kernel
  obtain ⟨hfirst, hcut⟩ := hserves 2 [] (by decide +kernel)
  rw [hbytes] at hfirst hcut
  have hpages : (Guarded.readPage Guarded.wrapAround 2 0 20).run rest = .ok (.ok (bytes ++ [0])) rest := by
    rw [hread 2 0 20 (by decide +kernel), map_apply,
      hfirst.readPage_eq 0 20 (by rw [hpage]; decide +kernel), Nat.zero_mul]
    rfl
  refine ⟨hfits, hpage, hwords _ (by simp [cutAndGrown]) store rfl, hpages,
    (hcontent 3).trans (by decide +kernel), hothers 4 ?_, hfirst, ?_⟩
  . simp [cutAndGrown, FileOp.Names]
  . have hlater : FileOp.succeeding (cutAndGrown.drop 5)
        (FileOp.run (cutAndGrown.take 4 ++ [.setAttr 2 (.resize 14)]) store) =
          [.write 2 1 3 [], .planFault 0] := by
      decide +kernel
    refine hcut (cutAndGrown.take 4) (.resize 14) (cutAndGrown.drop 5) 17 rfl (by decide) (by decide) ?_
    rw [hlater]
    simp [FileOp.Covers]

end MemStore

end AttrTree
