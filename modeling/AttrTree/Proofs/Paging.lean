import AttrTree.Proofs.Recording

/-!
This module contains how many pages are written for an image. The pages of a store keep their size
whatever is done to it, and a planned fault counts the writes until it comes.
-/

namespace AttrTree

open Action

theorem Bytes.length_chunks (bytes : Bytes) {size : Nat} (hsize : 0 < size) :
    (bytes.chunks size).length = (bytes.length + size - 1) / size := by
  fun_induction chunks bytes size with
  | case1 bytes h =>
    obtain rfl : bytes = [] := by simpa [Nat.ne_of_gt hsize] using h
    rw [List.length_nil, List.length_nil, Nat.div_eq_of_lt (by omega)]
  | case2 bytes h ih =>
    have hpos : 0 < bytes.length := List.length_pos_iff.mpr fun hnil => h (.inl hnil)
    rw [List.length_cons, ih, List.length_drop]
    by_cases hlast : bytes.length ≤ size
    . have hone : bytes.length + size - 1 = bytes.length - 1 + size := by omega
      rw [Nat.sub_eq_zero_of_le hlast, Nat.div_eq_of_lt (by omega), hone, Nat.add_div_right _ hsize,
        Nat.div_eq_of_lt (by omega)]
    . rw [← Nat.add_div_right _ hsize]
      congr 1
      omega

namespace MemStore

variable {store store' : MemStore} {record : ObjectId} {size : Nat}

section PageSize

theorem keeps_pageSize_update {change : MemStore → Except Error MemStore}
    (h : ∀ ⦃store store'⦄, change store = .ok store' → store'.pageSize = store.pageSize) :
    Keeps (·.pageSize = size) (Action.update change) :=
  .update fun _ _ hok hs => (h hok).trans hs

theorem keeps_pageSize_transact {α : Type} {change : MemStore → Except Error (α × MemStore)}
    (h : ∀ ⦃store a store'⦄, change store = .ok (a, store') → store'.pageSize = store.pageSize) :
    Keeps (·.pageSize = size) (Action.transact change) :=
  .transact fun _ _ _ hok hs => (h hok).trans hs

theorem pageSize_unlink {dir : ObjectId} {name : String} (hok : store.unlink dir name = .ok store') :
    store'.pageSize = store.pageSize := by
  simp only [unlink, exceptBind_eq_ok_iff, throwIf_eq_ok_iff, exceptPure_eq_ok_iff] at hok
  obtain ⟨_, _, target, _, _, rfl⟩ := hok
  unfold dropLink
  split <;> rfl

theorem pageSize_rmdir {dir : ObjectId} {name : String} (hok : store.rmdir dir name = .ok store') :
    store'.pageSize = store.pageSize := by
  simp only [rmdir, exceptBind_eq_ok_iff, throwUnless_eq_ok_iff, exceptPure_eq_ok_iff] at hok
  obtain ⟨_, _, _, _, _, rfl⟩ := hok
  rfl

theorem pageSize_mkdir {dir made : ObjectId} {name : String} {mode : UInt32}
    (hok : store.mkdir dir name mode = .ok (made, store')) : store'.pageSize = store.pageSize := by
  obtain ⟨_, _, _, _, _, _, heq⟩ := mkdir_eq_ok_iff.mp hok
  injection heq with _ heq
  rw [heq]
  rfl

theorem pageSize_create {dir made : ObjectId} {name : String} {mode : UInt32}
    (hok : store.create dir name mode = .ok (made, store')) : store'.pageSize = store.pageSize := by
  obtain ⟨_, _, _, _, _, _, heq⟩ := create_eq_ok_iff.mp hok
  injection heq with _ heq
  rw [heq]
  rfl

theorem keeps_pageSize_rmdirFaulty (dir : ObjectId) (name : String) :
    Keeps (·.pageSize = size) (rmdirFaulty dir name) :=
  keeps_rmdirFaulty (fun _ hs => hs) (keeps_pageSize_update fun _ _ => pageSize_rmdir)

theorem keeps_pageSize_writePageFaulty (id : ObjectId) (index offset : Nat) (data : Bytes) :
    Keeps (·.pageSize = size) (writePageFaulty id index offset data) := by
  apply keeps_writePageFaulty
  . exact fun _ _ hs => hs
  . apply keeps_pageSize_update
    intro store store' hok
    obtain ⟨_, _, _, _, rfl⟩ := writePage_eq_ok_iff.mp hok
    rfl

theorem pageSize_setAttr {change : AttrChange} {id : ObjectId}
    (hok : store.setAttr id change = .ok store') : store'.pageSize = store.pageSize := by
  obtain ⟨_, _, _, rfl⟩ := setAttr_eq_ok_iff.mp hok
  rfl

theorem pageSize_markPrivate {id : ObjectId} (hok : store.markPrivate id = .ok store') :
    store'.pageSize = store.pageSize := by
  simp only [markPrivate, exceptBind_eq_ok_iff, exceptPure_eq_ok_iff] at hok
  obtain ⟨_, _, rfl⟩ := hok
  rfl

theorem keptByCalls_pageSize (size : Nat) : KeptByCalls fun store : MemStore => store.pageSize = size where
  lookup _ _ := .query _
  mkdir _ _ _ := keeps_pageSize_transact fun _ _ _ => pageSize_mkdir
  create _ _ _ := keeps_pageSize_transact fun _ _ _ => pageSize_create
  stat _ := .query _
  setAttr _ _ := keeps_pageSize_update fun _ _ => pageSize_setAttr
  readPage _ _ _ := .query _
  writePage := keeps_pageSize_writePageFaulty
  markPrivate _ := keeps_pageSize_update fun _ _ => pageSize_markPrivate
  locateEntry _ _ := .query _
  entryName := keeps_entryNameMoving fun _ _ hs => hs
  unlink _ _ := keeps_pageSize_update fun _ _ => pageSize_unlink
  rmdir dir name _ := keeps_pageSize_rmdirFaulty dir name

theorem Op.keeps_pageSize (size : Nat) (op : Op) : Keeps (·.pageSize = size) op.perform := by
  have hcalls := keptByCalls_pageSize size
  cases op with
  | create parent name mode => exact .bind (hcalls.create ..) fun _ => .pure _
  | mkdir parent name mode => exact .bind (hcalls.mkdir ..) fun _ => .pure _
  | link target parent name =>
    apply keeps_pageSize_update
    intro store store' hok
    obtain ⟨_, _, _, _, _, _, _, _, _, rfl⟩ := link_eq_ok_iff.mp hok
    rfl
  | unlink parent name => exact hcalls.unlink ..
  | rmdir parent name => exact keeps_pageSize_rmdirFaulty ..
  | setAttr id change => exact hcalls.setAttr ..
  | writePage id index offset data => exact hcalls.writePage ..
  | markPrivate id => exact hcalls.markPrivate ..
  | setFormat id format =>
    apply keeps_pageSize_update
    intro store store' hok
    simp only [MemStore.setFormat, exceptBind_eq_ok_iff, exceptPure_eq_ok_iff] at hok
    obtain ⟨_, _, rfl⟩ := hok
    rfl
  | setVisible parent name visible =>
    apply keeps_pageSize_update
    intro store store' hok
    simp only [MemStore.setVisible, exceptBind_eq_ok_iff, exceptPure_eq_ok_iff] at hok
    obtain ⟨_, _, rfl⟩ := hok
    rfl
  | entryName parent slot => exact .bind (hcalls.entryName ..) fun _ => .pure _
  | planMoves count => exact .modify fun _ hs => hs
  | planWriteFault count => exact .modify fun _ hs => hs
  | planRmdirFault => exact .modify fun _ hs => hs

end PageSize

section Counting

variable {index : Nat} {data : Bytes} {pages : List Bytes} {u : Unit}

def CountsDown (store : MemStore) (n : Nat) (store' : MemStore) : Prop :=
  store'.writeFault = store.writeFault.map (· - n) ∧ ∀ count ∈ store.writeFault, n ≤ count

theorem countsDown_writePage {offset : Nat}
    (h : ObjectStore.writePage record index offset data store = .ok u store') :
    store.CountsDown 1 store' := by
  have hupdate {fault : Option Nat}
      (hok : Action.update (·.writePage record index offset data) (store.withFault fault) = .ok u store') :
      store'.writeFault = fault := by
    rw [update_eq_ok_iff] at hok
    obtain ⟨_, _, _, _, rfl⟩ := writePage_eq_ok_iff.mp hok
    rfl
  by_cases hpage : store.pageSize < offset + data.length
  . simp [ObjectStore.writePage, writePageFaulty, hpage] at h
  . cases hfault : store.writeFault with
    | none =>
      have hrun : Action.update (·.writePage record index offset data) (store.withFault none) =
          .ok u store' := by
        rw [withFault_eq_self hfault]
        simpa [ObjectStore.writePage, writePageFaulty, hpage, hfault] using h
      simp [CountsDown, hfault, hupdate hrun]
    | some count =>
      cases count with
      | zero => simp [ObjectStore.writePage, writePageFaulty, hpage, hfault] at h
      | succ count =>
        have hrun : Action.update (·.writePage record index offset data)
            (store.withFault (some count)) = .ok u store' := by
          simpa [ObjectStore.writePage, writePageFaulty, hpage, hfault, withFault] using h
        simp [CountsDown, hfault, hupdate hrun]

theorem countsDown_writePages (h : Volume.writePages record index pages store = .ok u store') :
    store.CountsDown pages.length store' := by
  induction pages generalizing store index with
  | nil =>
    cases h
    exact ⟨by simp, by simp⟩
  | cons page pages ih =>
    obtain ⟨_, middle, hwrite, hrest⟩ := bind_eq_ok_iff.mp h
    obtain ⟨hfault, hcount⟩ := countsDown_writePage hwrite
    obtain ⟨hfault', hcount'⟩ := ih hrest
    rw [hfault] at hfault' hcount'
    constructor
    . rw [hfault', Option.map_map, List.length_cons]
      congr 1
      funext count
      rw [Function.comp_apply, Nat.sub_sub, Nat.add_comm]
    . intro count hmem
      have hone := hcount count hmem
      have hmore := hcount' (count - 1) (Option.mem_map_of_mem _ hmem)
      rw [List.length_cons]
      omega

end Counting

end MemStore

namespace Volume

variable {volume rest : Volume MemStore}

theorem pageSize_unsharedRecord {stat : ObjectStat} {name : String} {rounds : Nat} {flags : SetFlags}
    {record : ObjectId} (h : unsharedRecord stat name rounds flags volume = .ok record rest) :
    rest.store.pageSize = volume.store.pageSize := by
  have hparts := followedByParts_store (MemStore.keptByCalls_pageSize volume.store.pageSize)
  have hkept := (follows_unsharedRecord hparts stat name rounds flags).keeps.holds volume rfl
  rwa [after_of_ok h] at hkept

theorem pageSize_run (ops : List Op) (volume : Volume MemStore) :
    (run ops volume).store.pageSize = volume.store.pageSize := by
  have hops (op : Op) : Keeps (fun rest : Volume MemStore => rest.store.pageSize = volume.store.pageSize)
      op.perform := by
    have hall : op.All fun _ => True := by
      cases op <;> simp [Op.All]
    exact Op.keeps_perform (MemStore.keptByCalls_pageSize _) (fun op _ => op.keeps_pageSize _) hall
  exact run_of_keeps (P := fun rest => rest.store.pageSize = volume.store.pageSize)
    (fun op _ => hops op) rfl

end Volume

end AttrTree
