import AttrTree.Proofs.Corruption

/-!
This module contains what a write of a value leaves in the record when a page cannot be written. The record has got its
new length before, and it keeps the pages that were written and behind them what it had.
-/

namespace AttrTree

open Action

/-- The first `n` bytes of `image`, and behind them what `setAttr` has left of `old`. -/
def Bytes.torn (old image : Bytes) (n : Nat) : Bytes :=
  image.take n ++ (old.resize image.length).drop n

namespace MemStore

variable {store : MemStore} {record : ObjectId} {object : MemObject} {old image : Bytes} {count : Nat}

section Pages

theorem writePage_planned (hids : store.HasDistinctIds) (hobject : store.object? record = some object)
    (hfault : store.writeFault = some count) {index : Nat} {front page rest : Bytes}
    (hbody : object.body = .file (front ++ rest)) (hfront : front.length = index * store.pageSize)
    (hpage : page.length ≤ store.pageSize) (hrest : page.length ≤ rest.length) :
    ObjectStore.writePage record index 0 page store =
      match count with
      | 0 => .error injectedWriteFault (store.withFault none)
      | count + 1 => .ok ()
        ((store.setContent record (front ++ page ++ rest.drop page.length)).withFault (some count)) := by
  have hfits : ¬ store.pageSize < page.length := by omega
  cases count with
  | zero => simp [ObjectStore.writePage, writePageFaulty, hfits, hfault, withFault]
  | succ count =>
    have hids' : (store.withFault (some count)).HasDistinctIds := hids
    have hok := writePage_eq_ok hids' hobject hbody hfront hrest
    simp only [withFault] at hok
    simp [ObjectStore.writePage, writePageFaulty, hfits, hfault, update, hok]
    rfl

theorem IsWriting.withFault {size index : Nat} {front rest data : Bytes}
    (h : store.IsWriting record size index front rest data) (fault : Option Nat) :
    (store.withFault fault).IsWriting record size index front rest data :=
  ⟨h.pageSize_eq, h.ids_distinct, h.file, h.rest_length, h.front_length⟩

theorem writePages_planned {size index : Nat} {front rest data : Bytes}
    (h : store.IsWriting record size index front rest data) (hfault : store.writeFault = some count) :
    Volume.writePages record index (data.chunks size) store =
      if count < (data.chunks size).length then
        .error injectedWriteFault ((store.setContent record
          (front ++ (data.take (count * size) ++ rest.drop (count * size)))).withFault none)
      else
        .ok () ((store.setContent record (front ++ data)).withFault (some (count - (data.chunks size).length))) := by
  have hpos : size ≠ 0 := Nat.ne_of_gt h.size_pos
  fun_induction Bytes.chunks data size generalizing store front rest index count with
  | case1 data hdone =>
    obtain rfl : data = [] := by simpa [hpos] using hdone
    obtain rfl : rest = [] := List.length_eq_zero_iff.mp h.rest_length.symm
    obtain ⟨object, hobject, hbody⟩ := h.file
    simp only [Volume.writePages, pure_apply, List.length_nil, Nat.not_lt_zero, if_false, Nat.sub_zero]
    rw [setContent_eq_self h.ids_distinct hobject hbody, withFault_eq_self hfault]
  | case2 data hmore ih =>
    have hdata : data ≠ [] := fun hnil => hmore (.inl hnil)
    obtain ⟨object, hobject, hbody⟩ := h.file
    have hstep := writePage_planned h.ids_distinct hobject hfault hbody
      (h.pageSize_eq ▸ h.front_length hdata) (h.pageSize_eq ▸ List.length_take_le size data) h.take_le
    rw [Volume.writePages, bind_apply, hstep]
    cases count with
    | zero =>
      simp only [List.length_cons, Nat.zero_lt_succ, if_true, Nat.zero_mul, List.take_zero, List.drop_zero,
        List.nil_append]
      rw [setContent_eq_self h.ids_distinct hobject hbody]
    | succ count =>
      let content := front ++ data.take size ++ rest.drop (data.take size).length
      have hover (bytes : Bytes) (fault : Option Nat) :
          (((store.setContent record content).withFault (some count)).setContent record bytes).withFault fault =
            (store.setContent record bytes).withFault fault :=
        congrArg (·.withFault fault) (setContent_setContent store record content bytes)
      refine (ih ((h.next hdata).withFault (some count)) rfl).trans ?_
      simp only [List.length_cons, Nat.add_lt_add_iff_right]
      by_cases hcount : count < (Bytes.chunks (data.drop size) size).length
      . -- There are bytes behind this page, so it is a full one.
        have hlong : size < data.length := by
          by_contra hshort
          rw [List.drop_of_length_le (Nat.le_of_not_lt hshort)] at hcount
          simp [Bytes.chunks] at hcount
        have hfull : (data.take size).length = size := by
          rw [List.length_take, Nat.min_eq_left (Nat.le_of_lt hlong)]
        rw [if_pos hcount, if_pos hcount, hover, hfull, Nat.succ_mul, Nat.add_comm (count * size),
          List.take_add, List.append_assoc, List.append_assoc, List.drop_drop]
      . rw [if_neg hcount, if_neg hcount, hover, Nat.add_sub_add_right, List.append_assoc,
          List.take_append_drop]

theorem writeImage_planned (hids : store.HasDistinctIds) (hobject : store.object? record = some object)
    (hfault : store.writeFault = some count) (hbody : object.body = .file old) (image : Bytes) :
    let pages := (image.length + store.pageSize - 1) / store.pageSize
    Volume.writeImage record image store =
      if count < pages then
        .error injectedWriteFault
          ((store.setContent record (old.torn image (count * store.pageSize))).withFault none)
      else
        .ok () ((store.setContent record image).withFault (some (count - pages))) := by
  intro pages
  have hwriting := IsWriting.start hids hobject old image
  have hpages := writePages_planned hwriting hfault
  have hover (bytes : Bytes) (fault : Option Nat) :
      ((store.setContent record (old.resize image.length)).setContent record bytes).withFault fault =
        (store.setContent record bytes).withFault fault :=
    congrArg (·.withFault fault) (setContent_setContent store record _ bytes)
  rw [Bytes.length_chunks image hwriting.size_pos, hover, hover, List.nil_append, List.nil_append] at hpages
  rw [Volume.writeImage, bind_apply, setAttr_resize hids hobject hbody image.length]
  exact hpages

end Pages

section Unwritten

variable {first : MemStore} {parent dir : ObjectId} {name : String} {owner : MemObject} {d : Directory}

structure Unwritten (first store : MemStore) : Prop where
  nextId_le : first.nextId ≤ store.nextId
  content : ∀ ⦃id content⦄, store.content? id = some content →
    first.content? id = some content ∨ first.nextId ≤ id ∧ content = []

theorem Unwritten.refl (store : MemStore) : store.Unwritten store :=
  ⟨Nat.le_refl _, fun _ _ h => .inl h⟩

theorem Unwritten.attach (h : first.Unwritten store) (hlinked : store.Linked)
    {made : ObjectId → UInt32 → MemObject} {extra : Nat}
    (hnew : (made store.nextId store.nextGeneration).id = store.nextId)
    (hempty : ∀ content, (made store.nextId store.nextGeneration).body = .file content → content = [])
    (howner : store.object? parent = some owner) (hbody : owner.body = .directory d) :
    first.Unwritten (store.attach made parent name extra) where
  nextId_le := Nat.le_succ_of_le h.nextId_le
  content := by
    intro id content hcontent
    obtain ⟨object, hobject, hfile⟩ := content?_eq_some_iff.mp hcontent
    rw [object?_attach hlinked hnew howner] at hobject
    split at hobject
    . next hid =>
      cases hobject
      exact .inr ⟨hid ▸ h.nextId_le, hempty content hfile⟩
    . split at hobject
      . cases hobject
        rw [body_withEntry hbody] at hfile
        cases hfile
      . exact h.content (content?_of_object? hobject hfile)

theorem keptByLosses_unwritten (first : MemStore) : KeptByLosses first.Unwritten := by
  intro store parent owner target dir e hlinked hleaf h
  refine ⟨(IsLeaf.nextId_detach ..).symm ▸ h.nextId_le, fun id content hcontent => ?_⟩
  obtain ⟨object, hobject, hfile⟩ := content?_eq_some_iff.mp hcontent
  rw [hleaf.object?_detach] at hobject
  split at hobject
  . next hid =>
    obtain ⟨_, _, rfl⟩ := unlinked?_eq_some_iff.mp hobject
    rw [body_withNlink] at hfile
    exact h.content (content?_of_object? (hid ▸ hleaf.target_eq) hfile)
  . split at hobject
    . cases hobject
      rw [body_withoutEntry hleaf.body_eq] at hfile
      cases hfile
    . exact h.content (content?_of_object? hobject hfile)

theorem keptByMaking_unwritten (first : MemStore) :
    KeptByMaking fun store => store.Linked ∧ first.Unwritten store where
  lookup _ _ := .query _
  mkdir _ _ _ := .transact fun store made store' hok h => by
    obtain ⟨hvalid, owner, d, howner, hbody, hfree, heq⟩ := mkdir_eq_ok_iff.mp hok
    injection heq with _ heq
    rw [heq]
    exact ⟨h.1.attach (isNew_directory ..) howner hbody hvalid hfree, h.2.attach h.1 rfl nofun howner hbody⟩
  create _ _ _ := .transact fun store made store' hok h => by
    obtain ⟨hvalid, owner, d, howner, hbody, hfree, heq⟩ := create_eq_ok_iff.mp hok
    injection heq with _ heq
    rw [heq]
    refine ⟨h.1.attach (isNew_file ..) howner hbody hvalid hfree, h.2.attach h.1 rfl (fun content hfile => ?_) howner hbody⟩
    cases hfile
    rfl

theorem keptByLooking_unwritten (first : MemStore) :
    KeptByLooking fun store => store.Linked ∧ first.Unwritten store where
  lookup _ _ := .query _
  stat _ := .query _
  readPage _ _ _ := .query _
  locateEntry _ _ := .query _
  entryName := keeps_entryNameMoving fun _ _ h =>
    ⟨h.1.of_sameLinks (.of_objects_eq rfl rfl), ⟨h.2.nextId_le, h.2.content⟩⟩

end Unwritten

end MemStore

namespace Volume

open MemStore

variable {volume middle rest after : Volume MemStore} {obj record : ObjectId} {name : String} {flags : SetFlags}
  {object file : MemObject} {old : Bytes} {count : Nat}

section Opening

theorem keeps_unsharedRecord {P : MemStore → Prop} (hlooking : KeptByLooking P) (hmaking : KeptByMaking P)
    (hunlink : ∀ dir name, Keeps P (ObjectStore.unlink dir name)) (stat : ObjectStat) (name : String)
    (rounds : Nat) (flags : SetFlags) :
    Keeps (fun volume : Volume MemStore => P volume.store) (unsharedRecord stat name rounds flags) := by
  induction rounds generalizing flags with
  | zero => exact .throw _
  | succ rounds ih =>
    refine .bind (keeps_openRecord hmaking stat name flags) fun record => ?_
    refine .bind (.onStore (hlooking.stat record)) fun _ => .ite (.pure record) ?_
    have hremove : Keeps (fun volume : Volume MemStore => P volume.store) (removeRecord stat name) :=
      .bind (.ofExcept _) fun _ => .bind (keeps_openDirectory hmaking stat .looking) fun dir =>
        .onStore (keeps_removeEntry hlooking (hunlink dir name))
    exact .bind hremove fun _ => ih _

theorem unwritten_unsharedRecord (hlinked : volume.store.Linked) {stat : ObjectStat} {rounds : Nat}
    (h : unsharedRecord stat name rounds flags volume = .ok record rest) :
    volume.store.Unwritten rest.store := by
  have hkept := (keeps_unsharedRecord (keptByLooking_unwritten volume.store) (keptByMaking_unwritten volume.store)
    (fun _ _ => (keptByLosses_unwritten volume.store).unlink) stat name rounds flags).holds volume
    ⟨hlinked, .refl _⟩
  rw [after_of_ok h] at hkept
  exact hkept.2

end Opening

theorem writeValue_over (hexisting : existingRecord obj name volume = .ok record after)
    (hlinked : volume.store.Linked) (hfile : volume.store.object? record = some file)
    (hbody : file.body = .file old) (hnlink : file.nlink = 1) (hfault : volume.store.writeFault = none)
    (hcreate : flags.create = false) (value : Bytes) :
    ∃ rest, writeValue obj name value flags volume = .ok () rest := by
  obtain ⟨hvalid, object, dir, d, e, hobject, hformat, hfound, hdir, hfind, rfl, rfl⟩ :=
    existingRecord_eq_ok_iff.mp hexisting
  have hopen := openRecord_eq hvalid (openDirectory_found hfound flags) (by simpa using hdir)
  simp only [hfind, hcreate, Bool.false_eq_true, if_false] at hopen
  exact ⟨_, Settled.writeValue_of_single hobject hformat hopen (by simpa using hfile) hbody hnlink
    (by simpa using hfault) (by simpa using hlinked) value⟩

section Torn

theorem Ready.rewritable {dir : ObjectId} (h : volume.Ready rest object.stat.key dir name record)
    (hobject : volume.store.object? obj = some object) (hformat : object.format ≠ .legacy)
    (hlinked : volume.store.Linked) (hname : volume.IsNoDirectory object.stat.key name) (hobj : obj < 2 ^ 64)
    (content : Bytes) (hcreate : flags.create = false) (value : Bytes) :
    ∃ final, writeValue obj name value flags
        { rest with store := (rest.store.setContent record content).withFault none } = .ok () final
      ∧ ∀ buffer, ∃ after,
        Answers (readValue obj name (final, buffer)) after (readAnswer (some value) buffer) := by
  -- Whatever bytes the record has got, it can be written over when nothing is planned any more.
  obtain ⟨file, old, hfile, hbody, hnlink⟩ := h.file
  have hchanged := h.changed.setContent h.child hfile hbody (Nat.le_of_eq hnlink) content
  have hlinked' : ((rest.store.setContent record content).withFault none).Linked :=
    hchanged.linked.of_sameLinks (.of_objects_eq rfl rfl)
  have hfile' : (rest.store.setContent record content).object? record = some (withContent content file) :=
    (object?_setContent hfile content record).trans (if_pos rfl)
  obtain ⟨_, hfound⟩ := (h.stored hobject hformat hlinked hname value).found
  obtain ⟨_, hfound⟩ := existingRecord_altered hfound
    ((object?_setContent hfile _ record).trans (if_pos rfl)) rfl content
  rw [altered, setContent_setContent] at hfound
  obtain ⟨_, hfound⟩ := existingRecord_withFault hfound none
  obtain ⟨final, hwrite⟩ := writeValue_over hfound hlinked' hfile' rfl hnlink rfl hcreate value
  obtain ⟨_, _, hstored, _⟩ := stored_of_writeValue hlinked' hobj hwrite
  exact ⟨final, hwrite, hstored.read⟩

variable {pageSize capacity : Nat} {format : ObjectFormat} {hpage : Record.headerSize < pageSize}
  {options : MountOptions} {ops : List Op}

theorem writeValue_torn (hrun : run ops (initial pageSize format hpage options capacity) = volume)
    (hobj : obj < 2 ^ 64) (hobject : volume.store.object? obj = some object) (hformat : object.format ≠ .legacy)
    (hfault : volume.store.writeFault = some count)
    (hrecord : unsharedRecord object.stat name (recordRounds volume.store) flags volume = .ok record middle)
    (value : Bytes) :
    let image := Record.image value
    let pages := (image.length + pageSize - 1) / pageSize
    ∃ file old, middle.store.object? record = some file ∧ file.body = .file old ∧ file.nlink = 1
      ∧ (volume.store.content? record = some old ∨ volume.store.object? record = none ∧ old = [])
      ∧ middle.store.writeFault = some count
      ∧ (count < pages →
        let torn := Bytes.torn old image (count * pageSize)
        let rest := { middle with store := (middle.store.setContent record torn).withFault none }
        writeValue obj name value flags volume = .error injectedWriteFault rest
          ∧ ∀ (flags' : SetFlags) (value' : Bytes), flags'.create = false →
            ∃ final, writeValue obj name value' flags' rest = .ok () final
              ∧ ∀ buffer, ∃ after,
                Answers (readValue obj name (final, buffer)) after (readAnswer (some value') buffer))
      ∧ (pages ≤ count →
        writeValue obj name value flags volume = .ok () { middle with
          store := (middle.store.setContent record image).withFault (some (count - pages)) }) := by
  intro image pages
  have hlinked : volume.store.Linked := hrun ▸ linked_run ops (linked_empty ..)
  have hsize : middle.store.pageSize = pageSize :=
    (pageSize_unsharedRecord hrecord).trans (hrun ▸ pageSize_run ops _)
  have hid : object.stat.id < 2 ^ 64 := by
    rw [show object.stat.id = object.id from rfl, id_of_object? hobject]
    exact hobj
  have hunwritten := unwritten_unsharedRecord hlinked hrecord
  have hnoDir := isNoDirectory_of_unsharedRecord hlinked hrecord
  have hwrite := writeValue_eq hobject hformat name value flags
  obtain ⟨result, hunshared, hrounds⟩ := unshared hlinked hid hnoDir flags
  rw [bind_apply, hrounds] at hwrite
  rw [recordRounds, hrounds] at hrecord
  subst hrecord
  cases hunshared with
  | @ready _ dir _ hready =>
    obtain ⟨file, old, hfile, hbody, hnlink⟩ := hready.file
    have hfault' := hready.changed.writeFault_eq.trans hfault
    have himage := writeImage_planned hready.changed.linked.ids_distinct hfile hfault' hbody image
    rw [hsize] at himage
    refine ⟨file, old, hfile, hbody, hnlink, ?_, hfault', fun hfew => ⟨?_, ?_⟩, fun hmany => ?_⟩
    . obtain hold | ⟨hnew, hempty⟩ := hunwritten.content (content?_of_object? hfile hbody)
      . exact .inl hold
      . refine .inr ⟨?_, hempty⟩
        by_contra hsome
        obtain ⟨_, hold⟩ := Option.ne_none_iff_exists'.mp hsome
        exact Nat.not_lt.mpr hnew (hlinked.id_lt hold)
    . rw [hwrite]
      simp only [onStore, focus]
      rw [himage, if_pos hfew]
    . intro flags' value' hcreate
      exact hready.rewritable hobject hformat hlinked hnoDir hobj _ hcreate value'
    . rw [hwrite]
      simp only [onStore, focus]
      rw [himage, if_neg (Nat.not_lt.mpr hmany)]

def tornRun : List Op :=
  [.store (.create 1 "f" 0o644), .mount ⟨false⟩, .writeValue 2 "user.x" (List.replicate 24 1) .none,
    .store (.planWriteFault 1)]

theorem writeValue_torn_second :
    let volume := run tornRun (initial 16 .current (by decide) .optional 64)
    let image := Record.image (List.replicate 24 1)
    let image' := Record.image (List.replicate 41 7)
    ∃ record rest final, writeValue 2 "user.x" (List.replicate 41 7) .none volume = .error injectedWriteFault rest
      ∧ rest.store.content? record = some (image'.take 16 ++ (image.drop 16 ++ List.replicate 17 0))
      ∧ writeValue 2 "user.x" [5] .none rest = .ok () final := by
  intro volume image image'
  obtain ⟨object, hobject⟩ := Option.isSome_iff_exists.mp
    (show (volume.store.object? 2).isSome = true by decide +kernel)
  have hfacts : (volume.store.object? 2).all (fun object => object.format ≠ .legacy
      ∧ (unsharedRecord object.stat "user.x" (recordRounds volume.store) .none).result volume = .ok 6) = true := by
    decide +kernel
  rw [hobject, Option.all_some, decide_eq_true_eq] at hfacts
  obtain ⟨middle, hrecord⟩ := eq_ok_of_result hfacts.2
  have hcontent : volume.store.content? 6 = some image := by decide +kernel
  obtain ⟨file, old, hfile, _, _, hold, _, htorn, _⟩ := writeValue_torn rfl (by decide) hobject hfacts.1
    (show volume.store.writeFault = some 1 by decide +kernel) hrecord (List.replicate 41 7)
  obtain ⟨hwrite, hagain⟩ := htorn (by decide)
  obtain ⟨final, hfinal, _⟩ := hagain .none [5] rfl
  obtain rfl : old = image := by
    obtain hold | ⟨hnone, _⟩ := hold
    . exact Option.some.inj (hold.symm.trans hcontent)
    . rw [content?, hnone] at hcontent
      cases hcontent
  refine ⟨6, _, final, hwrite, ?_, hfinal⟩
  have htorn' : Bytes.torn image image' (1 * 16) = image'.take 16 ++ (image.drop 16 ++ List.replicate 17 0) := by
    decide +kernel
  rw [← htorn']
  exact content?_of_object? ((object?_setContent hfile _ 6).trans (if_pos rfl)) rfl

end Torn

end Volume

end AttrTree
