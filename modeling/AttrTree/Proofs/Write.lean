import AttrTree.Proofs.Opening

/-!
This module contains what setting an attribute can do to a volume over the store in memory. The record
that is written to has no other links: it had none before, it was made for the call, or it took the
place of one that was left to its other links.
-/

namespace AttrTree

namespace Volume

open Action MemStore

variable {volume rest : Volume MemStore} {stat : ObjectStat} {key : ObjectKey} {name : String}
  {flags : SetFlags} {dir record : ObjectId} {d : Directory} {e : DirEntry}
  {object target : MemObject}

section ChangedAt

structure ChangedAt (volume rest : Volume MemStore) (key : ObjectKey) (dir : ObjectId)
    (name : String) : Prop where
  linked : rest.store.Linked
  remembers : rest.Remembers key dir
  others : volume.store.KeepsOthers rest.store dir name
  identities : volume.store.KeepsIdentities rest.store
  nextId_le : volume.store.nextId ≤ rest.store.nextId
  writeFault_eq : rest.store.writeFault = volume.store.writeFault

theorem changedAt_opened (hlinked : volume.store.Linked)
    (hfound : volume.directory? key = some dir) (name : String) :
    volume.ChangedAt (volume.opened key dir) key dir name := by
  constructor
  . simpa using hlinked
  . exact remembers_opened hfound
  . rw [store_opened]
    exact KeepsOthers.refl ..
  . rw [store_opened]
    exact KeepsIdentities.refl ..
  . simp
  . simp

theorem Grown.changedAt (h : volume.Grown rest key dir) (name : String) :
    volume.ChangedAt rest key dir name where
  linked := h.linked
  remembers := h.remembers
  others := h.others dir name
  identities := h.identities
  nextId_le := h.nextId_le
  writeFault_eq := h.writeFault_eq

theorem ChangedAt.withStore (h : volume.ChangedAt rest key dir name)
    (hdir : rest.store.directory? dir = some d) {store : MemStore} (hlinked : store.Linked)
    (hothers : rest.store.KeepsOthers store dir name)
    (hidentities : rest.store.KeepsIdentities store) (hnext : rest.store.nextId ≤ store.nextId)
    (hfault : store.writeFault = rest.store.writeFault) :
    volume.ChangedAt { rest with store } key dir name where
  linked := hlinked
  remembers := h.remembers.of_keepsOthers h.linked hdir hothers
  others := h.others.trans hothers
  identities := h.identities.trans hidentities
  nextId_le := Nat.le_trans h.nextId_le hnext
  writeFault_eq := hfault.trans h.writeFault_eq

theorem ChangedAt.madeRecord (h : volume.ChangedAt rest key dir name)
    (hdir : rest.store.directory? dir = some d) (hfree : d.find? name = none)
    (hvalid : isValidName name = true) :
    volume.ChangedAt { rest with store := rest.store.madeRecord dir name } key dir name := by
  obtain ⟨owner, howner, hbody⟩ := directory?_eq_some_iff.mp hdir
  apply h.withStore hdir
  . exact h.linked.madeRecord howner hbody hvalid hfree
  . exact keepsOthers_attach h.linked rfl howner hbody hfree 0 dir name
  . exact keepsIdentities_attach h.linked rfl howner name 0
  . exact Nat.le_succ _
  . rfl

theorem ChangedAt.detach (h : volume.ChangedAt rest key dir name)
    (hdir : rest.store.directory? dir = some d) (hfind : d.find? name = some e)
    (htarget : rest.store.object? e.target = some target)
    (hkind : target.body.isDirectory = false) (hshared : 1 < target.nlink) :
    volume.ChangedAt { rest with store := rest.store.detach dir e target } key dir name := by
  obtain ⟨owner, hleaf⟩ := h.linked.isLeaf hdir hfind htarget hkind
  apply h.withStore hdir
  . exact h.linked.detach hleaf
  . exact keepsOthers_detach h.linked hdir hfind htarget hkind
  . exact keepsIdentities_detach hleaf hkind hshared
  . exact Nat.le_of_eq (IsLeaf.nextId_detach ..).symm
  . exact writeFault_detach ..

theorem ChangedAt.setContent (h : volume.ChangedAt rest key dir name)
    (hchild : rest.store.child? dir name = some record)
    (hobject : rest.store.object? record = some object) {old : Bytes}
    (hbody : object.body = .file old) (hnlink : object.nlink ≤ 1) (content : Bytes) :
    volume.ChangedAt { rest with store := rest.store.setContent record content } key dir name := by
  obtain ⟨d, _, hdir, _⟩ := child?_eq_some_iff.mp hchild
  apply h.withStore hdir
  . exact h.linked.of_sameLinks (sameLinks_setContent h.linked hobject hbody content)
  . exact keepsOthers_setContent h.linked hobject (by simp [hbody, Body.isDirectory]) hnlink hchild
      content
  . exact keepsIdentities_setContent hobject content
  . exact Nat.le_refl _
  . rfl

theorem ChangedAt.opened (h : volume.ChangedAt rest key dir name) :
    volume.ChangedAt (rest.opened key dir) key dir name where
  linked := by simpa using h.linked
  remembers := remembers_opened h.remembers.directory?_eq
  others := by simpa using h.others
  identities := by simpa using h.identities
  nextId_le := by simpa using h.nextId_le
  writeFault_eq := by simpa using h.writeFault_eq

end ChangedAt

section Ready

def Parted (volume rest : Volume MemStore) (key : ObjectKey) (name : String) (record : ObjectId) :
    Prop :=
  ∀ ⦃old target⦄, volume.record? key name = some old → volume.store.object? old = some target →
    target.body.isDirectory = false → 1 < target.nlink →
      rest.store.object? old = some (withNlink (· - 1) target) ∧ volume.store.nextId ≤ record

structure Ready (volume rest : Volume MemStore) (key : ObjectKey) (dir : ObjectId)
    (name : String) (record : ObjectId) : Prop where
  changed : volume.ChangedAt rest key dir name
  child : rest.store.child? dir name = some record
  file : ∃ object old, rest.store.object? record = some object ∧ object.body = .file old
    ∧ object.nlink = 1
  parted : volume.Parted rest key name record

theorem Ready.of_record (h : volume.ChangedAt rest key dir name)
    (hrecord : volume.record? key name = some record) (hstore : rest.store = volume.store)
    (hchild : rest.store.child? dir name = some record)
    (hobject : rest.store.object? record = some object)
    (hkind : object.body.isDirectory = false) (hnlink : object.nlink ≤ 1) :
    volume.Ready rest key dir name record := by
  have hpos := (h.linked.file_nlink hobject hkind).2
  constructor
  . exact h
  . exact hchild
  . cases hbody : object.body with
    | file old => exact ⟨object, old, hobject, hbody, by omega⟩
    | directory d => simp [hbody, Body.isDirectory] at hkind
  . intro old target hold htarget _ hshared
    rw [hrecord] at hold
    injection hold with hold
    rw [← hold, ← hstore, hobject] at htarget
    injection htarget with htarget
    rw [← htarget] at hshared
    omega

theorem Ready.of_made (h : volume.ChangedAt rest key dir name)
    (hdir : rest.store.directory? dir = some d) (hfree : d.find? name = none)
    (hvalid : isValidName name = true)
    (hparted : volume.Parted rest key name rest.store.nextId) :
    volume.Ready { rest with store := rest.store.madeRecord dir name } key dir name
      rest.store.nextId := by
  obtain ⟨owner, howner, hbody⟩ := directory?_eq_some_iff.mp hdir
  have hne := h.linked.ne_nextId howner
  have hobject := object?_madeRecord h.linked howner name
  constructor
  . exact h.madeRecord hdir hfree hvalid
  . have hnew : d.contains name = false := by
      simp [Directory.contains, hfree]
    have hfind := Directory.find?_insert rest.store.nextId hnew name
    rw [if_pos rfl] at hfind
    have hdir' := directory?_madeRecord h.linked howner hbody name dir
    rw [if_neg hne, if_pos rfl] at hdir'
    exact child?_eq_some_iff.mpr ⟨_, _, hdir', hfind, rfl⟩
  . have hmade := hobject rest.store.nextId
    rw [if_pos rfl] at hmade
    exact ⟨_, [], hmade, rfl, rfl⟩
  . intro old target hold htarget hkind hshared
    obtain ⟨hrest, hnext⟩ := hparted hold htarget hkind hshared
    refine ⟨?_, hnext⟩
    have hold : old ≠ dir := by
      rintro rfl
      rw [howner] at hrest
      injection hrest with hrest
      simp [hrest, withNlink] at hbody
      simp [hbody, Body.isDirectory] at hkind
    rw [hobject, if_neg (h.linked.ne_nextId hrest), if_neg hold]
    exact hrest

end Ready

section Unshared

inductive Unshared (volume : Volume MemStore) (stat : ObjectStat) (name : String)
    (flags : SetFlags) : EStateM.Result Error (Volume MemStore) ObjectId → Prop
  | failed {err : Error} {rest : Volume MemStore} (hstore : rest.store = volume.store)
      (herr : err ≠ nameIsSubdirectory)
      (hfound : err = attrNotFound →
        ∃ rest', openRecord stat name .looking volume = .error attrNotFound rest') :
      Unshared volume stat name flags (.error err rest)
  /-- There is an attribute directory now, but no record was to be made. -/
  | inVain {rest : Volume MemStore} (hgrown : ∃ dir, volume.Grown rest stat.key dir)
      (hflags : flags.allowsCreate = true ∧ flags.onlyExisting = true)
      (hlooking : ∃ err rest', (err = noAttrRoot ∨ err = noDirectory)
        ∧ openRecord stat name .looking volume = .error err rest') :
      Unshared volume stat name flags (.error attrNotFound rest)
  /-- The record was left to its other links, but no new one was to be made. -/
  | dropped {old : ObjectId} {target : MemObject} {rest : Volume MemStore}
      (hold : ∃ rest', openRecord stat name .looking volume = .ok old rest')
      (htarget : volume.store.object? old = some target) (hprivate : target.isPrivate = true)
      (hshared : 1 < target.nlink)
      (hafter : rest.store.object? old = some (withNlink (· - 1) target))
      (hflags : flags.create = false ∧ flags.readOnly = true) :
      Unshared volume stat name flags (.error attrNotFound rest)
  | ready {record dir : ObjectId} {rest : Volume MemStore}
      (h : volume.Ready rest stat.key dir name record) :
      Unshared volume stat name flags (.ok record rest)

theorem ne_of_isMissing {err : Error} (h : IsMissing err) :
    err ≠ nameIsSubdirectory ∧ err ≠ attrNotFound := by
  obtain rfl | rfl := h
  . decide
  . decide

theorem Unshared.of_ne {err : Error} (hstore : rest.store = volume.store)
    (herr : err ≠ nameIsSubdirectory ∧ err ≠ attrNotFound) :
    volume.Unshared stat name flags (.error err rest) :=
  .failed hstore herr.1 fun h => absurd h herr.2

theorem unsharedRecord_made (hfound : rest.directory? stat.key = some dir)
    (h : volume.ChangedAt (rest.opened stat.key dir) stat.key dir name)
    (hdir : rest.store.directory? dir = some d) (hfree : d.find? name = none)
    (hvalid : isValidName name = true)
    (hparted : volume.Parted rest stat.key name rest.store.nextId)
    (hflags : flags.onlyExisting = false) :
    ∃ made, volume.Ready made stat.key dir name rest.store.nextId
      ∧ ∀ rounds, unsharedRecord stat name (rounds + 1) flags rest =
        .ok rest.store.nextId made := by
  have hopen := openRecord_eq hvalid (openDirectory_found hfound flags) (by simpa using hdir)
  simp only [hfree, hflags, store_opened, Bool.false_eq_true, if_false] at hopen
  have hready := Ready.of_made h (by simpa using hdir) hfree hvalid (by simpa [Parted] using hparted)
  rw [store_opened] at hready
  obtain ⟨object, _, hobject, _, hnlink⟩ := hready.file
  exact ⟨_, hready, fun rounds => unsharedRecord_single hopen hobject (Nat.le_of_eq hnlink) rounds⟩

theorem unsharedRecord_grown (hvalid : isValidName name = true) (hnone : volume.directory? stat.key = none)
    (hgrown : volume.Grown rest stat.key dir) (hopen : openDirectory stat flags volume = .ok dir rest)
    (hflags : flags.onlyExisting = false) :
    ∃ made, volume.Ready made stat.key dir name rest.store.nextId
      ∧ ∀ rounds, unsharedRecord stat name (rounds + 1) flags volume = .ok rest.store.nextId made := by
  -- The directory was made for the call, and so is the record.
  obtain ⟨parent, hdir⟩ := hgrown.directory
  have hfree : (Directory.fresh dir parent).find? name = none :=
    Directory.find?_fresh (isDots_of_isValidName hvalid) ..
  have hrecord := openRecord_eq hvalid hopen hdir
  simp only [hfree, hflags, Bool.false_eq_true, if_false] at hrecord
  have hparted : volume.Parted rest stat.key name rest.store.nextId := by
    intro old target hold
    simp [record?, hnone] at hold
  have hready := Ready.of_made (hgrown.changedAt name) hdir hfree hvalid hparted
  obtain ⟨object, _, hobject, _, hnlink⟩ := hready.file
  exact ⟨_, hready, fun rounds => unsharedRecord_single hrecord hobject (Nat.le_of_eq hnlink) rounds⟩

theorem unsharedRecord_alone (hlinked : volume.store.Linked) (hvalid : isValidName name = true)
    (hfound : volume.directory? stat.key = some dir) (hdir : volume.store.directory? dir = some d)
    (hfind : d.find? name = some e) (htarget : volume.store.object? e.target = some target)
    (hkind : target.body.isDirectory = false) (hnlink : target.nlink ≤ 1) (hcreate : flags.create = false) :
    volume.Ready (volume.opened stat.key dir) stat.key dir name e.target
      ∧ ∀ rounds, unsharedRecord stat name (rounds + 1) flags volume =
        .ok e.target (volume.opened stat.key dir) := by
  have hopen := openRecord_eq hvalid (openDirectory_found hfound flags) (by simpa using hdir)
  simp only [hfind, hcreate, Bool.false_eq_true, if_false] at hopen
  have hold : volume.record? stat.key name = some e.target := by
    simp [record?, hfound, child?_of_directory? hdir, hfind]
  have hchild : volume.store.child? dir name = some e.target := by
    simp [child?_of_directory? hdir, hfind]
  exact ⟨.of_record (changedAt_opened hlinked hfound name) hold (by simp) (by simpa using hchild)
      (by simpa using htarget) hkind hnlink,
    fun _ => unsharedRecord_single hopen (by simpa using htarget) hnlink _⟩

structure Vacated (volume rest : Volume MemStore) (key : ObjectKey) (dir : ObjectId) (name : String)
    (old : ObjectId) (target : MemObject) : Prop where
  changed : volume.ChangedAt rest key dir name
  record_eq : volume.record? key name = some old
  target_eq : volume.store.object? old = some target
  left : rest.store.object? old = some (withNlink (· - 1) target)
  free : ∃ d, rest.store.directory? dir = some d ∧ d.find? name = none

theorem unsharedRecord_vacated (hlinked : volume.store.Linked) (hvalid : isValidName name = true)
    (hfound : volume.directory? stat.key = some dir) (hdir : volume.store.directory? dir = some d)
    (hfind : d.find? name = some e) (htarget : volume.store.object? e.target = some target)
    (hkind : target.body.isDirectory = false) (hprivate : target.isPrivate = true)
    (hshared : 1 < target.nlink) (hcreate : flags.create = false) :
    ∃ rest, volume.Vacated rest stat.key dir name e.target target ∧ ∀ rounds,
      unsharedRecord stat name (rounds + 1) flags volume =
        unsharedRecord stat name rounds { flags with replace := false } rest := by
  have hopen := openRecord_eq hvalid (openDirectory_found hfound flags) (by simpa using hdir)
  simp only [hfind, hcreate, Bool.false_eq_true, if_false] at hopen
  have hchanged := changedAt_opened hlinked hfound name
  have hrest := hchanged.opened.detach (by simpa using hdir) hfind (by simpa using htarget) hkind
    hshared
  simp only [store_opened] at hrest
  obtain ⟨owner, hleaf⟩ := hlinked.isLeaf hdir hfind htarget hkind
  obtain ⟨_, hwf⟩ := hleaf.wellFormed hlinked
  refine ⟨_, ⟨hrest, ?_, htarget, ?_, d.remove e.offset, ?_, ?_⟩, fun rounds => ?_⟩
  . simp [record?, hfound, child?_of_directory? hdir, hfind]
  . exact (hleaf.object?_detach e.target).trans (by rw [if_pos rfl, unlinked?_of_shared hkind hshared])
  . exact (hleaf.directory?_detach dir).trans (by rw [if_neg (Ne.symm hleaf.ne), if_pos rfl])
  . have hname : e.name = name := by
      simpa using List.find?_some hfind
    rw [hwf.find?_remove (Directory.mem_entries_of_mem_ordinary hleaf.mem), if_pos hname.symm]
  . rw [unsharedRecord_shared hopen (by simpa using htarget) hshared, bind_apply,
      removeRecord_eq hvalid (openDirectory_found hchanged.remembers.directory?_eq .looking)]
    simp only [onStore, focus, store_opened,
      removeEntry_file hlinked hdir hfind htarget hkind hprivate]

namespace Vacated

variable {old : ObjectId} (h : volume.Vacated rest stat.key dir name old target) (hvalid : isValidName name = true)
include h hvalid

theorem remade (hreadOnly : flags.readOnly = false) :
    ∃ record made, volume.Ready made stat.key dir name record ∧ ∀ rounds,
      unsharedRecord stat name (rounds + 1) { flags with replace := false } rest = .ok record made := by
  obtain ⟨d, hdir, hfree⟩ := h.free
  have hparted : volume.Parted rest stat.key name rest.store.nextId := by
    intro old' target' hold htarget _ _
    rw [h.record_eq] at hold
    injection hold with hold
    subst hold
    rw [h.target_eq] at htarget
    injection htarget with htarget
    exact ⟨htarget ▸ h.left, h.changed.nextId_le⟩
  have hmake : ({ flags with replace := false } : SetFlags).onlyExisting = false := by
    simp [SetFlags.onlyExisting, hreadOnly]
  obtain ⟨made, hready, hmade⟩ := unsharedRecord_made h.changed.remembers.directory?_eq h.changed.opened
    hdir hfree hvalid hparted hmake
  exact ⟨_, made, hready, hmade⟩

theorem notRemade (hreadOnly : flags.readOnly = true) (rounds : Nat) :
    unsharedRecord stat name (rounds + 1) { flags with replace := false } rest =
      .error attrNotFound (rest.opened stat.key dir) := by
  obtain ⟨d, hdir, hfree⟩ := h.free
  have hexisting : ({ flags with replace := false } : SetFlags).onlyExisting = true := by
    simp [SetFlags.onlyExisting, hreadOnly]
  have hopen := openRecord_eq hvalid
    (openDirectory_found h.changed.remembers.directory?_eq { flags with replace := false })
    (by simpa using hdir)
  simp only [hfree, hexisting, if_true] at hopen
  exact unsharedRecord_of_error hopen rounds

end Vacated

theorem unshared_shared (hlinked : volume.store.Linked) (hvalid : isValidName name = true)
    (hfound : volume.directory? stat.key = some dir) (hdir : volume.store.directory? dir = some d)
    (hfind : d.find? name = some e) (htarget : volume.store.object? e.target = some target)
    (hkind : target.body.isDirectory = false) (hprivate : target.isPrivate = true)
    (hshared : 1 < target.nlink) (hcreate : flags.create = false) :
    ∃ result, volume.Unshared stat name flags result ∧
      ∀ rounds, unsharedRecord stat name (rounds + 2) flags volume = result := by
  obtain ⟨rest, hvacated, hfirst⟩ := unsharedRecord_vacated hlinked hvalid hfound hdir hfind htarget
    hkind hprivate hshared hcreate
  cases hreadOnly : flags.readOnly with
  | true =>
    have hlooking := openRecord_eq hvalid (openDirectory_found hfound .looking) (by simpa using hdir)
    simp only [hfind] at hlooking
    exact ⟨_, .dropped ⟨_, hlooking⟩ htarget hprivate hshared (by simpa using hvacated.left)
      ⟨hcreate, hreadOnly⟩, fun rounds => (hfirst _).trans (hvacated.notRemade hvalid hreadOnly rounds)⟩
  | false =>
    obtain ⟨record, made, hready, hmade⟩ := hvacated.remade hvalid hreadOnly
    exact ⟨_, .ready hready, fun rounds => (hfirst _).trans (hmade rounds)⟩

theorem unsharedRecord_notPrivate (hlinked : volume.store.Linked) (hvalid : isValidName name = true)
    (hfound : volume.directory? stat.key = some dir) (hdir : volume.store.directory? dir = some d)
    (hfind : d.find? name = some e) (htarget : volume.store.object? e.target = some target)
    (hkind : target.body.isDirectory = false) (hprivate : target.isPrivate = false)
    (hshared : 1 < target.nlink) (hcreate : flags.create = false) :
    ∃ rest, rest.store = volume.store ∧
      ∀ rounds, unsharedRecord stat name (rounds + 1) flags volume =
        .error entryNotPrivate rest := by
  have hopen := openRecord_eq hvalid (openDirectory_found hfound flags) (by simpa using hdir)
  simp only [hfind, hcreate, Bool.false_eq_true, if_false] at hopen
  have hchanged := changedAt_opened hlinked hfound name
  refine ⟨{ (volume.opened stat.key dir).opened stat.key dir with store := volume.store }, rfl,
    fun rounds => ?_⟩
  rw [unsharedRecord_shared hopen (by simpa using htarget) hshared, bind_apply,
    removeRecord_eq hvalid (openDirectory_found hchanged.remembers.directory?_eq .looking)]
  simp only [onStore, focus, store_opened,
    removeEntry_notPrivate hlinked hdir hfind htarget hkind hprivate]

def IsNoDirectory (volume : Volume MemStore) (key : ObjectKey) (name : String) : Prop :=
  isValidName name = true → ∀ ⦃record target⦄, volume.record? key name = some record →
    volume.store.object? record = some target → target.body.isDirectory = false

theorem unshared_absent (hlinked : volume.store.Linked) (hvalid : isValidName name = true)
    (hfound : volume.directory? stat.key = some dir) (hdir : volume.store.directory? dir = some d)
    (hfind : d.find? name = none) (flags : SetFlags) :
    ∃ result, volume.Unshared stat name flags result ∧
      ∀ rounds, unsharedRecord stat name (rounds + 2) flags volume = result := by
  have hnone : volume.record? stat.key name = none := by
    simp [record?, hfound, child?_of_directory? hdir, hfind]
  cases hflags : flags.onlyExisting with
  | false =>
    have hparted : volume.Parted volume stat.key name volume.store.nextId := by
      intro old target hold
      rw [hnone] at hold
      cases hold
    obtain ⟨made, hready, hmade⟩ := unsharedRecord_made hfound (changedAt_opened hlinked hfound name)
      hdir hfind hvalid hparted hflags
    exact ⟨_, .ready hready, fun rounds => hmade (rounds + 1)⟩
  | true =>
    have hopen := openRecord_eq hvalid (openDirectory_found hfound flags) (by simpa using hdir)
    simp only [hfind, hflags, if_true] at hopen
    have hlooking := openRecord_eq hvalid (openDirectory_found hfound .looking) (by simpa using hdir)
    simp only [hfind] at hlooking
    exact ⟨_, .failed (by simp) (by decide) fun _ => ⟨_, hlooking⟩,
      fun _ => unsharedRecord_of_error hopen _⟩

theorem unshared_entry (hlinked : volume.store.Linked) (hvalid : isValidName name = true)
    (hname : volume.IsNoDirectory stat.key name) (hfound : volume.directory? stat.key = some dir)
    (hdir : volume.store.directory? dir = some d) (hfind : d.find? name = some e)
    (flags : SetFlags) :
    ∃ result, volume.Unshared stat name flags result ∧
      ∀ rounds, unsharedRecord stat name (rounds + 2) flags volume = result := by
  have hopen := openRecord_eq hvalid (openDirectory_found hfound flags) (by simpa using hdir)
  have hold : volume.record? stat.key name = some e.target := by
    simp [record?, hfound, child?_of_directory? hdir, hfind]
  cases hcreate : flags.create with
  | true =>
    simp only [hfind, hcreate, if_true] at hopen
    exact ⟨_, .of_ne (by simp) (by decide), fun _ => unsharedRecord_of_error hopen _⟩
  | false =>
    simp only [hfind, hcreate, Bool.false_eq_true, if_false] at hopen
    cases htarget : volume.store.object? e.target with
    | none =>
      exact ⟨_, .of_ne (by simp) (by decide),
        fun _ => unsharedRecord_of_dead hopen (by simpa using htarget) _⟩
    | some target =>
      have hkind := hname hvalid hold htarget
      by_cases hshared : 1 < target.nlink
      . cases hprivate : target.isPrivate with
        | true =>
          exact unshared_shared hlinked hvalid hfound hdir hfind htarget hkind hprivate hshared
            hcreate
        | false =>
          obtain ⟨rest, hstore, hrounds⟩ := unsharedRecord_notPrivate hlinked hvalid hfound hdir
            hfind htarget hkind hprivate hshared hcreate
          exact ⟨_, .of_ne hstore (by decide), fun rounds => hrounds (rounds + 1)⟩
      . obtain ⟨hready, hrounds⟩ := unsharedRecord_alone hlinked hvalid hfound hdir hfind htarget
          hkind (Nat.le_of_not_lt hshared) hcreate
        exact ⟨_, .ready hready, fun rounds => hrounds (rounds + 1)⟩

theorem unshared_found (hlinked : volume.store.Linked) (hvalid : isValidName name = true)
    (hname : volume.IsNoDirectory stat.key name) (hfound : volume.directory? stat.key = some dir)
    (flags : SetFlags) :
    ∃ result, volume.Unshared stat name flags result ∧
      ∀ rounds, unsharedRecord stat name (rounds + 2) flags volume = result := by
  cases hdir : volume.store.directory? dir with
  | none =>
    obtain ⟨err, herr, hopen⟩ :=
      openRecord_of_missing hvalid (openDirectory_found hfound flags) (by simpa using hdir)
    exact ⟨_, .of_ne (by simp) (ne_of_isMissing herr), fun _ => unsharedRecord_of_error hopen _⟩
  | some d =>
    cases hfind : d.find? name with
    | none => exact unshared_absent hlinked hvalid hfound hdir hfind flags
    | some e => exact unshared_entry hlinked hvalid hname hfound hdir hfind flags

theorem unshared (hlinked : volume.store.Linked) (hid : stat.id < 2 ^ 64)
    (hname : volume.IsNoDirectory stat.key name) (flags : SetFlags) :
    ∃ result, volume.Unshared stat name flags result ∧
      ∀ rounds, unsharedRecord stat name (rounds + 2) flags volume = result := by
  cases hvalid : isValidName name with
  | false =>
    obtain ⟨err, hkind, hopen⟩ := openRecord_of_invalid hvalid stat flags volume
    have herr : err ≠ nameIsSubdirectory ∧ err ≠ attrNotFound := by
      constructor <;> (rintro rfl; cases hkind)
    exact ⟨_, .of_ne rfl herr, fun _ => unsharedRecord_of_error hopen _⟩
  | true =>
    cases opening hlinked hid flags with
    | failed err rest herr hstore hopen =>
      have herr : err ≠ nameIsSubdirectory ∧ err ≠ attrNotFound := by
        obtain rfl | herr := herr
        . decide
        . exact ne_of_isMissing herr
      exact ⟨_, .of_ne hstore herr,
        fun _ => unsharedRecord_of_error (openRecord_of_error hvalid hopen) _⟩
    | absent err rest herr hstore hopen =>
      have herr : err ≠ nameIsSubdirectory ∧ err ≠ attrNotFound := by
        obtain rfl | rfl := herr
        . decide
        . decide
      exact ⟨_, .of_ne hstore herr,
        fun _ => unsharedRecord_of_error (openRecord_of_error hvalid hopen) _⟩
    | found dir hfound => exact unshared_found hlinked hvalid hname hfound flags
    | grown dir rest hnone hgrown hallows hopenDir hlooking =>
      obtain ⟨err, rest', herr, hlooking⟩ := hlooking
      cases hflags : flags.onlyExisting with
      | true =>
        obtain ⟨parent, hdir⟩ := hgrown.directory
        have hopen := openRecord_eq hvalid hopenDir hdir
        simp only [Directory.find?_fresh (isDots_of_isValidName hvalid), hflags, if_true] at hopen
        exact ⟨_, .inVain ⟨dir, hgrown⟩ ⟨hallows, hflags⟩
          ⟨err, rest', herr, openRecord_of_error hvalid hlooking⟩,
          fun _ => unsharedRecord_of_error hopen _⟩
      | false =>
        obtain ⟨made, hready, hmade⟩ := unsharedRecord_grown hvalid hnone hgrown hopenDir hflags
        exact ⟨_, .ready hready, fun rounds => hmade (rounds + 1)⟩

end Unshared

section WriteValue

variable {obj : ObjectId} {value : Bytes}

theorem writeValue_of_statError
    (h : ∀ object, volume.store.object? obj = some object → object.format = .legacy)
    (name : String) (value : Bytes) (flags : SetFlags) :
    ∃ err, (err = objectNotFound ∨ err = legacyObject)
      ∧ writeValue obj name value flags volume = .error err volume := by
  obtain ⟨err, herr, hstat⟩ := statWithAttributes_of_error h
  exact ⟨err, herr, by simp [writeValue, onStore, focus, hstat]⟩

theorem writeValue_eq (hobject : volume.store.object? obj = some object)
    (hformat : object.format ≠ .legacy) (name : String) (value : Bytes) (flags : SetFlags) :
    writeValue obj name value flags volume =
      (unsharedRecord object.stat name (volume.store.pendingMoves + 2) flags >>= fun record =>
        onStore (writeImage record (Record.image value))) volume := by
  have hpage : ¬ volume.store.pageSize ≤ Record.headerSize :=
    Nat.not_le.mpr volume.store.headerSize_lt_pageSize
  simp [writeValue, onStore, focus, statWithAttributes_eq hobject hformat, ObjectStore.pageSize,
    hpage, recordRounds, ObjectStore.plannedAnswers]

theorem record?_of_existingRecord (h : existingRecord obj name volume = .ok record rest)
    (hobject : volume.store.object? obj = some object) :
    volume.record? object.stat.key name = some record := by
  obtain ⟨_, object', dir, d, e, hobject', _, hfound, hdir, hfind, rfl, _⟩ :=
    existingRecord_eq_ok_iff.mp h
  rw [hobject] at hobject'
  injection hobject' with hobject'
  subst hobject'
  simp [record?, hfound, child?_of_directory? hdir, hfind]

theorem existingRecord_of_record? (hvalid : isValidName name = true)
    (hobject : volume.store.object? obj = some object) (hformat : object.format ≠ .legacy)
    (hrecord : volume.record? object.stat.key name = some record) :
    ∃ after, existingRecord obj name volume = .ok record after := by
  obtain ⟨dir, hfound, hchild⟩ := Option.bind_eq_some_iff.mp hrecord
  obtain ⟨d, e, hdir, hfind, rfl⟩ := child?_eq_some_iff.mp hchild
  exact ⟨_, existingRecord_found hvalid hobject hformat hfound hdir hfind⟩

structure Stored (volume rest : Volume MemStore) (obj : ObjectId) (name : String) (value : Bytes)
    (dir record : ObjectId) : Prop where
  found : ∃ after, existingRecord obj name rest = .ok record after
  child : rest.store.child? dir name = some record
  file : ∃ object, rest.store.object? record = some object
    ∧ object.body = .file (Record.image value) ∧ object.nlink = 1
  others : volume.store.KeepsOthers rest.store dir name
  parted : ∀ ⦃old after target⦄, existingRecord obj name volume = .ok old after →
    volume.store.object? old = some target → 1 < target.nlink →
      rest.store.object? old = some (withNlink (· - 1) target) ∧ volume.store.nextId ≤ record

theorem Ready.stored (h : volume.Ready rest object.stat.key dir name record)
    (hobject : volume.store.object? obj = some object) (hformat : object.format ≠ .legacy)
    (hlinked : volume.store.Linked) (hname : volume.IsNoDirectory object.stat.key name)
    (value : Bytes) :
    volume.Stored { rest with store := rest.store.setContent record (Record.image value) } obj name
      value dir record := by
  obtain ⟨file, old, hfile, hbody, hnlink⟩ := h.file
  have hkind : file.body.isDirectory = false := by
    simp [hbody, Body.isDirectory]
  have hvalid := h.changed.linked.isValidName_of_child? h.child hfile hkind
  have hchanged := h.changed.setContent h.child hfile hbody (Nat.le_of_eq hnlink)
    (Record.image value)
  have hchild : (rest.store.setContent record (Record.image value)).child? dir name =
      some record := by
    rw [child?_setContent hfile hkind]
    exact h.child
  have hcontent := object?_setContent hfile (Record.image value)
  constructor
  . obtain ⟨object', hobject', hkey, hformat'⟩ := hchanged.identities hobject
    refine existingRecord_of_record? hvalid hobject' (by rw [hformat']; exact hformat) ?_
    rw [hkey, record?, hchanged.remembers.directory?_eq]
    exact hchild
  . exact hchild
  . have hafter := hcontent record
    rw [if_pos rfl] at hafter
    exact ⟨_, hafter, rfl, hnlink⟩
  . exact hchanged.others
  . intro old' after target hexisting htarget hshared
    have hrecord := record?_of_existingRecord hexisting hobject
    obtain ⟨hafter, hnext⟩ := h.parted hrecord htarget (hname hvalid hrecord htarget) hshared
    refine ⟨?_, hnext⟩
    have hne : old' ≠ record := Nat.ne_of_lt (Nat.lt_of_lt_of_le (hlinked.id_lt htarget) hnext)
    rw [hcontent, if_neg hne]
    exact hafter

theorem writeValue_of_ready (hready : volume.Ready rest object.stat.key dir name record)
    (hobject : volume.store.object? obj = some object) (hformat : object.format ≠ .legacy)
    (hfault : volume.store.writeFault = none)
    (hrecord : ∀ rounds, unsharedRecord object.stat name (rounds + 2) flags volume =
      .ok record rest) :
    writeValue obj name value flags volume =
      .ok () { rest with store := rest.store.setContent record (Record.image value) } := by
  obtain ⟨file, old, hfile, hbody, _⟩ := hready.file
  have hwrite := writeImage_eq hready.changed.linked.ids_distinct hfile
    (hready.changed.writeFault_eq.trans hfault) hbody (Record.image value)
  rw [writeValue_eq hobject hformat, bind_apply, hrecord]
  simp only [onStore, focus, hwrite]

theorem isNoDirectory_of_existingRecord (hobject : volume.store.object? obj = some object)
    (hformat : object.format ≠ .legacy)
    (hname : ∀ ⦃record after target⦄, existingRecord obj name volume = .ok record after →
      volume.store.object? record = some target → target.body.isDirectory = false) :
    volume.IsNoDirectory object.stat.key name := by
  intro hvalid record target hrecord htarget
  obtain ⟨after, hexisting⟩ := existingRecord_of_record? hvalid hobject hformat hrecord
  exact hname hexisting htarget

inductive Written (volume : Volume MemStore) (obj : ObjectId) (name : String) (value : Bytes)
    (flags : SetFlags) : EStateM.Result Error (Volume MemStore) Unit → Prop
  | failed {err : Error} {rest : Volume MemStore} (hstore : rest.store = volume.store)
      (herr : err ≠ nameIsSubdirectory)
      (hfound : err = attrNotFound →
        ∃ rest', existingRecord obj name volume = .error attrNotFound rest') :
      Written volume obj name value flags (.error err rest)
  | inVain {rest : Volume MemStore} (hobjects : rest.store.objects ≠ volume.store.objects)
      (hflags : flags.allowsCreate = true ∧ flags.onlyExisting = true)
      (hlooking : ∃ err rest', (err = noAttrRoot ∨ err = noDirectory)
        ∧ existingRecord obj name volume = .error err rest') :
      Written volume obj name value flags (.error attrNotFound rest)
  | dropped {rest : Volume MemStore} (hobjects : rest.store.objects ≠ volume.store.objects)
      (hold : ∃ old after target, existingRecord obj name volume = .ok old after
        ∧ volume.store.object? old = some target ∧ target.isPrivate = true ∧ 1 < target.nlink)
      (hflags : flags.create = false ∧ flags.readOnly = true) :
      Written volume obj name value flags (.error attrNotFound rest)
  | stored {dir record : ObjectId} {rest : Volume MemStore}
      (h : volume.Stored rest obj name value dir record) :
      Written volume obj name value flags (.ok () rest)

theorem written (hlinked : volume.store.Linked) (hobj : obj < 2 ^ 64)
    (hfault : volume.store.writeFault = none)
    (hname : ∀ ⦃record after target⦄, existingRecord obj name volume = .ok record after →
      volume.store.object? record = some target → target.body.isDirectory = false)
    (value : Bytes) (flags : SetFlags) :
    volume.Written obj name value flags (writeValue obj name value flags volume) := by
  by_cases hlegacy : ∀ object, volume.store.object? obj = some object → object.format = .legacy
  . obtain ⟨err, herr, hwrite⟩ := writeValue_of_statError hlegacy name value flags
    rw [hwrite]
    obtain rfl | rfl := herr
    . exact .failed rfl (by decide) (fun h => absurd h (by decide))
    . exact .failed rfl (by decide) (fun h => absurd h (by decide))
  . simp only [not_forall] at hlegacy
    obtain ⟨object, hobject, hformat⟩ := hlegacy
    have hid : object.stat.id < 2 ^ 64 := by
      rw [show object.stat.id = object.id from rfl, id_of_object? hobject]
      exact hobj
    have hnoDir := isNoDirectory_of_existingRecord hobject hformat hname
    obtain ⟨result, hunshared, hrounds⟩ := unshared hlinked hid hnoDir flags
    have hlooking := existingRecord_eq hobject hformat name
    cases hunshared with
    | failed hstore herr hfound =>
      rw [writeValue_eq hobject hformat, bind_apply, hrounds]
      exact .failed hstore herr fun h => hlooking ▸ hfound h
    | inVain hgrown hflags hmissing =>
      rw [writeValue_eq hobject hformat, bind_apply, hrounds]
      obtain ⟨dir, hgrown⟩ := hgrown
      exact .inVain (hgrown.objects_ne hlinked) hflags (hlooking ▸ hmissing)
    | dropped hold htarget hprivate hshared hafter hflags =>
      rw [writeValue_eq hobject hformat, bind_apply, hrounds]
      obtain ⟨rest', hold⟩ := hold
      refine .dropped ?_ ⟨_, rest', _, hlooking.trans hold, htarget, hprivate, hshared⟩ hflags
      intro hobjects
      rw [object?_congr hobjects, htarget] at hafter
      injection hafter with hafter
      have hless := congrArg MemObject.nlink hafter
      simp only [withNlink] at hless
      omega
    | ready hready =>
      rw [writeValue_of_ready hready hobject hformat hfault hrounds]
      exact .stored (hready.stored hobject hformat hlinked hnoDir value)

end WriteValue

end Volume

end AttrTree
