import AttrTree.Proofs.Linked

/-!
This module contains the operations that add an object to the store in memory under a new name: what
they change, and that the accounts of links stay right.
-/

namespace AttrTree

theorem Mode.type_withType {type : UInt32} (h : type &&& Mode.typeMask = type) (mode : UInt32) :
    Mode.type (Mode.withType type mode) = type := by
  have hdistrib (a b c : UInt32) : (a ||| b) &&& c = (a &&& c) ||| (b &&& c) := by
    apply UInt32.toBitVec_inj.mp
    ext i hi
    simp [Bool.and_or_distrib_right]
  rw [Mode.type, Mode.withType, hdistrib, h, UInt32.and_assoc, UInt32.not_and_self, UInt32.and_zero,
    UInt32.or_zero]

namespace MemStore

variable {store : MemStore} {parent x : ObjectId} {name : String}

theorem checkName_eq_ok_iff {u : Unit} : checkName name = .ok u ↔ isValidName name = true := by
  unfold checkName
  split <;> simp_all

def child (store : MemStore) (isPrivate : Bool) (mode : UInt32) (nlink : Nat)
    (body : ObjectId → Body) (id : ObjectId) (generation : UInt32) : MemObject where
  id := id
  generation := generation
  format := store.format
  mode := mode
  nlink := nlink
  uid := 0
  gid := 0
  ctime := 0
  isPrivate := isPrivate
  body := body id

def withEntry (name : String) (target : ObjectId) (extra : Nat) (object : MemObject) : MemObject :=
  { object.mapDirectory (·.insert name target) with nlink := object.nlink + extra }

def attach (store : MemStore) (object : ObjectId → UInt32 → MemObject) (parent : ObjectId)
    (name : String) (extra : Nat) : MemStore :=
  (store.addObject object).mapObject parent (withEntry name store.nextId extra)

theorem id_withEntry (name : String) (target : ObjectId) (extra : Nat) (object : MemObject) :
    (withEntry name target extra object).id = object.id := by
  simp [withEntry]

theorem body_withEntry {object : MemObject} {dir : Directory} (h : object.body = .directory dir)
    (target : ObjectId) (extra : Nat) :
    (withEntry name target extra object).body = .directory (dir.insert name target) := by
  simp [withEntry, MemObject.mapDirectory_of_directory h]

theorem mode_withEntry (name : String) (target : ObjectId) (extra : Nat) (object : MemObject) :
    (withEntry name target extra object).mode = object.mode := by
  unfold withEntry MemObject.mapDirectory
  split <;> rfl

theorem nlink_withEntry (name : String) (target : ObjectId) (extra : Nat) (object : MemObject) :
    (withEntry name target extra object).nlink = object.nlink + extra :=
  rfl

theorem withEntry_zero (name : String) (target : ObjectId) :
    withEntry name target 0 = MemObject.mapDirectory (·.insert name target) := by
  funext object
  unfold withEntry MemObject.mapDirectory
  split <;> rfl

section Results

open Action

theorem addChild_eq_ok_iff {mode : UInt32} {nlink : Nat} {body : ObjectId → Body}
    {result : ObjectId × MemStore} :
    store.addChild parent name mode nlink body = .ok result ↔
      isValidName name = true ∧ ∃ object dir, store.object? parent = some object
        ∧ object.body = .directory dir ∧ dir.contains name = false
        ∧ result = (store.nextId,
          store.attach (store.child object.isPrivate mode nlink body) parent name 0) := by
  have hentry (object : MemObject) :
      (store.addObject (store.child object.isPrivate mode nlink body)).mapDirectory parent
        (·.insert name store.nextId)
        = store.attach (store.child object.isPrivate mode nlink body) parent name 0 := by
    simp only [attach, withEntry_zero]
    rfl
  simp only [addChild, exceptBind_eq_ok_iff, checkName_eq_ok_iff, getObject_eq_ok_iff,
    exists_const]
  apply and_congr_right
  intro _
  apply exists_congr
  intro object
  constructor
  . rintro ⟨hobject, h⟩
    split at h
    . simp at h
    . next dir hbody =>
      split at h
      . simp at h
      . next hfree =>
        rw [exceptPure_eq_ok_iff] at h
        exact ⟨dir, hobject, hbody, by simpa using hfree, h.trans (by rw [← hentry]; rfl)⟩
  . rintro ⟨dir, hobject, hbody, hfree, rfl⟩
    refine ⟨hobject, ?_⟩
    simp only [hbody, hfree, Bool.false_eq_true, if_false, ← hentry]
    rfl

theorem create_eq_ok_iff {mode : UInt32} {result : ObjectId × MemStore} :
    store.create parent name mode = .ok result ↔
      isValidName name = true ∧ ∃ object dir, store.object? parent = some object
        ∧ object.body = .directory dir ∧ dir.contains name = false
        ∧ result = (store.nextId, store.attach (store.child object.isPrivate
          (Mode.withType Mode.fileType mode) 1 fun _ => .file []) parent name 0) :=
  addChild_eq_ok_iff

theorem mkdir_eq_ok_iff {mode : UInt32} {result : ObjectId × MemStore} :
    store.mkdir parent name mode = .ok result ↔
      isValidName name = true ∧ ∃ object dir, store.object? parent = some object
        ∧ object.body = .directory dir ∧ dir.contains name = false
        ∧ result = (store.nextId, store.attach (store.child object.isPrivate
          (Mode.withType Mode.directoryType mode) 2 fun self => .directory (.fresh self parent))
          parent name 1) := by
  have hlink (object : ObjectId → UInt32 → MemObject) :
      ((store.attach object parent name 0).mapObject parent
        fun o => { o with nlink := o.nlink + 1 }) = store.attach object parent name 1 :=
    mapObject_mapObject _ _ fun o => id_withEntry ..
  simp only [mkdir, exceptBind_eq_ok_iff, addChild_eq_ok_iff, exceptPure_eq_ok_iff]
  constructor
  . rintro ⟨_, ⟨hvalid, object, dir, hobject, hbody, hfree, rfl⟩, rfl⟩
    exact ⟨hvalid, object, dir, hobject, hbody, hfree, by rw [hlink]⟩
  . rintro ⟨hvalid, object, dir, hobject, hbody, hfree, rfl⟩
    exact ⟨_, ⟨hvalid, object, dir, hobject, hbody, hfree, rfl⟩, by rw [hlink]⟩

end Results

structure IsNew (store : MemStore) (parent : ObjectId) (extra : Nat) (object : MemObject) :
    Prop where
  id_eq : object.id = store.nextId
  type_eq : Mode.type object.mode = object.body.type
  body : (∃ content, object.body = .file content ∧ object.nlink = 1 ∧ extra = 0)
    ∨ (object.body = .directory (.fresh store.nextId parent) ∧ object.nlink = 2 ∧ extra = 1)

theorem isNew_file (store : MemStore) (parent : ObjectId) (isPrivate : Bool) (mode : UInt32) :
    store.IsNew parent 0 (store.child isPrivate (Mode.withType Mode.fileType mode) 1
      (fun _ => .file []) store.nextId store.nextGeneration) where
  id_eq := rfl
  type_eq := Mode.type_withType (by decide) mode
  body := .inl ⟨[], rfl, rfl, rfl⟩

theorem isNew_directory (store : MemStore) (parent : ObjectId) (isPrivate : Bool) (mode : UInt32) :
    store.IsNew parent 1 (store.child isPrivate (Mode.withType Mode.directoryType mode) 2
      (fun self => .directory (.fresh self parent)) store.nextId store.nextGeneration) where
  id_eq := rfl
  type_eq := Mode.type_withType (by decide) mode
  body := .inr ⟨rfl, rfl, rfl⟩

theorem IsNew.ordinary_eq_nil {extra : Nat} {object : MemObject}
    (h : store.IsNew parent extra object) : object.body.ordinary = [] := by
  rcases h.body with ⟨content, hbody, _⟩ | ⟨hbody, _⟩
  . rw [hbody]
    rfl
  . rw [hbody]
    rfl

section Attach

variable {object : ObjectId → UInt32 → MemObject} {extra : Nat} {owner : MemObject}

theorem Linked.object?_nextId (h : store.Linked) : store.object? store.nextId = none := by
  cases hnext : store.object? store.nextId with
  | none => rfl
  | some object => exact absurd (h.id_lt hnext) (Nat.lt_irrefl _)

theorem Linked.ne_nextId {object : MemObject} (h : store.Linked)
    (hx : store.object? x = some object) : x ≠ store.nextId :=
  Nat.ne_of_lt (h.id_lt hx)

theorem Linked.hasDistinctIds_addObject (h : store.Linked)
    (hid : (object store.nextId store.nextGeneration).id = store.nextId) :
    (store.addObject object).HasDistinctIds := by
  rw [HasDistinctIds, addObject, List.map_append, List.nodup_append]
  refine ⟨h.ids_distinct, by simp, ?_⟩
  intro a ha b hb
  obtain ⟨o, ho, rfl⟩ := List.mem_map.mp ha
  simp only [List.map_cons, List.map_nil, List.mem_singleton] at hb
  rw [hb, hid]
  exact h.ne_nextId (object?_of_mem h.ids_distinct ho)

theorem Linked.linkCount_nextId (h : store.Linked) : store.linkCount store.nextId = 0 := by
  rw [linkCount_eq_zero_iff]
  intro object hobject e he heq
  have hx := object?_of_mem h.ids_distinct hobject
  cases hbody : object.body with
  | file content => simp [hbody, Body.ordinary] at he
  | directory dir =>
    rw [hbody] at he
    have hlt := h.target_lt (directory?_of_object? hx hbody) e he
    exact Nat.lt_irrefl _ (heq ▸ hlt)

theorem object?_attach (h : store.Linked)
    (hid : (object store.nextId store.nextGeneration).id = store.nextId)
    (howner : store.object? parent = some owner) (name : String) (extra : Nat) (x : ObjectId) :
    (store.attach object parent name extra).object? x =
      if x = store.nextId then some (object store.nextId store.nextGeneration)
      else if x = parent then some (withEntry name store.nextId extra owner)
      else store.object? x := by
  have hne := h.ne_nextId howner
  rw [attach, object?_mapObject _ _ (id_withEntry _ _ _), object?_addObject, hid]
  by_cases hnext : x = store.nextId
  . subst hnext
    simp [Ne.symm hne, h.object?_nextId]
  . by_cases hparent : x = parent
    . simp [hparent, hne, howner]
    . simp [hnext, hparent, Ne.symm hnext]

theorem exists_object?_attach (h : store.Linked)
    (hid : (object store.nextId store.nextGeneration).id = store.nextId)
    (howner : store.object? parent = some owner) (name : String) (extra : Nat) {o : MemObject}
    (hx : store.object? x = some o) :
    ∃ o', (store.attach object parent name extra).object? x = some o' := by
  rw [object?_attach h hid howner]
  split
  . exact ⟨_, rfl⟩
  . split
    . exact ⟨_, rfl⟩
    . exact ⟨o, hx⟩

theorem linkCount_attach (h : store.Linked)
    (hnew : store.IsNew parent extra (object store.nextId store.nextGeneration)) {dir : Directory}
    (howner : store.object? parent = some owner) (hbody : owner.body = .directory dir)
    (name : String) (x : ObjectId) :
    (store.attach object parent name extra).linkCount x =
      store.linkCount x + if x = store.nextId then 1 else 0 := by
  have hids := h.hasDistinctIds_addObject hnew.id_eq
  have hadded : (store.addObject object).object? parent = some owner := by
    simp [object?_addObject, howner]
  have hsum := linkCount_mapObject hids hadded (withEntry name store.nextId extra) x
  obtain ⟨_, hwf, _⟩ := h.placed (directory?_of_object? howner hbody)
  have hfresh : (object store.nextId store.nextGeneration).linksTo x = 0 := by
    simp [MemObject.linksTo, hnew.ordinary_eq_nil]
  have hgrown : (withEntry name store.nextId extra owner).linksTo x =
      owner.linksTo x + if x = store.nextId then 1 else 0 := by
    simp only [MemObject.linksTo, body_withEntry hbody, hbody, Body.ordinary,
      Directory.ordinary_insert hwf.first_le, List.countP_append, List.countP_singleton, beq_iff_eq]
    congr 1
    simp only [eq_comm]
  rw [linkCount_addObject, hfresh, hgrown] at hsum
  rw [attach]
  omega

theorem directory?_attach (h : store.Linked)
    (hid : (object store.nextId store.nextGeneration).id = store.nextId) {dir : Directory}
    (howner : store.object? parent = some owner) (hbody : owner.body = .directory dir)
    (name : String) (extra : Nat) (x : ObjectId) :
    (store.attach object parent name extra).directory? x =
      if x = store.nextId then (object store.nextId store.nextGeneration).body.directory?
      else if x = parent then some (dir.insert name store.nextId)
      else store.directory? x := by
  unfold directory?
  rw [object?_attach h hid howner]
  split
  . rfl
  . split
    . simp [body_withEntry hbody, Body.directory?]
    . rfl

theorem mem_ordinary_attach (h : store.Linked)
    (hnew : store.IsNew parent extra (object store.nextId store.nextGeneration)) {dir : Directory}
    (howner : store.object? parent = some owner) (hbody : owner.body = .directory dir)
    {d : Directory} {e : DirEntry}
    (hd : (store.attach object parent name extra).directory? x = some d) (he : e ∈ d.ordinary) :
    (∃ d', store.directory? x = some d' ∧ e ∈ d'.ordinary) ∨ e.target = store.nextId := by
  have hdir := directory?_of_object? howner hbody
  obtain ⟨_, hwf, _⟩ := h.placed hdir
  rw [directory?_attach h hnew.id_eq howner hbody] at hd
  split at hd
  . rw [← Body.ordinary_of_directory? hd, hnew.ordinary_eq_nil] at he
    simp at he
  . split at hd
    . next hparent =>
      injection hd with hd
      rw [← hd, Directory.ordinary_insert hwf.first_le, List.mem_append, List.mem_singleton] at he
      rcases he with he | rfl
      . exact .inl ⟨dir, hparent ▸ hdir, he⟩
      . exact .inr rfl
    . exact .inl ⟨d, hd, he⟩

theorem isFile_attach (h : store.Linked)
    (hid : (object store.nextId store.nextGeneration).id = store.nextId) {dir : Directory}
    (howner : store.object? parent = some owner) (hbody : owner.body = .directory dir)
    (name : String) (extra : Nat) (x : ObjectId) :
    (store.attach object parent name extra).isFile x =
      if x = store.nextId then !(object store.nextId store.nextGeneration).body.isDirectory
      else store.isFile x := by
  unfold isFile
  rw [object?_attach h hid howner]
  split
  . rfl
  . split
    . next hx => simp [hx, howner, body_withEntry hbody, hbody, Body.isDirectory]
    . rfl

theorem exists_entry_attach (h : store.Linked)
    (hid : (object store.nextId store.nextGeneration).id = store.nextId) {dir : Directory}
    (howner : store.object? parent = some owner) (hbody : owner.body = .directory dir)
    (name : String) (extra : Nat) {d : Directory} {e : DirEntry} (hd : store.directory? x = some d)
    (he : e ∈ d.ordinary) :
    ∃ d', (store.attach object parent name extra).directory? x = some d' ∧ e ∈ d'.ordinary := by
  obtain ⟨o, ho, _⟩ := directory?_eq_some_iff.mp hd
  rw [directory?_attach h hid howner hbody, if_neg (h.ne_nextId ho)]
  split
  . next hx =>
    subst hx
    rw [directory?_of_object? howner hbody] at hd
    injection hd with hd
    subst hd
    obtain ⟨_, hwf, _⟩ := h.placed (directory?_of_object? howner hbody)
    refine ⟨_, rfl, ?_⟩
    rw [Directory.ordinary_insert hwf.first_le]
    exact List.mem_append_left _ he
  . exact ⟨d, hd, he⟩

theorem directoryLinks_attach (h : store.Linked)
    (hid : (object store.nextId store.nextGeneration).id = store.nextId) {dir : Directory}
    (howner : store.object? parent = some owner) (hbody : owner.body = .directory dir)
    (name : String) (extra : Nat) {d : Directory} (hd : store.directory? x = some d) :
    (store.attach object parent name extra).directoryLinks d = store.directoryLinks d := by
  apply List.countP_congr
  intro e he
  have hne : e.target ≠ store.nextId := Nat.ne_of_lt (h.target_lt hd e he)
  rw [isFile_attach h hid howner hbody, if_neg hne]

theorem Linked.id_lt_attach (h : store.Linked)
    (hnew : store.IsNew parent extra (object store.nextId store.nextGeneration))
    (howner : store.object? parent = some owner) {o : MemObject}
    (hx : (store.attach object parent name extra).object? x = some o) : x < store.nextId + 1 := by
  rw [object?_attach h hnew.id_eq howner] at hx
  split at hx
  . next heq => exact heq ▸ Nat.lt_succ_self _
  . split at hx
    . next heq =>
      rw [heq]
      exact Nat.lt_succ_of_lt (h.id_lt howner)
    . exact Nat.lt_succ_of_lt (h.id_lt hx)

section Kept

variable {dir : Directory} (h : store.Linked)
  (hnew : store.IsNew parent extra (object store.nextId store.nextGeneration))
  (howner : store.object? parent = some owner) (hbody : owner.body = .directory dir)

include h hnew howner hbody

theorem Linked.target_lt_attach {d : Directory} {e : DirEntry}
    (hx : (store.attach object parent name extra).directory? x = some d) (he : e ∈ d.ordinary) :
    e.target < store.nextId + 1 := by
  rcases mem_ordinary_attach h hnew howner hbody hx he with ⟨d', hd', he'⟩ | htarget
  . exact Nat.lt_succ_of_lt (h.target_lt hd' e he')
  . exact htarget ▸ Nat.lt_succ_self _

theorem Linked.mode_type_attach {o : MemObject}
    (hx : (store.attach object parent name extra).object? x = some o) :
    Mode.type o.mode = o.body.type := by
  rw [object?_attach h hnew.id_eq howner] at hx
  split at hx
  . injection hx with hx
    exact hx ▸ hnew.type_eq
  . split at hx
    . injection hx with hx
      rw [← hx, mode_withEntry, body_withEntry hbody, h.mode_type howner, hbody]
      rfl
    . exact h.mode_type hx

theorem Linked.file_nlink_attach {o : MemObject}
    (hx : (store.attach object parent name extra).object? x = some o)
    (hfile : o.body.isDirectory = false) :
    o.nlink = (store.attach object parent name extra).linkCount x ∧ 0 < o.nlink := by
  rw [linkCount_attach h hnew howner hbody]
  rw [object?_attach h hnew.id_eq howner] at hx
  split at hx
  . next heq =>
    injection hx with hx
    rcases hnew.body with ⟨content, hcontent, hone, _⟩ | ⟨hdir, _⟩
    . subst heq
      rw [← hx, hone, h.linkCount_nextId]
      simp
    . rw [← hx, hdir] at hfile
      simp [Body.isDirectory] at hfile
  . next hne =>
    split at hx
    . injection hx with hx
      rw [← hx, body_withEntry hbody] at hfile
      simp [Body.isDirectory] at hfile
    . rw [if_neg hne]
      exact h.file_nlink hx hfile

theorem Linked.directoryLinks_attach_insert :
    (store.attach object parent name extra).directoryLinks (dir.insert name store.nextId) =
      store.directoryLinks dir + extra := by
  -- A new subdirectory is one more link of its parent, and a new file is none.
  have hdir := directory?_of_object? howner hbody
  obtain ⟨_, hwf, _⟩ := h.placed hdir
  have hold := directoryLinks_attach h hnew.id_eq howner hbody name extra hdir
  have hlast := isFile_attach h hnew.id_eq howner hbody name extra store.nextId
  unfold directoryLinks at hold
  rw [directoryLinks, Directory.ordinary_insert hwf.first_le, List.countP_append, hold,
    List.countP_singleton, hlast]
  rcases hnew.body with ⟨content, hcontent, _, hextra⟩ | ⟨hnewDir, _, hextra⟩
  . simp [hcontent, hextra, directoryLinks, Body.isDirectory]
  . simp [hnewDir, hextra, directoryLinks, Body.isDirectory]

theorem Linked.directory_nlink_attach {o : MemObject} {d : Directory}
    (hx : (store.attach object parent name extra).object? x = some o)
    (hd : o.body = .directory d) :
    o.nlink = 2 + (store.attach object parent name extra).directoryLinks d := by
  rw [object?_attach h hnew.id_eq howner] at hx
  split at hx
  . injection hx with hx
    rcases hnew.body with ⟨content, hcontent, _⟩ | ⟨hdir, htwo, _⟩
    . rw [← hx, hcontent] at hd
      simp at hd
    . rw [← hx, hdir] at hd
      injection hd with hd
      rw [← hx, htwo, ← hd]
      rfl
  . split at hx
    . injection hx with hx
      rw [← hx, body_withEntry hbody] at hd
      injection hd with hd
      rw [← hx, nlink_withEntry, h.directory_nlink howner hbody, ← hd,
        h.directoryLinks_attach_insert hnew howner hbody, Nat.add_assoc]
    . rw [directoryLinks_attach h hnew.id_eq howner hbody name extra (directory?_of_object? hx hd)]
      exact h.directory_nlink hx hd

theorem Linked.isPlaced_attach {id parent' : ObjectId} (hne : id ≠ store.nextId)
    (hp : store.IsPlaced id parent') :
    (store.attach object parent name extra).IsPlaced id parent' := by
  apply hp.of_entries
  . rw [linkCount_attach h hnew howner hbody, if_neg hne, Nat.add_zero]
  . intro d e hd he htarget
    obtain ⟨d', hd', he'⟩ := exists_entry_attach h hnew.id_eq howner hbody name extra hd he
    exact ⟨d', hd', e, he', htarget⟩

theorem Linked.isPlaced_attach_nextId :
    (store.attach object parent name extra).IsPlaced store.nextId parent := by
  -- The place of a new object is the entry that its parent has got.
  obtain ⟨_, hwf, _⟩ := h.placed (directory?_of_object? howner hbody)
  have hentry := directory?_attach h hnew.id_eq howner hbody name extra parent
  rw [if_neg (h.ne_nextId howner), if_pos rfl] at hentry
  rw [IsPlaced, if_neg (Nat.ne_of_gt h.root_lt), linkCount_attach h hnew howner hbody,
    h.linkCount_nextId]
  refine ⟨h.id_lt howner, by simp, _, hentry,
    { offset := dir.nextOffset, name, target := store.nextId, visible := true }, ?_, rfl⟩
  rw [Directory.ordinary_insert hwf.first_le]
  simp

theorem Linked.placed_attach (hvalid : isValidName name = true) (hfree : dir.contains name = false)
    {d : Directory} (hx : (store.attach object parent name extra).directory? x = some d) :
    ∃ parent', d.WellFormed x parent'
      ∧ (store.attach object parent name extra).IsPlaced x parent' := by
  rw [directory?_attach h hnew.id_eq howner hbody] at hx
  split at hx
  . next heq =>
    subst heq
    rcases hnew.body with ⟨content, hcontent, _⟩ | ⟨hdir, _⟩
    . rw [hcontent] at hx
      simp [Body.directory?] at hx
    . rw [hdir] at hx
      injection hx with hx
      exact ⟨parent, hx ▸ Directory.WellFormed.fresh _ _,
        h.isPlaced_attach_nextId hnew howner hbody⟩
  . next hne =>
    split at hx
    . next heq =>
      subst heq
      injection hx with hx
      obtain ⟨parent', hwf, hp⟩ := h.placed (directory?_of_object? howner hbody)
      exact ⟨parent', hx ▸ hwf.insert hvalid hfree _,
        h.isPlaced_attach hnew howner hbody hne hp⟩
    . obtain ⟨parent', hwf, hp⟩ := h.placed hx
      exact ⟨parent', hwf, h.isPlaced_attach hnew howner hbody hne hp⟩

theorem Linked.attach (hvalid : isValidName name = true) (hfree : dir.contains name = false) :
    (store.attach object parent name extra).Linked where
  ids_distinct :=
    hasDistinctIds_mapObject (h.hasDistinctIds_addObject hnew.id_eq) parent (id_withEntry _ _ _)
  root_lt := Nat.lt_succ_of_lt h.root_lt
  id_lt := h.id_lt_attach hnew howner
  target_lt := fun hx _ he => h.target_lt_attach hnew howner hbody hx he
  mode_type := h.mode_type_attach hnew howner hbody
  file_nlink := h.file_nlink_attach hnew howner hbody
  directory_nlink := h.directory_nlink_attach hnew howner hbody
  placed := h.placed_attach hnew howner hbody hvalid hfree

end Kept

end Attach

end MemStore

end AttrTree
