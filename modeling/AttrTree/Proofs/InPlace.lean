import AttrTree.Proofs.Tree

/-!
This module contains the operations of the store in memory as sequences of steps. Each step changes the
store in place and may find that what it needs is gone, after other steps have left their marks. On a
tree this never happens: the steps make what the operations make that look at everything first.
-/

namespace AttrTree

namespace Action

variable {σ α β : Type}

theorem query_bind_eq_update {ask : σ → Except Error β} {next : β → Action σ Unit}
    {change : β → σ → Except Error σ} {s : σ}
    (h : ∀ b, ask s = .ok b → next b s = update (change b) s) :
    (query ask >>= next) s = update (fun s => ask s >>= fun b => change b s) s := by
  rw [bind_apply, query, update]
  cases hask : ask s with
  | error e => rfl
  | ok b => exact h b hask

theorem ofExcept_bind_eq_update {result : Except Error β} {next : β → Action σ Unit}
    {change : β → σ → Except Error σ} {s : σ}
    (h : ∀ b, result = .ok b → next b s = update (change b) s) :
    (ofExcept result >>= next) s = update (fun s => result >>= fun b => change b s) s :=
  query_bind_eq_update h

theorem throwIf_eq_update {c : Prop} [Decidable c] {e : Error} {next : β → Action σ Unit}
    {next' : σ → β → Except Error σ} {act : Action σ Unit} {change : σ → Except Error σ} {s : σ}
    (h : ¬ c → act s = update change s) :
    (if c then (throw e : Action σ β) >>= next else act) s =
      update (fun s => if c then (throw e : Except Error β) >>= next' s else change s) s := by
  split
  . rfl
  . next hc => rw [h hc]

theorem throwUnless_eq_update {c : Prop} [Decidable c] {e : Error} {next : β → Action σ Unit}
    {next' : σ → β → Except Error σ} {act : Action σ Unit} {change : σ → Except Error σ} {s : σ}
    (h : c → act s = update change s) :
    (if c then act else (throw e : Action σ β) >>= next) s =
      update (fun s => if c then change s else (throw e : Except Error β) >>= next' s) s := by
  split
  . next hc => rw [h hc]
  . rfl

theorem update_pure (f : σ → σ) (s : σ) :
    update (fun s => (pure (f s) : Except Error σ)) s = .ok () (f s) :=
  rfl

def FailsWithin (R : σ → σ → Prop) (act : Action σ α) : Prop :=
  ∀ s e s', act s = .error e s' → R s s'

namespace FailsWithin

variable {R : σ → σ → Prop}

theorem update (hR : ∀ s, R s s) (change : σ → Except Error σ) :
    FailsWithin R (Action.update change) := by
  intro s e s' h
  unfold Action.update at h
  split at h
  . cases h
  . cases h
    exact hR s

theorem transact (hR : ∀ s, R s s) (change : σ → Except Error (α × σ)) :
    FailsWithin R (Action.transact change) := by
  intro s e s' h
  unfold Action.transact at h
  split at h
  . cases h
  . cases h
    exact hR s

theorem query (hR : ∀ s, R s s) (ask : σ → Except Error α) : FailsWithin R (Action.query ask) := by
  intro s e s' h
  unfold Action.query at h
  split at h
  . cases h
  . cases h
    exact hR s

theorem modify (f : σ → σ) : FailsWithin R (modify f : Action σ PUnit) := by
  intro s e s' h
  cases h

theorem discard {act : Action σ α} (hact : FailsWithin R act) :
    FailsWithin R (Functor.discard act) := by
  intro s e s' h
  rw [discard_apply] at h
  cases hresult : act s with
  | ok a middle =>
    rw [hresult] at h
    cases h
  | error e' middle =>
    rw [hresult] at h
    cases h
    exact hact s e s' hresult

theorem onFirst {act : Action σ α} (hact : FailsWithin R act) :
    FailsWithin (fun s s' : σ × β => R s.1 s'.1 ∧ s'.2 = s.2) (Action.onFirst act) := by
  rintro ⟨s, b⟩ e ⟨s', b'⟩ h
  unfold Action.onFirst at h
  cases hresult : act s with
  | ok a middle =>
    simp only [hresult] at h
    cases h
  | error e' middle =>
    simp only [hresult] at h
    cases h
    exact ⟨hact s e s' hresult, rfl⟩

end FailsWithin

end Action

def Body.extend (size : Nat) : Body → Body
  | .file content => .file (if content.length < size then content.resize size else content)
  | .directory dir => .directory dir

def Body.overlay (start : Nat) (data : Bytes) : Body → Body
  | .file content => .file (content.overlay start data)
  | .directory dir => .directory dir

theorem Body.overlay_extend (body : Body) (start : Nat) (data : Bytes) :
    (body.extend (start + data.length)).overlay start data = body.write start data := by
  cases body <;> rfl

namespace MemStore

open Action

namespace InPlace

section Steps

def fetch (id : ObjectId) : Action MemStore MemObject :=
  .query (·.getObject id)

def fetchDirectory (id : ObjectId) : Action MemStore Directory :=
  .query (·.getDirectory id)

def change (id : ObjectId) (f : MemObject → MemObject) : Action MemStore Unit := do
  let _ ← fetch id
  modify (·.mapObject id f)

def changeEntries (id : ObjectId) (f : Directory → Directory) : Action MemStore Unit := do
  let _ ← fetchDirectory id
  modify (·.mapDirectory id f)

def assign (given : Bool) (id : ObjectId) (f : MemObject → MemObject) : Action MemStore Unit := do
  if given then
    modify (·.mapObject id f)

def allocate : Action MemStore (ObjectId × UInt32) := do
  let store ← get
  modify fun store => { store with
    nextId := store.nextId + 1
    nextGeneration := store.nextGeneration + 1 }
  return (store.nextId, store.nextGeneration)

def place (object : MemObject) (store : MemStore) : MemStore :=
  { store with
    objects := store.objects.filter (·.id < object.id)
      ++ object :: store.objects.filter (object.id < ·.id) }

end Steps

section Operations

def vacancy (parent : ObjectId) (name : String) : Action MemStore MemObject := do
  Action.ofExcept (checkName name)
  let owner ← fetch parent
  let dir ← Action.ofOption parentNotDirectory owner.body.directory?
  if dir.contains name then
    throw entryExists
  return owner

/-- The new object has its `id` before it has its entry, and a directory has its entry before the `nlink` of its
parent grows. -/
def addChild (parent : ObjectId) (name : String) (mode : UInt32) (nlink : Nat)
    (body : ObjectId → Body) (isDirectory : Bool) : Action MemStore ObjectId := do
  let store ← get
  let owner ← vacancy parent name
  let (id, generation) ← allocate
  modify (place (store.child owner.isPrivate mode nlink body id generation))
  changeEntries parent (·.insert name id)
  if isDirectory then
    change parent fun o => { o with nlink := o.nlink + 1 }
  return id

def create (parent : ObjectId) (name : String) (mode : UInt32) : Action MemStore ObjectId :=
  addChild parent name (Mode.withType Mode.fileType mode) 1 (fun _ => .file []) false

def mkdir (parent : ObjectId) (name : String) (mode : UInt32) : Action MemStore ObjectId :=
  addChild parent name (Mode.withType Mode.directoryType mode) 2
    (fun self => .directory (.fresh self parent)) true

def link (target parent : ObjectId) (name : String) : Action MemStore Unit := do
  Action.ofExcept (checkName name)
  if (← fetch target).body.isDirectory then
    throw linkToDirectory
  if (← fetchDirectory parent).contains name then
    throw entryExists
  changeEntries parent (·.insert name target)
  change target fun o => { o with nlink := o.nlink + 1 }

def unlink (parent : ObjectId) (name : String) : Action MemStore Unit := do
  let e ← Action.query (·.getEntry parent name)
  if (← fetch e.target).body.isDirectory then
    throw unlinkDirectory
  changeEntries parent (·.remove e.offset)
  change e.target fun o => { o with nlink := o.nlink - 1 }
  if (← fetch e.target).nlink = 0 then
    modify (·.eraseObject e.target)

def rmdir (parent : ObjectId) (name : String) : Action MemStore Unit := do
  let store ← get
  modify fun store => { store with rmdirFault := false }
  if store.rmdirFault then
    throw injectedRmdirFault
  let e ← Action.query (·.getEntry parent name)
  unless (← fetchDirectory e.target).isEmpty do
    throw directoryNotEmpty
  changeEntries parent (·.remove e.offset)
  change parent fun o => { o with nlink := o.nlink - 1 }
  modify (·.eraseObject e.target)

def setAttr (id : ObjectId) (attrs : AttrChange) : Action MemStore Unit := do
  let object ← fetch id
  if attrs.fields.has .size && object.body.isDirectory then
    throw resizeDirectory
  assign (attrs.fields.has .size) id fun o => { o with body := o.body.resize attrs.size }
  assign (attrs.fields.has .uid) id fun o => { o with uid := attrs.uid }
  assign (attrs.fields.has .gid) id fun o => { o with gid := attrs.gid }
  assign (attrs.fields.has .ctime) id fun o => { o with ctime := attrs.ctime }
  assign (attrs.fields.has .mode) id fun o =>
    { o with mode := Mode.withType (Mode.type o.mode) attrs.mode }

def putBytes (id : ObjectId) (start : Nat) (data : Bytes) : Action MemStore Unit := do
  if (← fetch id).body.isDirectory then
    throw writeDirectory
  modify (·.mapObject id fun o => { o with body := o.body.extend (start + data.length) })
  modify (·.mapObject id fun o => { o with body := o.body.overlay start data })

def writePage (id : ObjectId) (index offset : Nat) (data : Bytes) : Action MemStore Unit := do
  let store ← get
  if store.pageSize < offset + data.length then
    throw pageBoundary
  if store.writeFault = some 0 then
    modify fun store => { store with writeFault := none }
    throw injectedWriteFault
  modify fun store => { store with writeFault := store.writeFault.map (· - 1) }
  putBytes id (index * store.pageSize + offset) data

def setVisible (parent : ObjectId) (name : String) (visible : Bool) : Action MemStore Unit := do
  let dir ← fetchDirectory parent
  let e ← Action.ofOption entryNotFound (dir.find? name)
  modify (·.mapDirectory parent (·.setVisible e.offset visible))

def entryName (parent : ObjectId) (slot : DirSlot) : Action MemStore (Option String) := do
  let store ← get
  if 0 < store.pendingMoves then
    modify fun store => { store with pendingMoves := store.pendingMoves - 1 }
    return none
  return (← fetchDirectory parent).nameAt? slot

def readPage (id : ObjectId) (index : Nat) : Action (MemStore × Bytes) Unit := do
  let object ← onFirst (fetch id)
  match object.body with
  | .directory _ => throw readDirectory
  | .file content =>
    modify fun (store, buffer) => (store, List.replicate buffer.length 0)
    let (store, buffer) ← get
    let start := index * store.pageSize
    if start < content.length then
      let stop := min (start + buffer.length) content.length
      modify fun (store, buffer) =>
        (store, buffer.overlay 0 ((content.drop start).take (stop - start)))

end Operations

section Agreement

variable {store : MemStore} {id parent target x : ObjectId} {name : String}

theorem fetch_apply {object : MemObject} (h : store.object? id = some object) :
    fetch id store = .ok object store := by
  rw [fetch, query, getObject_eq_ok_iff.mpr h]

theorem change_apply (h : (store.object? id).isSome) (f : MemObject → MemObject) :
    change id f store = .ok () (store.mapObject id f) := by
  obtain ⟨object, hobject⟩ := Option.isSome_iff_exists.mp h
  rw [change, bind_apply, fetch_apply hobject]
  rfl

theorem change_eq (f : MemObject → MemObject) (store : MemStore) :
    change id f store =
      Action.update (fun store => do
        let _ ← store.getObject id
        return store.mapObject id f) store := by
  unfold change
  refine query_bind_eq_update fun _ _ => ?_
  rfl

theorem changeEntries_apply {dir : Directory} (h : store.getDirectory id = .ok dir)
    (f : Directory → Directory) :
    changeEntries id f store = .ok () (store.mapDirectory id f) := by
  rw [changeEntries, bind_apply, fetchDirectory, query, h]
  rfl

theorem mapDirectory_eq (store : MemStore) (id : ObjectId) (f : Directory → Directory) :
    store.mapDirectory id f = store.mapObject id (MemObject.mapDirectory f) :=
  rfl

theorem isSome_object?_mapDirectory (store : MemStore) (id : ObjectId) (f : Directory → Directory)
    (x : ObjectId) : ((store.mapDirectory id f).object? x).isSome = (store.object? x).isSome := by
  rw [mapDirectory_eq, object?_mapObject _ _ (MemObject.id_mapDirectory f)]
  split
  . rw [Option.isSome_map]
  . rfl

theorem link_eq (store : MemStore) :
    link target parent name store = Action.update (·.link target parent name) store := by
  unfold link MemStore.link
  refine ofExcept_bind_eq_update fun _ _ => ?_
  refine query_bind_eq_update fun object hobject => ?_
  refine throwIf_eq_update fun _ => ?_
  refine query_bind_eq_update fun dir hdir => ?_
  refine throwIf_eq_update fun _ => ?_
  rw [getObject_eq_ok_iff] at hobject
  simp only [bind_apply, changeEntries_apply hdir]
  rw [change_apply]
  . rfl
  . rw [isSome_object?_mapDirectory, hobject]
    rfl

theorem unlink_eq (store : MemStore) :
    unlink parent name store = Action.update (·.unlink parent name) store := by
  unfold unlink MemStore.unlink
  refine query_bind_eq_update fun e he => ?_
  refine query_bind_eq_update fun target htarget => ?_
  refine throwIf_eq_update fun hkind => ?_
  obtain ⟨dir, hdir, _⟩ := getEntry_eq_ok_iff.mp he
  rw [getObject_eq_ok_iff] at htarget
  -- The target is a file, so that the directory that loses the entry is another object.
  have hmid : (store.mapDirectory parent (·.remove e.offset)).object? e.target = some target := by
    rw [mapDirectory_eq, object?_mapObject _ _ (MemObject.id_mapDirectory _), htarget]
    cases hbody : target.body with
    | directory dir' => simp [hbody, Body.isDirectory] at hkind
    | file content => simp [MemObject.mapDirectory, hbody]
  have hlast : ((store.mapDirectory parent (·.remove e.offset)).mapObject e.target
      (withNlink (· - 1))).object? e.target = some (withNlink (· - 1) target) := by
    rw [object?_mapObject _ _ (id_withNlink _), if_pos rfl, hmid]
    rfl
  have hlive : ((store.mapDirectory parent (·.remove e.offset)).object? e.target).isSome := by
    rw [hmid]
    rfl
  have hchange := change_apply hlive (withNlink (· - 1))
  simp only [bind_apply, changeEntries_apply (getDirectory_eq_ok_iff.mpr hdir)]
  rw [show (fun o : MemObject => { o with nlink := o.nlink - 1 }) = withNlink (· - 1) from rfl,
    hchange]
  simp only [fetch_apply hlast]
  rw [update_pure, dropLink, id_of_object? htarget]
  by_cases hnlink : target.nlink ≤ 1
  . have hzero : (withNlink (· - 1) target).nlink = 0 := by
      simp only [withNlink]
      omega
    rw [if_pos hzero, if_pos hnlink, modify_apply, eraseObject_mapObject _ _ (id_withNlink _)]
  . have hpos : (withNlink (· - 1) target).nlink ≠ 0 := by
      simp only [withNlink]
      omega
    rw [if_neg hpos, if_neg hnlink]
    rfl

theorem rmdir_eq (store : MemStore) : rmdir parent name store = rmdirFaulty parent name store := by
  unfold rmdir rmdirFaulty
  simp only [bind_apply, get_apply, modify_apply]
  cases hfault : store.rmdirFault with
  | true => rfl
  | false =>
    have hsame : { store with rmdirFault := false } = store := by
      rw [← hfault]
    rw [hsame, if_neg Bool.false_ne_true, if_neg Bool.false_ne_true]
    unfold MemStore.rmdir
    refine query_bind_eq_update fun e he => ?_
    refine query_bind_eq_update fun dir' _ => ?_
    refine throwUnless_eq_update fun _ => ?_
    obtain ⟨dir, hdir, _⟩ := getEntry_eq_ok_iff.mp he
    simp only [bind_apply, changeEntries_apply (getDirectory_eq_ok_iff.mpr hdir)]
    rw [change_apply]
    . rfl
    . obtain ⟨owner, howner, _⟩ := directory?_eq_some_iff.mp hdir
      rw [isSome_object?_mapDirectory, howner]
      rfl

theorem assign_apply (given : Bool) (f : MemObject → MemObject) (store : MemStore) :
    assign given id f store = .ok () (store.mapObject id fun o => if given then f o else o) := by
  cases given with
  | true => rfl
  | false => simp [assign, mapObject]

theorem ite_set {α : Type} (set : MemObject → α → MemObject) (field : MemObject → α)
    (hset : ∀ o, set o (field o) = o) (given : Bool) (value : α) (o : MemObject) :
    (if given then set o value else o) = set o (if given then value else field o) := by
  -- A field that is not given is as if it was set to what it is.
  cases given with
  | true => rfl
  | false => exact (hset o).symm

theorem setAttr_eq (attrs : AttrChange) (store : MemStore) :
    setAttr id attrs store = Action.update (·.setAttr id attrs) store := by
  unfold setAttr MemStore.setAttr
  refine query_bind_eq_update fun object hobject => ?_
  refine throwIf_eq_update fun _ => ?_
  simp only [bind_apply, assign_apply]
  -- Field by field, since the terms grow with each step that is split into its cases.
  simp only [ite_set (fun o body => { o with body }) (·.body) fun _ => rfl,
    ite_set (fun o uid => { o with uid }) (·.uid) fun _ => rfl,
    ite_set (fun o gid => { o with gid }) (·.gid) fun _ => rfl,
    ite_set (fun o ctime => { o with ctime }) (·.ctime) fun _ => rfl,
    ite_set (fun o mode => { o with mode }) (·.mode) fun _ => rfl]
  rw [update_pure, mapObject_mapObject, mapObject_mapObject, mapObject_mapObject,
    mapObject_mapObject]
  . rfl
  all_goals
    intro o
    rfl

theorem writePage_eq_bind (index offset : Nat) (data : Bytes) (store : MemStore) :
    store.writePage id index offset data = do
      let object ← store.getObject id
      if object.body.isDirectory then
        throw writeDirectory
      return store.mapObject id fun o =>
        { o with body := o.body.write (index * store.pageSize + offset) data } := by
  unfold MemStore.writePage getContent
  cases store.getObject id with
  | error e => rfl
  | ok object =>
    simp only [bind, Except.bind]
    cases object.body <;> rfl

theorem putBytes_eq (index offset : Nat) (data : Bytes) (store : MemStore) :
    putBytes id (index * store.pageSize + offset) data store =
      Action.update (·.writePage id index offset data) store := by
  unfold putBytes
  simp only [writePage_eq_bind]
  refine query_bind_eq_update fun object hobject => ?_
  refine throwIf_eq_update fun _ => ?_
  simp only [bind_apply, modify_apply]
  rw [update_pure, mapObject_mapObject]
  . simp only [Body.overlay_extend]
  . intro o
    rfl

theorem writePage_eq (index offset : Nat) (data : Bytes) (store : MemStore) :
    writePage id index offset data store = writePageFaulty id index offset data store := by
  unfold writePage writePageFaulty
  simp only [bind_apply, get_apply]
  split
  . rfl
  . cases hfault : store.writeFault with
    | none =>
      have hsame : { store with writeFault := none } = store := by
        rw [← hfault]
      simp only [bind_apply, modify_apply, hfault, Option.map_none, hsame, reduceCtorEq, if_false]
      exact putBytes_eq index offset data store
    | some count =>
      cases count with
      | zero => rfl
      | succ count =>
        simp only [bind_apply, modify_apply, hfault, Option.map_some, Nat.add_sub_cancel,
          Option.some.injEq, Nat.add_one_ne_zero, if_false]
        exact putBytes_eq index offset data _

theorem setVisible_eq (visible : Bool) (store : MemStore) :
    setVisible parent name visible store = Action.update (·.setVisible parent name visible) store := by
  unfold setVisible MemStore.setVisible getEntry
  cases hdir : store.getDirectory parent with
  | error e =>
    simp only [bind_apply, fetchDirectory, query, update, hdir]
    rfl
  | ok dir =>
    simp only [bind_apply, fetchDirectory, query, update, hdir]
    cases hfind : dir.find? name with
    | none =>
      simp only [ofOption_none, bind, Except.bind, hfind]
    | some e =>
      simp only [ofOption_some, bind, Except.bind, hfind]
      rfl

theorem entryName_eq (slot : DirSlot) (store : MemStore) :
    entryName parent slot store = entryNameMoving parent slot store := by
  unfold entryName entryNameMoving
  simp only [bind_apply, get_apply]
  cases hmoves : store.pendingMoves with
  | zero =>
    simp only [Nat.lt_irrefl, if_false, fetchDirectory, query, MemStore.entryName, bind_apply]
    cases store.getDirectory parent <;> rfl
  | succ moves =>
    simp only [Nat.zero_lt_succ, if_true, bind_apply, modify_apply, hmoves, Nat.add_sub_cancel]
    rfl

theorem place_eq_addObject (object : ObjectId → UInt32 → MemObject)
    (hid : ∀ id generation, (object id generation).id = id)
    (hfresh : ∀ o ∈ store.objects, o.id < store.nextId) :
    place (object store.nextId store.nextGeneration) { store with
      nextId := store.nextId + 1
      nextGeneration := store.nextGeneration + 1 } = store.addObject object := by
  have hbefore : store.objects.filter (·.id < store.nextId) = store.objects := by
    rw [List.filter_eq_self]
    intro o ho
    exact decide_eq_true (hfresh o ho)
  -- The new number is greater than all others, so that its place is the last one.
  have hbehind : store.objects.filter (store.nextId < ·.id) = [] := by
    rw [List.filter_eq_nil_iff]
    intro o ho
    simp only [decide_eq_true_eq]
    exact Nat.not_lt_of_lt (hfresh o ho)
  simp only [place, addObject, hid, hbefore, hbehind]

theorem vacancy_cases (store : MemStore) (parent : ObjectId) (name : String) :
    (∃ e, vacancy parent name store = .error e store
      ∧ ∀ mode nlink body, store.addChild parent name mode nlink body = .error e)
    ∨ (isValidName name = true ∧ ∃ owner dir, vacancy parent name store = .ok owner store
      ∧ store.object? parent = some owner ∧ owner.body = .directory dir
      ∧ dir.contains name = false) := by
  unfold vacancy MemStore.addChild
  cases hname : checkName name with
  | error e => exact .inl ⟨e, rfl, fun _ _ _ => rfl⟩
  | ok _ =>
    cases hobject : store.object? parent with
    | none =>
      have hget : store.getObject parent = .error objectNotFound := by
        rw [getObject, hobject]
      refine .inl ⟨objectNotFound, ?_, fun _ _ _ => ?_⟩
      . simp only [bind_apply, ofExcept_ok, fetch, query, hget]
      . rw [hget]
        rfl
    | some owner =>
      have hget := getObject_eq_ok_iff.mpr hobject
      simp only [bind_apply, ofExcept_ok, fetch_apply hobject, hget]
      cases hbody : owner.body with
      | file content =>
        refine .inl ⟨parentNotDirectory, rfl, fun _ _ _ => ?_⟩
        simp [bind, Except.bind, hbody]
      | directory dir =>
        cases hcontains : dir.contains name with
        | true =>
          refine .inl ⟨entryExists, ?_, fun _ _ _ => ?_⟩
          . simp [Body.directory?, hcontains]
          . simp [bind, Except.bind, hbody, hcontains]
        | false =>
          refine .inr ⟨checkName_eq_ok_iff.mp hname, owner, dir, ?_, rfl, hbody, hcontains⟩
          simp [Body.directory?, hcontains]

theorem addChild_apply (hfresh : ∀ o ∈ store.objects, o.id < store.nextId) {owner : MemObject}
    {dir : Directory} (hvacancy : vacancy parent name store = .ok owner store)
    (howner : store.object? parent = some owner) (hbody : owner.body = .directory dir)
    (mode : UInt32) (nlink : Nat) (body : ObjectId → Body) (isDirectory : Bool) :
    addChild parent name mode nlink body isDirectory store =
      .ok store.nextId (store.attach (store.child owner.isPrivate mode nlink body) parent name
        (if isDirectory then 1 else 0)) := by
  have hplace := place_eq_addObject (store.child owner.isPrivate mode nlink body) (fun _ _ => rfl)
    hfresh
  -- The parent is still there when the new object has its place.
  have hparent : (store.addObject (store.child owner.isPrivate mode nlink body)).object? parent =
      some owner := by
    rw [object?_addObject, howner]
    rfl
  have hentry := changeEntries_apply
    (getDirectory_eq_ok_iff.mpr (directory?_of_object? hparent hbody)) (·.insert name store.nextId)
  have hattach : (store.addObject (store.child owner.isPrivate mode nlink body)).mapDirectory parent
      (·.insert name store.nextId) =
        store.attach (store.child owner.isPrivate mode nlink body) parent name 0 := by
    rw [attach, withEntry_zero]
    rfl
  rw [hattach] at hentry
  unfold addChild
  simp only [bind_apply, hvacancy, allocate, get_apply, modify_apply, pure_apply, hplace, hentry]
  cases isDirectory with
  | false => rfl
  | true =>
    have hlive : ((store.attach (store.child owner.isPrivate mode nlink body) parent name 0).object?
        parent).isSome := by
      rw [attach, object?_mapObject _ _ (id_withEntry _ _ _), if_pos rfl, hparent]
      rfl
    have hlink : ((store.attach (store.child owner.isPrivate mode nlink body) parent name 0).mapObject
        parent fun o => { o with nlink := o.nlink + 1 }) =
          store.attach (store.child owner.isPrivate mode nlink body) parent name 1 :=
      mapObject_mapObject _ _ fun o => id_withEntry ..
    simp only [if_true, bind_apply, change_apply hlive, pure_apply, hlink]

theorem create_eq (hfresh : ∀ o ∈ store.objects, o.id < store.nextId) (mode : UInt32) :
    create parent name mode store = Action.transact (·.create parent name mode) store := by
  obtain ⟨e, hvacancy, herror⟩ | ⟨hvalid, owner, dir, hvacancy, howner, hbody, hfree⟩ :=
    vacancy_cases store parent name
  . simp only [create, addChild, bind_apply, get_apply, hvacancy, transact, MemStore.create, herror]
  . rw [create, addChild_apply hfresh hvacancy howner hbody]
    symm
    rw [transact_eq_ok_iff, create_eq_ok_iff]
    exact ⟨hvalid, owner, dir, howner, hbody, hfree, rfl⟩

theorem mkdir_eq (hfresh : ∀ o ∈ store.objects, o.id < store.nextId) (mode : UInt32) :
    mkdir parent name mode store = Action.transact (·.mkdir parent name mode) store := by
  obtain ⟨e, hvacancy, herror⟩ | ⟨hvalid, owner, dir, hvacancy, howner, hbody, hfree⟩ :=
    vacancy_cases store parent name
  . simp only [mkdir, addChild, bind_apply, get_apply, hvacancy, transact, MemStore.mkdir, herror]
    rfl
  . rw [mkdir, addChild_apply hfresh hvacancy howner hbody]
    symm
    rw [transact_eq_ok_iff, mkdir_eq_ok_iff]
    exact ⟨hvalid, owner, dir, howner, hbody, hfree, rfl⟩

theorem overlay_replicate_eq_window (content : Bytes) {start : Nat} (n : Nat)
    (hstart : start < content.length) :
    Bytes.overlay (List.replicate n 0) 0
      ((content.drop start).take (min (start + n) content.length - start)) =
        content.window start n := by
  have htake : (content.drop start).take (min (start + n) content.length - start) =
      (content.drop start).take n := by
    rw [List.take_eq_take_iff, List.length_drop]
    omega
  rw [htake, Bytes.overlay_eq, Bytes.window, Bytes.resize, List.rightpad]
  simp only [List.take_zero, List.nil_append, Nat.zero_add, List.drop_replicate]

theorem readPage_eq (index : Nat) (store : MemStore) (buffer : Bytes) :
    readPage id index (store, buffer) =
      match store.readPage id index buffer.length with
      | .ok page => .ok () (store, page)
      | .error e => .error e (store, buffer) := by
  unfold readPage MemStore.readPage getContent
  cases hobject : store.object? id with
  | none =>
    have hget : store.getObject id = .error objectNotFound := by
      rw [getObject, hobject]
    simp only [bind_apply, onFirst, fetch, query, hget]
    rfl
  | some object =>
    have hget := getObject_eq_ok_iff.mpr hobject
    simp only [bind_apply, onFirst, fetch_apply hobject, hget]
    cases hbody : object.body with
    | directory dir => simp [bind, Except.bind, hbody]
    | file content =>
      simp only [bind_apply, modify_apply, get_apply, List.length_replicate]
      by_cases hstart : index * store.pageSize < content.length
      . simp only [hstart, if_true, modify_apply, overlay_replicate_eq_window _ _ hstart, bind,
          Except.bind, hbody, pure, Except.pure]
      . have hwindow : content.window (index * store.pageSize) buffer.length =
            List.replicate buffer.length 0 := by
          rw [Bytes.window, List.drop_eq_nil_of_le (Nat.not_lt.mp hstart)]
          simp [Bytes.resize, List.rightpad]
        simp only [hstart, if_false, bind, Except.bind, hbody, pure, Except.pure, hwindow]
        rfl

end Agreement

end InPlace

def Op.inPlace : Op → Action MemStore Unit
  | create parent name mode => discard (InPlace.create parent name mode)
  | mkdir parent name mode => discard (InPlace.mkdir parent name mode)
  | link target parent name => InPlace.link target parent name
  | unlink parent name => InPlace.unlink parent name
  | rmdir parent name => InPlace.rmdir parent name
  | setAttr id attrs => InPlace.setAttr id attrs
  | writePage id index offset data => InPlace.writePage id index offset data
  | markPrivate id => InPlace.change id fun o => { o with isPrivate := true }
  | setFormat id format => InPlace.change id fun o => { o with format }
  | setVisible parent name visible => InPlace.setVisible parent name visible
  | entryName parent slot => discard (InPlace.entryName parent slot)
  | planMoves count => modify (·.planMoves count)
  | planWriteFault count => modify (·.planWriteFault count)
  | planRmdirFault => modify (·.planRmdirFault)

inductive Call where
  | operate (op : Op)
  | lookup (parent : ObjectId) (name : String)
  | locateEntry (parent : ObjectId) (position : Nat)
  | readPage (id : ObjectId) (index : Nat)
  deriving DecidableEq, Repr

namespace Call

def perform : Call → Action (MemStore × Bytes) Unit
  | operate op => onFirst op.perform
  | lookup parent name => onFirst (discard (.query (·.lookup parent name)))
  | locateEntry parent position => onFirst (discard (.query (·.locateEntry parent position)))
  | readPage id index => do
    let (_, buffer) ← get
    let page ← onFirst (.query (·.readPage id index buffer.length))
    modify fun (store, _) => (store, page)

def inPlace : Call → Action (MemStore × Bytes) Unit
  | operate op => onFirst op.inPlace
  | lookup parent name => onFirst (discard do
    return ((← InPlace.fetchDirectory parent).find? name).map (·.target))
  | locateEntry parent position => onFirst (discard do
    return (← InPlace.fetchDirectory parent).locate? position)
  | readPage id index => InPlace.readPage id index

end Call

def SameButPlans (store store' : MemStore) : Prop :=
  store' = { store with
    pendingMoves := store'.pendingMoves
    writeFault := store'.writeFault
    rmdirFault := store'.rmdirFault }

section Failures

variable {store rest : MemStore} {e : Error}

theorem Op.inPlace_eq (hfresh : ∀ o ∈ store.objects, o.id < store.nextId) (op : Op) :
    op.inPlace store = op.perform store := by
  cases op with
  | create parent name mode =>
    rw [inPlace, perform, discard_apply, discard_apply, InPlace.create_eq hfresh]
  | mkdir parent name mode =>
    rw [inPlace, perform, discard_apply, discard_apply, InPlace.mkdir_eq hfresh]
  | link target parent name => exact InPlace.link_eq store
  | unlink parent name => exact InPlace.unlink_eq store
  | rmdir parent name => exact InPlace.rmdir_eq store
  | setAttr id attrs => exact InPlace.setAttr_eq attrs store
  | writePage id index offset data => exact InPlace.writePage_eq index offset data store
  | markPrivate id => exact InPlace.change_eq _ store
  | setFormat id format => exact InPlace.change_eq _ store
  | setVisible parent name visible => exact InPlace.setVisible_eq visible store
  | entryName parent slot =>
    rw [inPlace, perform, discard_apply, discard_apply, InPlace.entryName_eq]
  | planMoves count => rfl
  | planWriteFault count => rfl
  | planRmdirFault => rfl

theorem Call.inPlace_eq (hfresh : ∀ o ∈ store.objects, o.id < store.nextId) (buffer : Bytes)
    (call : Call) : call.inPlace (store, buffer) = call.perform (store, buffer) := by
  cases call with
  | operate op => simp only [inPlace, perform, onFirst, Op.inPlace_eq hfresh]
  | lookup parent name =>
    simp only [inPlace, perform, onFirst, discard_apply, bind_apply, InPlace.fetchDirectory, query,
      MemStore.lookup]
    cases store.getDirectory parent <;> rfl
  | locateEntry parent position =>
    simp only [inPlace, perform, onFirst, discard_apply, bind_apply, InPlace.fetchDirectory, query,
      MemStore.locateEntry]
    cases store.getDirectory parent <;> rfl
  | readPage id index =>
    simp only [inPlace, perform, InPlace.readPage_eq, bind_apply, get_apply, onFirst, query]
    cases store.readPage id index buffer.length <;> rfl

theorem SameButPlans.refl (store : MemStore) : store.SameButPlans store :=
  rfl

theorem Op.failsWithin_perform (op : Op) : FailsWithin SameButPlans op.perform := by
  cases op with
  | create parent name mode => exact .discard (.transact .refl _)
  | mkdir parent name mode => exact .discard (.transact .refl _)
  | link target parent name => exact .update .refl _
  | unlink parent name => exact .update .refl _
  | rmdir parent name =>
    intro store e rest h
    simp only [perform, rmdirFaulty] at h
    split at h
    . cases h
      rfl
    . exact FailsWithin.update .refl _ store e rest h
  | setAttr id attrs => exact .update .refl _
  | writePage id index offset data =>
    intro store e rest h
    simp only [perform, writePageFaulty] at h
    split at h
    . cases h
      exact .refl store
    . split at h
      . exact FailsWithin.update .refl _ store e rest h
      . cases h
        rfl
      . have hcounted := FailsWithin.update SameButPlans.refl _ _ e rest h
        rw [SameButPlans] at hcounted ⊢
        rw [hcounted]
  | markPrivate id => exact .update .refl _
  | setFormat id format => exact .update .refl _
  | setVisible parent name visible => exact .update .refl _
  | entryName parent slot =>
    refine .discard fun store e rest h => ?_
    unfold entryNameMoving at h
    split at h
    . exact FailsWithin.query .refl _ store e rest h
    . cases h
  | planMoves count => exact .modify _
  | planWriteFault count => exact .modify _
  | planRmdirFault => exact .modify _

theorem Call.failsWithin_perform (call : Call) :
    FailsWithin (fun s s' : MemStore × Bytes => s.1.SameButPlans s'.1 ∧ s'.2 = s.2) call.perform := by
  cases call with
  | operate op => exact .onFirst op.failsWithin_perform
  | lookup parent name => exact .onFirst (.discard (.query .refl _))
  | locateEntry parent position => exact .onFirst (.discard (.query .refl _))
  | readPage id index =>
    rintro ⟨store, buffer⟩ e rest h
    simp only [perform, bind_apply, get_apply] at h
    split at h
    . cases h
    . next hread =>
      cases h
      exact FailsWithin.onFirst (.query SameButPlans.refl _) _ _ _ hread

theorem IsTree.fresh (h : store.IsTree) : ∀ o ∈ store.objects, o.id < store.nextId := by
  intro o ho
  cases hfind : store.object? o.id with
  | none =>
    have hnone := List.find?_eq_none.mp hfind o ho
    simp at hnone
  | some object => exact h.id_lt hfind

theorem failed_call_changes_nothing (h : store.IsTree) (buffer : Bytes) (call : Call) :
    call.inPlace (store, buffer) = call.perform (store, buffer)
    ∧ ∀ e rest, call.inPlace (store, buffer) = .error e rest →
      store.SameButPlans rest.1 ∧ rest.2 = buffer := by
  have heq := call.inPlace_eq h.fresh buffer
  refine ⟨heq, fun e rest hfails => ?_⟩
  rw [heq] at hfails
  exact call.failsWithin_perform _ e rest hfails

theorem isTree_performAll {ops : List Op} (hops : ∀ op ∈ ops, op.SparesLinks) (pageSize : Nat)
    (format : ObjectFormat) (hpage : Record.headerSize < pageSize) :
    ((performAll ops).after (empty pageSize format hpage)).IsTree := by
  have hkeeps : Keeps (fun store => store.Linked ∧ store.Whole) (performAll ops) :=
    keeps_performAll fun op hop => op.keeps_of_keptBySteps keptBySteps_whole (.inl (hops op hop))
  obtain ⟨hlinked, hwhole⟩ := hkeeps.holds _
    ⟨linked_empty pageSize format hpage, whole_empty pageSize format hpage⟩
  exact hwhole.isTree hlinked

def plannedOps : List Op :=
  [.mkdir 1 "d" 0o755, .create 2 "f" 0o644, .planRmdirFault]

theorem failed_call_changes_nothing_rmdir :
    let store := (performAll plannedOps).after (empty 16 .current (by decide))
    store.IsTree ∧ ∃ rest,
      (Call.operate (.rmdir 1 "d")).inPlace (store, [7]) = .error injectedRmdirFault rest
      ∧ rest.1.rmdirFault ≠ store.rmdirFault ∧ store.SameButPlans rest.1 ∧ rest.2 = [7] := by
  intro store
  have htree : store.IsTree := by
    apply isTree_performAll
    intro op hop
    simp only [plannedOps, List.mem_cons, List.not_mem_nil, or_false] at hop
    rcases hop with rfl | rfl | rfl
    . trivial
    . trivial
    . trivial
  have hfails : (Call.operate (.rmdir 1 "d")).inPlace (store, [7]) =
      .error injectedRmdirFault ({ store with rmdirFault := false }, [7]) := by
    rfl
  have hrest := (failed_call_changes_nothing htree [7] (.operate (.rmdir 1 "d"))).2 _ _ hfails
  exact ⟨htree, _, hfails, by decide +kernel, hrest⟩

/-- Without the tree a failure can do harm: a new object takes the place of the root if it is given its
number, and is no directory to make an entry in. -/
example : ((Op.create 1 "f" 0o644).inPlace.after
    { empty 16 .current (by decide) with nextId := 1 }).directory? rootId = none := by
  decide

end Failures

end MemStore

end AttrTree
