import AttrTree.Store.Interface
import AttrTree.Record.Header

/-!
This module contains the store that lives in memory. Its state is the list of its objects in the
order of their numbers, the numbers to give out next, and the faults that a rehearsal asked for.
-/

namespace AttrTree

inductive Body where
  | file (content : Bytes)
  | directory (dir : Directory)
  deriving DecidableEq, Repr, Inhabited

namespace Body

def isDirectory : Body → Bool
  | .file _ => false
  | .directory _ => true

def size : Body → Nat
  | .file content => content.length
  | .directory _ => 0

end Body

structure MemObject where
  id : ObjectId
  generation : UInt32
  format : ObjectFormat
  mode : UInt32
  nlink : Nat
  uid : UInt32
  gid : UInt32
  ctime : UInt64
  isPrivate : Bool
  body : Body
  deriving DecidableEq, Repr, Inhabited

namespace MemObject

def stat (object : MemObject) : ObjectStat where
  id := object.id
  generation := object.generation
  format := object.format
  mode := object.mode
  nlink := object.nlink
  size := object.body.size
  uid := object.uid
  gid := object.gid
  ctime := object.ctime
  isPrivate := object.isPrivate

def root (id : ObjectId) (format : ObjectFormat) : MemObject where
  id := id
  generation := 0
  format := format
  mode := Mode.withType Mode.directoryType 0o755
  nlink := 2
  uid := 0
  gid := 0
  ctime := 0
  isPrivate := false
  body := .directory (.fresh id id)

end MemObject

structure MemStore where
  objects : List MemObject
  nextId : ObjectId
  nextGeneration : UInt32
  pageSize : Nat
  format : ObjectFormat
  /-- How many times the next lookups of an entry's name find the entry moved. -/
  pendingMoves : Nat
  /-- After how many more writes one of them fails. -/
  writeFault : Option Nat
  /-- Whether the next removal of a directory fails. -/
  rmdirFault : Bool
  /-- A page has room for the header of a record and more. -/
  headerSize_lt_pageSize : Record.headerSize < pageSize
  deriving DecidableEq, Repr

namespace MemStore

def objectNotFound : Error := ⟨.notFound, "object not found"⟩
def notDirectory : Error := ⟨.notDirectory, "object is not a directory"⟩

def rootId : ObjectId := 1

def defaultPageSize : Nat := 4096

def empty (pageSize : Nat) (format : ObjectFormat) (h : Record.headerSize < pageSize) :
    MemStore where
  objects := [.root rootId format]
  nextId := rootId + 1
  nextGeneration := 1
  pageSize := pageSize
  format := format
  pendingMoves := 0
  writeFault := none
  rmdirFault := false
  headerSize_lt_pageSize := h

def withPageSize (pageSize : Nat) (format : ObjectFormat) : Except String MemStore :=
  if h : Record.headerSize < pageSize then
    .ok (empty pageSize format h)
  else
    .error "page size too small"

def object? (store : MemStore) (id : ObjectId) : Option MemObject :=
  store.objects.find? (·.id == id)

def objectCount (store : MemStore) : Nat :=
  store.objects.length

def mapObject (store : MemStore) (id : ObjectId) (f : MemObject → MemObject) : MemStore :=
  { store with objects := store.objects.map fun o => if o.id = id then f o else o }

def mapDirectory (store : MemStore) (id : ObjectId) (f : Directory → Directory) : MemStore :=
  store.mapObject id fun o =>
    match o.body with
    | .file _ => o
    | .directory dir => { o with body := .directory (f dir) }

def eraseObject (store : MemStore) (id : ObjectId) : MemStore :=
  { store with objects := store.objects.filter (·.id != id) }

def addObject (store : MemStore) (object : ObjectId → UInt32 → MemObject) : MemStore :=
  { store with
    objects := store.objects ++ [object store.nextId store.nextGeneration]
    nextId := store.nextId + 1
    nextGeneration := store.nextGeneration + 1 }

theorem object?_mapObject (store : MemStore) (id : ObjectId) {f : MemObject → MemObject}
    (hf : ∀ o, (f o).id = o.id) (id' : ObjectId) :
    (store.mapObject id f).object? id'
      = if id' = id then (store.object? id').map f else store.object? id' := by
  have hid (o : MemObject) : (if o.id = id then f o else o).id = o.id := by
    split <;> simp [hf]
  simp only [object?, mapObject, List.find?_map, Function.comp_def, hid]
  cases h : store.objects.find? (·.id == id') with
  | none => simp
  | some o =>
    have ho : o.id = id' := by simpa using List.find?_some h
    simp only [Option.map_some, ho]
    split <;> rfl

theorem object?_eraseObject (store : MemStore) (id id' : ObjectId) :
    (store.eraseObject id).object? id' = if id' = id then none else store.object? id' := by
  simp only [object?, eraseObject, List.find?_filter]
  split
  . rename_i h
    simp [h]
  . rename_i h
    congr
    funext o
    by_cases ho : o.id = id' <;> simp_all

theorem object?_addObject (store : MemStore) (object : ObjectId → UInt32 → MemObject)
    (id : ObjectId) :
    (store.addObject object).object? id
      = (store.object? id).or
        (if (object store.nextId store.nextGeneration).id = id
          then some (object store.nextId store.nextGeneration) else none) := by
  simp [object?, addObject, List.find?_append, List.find?_singleton]

def getObject (store : MemStore) (id : ObjectId) : Except Error MemObject :=
  match store.object? id with
  | some object => .ok object
  | none => .error objectNotFound

def getDirectory (store : MemStore) (id : ObjectId) : Except Error Directory := do
  match (← store.getObject id).body with
  | .directory dir => .ok dir
  | .file _ => .error notDirectory

def stat (store : MemStore) (id : ObjectId) : Except Error ObjectStat :=
  return (← store.getObject id).stat

def markPrivate (store : MemStore) (id : ObjectId) : Except Error MemStore := do
  let _ ← store.getObject id
  return store.mapObject id fun o => { o with isPrivate := true }

def setFormat (store : MemStore) (id : ObjectId) (format : ObjectFormat) :
    Except Error MemStore := do
  let _ ← store.getObject id
  return store.mapObject id fun o => { o with format }

def planMoves (store : MemStore) (count : Nat) : MemStore :=
  { store with pendingMoves := count }

/-- Let `count` writes pass and fail the next one. -/
def planWriteFault (store : MemStore) (count : Nat) : MemStore :=
  { store with writeFault := some count }

def planRmdirFault (store : MemStore) : MemStore :=
  { store with rmdirFault := true }

end MemStore

end AttrTree
