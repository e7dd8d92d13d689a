import AttrTree.Store.Memory.Basic

/-!
This module contains the operations of the store in memory on the entries of directories.
-/

namespace AttrTree

namespace MemStore

def invalidName : Error := ⟨.invalidInput, "invalid entry name"⟩
def parentNotDirectory : Error := ⟨.notDirectory, "parent is not a directory"⟩
def entryExists : Error := ⟨.alreadyExists, "entry already exists"⟩
def entryNotFound : Error := ⟨.notFound, "entry not found"⟩
def linkToDirectory : Error := ⟨.isDirectory, "cannot link a directory"⟩
def unlinkDirectory : Error := ⟨.isDirectory, "cannot unlink a directory"⟩
def directoryNotEmpty : Error := ⟨.notEmpty, "directory not empty"⟩
def injectedRmdirFault : Error := ⟨.io, "injected rmdir fault"⟩

def isValidName (name : String) : Bool :=
  !(name.isEmpty || EntryName.isDots name || EntryName.maxSize < EntryName.size name
    || EntryName.hasSeparator name)

def checkName (name : String) : Except Error Unit :=
  if isValidName name then .ok () else .error invalidName

def getEntry (store : MemStore) (dir : ObjectId) (name : String) : Except Error DirEntry := do
  match (← store.getDirectory dir).find? name with
  | some entry => .ok entry
  | none => .error entryNotFound

def lookup (store : MemStore) (dir : ObjectId) (name : String) :
    Except Error (Option ObjectId) :=
  return ((← store.getDirectory dir).find? name).map (·.target)

def addChild (store : MemStore) (parent : ObjectId) (name : String) (mode : UInt32) (nlink : Nat)
    (body : ObjectId → Body) : Except Error (ObjectId × MemStore) := do
  checkName name
  let object ← store.getObject parent
  match object.body with
  | .file _ => .error parentNotDirectory
  | .directory dir =>
    if dir.contains name then
      .error entryExists
    else
      let child := fun id generation => {
        id, generation, mode, nlink
        format := store.format
        uid := 0
        gid := 0
        ctime := 0
        isPrivate := object.isPrivate
        body := body id
      }
      let id := store.nextId
      return (id, (store.addObject child).mapDirectory parent (·.insert name id))

def create (store : MemStore) (parent : ObjectId) (name : String) (mode : UInt32) :
    Except Error (ObjectId × MemStore) :=
  store.addChild parent name (Mode.withType Mode.fileType mode) 1 fun _ => .file []

def mkdir (store : MemStore) (parent : ObjectId) (name : String) (mode : UInt32) :
    Except Error (ObjectId × MemStore) := do
  let (id, store) ← store.addChild parent name (Mode.withType Mode.directoryType mode) 2
    fun self => .directory (.fresh self parent)
  return (id, store.mapObject parent fun o => { o with nlink := o.nlink + 1 })

def link (store : MemStore) (target : ObjectId) (dir : ObjectId) (name : String) :
    Except Error MemStore := do
  checkName name
  if (← store.getObject target).body.isDirectory then
    throw linkToDirectory
  if (← store.getDirectory dir).contains name then
    throw entryExists
  return (store.mapDirectory dir (·.insert name target)).mapObject target
    fun o => { o with nlink := o.nlink + 1 }

def dropLink (store : MemStore) (object : MemObject) : MemStore :=
  if object.nlink ≤ 1 then
    store.eraseObject object.id
  else
    store.mapObject object.id fun o => { o with nlink := o.nlink - 1 }

def unlink (store : MemStore) (dir : ObjectId) (name : String) : Except Error MemStore := do
  let entry ← store.getEntry dir name
  let target ← store.getObject entry.target
  if target.body.isDirectory then
    throw unlinkDirectory
  return (store.mapDirectory dir (·.remove entry.offset)).dropLink target

def rmdir (store : MemStore) (dir : ObjectId) (name : String) : Except Error MemStore := do
  let entry ← store.getEntry dir name
  unless (← store.getDirectory entry.target).isEmpty do
    throw directoryNotEmpty
  let store := store.mapDirectory dir (·.remove entry.offset)
  let store := store.mapObject dir fun o => { o with nlink := o.nlink - 1 }
  return store.eraseObject entry.target

def setVisible (store : MemStore) (dir : ObjectId) (name : String) (visible : Bool) :
    Except Error MemStore := do
  let entry ← store.getEntry dir name
  return store.mapDirectory dir (·.setVisible entry.offset visible)

def locateEntry (store : MemStore) (dir : ObjectId) (position : Nat) :
    Except Error (Option DirSlot) :=
  return (← store.getDirectory dir).locate? position

def entryName (store : MemStore) (dir : ObjectId) (slot : DirSlot) :
    Except Error (Option String) :=
  return (← store.getDirectory dir).nameAt? slot

def rmdirFaulty (dir : ObjectId) (name : String) : Action MemStore Unit := fun store =>
  if store.rmdirFault then
    .error injectedRmdirFault { store with rmdirFault := false }
  else
    Action.update (·.rmdir dir name) store

def entryNameMoving (dir : ObjectId) (slot : DirSlot) : Action MemStore (Option String) :=
  fun store =>
    match store.pendingMoves with
    | 0 => Action.query (·.entryName dir slot) store
    | moves + 1 => .ok none { store with pendingMoves := moves }

end MemStore

end AttrTree
