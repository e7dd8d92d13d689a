import AttrTree.Store.Memory.Basic

/-!
This module contains the operations of the store in memory on the attributes and the content of
objects. The content of a file is one byte string, whatever the size of the pages.
-/

namespace AttrTree

def Body.resize (size : Nat) : Body → Body
  | .file content => .file (content.resize size)
  | .directory dir => .directory dir

def Body.write (start : Nat) (data : Bytes) : Body → Body
  | .file content => .file (content.write start data)
  | .directory dir => .directory dir

def MemObject.apply (change : AttrChange) (object : MemObject) : MemObject :=
  { object with
    body := if change.fields.has .size then object.body.resize change.size else object.body
    uid := if change.fields.has .uid then change.uid else object.uid
    gid := if change.fields.has .gid then change.gid else object.gid
    ctime := if change.fields.has .ctime then change.ctime else object.ctime
    mode :=
      if change.fields.has .mode then Mode.withType (Mode.type object.mode) change.mode
      else object.mode }

namespace MemStore

def resizeDirectory : Error := ⟨.isDirectory, "cannot resize a directory"⟩
def readDirectory : Error := ⟨.isDirectory, "cannot read a directory"⟩
def writeDirectory : Error := ⟨.isDirectory, "cannot write a directory"⟩
def contentOfDirectory : Error := ⟨.isDirectory, "object is a directory"⟩
def pageBoundary : Error := ⟨.invalidInput, "write crosses page boundary"⟩
def injectedWriteFault : Error := ⟨.io, "injected write fault"⟩

def setAttr (store : MemStore) (id : ObjectId) (change : AttrChange) : Except Error MemStore := do
  let object ← store.getObject id
  if change.fields.has .size && object.body.isDirectory then
    throw resizeDirectory
  return store.mapObject id (·.apply change)

def getContent (store : MemStore) (id : ObjectId) (directory : Error) : Except Error Bytes := do
  match (← store.getObject id).body with
  | .file content => .ok content
  | .directory _ => .error directory

def readAll (store : MemStore) (id : ObjectId) : Except Error Bytes :=
  store.getContent id contentOfDirectory

def readPage (store : MemStore) (id : ObjectId) (index length : Nat) : Except Error Bytes :=
  return (← store.getContent id readDirectory).window (index * store.pageSize) length

def writePage (store : MemStore) (id : ObjectId) (index offset : Nat) (data : Bytes) :
    Except Error MemStore := do
  let _ ← store.getContent id writeDirectory
  return store.mapObject id fun o =>
    { o with body := o.body.write (index * store.pageSize + offset) data }

/-- Write inside one page. Only a write that the page has room for counts for `writeFault`. -/
def writePageFaulty (id : ObjectId) (index offset : Nat) (data : Bytes) : Action MemStore Unit :=
  fun store =>
    if store.pageSize < offset + data.length then
      .error pageBoundary store
    else
      match store.writeFault with
      | none => Action.update (·.writePage id index offset data) store
      | some 0 => .error injectedWriteFault { store with writeFault := none }
      | some (count + 1) =>
        Action.update (·.writePage id index offset data) { store with writeFault := some count }

end MemStore

end AttrTree
