import AttrTree.Store.Memory.Entries
import AttrTree.Store.Memory.Content

/-!
This module contains the store in memory as an instance of the store interface, and the picture
of its whole state that one looks at after a run.
-/

namespace AttrTree

namespace MemStore

instance : ObjectStore MemStore where
  root _ := rootId
  format := MemStore.format
  pageSize := MemStore.pageSize
  stat id := .query (·.stat id)
  lookup dir name := .query (·.lookup dir name)
  mkdir dir name mode := .transact (·.mkdir dir name mode)
  create dir name mode := .transact (·.create dir name mode)
  unlink dir name := .update (·.unlink dir name)
  rmdir := rmdirFaulty
  setAttr id change := .update (·.setAttr id change)
  readPage id index length := .query (·.readPage id index length)
  writePage := writePageFaulty
  markPrivate id := .update (·.markPrivate id)
  locateEntry dir position := .query (·.locateEntry dir position)
  entryName := entryNameMoving
  plannedAnswers := MemStore.pendingMoves

inductive Picture where
  | file (stat : ObjectStat) (content : Bytes)
  | directory (stat : ObjectStat) (entries : List (DirSlot × Option String))
  deriving DecidableEq, Repr

def pictureEntries (id : ObjectId) (dir : Directory) :
    Action MemStore (List (DirSlot × Option String)) :=
  dir.entries.reverse.mapM fun e => return (dir.slot e, ← entryNameMoving id (dir.slot e))

def pictureObject (object : MemObject) : Action MemStore Picture := do
  match object.body with
  | .file content => return .file object.stat content
  | .directory dir => return .directory object.stat (← pictureEntries object.id dir)

def pictures : Action MemStore (List Picture) := do
  (← get).objects.mapM pictureObject

end MemStore

end AttrTree
