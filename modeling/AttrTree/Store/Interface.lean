import AttrTree.Store.Action
import AttrTree.Bytes.Basic
import AttrTree.Directory
import AttrTree.Object.Change

/-!
This module contains the interface between the attributes and the store that keeps them. The store
holds objects, which are directories and files; files are read and written by pages.
-/

namespace AttrTree

class ObjectStore (σ : Type) where
  root : σ → ObjectId
  format : σ → ObjectFormat
  pageSize : σ → Nat
  stat : ObjectId → Action σ ObjectStat
  lookup : (dir : ObjectId) → (name : String) → Action σ (Option ObjectId)
  /-- Makes a directory; fails with `alreadyExists` if the name is taken. -/
  mkdir : (dir : ObjectId) → (name : String) → (mode : UInt32) → Action σ ObjectId
  /-- Makes a file; fails with `alreadyExists` if the name is taken. -/
  create : (dir : ObjectId) → (name : String) → (mode : UInt32) → Action σ ObjectId
  unlink : (dir : ObjectId) → (name : String) → Action σ Unit
  rmdir : (dir : ObjectId) → (name : String) → Action σ Unit
  setAttr : ObjectId → AttrChange → Action σ Unit
  /-- Reads `length` bytes from the start of a page on, with zeros behind the end of the file. -/
  readPage : ObjectId → (index : Nat) → (length : Nat) → Action σ Bytes
  /-- Writes inside one page; a file that is too short grows. -/
  writePage : ObjectId → (index : Nat) → (offset : Nat) → Bytes → Action σ Unit
  /-- Marks an object as private. What is made in a private directory is private as well. -/
  markPrivate : ObjectId → Action σ Unit
  /-- The last entry of a directory that does not lie behind a position. -/
  locateEntry : (dir : ObjectId) → (position : Nat) → Action σ (Option DirSlot)
  /-- The name of a located entry, or `none` if the entry has moved since. -/
  entryName : (dir : ObjectId) → DirSlot → Action σ (Option String)
  /-- How many calls at most something planned can still meet: calls that it answers, instead of what
  the store holds, and calls that it counts until then. A loop that asks again is over by then. -/
  plannedAnswers : σ → Nat

end AttrTree
