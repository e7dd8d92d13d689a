import AttrTree.Object.Key

/-!
This module contains directories. Every entry has an offset that stays with it for life: offsets
grow from entry to entry and are never given out again, which is what a scan relies on. The
entries stand in the order of their offsets, the links to the directory and its parent first.
-/

namespace AttrTree

structure DirEntry where
  offset : Nat
  name : String
  target : ObjectId
  visible : Bool
  deriving DecidableEq, Repr, Inhabited

structure DirSlot where
  offset : Nat
  target : ObjectId
  visible : Bool
  stamp : Nat
  deriving DecidableEq, Repr, Inhabited

structure Directory where
  entries : List DirEntry
  nextOffset : Nat
  version : Nat
  deriving DecidableEq, Repr, Inhabited

namespace Directory

def selfOffset : Nat := 1
def parentOffset : Nat := 2
def firstOffset : Nat := 3
def lastOffset : Nat := 0x7FFFFFFFFFFFFFFF

def fresh (self parent : ObjectId) : Directory where
  entries := [
    { offset := selfOffset, name := ".", target := self, visible := true },
    { offset := parentOffset, name := "..", target := parent, visible := true }
  ]
  nextOffset := firstOffset
  version := 0

def find? (dir : Directory) (name : String) : Option DirEntry :=
  dir.entries.find? (·.name == name)

def contains (dir : Directory) (name : String) : Bool :=
  (dir.find? name).isSome

def entryAt? (dir : Directory) (offset : Nat) : Option DirEntry :=
  dir.entries.find? (·.offset == offset)

def insert (dir : Directory) (name : String) (target : ObjectId) : Directory where
  entries := dir.entries ++ [{ offset := dir.nextOffset, name, target, visible := true }]
  nextOffset := dir.nextOffset + 1
  version := dir.version + 1

def remove (dir : Directory) (offset : Nat) : Directory :=
  { dir with
    entries := dir.entries.filter (·.offset != offset)
    version := dir.version + 1 }

def setVisible (dir : Directory) (offset : Nat) (visible : Bool) : Directory :=
  { dir with
    entries := dir.entries.map fun e => if e.offset = offset then { e with visible } else e }

def ordinary (dir : Directory) : List DirEntry :=
  dir.entries.filter (firstOffset ≤ ·.offset)

def isEmpty (dir : Directory) : Bool :=
  dir.ordinary.isEmpty

def slot (dir : Directory) (e : DirEntry) : DirSlot :=
  { offset := e.offset, target := e.target, visible := e.visible, stamp := dir.version }

def locate? (dir : Directory) (position : Nat) : Option DirSlot :=
  ((dir.entries.filter (·.offset ≤ position)).getLast?).map dir.slot

def nameAt? (dir : Directory) (slot : DirSlot) : Option String := do
  let e ← dir.entryAt? slot.offset
  if dir.version = slot.stamp ∨ e.target = slot.target then some e.name else none

end Directory

end AttrTree
