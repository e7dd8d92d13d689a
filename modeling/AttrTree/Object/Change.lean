import AttrTree.Object.Stat

/-!
This module contains changes of an object's attributes: new values for some of its fields, with a
mask that tells which of the values count.
-/

namespace AttrTree

structure FieldMask where
  bits : UInt32
  deriving DecidableEq, Repr, Inhabited

namespace FieldMask

def none : FieldMask := ⟨0⟩
def uid : FieldMask := ⟨0x01⟩
def gid : FieldMask := ⟨0x02⟩
def size : FieldMask := ⟨0x04⟩
def ctime : FieldMask := ⟨0x08⟩
def mode : FieldMask := ⟨0x10⟩

def union (a b : FieldMask) : FieldMask :=
  ⟨a.bits ||| b.bits⟩

def inter (a b : FieldMask) : FieldMask :=
  ⟨a.bits &&& b.bits⟩

def has (a b : FieldMask) : Bool :=
  a.bits &&& b.bits == b.bits

def ownership : FieldMask :=
  (uid.union gid).union ctime

end FieldMask

structure AttrChange where
  fields : FieldMask
  uid : UInt32
  gid : UInt32
  size : Nat
  ctime : UInt64
  mode : UInt32
  deriving DecidableEq, Repr, Inhabited

namespace AttrChange

def empty : AttrChange :=
  { fields := .none, uid := 0, gid := 0, size := 0, ctime := 0, mode := 0 }

def chown (uid gid : UInt32) : AttrChange :=
  { empty with fields := FieldMask.uid.union .gid, uid, gid }

def resize (size : Nat) : AttrChange :=
  { empty with fields := .size, size }

def withCtime (change : AttrChange) (ctime : UInt64) : AttrChange :=
  { change with fields := change.fields.union .ctime, ctime }

def restricted (change : AttrChange) (mask : FieldMask) : AttrChange :=
  { change with fields := change.fields.inter mask }

end AttrChange

end AttrTree
