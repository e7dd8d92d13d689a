import AttrTree.Object.Key

/-!
This module contains the status of an object, as the store reports it.
-/

namespace AttrTree

namespace Mode

def typeMask : UInt32 := 0o170000
def directoryType : UInt32 := 0o040000
def fileType : UInt32 := 0o100000

def withType (type mode : UInt32) : UInt32 :=
  type ||| (mode &&& ~~~typeMask)

def type (mode : UInt32) : UInt32 :=
  mode &&& typeMask

end Mode

/-- Objects of the `legacy` format have no generation, and so no attributes. -/
inductive ObjectFormat where
  | legacy
  | current
  deriving DecidableEq, Repr, Inhabited

structure ObjectStat where
  id : ObjectId
  generation : UInt32
  format : ObjectFormat
  mode : UInt32
  nlink : Nat
  size : Nat
  uid : UInt32
  gid : UInt32
  ctime : UInt64
  isPrivate : Bool
  deriving DecidableEq, Repr, Inhabited

namespace ObjectStat

def key (stat : ObjectStat) : ObjectKey :=
  { id := stat.id, generation := stat.generation }

def isDirectory (stat : ObjectStat) : Bool :=
  Mode.type stat.mode == Mode.directoryType

def isLegacy (stat : ObjectStat) : Bool :=
  stat.format == .legacy

end ObjectStat

end AttrTree
