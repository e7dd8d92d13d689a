import AttrTree.DirCache
import AttrTree.DirLocks
import AttrTree.Store.Interface
import AttrTree.Volume.Options

/-!
This module contains volumes. A volume is a store together with what mounting it established:
which attributes are on, where the private tree is, which directories are locked or cached.

All attributes lie in a private tree below the root of the store: a private root, in it the
attribute root, in that one directory per object, named by the object's key, and in that one file
per attribute, named like the attribute.
-/

namespace AttrTree

structure Volume (σ : Type) where
  store : σ
  options : MountOptions
  /-- Whether the volume is known to others as one with access control lists. -/
  aclFlag : Bool
  privateRoot : Option ObjectId
  attrRoot : Option ObjectId
  locks : DirLocks
  cache : DirCache
  deriving Repr

namespace Volume

variable {σ : Type}

def privateRootName : String := ".xastore_priv"
def attrRootName : String := "xattrs"
def privateMode : UInt32 := 0o700

def unmounted (store : σ) (options : MountOptions) (cacheCapacity : Nat) : Volume σ where
  store := store
  options := options
  aclFlag := false
  privateRoot := none
  attrRoot := none
  locks := .empty
  cache := .empty cacheCapacity

def attributesEnabled (volume : Volume σ) : Bool :=
  volume.options.attributes

def userEnabled (volume : Volume σ) : Bool :=
  volume.options.attributes && volume.options.user

def aclEnabled (volume : Volume σ) : Bool :=
  volume.options.attributes && volume.options.acl

def flagBits (volume : Volume σ) : UInt32 :=
  bitIf 0x01 volume.aclFlag

def setOptions (options : MountOptions) (volume : Volume σ) : Volume σ :=
  { volume with options }

def onStore {α : Type} (act : Action σ α) : Action (Volume σ) α :=
  act.focus Volume.store fun store volume => { volume with store }

variable [ObjectStore σ]

def directoryName (obj : ObjectId) : Action σ String :=
  return (← ObjectStore.stat obj).key.text

end Volume

end AttrTree
