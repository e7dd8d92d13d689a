import AttrTree.Attribute.Place

/-!
This module contains the removal of single attributes and of attribute directories that have become
empty.
-/

namespace AttrTree

namespace Volume

variable {σ : Type} [ObjectStore σ]

def entryNotPrivate : Error := ⟨.corrupted, "xattr entry not private"⟩

def removeEntry (dir : ObjectId) (name : String) : Action σ Unit := do
  let id ← Action.ofOption attrNotFound (← ObjectStore.lookup dir name)
  let target ← ObjectStore.stat id
  if target.isDirectory then
    return
  unless target.isPrivate do
    throw entryNotPrivate
  ObjectStore.unlink dir name

def removeRecord (stat : ObjectStat) (name : String) : Action (Volume σ) Unit := do
  Action.ofExcept (checkAttrName name)
  let dir ← openDirectory stat .looking
  onStore (removeEntry dir name)

def removeValue (obj : ObjectId) (name : String) : Action (Volume σ) Unit := do
  let stat ← onStore (ObjectStore.stat obj)
  removeRecord stat name

def hasEntries (dir : ObjectId) : Action σ Bool := do
  match ← ObjectStore.locateEntry dir Directory.lastOffset with
  | some slot => return Directory.parentOffset < slot.offset
  | none => return false

def prune (stat : ObjectStat) (dir : ObjectId) : Action (Volume σ) Unit := do
  if ← onStore (hasEntries dir) then
    return
  let attrRoot ← openAttrRoot false
  modify fun volume => { volume with cache := volume.cache.erase stat.key }
  onStore (ObjectStore.rmdir attrRoot stat.key.text)

end Volume

end AttrTree
