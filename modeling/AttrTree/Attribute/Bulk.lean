import AttrTree.Attribute.Removal
import AttrTree.Attribute.Scan

/-!
This module contains the operations on all attributes of an object at once: they are removed when
the object is, and they follow it to a new owner.
-/

namespace AttrTree

namespace Volume

variable {σ : Type} [ObjectStore σ]

def attrVanished : Error := ⟨.noAttribute, "xattr vanished during chown"⟩

def bulkDirectory? (stat : ObjectStat) : Action (Volume σ) (Option ObjectId) := do
  if stat.isPrivate || stat.isLegacy || !(← get).attributesEnabled then
    return none
  match ← (openDirectory stat .looking).attempt with
  | .ok dir => return some dir
  | .error e => if e.isNoAttribute then return none else throw e

def visitEntries (dir : ObjectId) (visit : String → Action σ Unit) : Action (Volume σ) Unit :=
  (forEachEntry dir fun item => Action.onFirst (onStore (visit item.name))).withSecond ()

def deleteAttributes (obj : ObjectId) : Action (Volume σ) Unit := do
  let stat ← onStore (ObjectStore.stat obj)
  match ← bulkDirectory? stat with
  | none => return
  | some dir =>
    let removed ← (visitEntries dir (removeEntry dir)).attempt
    let pruned ← (prune stat dir).attempt
    Action.ofExcept removed
    Action.ofExcept pruned

def chownEntry (dir : ObjectId) (change : AttrChange) (name : String) : Action σ Unit := do
  let id ← Action.ofOption attrVanished (← ObjectStore.lookup dir name)
  if (← ObjectStore.stat id).isDirectory then
    return
  ObjectStore.setAttr id change

def chownAttributes (obj : ObjectId) (change : AttrChange) : Action (Volume σ) Unit := do
  let stat ← onStore (ObjectStore.stat obj)
  match ← bulkDirectory? stat with
  | none => return
  | some dir =>
    let change := change.restricted .ownership
    visitEntries dir (chownEntry dir change)
    onStore (ObjectStore.setAttr dir change)

end Volume

end AttrTree
