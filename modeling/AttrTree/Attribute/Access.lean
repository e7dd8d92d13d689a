import AttrTree.Attribute.Bulk
import AttrTree.Namespace.Registry

/-!
This module contains the access to attributes by their full names. The handler that the registry has
for a name is asked, if the volume has attributes at all and the object can have some.
-/

namespace AttrTree

namespace Volume

variable {σ : Type} [ObjectStore σ]

def noHandler : Error := ⟨.unsupported, "no handler for xattr namespace"⟩
def attributesDisabled : Error := ⟨.unsupported, "xattrs not enabled"⟩
def listTooSmall : Error := ⟨.rangeTooSmall, "xattr list buffer too small"⟩

def checkObject (obj : ObjectId) : Action (Volume σ) Unit := do
  unless (← get).attributesEnabled do
    throw attributesDisabled
  let _ ← onStore (statWithAttributes obj)

def handlerFor (registry : Registry) (obj : ObjectId) (name : String) :
    Action (Volume σ) Handler := do
  let link ← Action.ofOption noHandler (registry.resolve? name)
  checkObject obj
  return link.handler

def getAttribute (registry : Registry) (obj : ObjectId) (name : String) :
    Action (Volume σ × Buffer) Nat := do
  let handler ← Action.onFirst (handlerFor registry obj name)
  handler.getValue obj name

def setAttribute (registry : Registry) (obj : ObjectId) (name : String) (value : Bytes)
    (flags : SetFlags) : Action (Volume σ) Unit := do
  let handler ← handlerFor registry obj name
  handler.setValue obj name (some value) flags

def pruneDirectory (stat : ObjectStat) : Action (Volume σ) Unit := do
  let dir ← openDirectory stat .looking
  prune stat dir

def removeAttribute (registry : Registry) (obj : ObjectId) (name : String) :
    Action (Volume σ) Unit := do
  let handler ← handlerFor registry obj name
  Action.ofExcept (handler.allowRemoval (← get) name)
  let stat ← onStore (ObjectStore.stat obj)
  removeRecord stat name
  let _ ← (pruneDirectory stat).attempt

structure Listing where
  buffer : Buffer
  /-- The room that the names so far take, each with a zero byte behind it. -/
  length : Nat
  deriving DecidableEq, Repr

namespace Listing

def add (listing : Listing) (size : Nat) (fill : Bytes → Bytes) : Listing where
  buffer := listing.buffer.map fun bytes =>
    if listing.length + size + 1 ≤ bytes.length then
      let room := (bytes.drop listing.length).take size
      bytes.overlay listing.length (fill room ++ [0])
    else
      bytes
  length := listing.length + size + 1

def overflows (listing : Listing) : Bool :=
  listing.buffer.any (·.length < listing.length)

end Listing

def listEntry (registry : Registry) (volume : Volume σ) (name : String) (listing : Listing) :
    Listing :=
  match registry.resolve? name with
  | none => listing
  | some link =>
    let size := link.handler.listedSize volume name
    if size = 0 then
      listing
    else
      listing.add size (link.handler.fillListed volume name)

def listedDirectory? (obj : ObjectId) : Action (Volume σ) (Option ObjectId) := do
  checkObject obj
  let stat ← onStore (ObjectStore.stat obj)
  match ← (openDirectory stat .looking).attempt with
  | .ok dir => return some dir
  | .error e => if e.isNoAttribute then return none else throw e

def listDirectory (registry : Registry) (dir : ObjectId) :
    Action (Volume σ × Listing) Nat := do
  forEachEntry dir fun item =>
    modify fun (volume, listing) => (volume, listEntry registry volume item.name listing)
  let listing := (← get).2
  if listing.overflows then
    throw listTooSmall
  return listing.length

def listAttributes (registry : Registry) (obj : ObjectId) : Action (Volume σ × Buffer) Nat := do
  match ← Action.onFirst (listedDirectory? obj) with
  | none => return 0
  | some dir =>
    (listDirectory registry dir).focus (fun (volume, buffer) => (volume, { buffer, length := 0 }))
      fun (volume, listing) _ => (volume, listing.buffer)

end Volume

end AttrTree
