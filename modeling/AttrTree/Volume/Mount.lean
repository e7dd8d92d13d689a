import AttrTree.Attribute.Place

/-!
This module contains the mounting of a volume. It settles the options and finds or makes the private
root. A volume that cannot have a private root is mounted without attributes if it is mounted for
reading, and not at all otherwise.
-/

namespace AttrTree

namespace Volume

variable {σ : Type} [ObjectStore σ]

def legacyFormat : Error := ⟨.unsupported, "legacy format has no generations"⟩
def privateRootUnavailable : Error := ⟨.unsupported, "private root unavailable"⟩
def privateRootNotFound : Error := ⟨.noAttribute, "private root not found"⟩

def findPrivateRoot (flags : MountFlags) : Action σ ObjectId := do
  let root := ObjectStore.root (← get)
  let id ← findDirectory root privateRootName (!flags.readOnly) privateRootNotFound
  ObjectStore.markPrivate id
  return id

def setUpPrivateRoot (flags : MountFlags) : Action (Volume σ) Bool := do
  if ObjectStore.format (← get).store = .legacy then
    throw legacyFormat
  if (← get).privateRoot.isSome then
    return true
  match ← onStore (findPrivateRoot flags).attempt with
  | .ok id =>
    modify fun volume => { volume with privateRoot := some id }
    return true
  | .error _ => if flags.readOnly then return false else throw privateRootUnavailable

def adopt (options : MountOptions) (volume : Volume σ) : Volume σ :=
  { volume with options, aclFlag := options.acl }

def mount (flags : MountFlags) : Action (Volume σ) Unit := do
  let options := (← get).options.settle
  if options.attributes then
    match ← (setUpPrivateRoot flags).attempt with
    | .ok true => modify (·.adopt options)
    | .ok false => modify (·.adopt options.withoutAttributes)
    | .error e =>
      modify (·.adopt options.withoutAttributes)
      throw e
  else
    modify (·.adopt options)

end Volume

end AttrTree
