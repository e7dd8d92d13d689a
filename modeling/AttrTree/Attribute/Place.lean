import AttrTree.Volume.Basic

/-!
This module contains the way to the place where an attribute is kept: the attribute root, the
directory of an object and the record of an attribute. On the way, what is missing is made if the
flags of the call allow it. Where someone else made it first, theirs is taken.
-/

namespace AttrTree

namespace Volume

variable {σ : Type} [ObjectStore σ]

def directoryVanished : Error := ⟨.notFound, "directory vanished after mkdir race"⟩
def recordVanished : Error := ⟨.notFound, "record vanished after create race"⟩
def noPrivateRoot : Error := ⟨.unsupported, "no private root"⟩
def noAttrRoot : Error := ⟨.noAttribute, "xattr root not found"⟩
def noDirectory : Error := ⟨.noAttribute, "xattr dir not found"⟩
def invalidAttrName : Error := ⟨.invalidInput, "invalid xattr name"⟩
def invalidAttrCharacter : Error := ⟨.invalidInput, "invalid character in xattr name"⟩
def attrExists : Error := ⟨.alreadyExists, "xattr already exists"⟩
def attrNotFound : Error := ⟨.noAttribute, "xattr not found"⟩

def checkAttrName (name : String) : Except Error Unit :=
  if name.isEmpty || EntryName.maxSize < EntryName.size name || EntryName.isDots name then
    .error invalidAttrName
  else if EntryName.hasSeparator name then
    .error invalidAttrCharacter
  else
    .ok ()

def makeOrFind (make : Action σ ObjectId) (dir : ObjectId) (name : String) (vanished : Error) :
    Action σ ObjectId := do
  match ← make.attempt with
  | .ok id => return id
  | .error e =>
    if e.kind = .alreadyExists then
      Action.ofOption vanished (← ObjectStore.lookup dir name)
    else
      throw e

def makeDirectory (parent : ObjectId) (name : String) : Action σ ObjectId :=
  makeOrFind (ObjectStore.mkdir parent name privateMode) parent name directoryVanished

def findDirectory (parent : ObjectId) (name : String) (mayCreate : Bool) (missing : Error) :
    Action σ ObjectId := do
  match ← ObjectStore.lookup parent name with
  | some id => return id
  | none => if mayCreate then makeDirectory parent name else throw missing

def openAttrRoot (mayCreate : Bool) : Action (Volume σ) ObjectId := do
  let privateRoot ← Action.ofOption noPrivateRoot (← get).privateRoot
  match (← get).attrRoot with
  | some id => return id
  | none =>
    let id ← onStore (findDirectory privateRoot attrRootName mayCreate noAttrRoot)
    modify fun volume => { volume with attrRoot := some id }
    return id

def cachedDirectory? (key : ObjectKey) : Action (Volume σ) (Option ObjectId) := do
  let (dir, cache) := (← get).cache.get? key
  modify fun volume => { volume with cache }
  return dir

def openDirectory (stat : ObjectStat) (flags : SetFlags) : Action (Volume σ) ObjectId := do
  match ← cachedDirectory? stat.key with
  | some dir => return dir
  | none =>
    let mayCreate := flags.allowsCreate
    let attrRoot ← openAttrRoot mayCreate
    let dir ← onStore (findDirectory attrRoot stat.key.text mayCreate noDirectory)
    modify fun volume => { volume with cache := volume.cache.insert stat.key dir }
    return dir

def makeRecord (dir : ObjectId) (name : String) : Action σ ObjectId :=
  makeOrFind (ObjectStore.create dir name (Mode.withType Mode.fileType privateMode)) dir name
    recordVanished

def openRecord (stat : ObjectStat) (name : String) (flags : SetFlags) :
    Action (Volume σ) ObjectId := do
  Action.ofExcept (checkAttrName name)
  let dir ← openDirectory stat flags
  match ← onStore (ObjectStore.lookup dir name) with
  | some id => if flags.create then throw attrExists else return id
  | none => if flags.onlyExisting then throw attrNotFound else onStore (makeRecord dir name)

def storedDirectory? (obj : ObjectId) : Action σ (Option ObjectId) := do
  let stat ← ObjectStore.stat obj
  let some privateRoot ← ObjectStore.lookup (ObjectStore.root (← get)) privateRootName
    | return none
  let some attrRoot ← ObjectStore.lookup privateRoot attrRootName
    | return none
  ObjectStore.lookup attrRoot stat.key.text

end Volume

end AttrTree
