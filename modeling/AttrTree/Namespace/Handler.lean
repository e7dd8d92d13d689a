import AttrTree.Acl
import AttrTree.Attribute.Value

/-!
This module contains the handlers of namespaces. A handler serves the attributes whose names start
in a certain way; it decides which of them can be had and what their values may be.
-/

namespace AttrTree

structure FixedAnswers where
  size : Nat
  /-- The room that a name takes in a list, if it is not the size of the name. -/
  listedSize : Option Nat
  /-- Why attributes cannot be removed, if they cannot. -/
  removal : Option Error
  deriving DecidableEq, Repr

inductive Handler where
  | user
  | plain (start : String)
  | acl (kind : AclKind)
  | fixed (start : String) (answers : FixedAnswers)
  deriving DecidableEq, Repr

namespace Handler

def noSuffix : Error := ⟨.invalidInput, "xattr name has no suffix"⟩
def userDisabled : Error := ⟨.unsupported, "user xattrs not enabled"⟩
def badAclName : Error := ⟨.invalidInput, "bad ACL xattr name"⟩
def aclDisabled : Error := ⟨.unsupported, "POSIX ACLs not enabled"⟩
def defaultAclOnFile : Error := ⟨.invalidInput, "default ACL on non-directory"⟩

def trusted : Handler := plain "trusted."
def security : Handler := plain "security."

def start : Handler → String
  | user => "user."
  | plain start => start
  | acl kind => kind.attrName
  | fixed start _ => start

def aclKind? : Handler → Option AclKind
  | acl kind => some kind
  | _ => none

def checkSuffix (start name : String) : Except Error Unit :=
  if EntryName.size name ≤ EntryName.size start then .error noSuffix else .ok ()

variable {σ : Type}

def check (handler : Handler) (volume : Volume σ) (name : String) : Except Error Unit := do
  match handler with
  | user =>
    checkSuffix handler.start name
    unless volume.userEnabled do throw userDisabled
  | plain start => checkSuffix start name
  | acl kind =>
    unless name == kind.attrName do throw badAclName
    unless volume.aclEnabled do throw aclDisabled
  | fixed _ _ => return

def isShown (handler : Handler) (volume : Volume σ) : Bool :=
  match handler with
  | user => volume.userEnabled
  | plain _ => true
  | acl _ => volume.aclEnabled
  | fixed _ _ => true

def listedSize (handler : Handler) (volume : Volume σ) (name : String) : Nat :=
  match handler with
  | fixed _ answers => answers.listedSize.getD (EntryName.size name)
  | _ => if handler.isShown volume then EntryName.size name else 0

def fillListed (handler : Handler) (volume : Volume σ) (name : String) (room : Bytes) : Bytes :=
  match handler with
  | fixed _ _ => room
  | _ => if handler.isShown volume then EntryName.fill name room else room

def allowRemoval (handler : Handler) (volume : Volume σ) (name : String) : Except Error Unit :=
  match handler with
  | user | acl _ => handler.check volume name
  | plain _ => .ok ()
  | fixed _ answers => answers.removal.elim (.ok ()) .error

variable [ObjectStore σ]

def getValue (handler : Handler) (obj : ObjectId) (name : String) :
    Action (Volume σ × Buffer) Nat := do
  Action.ofExcept (handler.check (← get).1 name)
  match handler with
  | fixed _ answers => return answers.size
  | _ => Volume.readValue obj name

def removeAcl (obj : ObjectId) (name : String) : Action (Volume σ) Unit := do
  match ← (Volume.removeValue obj name).attempt with
  | .ok () => return
  | .error e => unless e.isNoAttribute do throw e

def writeAcl (kind : AclKind) (obj : ObjectId) (name : String) (value : Bytes)
    (flags : SetFlags) : Action (Volume σ) Unit := do
  if kind = .default then
    unless (← Volume.onStore (ObjectStore.stat obj)).isDirectory do
      throw defaultAclOnFile
  let _ ← Action.ofExcept (Acl.validate value)
  Volume.writeValue obj name value flags

def setValue (handler : Handler) (obj : ObjectId) (name : String) (value : Option Bytes)
    (flags : SetFlags) : Action (Volume σ) Unit := do
  Action.ofExcept (handler.check (← get) name)
  match handler, value with
  | fixed _ _, _ => return
  | acl _, none => removeAcl obj name
  | acl _, some [] => removeAcl obj name
  | acl kind, some value => writeAcl kind obj name value flags
  | _, none => Volume.removeValue obj name
  | _, some value => Volume.writeValue obj name value flags

end Handler

end AttrTree
