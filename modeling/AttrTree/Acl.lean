import AttrTree.Bytes.Basic
import AttrTree.Error

/-!
This module contains the check of access control lists. A list is a little-endian version word and
entries of eight bytes: a tag, permissions, and the number of a user or a group.
-/

namespace AttrTree

inductive AclKind where
  | access
  | default
  deriving DecidableEq, Repr, Inhabited

def AclKind.attrName : AclKind → String
  | access => "system.posix_acl_access"
  | default => "system.posix_acl_default"

namespace Acl

def version : Nat := 2

def headerSize : Nat := 4
def entrySize : Nat := 8

def maxPermission : Nat := 7

def badLength : Error := ⟨.invalidInput, "bad ACL length"⟩
def badVersion : Error := ⟨.invalidInput, "bad ACL version"⟩
def badPermission : Error := ⟨.invalidInput, "bad ACL permission"⟩
def badTag : Error := ⟨.invalidInput, "bad ACL tag"⟩
def malformed : Error := ⟨.invalidInput, "malformed ACL"⟩

inductive Tag where
  | owner
  | user
  | owningGroup
  | group
  | mask
  | other
  deriving DecidableEq, Repr, Inhabited

def Tag.ofNat? : Nat → Option Tag
  | 0x01 => some .owner
  | 0x02 => some .user
  | 0x04 => some .owningGroup
  | 0x08 => some .group
  | 0x10 => some .mask
  | 0x20 => some .other
  | _ => none

structure Entry where
  tag : Tag
  permission : Nat
  id : Nat
  deriving DecidableEq, Repr, Inhabited

def Entry.ofBytes (bytes : Bytes) : Except Error Entry :=
  let permission := Bytes.toNat ((bytes.drop 2).take 2)
  if maxPermission < permission then
    .error badPermission
  else
    match Tag.ofNat? (Bytes.toNat (bytes.take 2)) with
    | none => .error badTag
    | some tag => .ok { tag, permission, id := Bytes.toNat (bytes.drop 4) }

/-- Count a `tag` in a counter of 32 bits, which wraps around. -/
def count (tag : Tag) (entries : List Entry) : Int32 :=
  .ofNat (entries.countP (·.tag == tag))

def wellFormed (entries : List Entry) : Bool :=
  count .owner entries == 1 && count .owningGroup entries == 1 && count .other entries == 1
    && count .mask entries ≤ 1
    && !(0 < count .user entries + count .group entries && count .mask entries == 0)

def ofBytes (bytes : Bytes) : Except Error (List Entry) := do
  if bytes.length < headerSize || (bytes.length - headerSize) % entrySize != 0 then
    throw badLength
  if Bytes.toNat (bytes.take headerSize) ≠ version then
    throw badVersion
  let entries ← (Bytes.chunks (bytes.drop headerSize) entrySize).mapM Entry.ofBytes
  if wellFormed entries then
    return entries
  else
    throw malformed

def validate (bytes : Bytes) : Except Error Nat :=
  return (← ofBytes bytes).length

end Acl

end AttrTree
