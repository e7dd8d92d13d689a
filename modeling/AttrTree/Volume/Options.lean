/-!
This module contains the switches that a volume is mounted with and the flags of a single call.
Each is given as a word of bits and kept as the set of its meaningful bits.
-/

namespace AttrTree

def bitOf (bit word : UInt32) : Bool :=
  word &&& bit == bit

def bitIf (bit : UInt32) (wanted : Bool) : UInt32 :=
  if wanted then bit else 0

/-- The classes of attributes that a volume offers. `noUser` and `noAcl` win over `user` and `acl` when the
volume is mounted, see `settle`. -/
structure MountOptions where
  attributes : Bool
  user : Bool
  noUser : Bool
  acl : Bool
  noAcl : Bool
  deriving DecidableEq, Repr, Inhabited

namespace MountOptions

def none : MountOptions :=
  { attributes := false, user := false, noUser := false, acl := false, noAcl := false }

def optional : MountOptions :=
  { none with user := true, acl := true }

def all : MountOptions :=
  { optional with attributes := true }

def ofBits (word : UInt32) : MountOptions where
  attributes := bitOf 0x01 word
  user := bitOf 0x02 word
  noUser := bitOf 0x04 word
  acl := bitOf 0x08 word
  noAcl := bitOf 0x10 word

def toBits (options : MountOptions) : UInt32 :=
  bitIf 0x01 options.attributes ||| bitIf 0x02 options.user ||| bitIf 0x04 options.noUser
    ||| bitIf 0x08 options.acl ||| bitIf 0x10 options.noAcl

@[simp]
theorem ofBits_toBits (options : MountOptions) : ofBits options.toBits = options := by
  rcases options with ⟨attributes, user, noUser, acl, noAcl⟩
  cases attributes <;> cases user <;> cases noUser <;> cases acl <;> cases noAcl <;> rfl

def settle (options : MountOptions) : MountOptions :=
  let user := options.user && !options.noUser
  let acl := options.acl && !options.noAcl
  { attributes := user || acl, user, noUser := false, acl, noAcl := false }

def withoutAttributes (options : MountOptions) : MountOptions :=
  { options with attributes := false, user := false, acl := false }

end MountOptions

structure MountFlags where
  readOnly : Bool
  deriving DecidableEq, Repr, Inhabited

def MountFlags.ofBits (word : UInt32) : MountFlags where
  readOnly := bitOf 0x01 word

structure SetFlags where
  /-- The attribute must not exist. -/
  create : Bool
  /-- The attribute must exist. -/
  replace : Bool
  /-- Nothing is made. -/
  readOnly : Bool
  /-- The word has bits without a meaning. -/
  other : Bool
  deriving DecidableEq, Repr, Inhabited

namespace SetFlags

def none : SetFlags :=
  { create := false, replace := false, readOnly := false, other := false }

def looking : SetFlags :=
  { none with readOnly := true }

def ofBits (word : UInt32) : SetFlags where
  create := bitOf 0x01 word
  replace := bitOf 0x02 word
  readOnly := bitOf 0x80 word
  other := word &&& ~~~0x83 != 0

def allowsCreate (flags : SetFlags) : Bool :=
  !flags.readOnly && (flags == none || flags.create)

def onlyExisting (flags : SetFlags) : Bool :=
  flags.replace || flags.readOnly

end SetFlags

end AttrTree
