import AttrTree.Bytes.Basic

/-!
This module contains what the library needs to know about the names of directory entries. A name
is a text; its size is the number of bytes of its UTF-8 form, and beginnings are compared by bytes.
-/

namespace AttrTree

namespace EntryName

def maxSize : Nat := 255

def bytes (name : String) : Bytes :=
  name.toByteArray.data.toList

def size (name : String) : Nat :=
  name.utf8ByteSize

@[simp]
theorem length_bytes (name : String) : (bytes name).length = size name :=
  rfl

def hasSeparator (name : String) : Bool :=
  (bytes name).any fun b => b == 0x2f || b == 0

def isDots (name : String) : Bool :=
  name == "." || name == ".."

def startsWith (name start : String) : Bool :=
  (bytes start).isPrefixOf (bytes name)

def fill (name : String) (out : Bytes) : Bytes :=
  out.overlay 0 ((bytes name).take out.length)

end EntryName

end AttrTree
