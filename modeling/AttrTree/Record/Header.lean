import AttrTree.Error
import AttrTree.Bytes.Checksum

/-!
This module contains the format of an attribute record. A record is a header of two little-endian
words, a fixed mark and the checksum of the payload, followed by the payload itself.
-/

namespace AttrTree

namespace Record

def mark : UInt32 := 0x52465841

def headerSize : Nat := 8

def truncatedHeader : Error := ⟨.corrupted, "xattr header truncated"⟩
def markMismatch : Error := ⟨.corrupted, "xattr magic mismatch"⟩

structure Header where
  mark : UInt32
  checksum : UInt32
  deriving DecidableEq, Repr, Inhabited

namespace Header

def ofChecksum (checksum : UInt32) : Header :=
  { mark := Record.mark, checksum := checksum }

def toBytes (header : Header) : Bytes :=
  Bytes.littleEndian 4 header.mark.toNat ++ Bytes.littleEndian 4 header.checksum.toNat

@[simp]
theorem length_toBytes (header : Header) : header.toBytes.length = headerSize := by
  simp [toBytes, headerSize]

def overlay (header : Header) (page : Bytes) : Bytes :=
  page.overlay 0 header.toBytes

def ofBytes (page : Bytes) : Except Error Header :=
  if page.length < headerSize then
    .error truncatedHeader
  else
    let header : Header := {
      mark := UInt32.ofNat (Bytes.toNat (page.take 4))
      checksum := UInt32.ofNat (Bytes.toNat ((page.drop 4).take 4))
    }
    if header.mark = Record.mark then .ok header else .error markMismatch

end Header

def image (value : Bytes) : Bytes :=
  (Header.ofChecksum (AttrTree.checksum value)).toBytes ++ value

@[simp]
theorem length_image (value : Bytes) : (image value).length = headerSize + value.length := by
  simp [image]

@[simp]
theorem drop_image (value : Bytes) : (image value).drop headerSize = value := by
  rw [image, List.drop_append_of_le_length (by simp), List.drop_of_length_le (by simp),
    List.nil_append]

@[simp]
theorem take_image (value : Bytes) :
    (image value).take headerSize = (Header.ofChecksum (AttrTree.checksum value)).toBytes := by
  rw [image, List.take_append_of_le_length (by simp), List.take_of_length_le (by simp)]

end Record

end AttrTree
