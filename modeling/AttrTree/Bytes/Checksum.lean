import AttrTree.Bytes.Basic

/-!
This module contains the checksum of a payload: the 32-bit cyclic redundancy check with the
reflected polynomial `0xEDB88320`, at once and piece by piece. An empty payload has checksum 0.
-/

namespace AttrTree

namespace Checksum

def polynomial : UInt32 := 0xEDB88320

def shift (r : UInt32) : UInt32 :=
  if r &&& 1 = 1 then (r >>> 1) ^^^ polynomial else r >>> 1

def shifts : Nat → UInt32 → UInt32
  | 0, r => r
  | n + 1, r => shifts n (shift r)

def feedByte (r : UInt32) (b : UInt8) : UInt32 :=
  shifts 8 (r ^^^ b.toUInt32)

def feed (r : UInt32) (bytes : Bytes) : UInt32 :=
  bytes.foldl feedByte r

@[simp]
theorem feed_nil (r : UInt32) : feed r [] = r :=
  rfl

@[simp]
theorem feed_append (r : UInt32) (xs ys : Bytes) : feed r (xs ++ ys) = feed (feed r xs) ys := by
  simp [feed]

def initial : UInt32 := 0xFFFFFFFF

def crc32 (bytes : Bytes) : UInt32 :=
  feed initial bytes ^^^ initial

end Checksum

def checksum (payload : Bytes) : UInt32 :=
  if payload.isEmpty then 0 else Checksum.crc32 payload

structure RunningChecksum where
  remainder : UInt32
  fed : Nat
  deriving DecidableEq, Repr

namespace RunningChecksum

def start : RunningChecksum :=
  { remainder := Checksum.initial, fed := 0 }

def feed (sum : RunningChecksum) (piece : Bytes) : RunningChecksum :=
  { remainder := Checksum.feed sum.remainder piece, fed := sum.fed + piece.length }

def finish (sum : RunningChecksum) : UInt32 :=
  if sum.fed = 0 then 0 else sum.remainder ^^^ Checksum.initial

@[simp]
theorem feed_nil (sum : RunningChecksum) : sum.feed [] = sum :=
  rfl

@[simp]
theorem feed_append (sum : RunningChecksum) (xs ys : Bytes) :
    sum.feed (xs ++ ys) = (sum.feed xs).feed ys := by
  simp [feed, Nat.add_assoc]

theorem finish_feed_start (payload : Bytes) :
    (start.feed payload).finish = checksum payload := by
  cases payload with
  | nil => rfl
  | cons b payload => simp [start, feed, finish, checksum, Checksum.crc32]

end RunningChecksum

end AttrTree
