import AttrTree.Record.Header

/-!
This module contains the way a record's payload lies on pages. The first page holds the header and
the first piece of the payload, every further page holds nothing but payload.
-/

namespace AttrTree

namespace Record

def fullPieces (pageSize : Nat) (n : Nat) : List Nat :=
  if _h : n = 0 ∨ pageSize = 0 then
    []
  else
    min n pageSize :: fullPieces pageSize (n - pageSize)
termination_by n

def firstPiece (pageSize : Nat) (n : Nat) : Nat :=
  min n (pageSize - headerSize)

def laterPieces (pageSize : Nat) (n : Nat) : List Nat :=
  fullPieces pageSize (n - firstPiece pageSize n)

end Record

end AttrTree
