import AttrTree.EntryName

/-!
This module contains the identity of an object: its number in the store and its generation, and
the text of the two, which names the object's attribute directory.
-/

namespace AttrTree

abbrev ObjectId := Nat

def hexDigit (n : Nat) : Char :=
  if n < 10 then Char.ofNat (48 + n) else Char.ofNat (55 + n)

def hexDigits (n : Nat) : List Char :=
  if n < 16 then
    [hexDigit n]
  else
    hexDigits (n / 16) ++ [hexDigit (n % 16)]
termination_by n
decreasing_by omega

theorem hexDigits_ne_nil (n : Nat) : hexDigits n ≠ [] := by
  unfold hexDigits
  split <;> simp

/-- An `id` may be given out again once its object is gone, the `generation` tells the two apart. -/
structure ObjectKey where
  id : ObjectId
  generation : UInt32
  deriving DecidableEq, Repr, Inhabited

namespace ObjectKey

def text (key : ObjectKey) : String :=
  String.ofList (hexDigits key.id ++ '.' :: hexDigits key.generation.toNat)

end ObjectKey

end AttrTree
