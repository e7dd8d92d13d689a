/-!
This module contains the errors of the library. A failure has a kind, which callers branch on,
and a message for people. The errors that belong to one subject are named next to it.
-/

namespace AttrTree

inductive ErrorKind where
  | unsupported
  | noAttribute
  | alreadyExists
  | rangeTooSmall
  | corrupted
  | alreadyRegistered
  | notFound
  | invalidInput
  | io
  | noSpace
  | notEmpty
  | notDirectory
  | isDirectory
  deriving DecidableEq, Repr, Inhabited

namespace ErrorKind

def name : ErrorKind → String
  | unsupported => "Unsupported"
  | noAttribute => "NoAttribute"
  | alreadyExists => "AlreadyExists"
  | rangeTooSmall => "RangeTooSmall"
  | corrupted => "Corrupted"
  | alreadyRegistered => "AlreadyRegistered"
  | notFound => "NotFound"
  | invalidInput => "InvalidInput"
  | io => "Io"
  | noSpace => "NoSpace"
  | notEmpty => "NotEmpty"
  | notDirectory => "NotDirectory"
  | isDirectory => "IsDirectory"

def errno : ErrorKind → Nat
  | unsupported => 95
  | noAttribute => 61
  | alreadyExists => 17
  | rangeTooSmall => 34
  | corrupted => 5
  | alreadyRegistered => 16
  | notFound => 2
  | invalidInput => 22
  | io => 5
  | noSpace => 28
  | notEmpty => 39
  | notDirectory => 20
  | isDirectory => 21

def all : List ErrorKind :=
  [unsupported, noAttribute, alreadyExists, rangeTooSmall, corrupted, alreadyRegistered,
    notFound, invalidInput, io, noSpace, notEmpty, notDirectory, isDirectory]

def ofName? (text : String) : Option ErrorKind :=
  all.find? (·.name == text)

theorem mem_all (kind : ErrorKind) : kind ∈ all := by
  cases kind <;> decide

@[simp]
theorem ofName?_name (kind : ErrorKind) : ofName? kind.name = some kind := by
  cases kind <;> decide

end ErrorKind

structure Error where
  kind : ErrorKind
  message : String
  deriving DecidableEq, Repr, Inhabited

namespace Error

def errno (e : Error) : Nat :=
  e.kind.errno

def display (e : Error) : String :=
  e.kind.name ++ ": " ++ e.message

def isNoAttribute (e : Error) : Bool :=
  e.kind == .noAttribute

end Error

end AttrTree
