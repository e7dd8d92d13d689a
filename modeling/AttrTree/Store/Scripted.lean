import AttrTree.Store.Interface

/-!
This module contains a store that answers some calls from a script instead of passing them on to
the store behind it. It rehearses failures, races and page sizes that the store behind it does not
produce by itself.
-/

namespace AttrTree

inductive StoreOp where
  | stat
  | lookup
  | mkdir
  | create
  | unlink
  | rmdir
  | setAttr
  | readPage
  | writePage
  | markPrivate
  | locateEntry
  | entryName
  deriving DecidableEq, Repr, Inhabited

structure StoreCall where
  op : StoreOp
  id : ObjectId
  name : Option String := none
  index : Option Nat := none
  deriving DecidableEq, Repr

inductive ScriptedAnswer where
  | failure (e : Error)
  /-- The call finds nothing. -/
  | absent
  /-- The call finds an entry of this name. -/
  | name (name : String)
  deriving DecidableEq, Repr

/-- A planned `answer`, given once: to the first matching call after `skip` others. -/
structure Cue where
  op : StoreOp
  id : Option ObjectId
  name : Option String
  index : Option Nat
  skip : Nat
  answer : ScriptedAnswer
  deriving DecidableEq, Repr

namespace Cue

def fits (cue : Cue) (call : StoreCall) : Bool :=
  cue.op == call.op
    && cue.id.all (· == call.id)
    && cue.name.all (some · == call.name)
    && cue.index.all (some · == call.index)

def take (call : StoreCall) : List Cue → Option ScriptedAnswer × List Cue
  | [] => (none, [])
  | cue :: script =>
    if cue.fits call then
      if cue.skip = 0 then
        (some cue.answer, script)
      else
        (none, { cue with skip := cue.skip - 1 } :: script)
    else
      let (answer, script) := take call script
      (answer, cue :: script)

def calls : List Cue → Nat
  | [] => 0
  | cue :: script => cue.skip + 1 + calls script

end Cue

structure ScriptedStore (σ : Type) where
  base : σ
  /-- The size of a page that callers are told, if it is not that of the store behind. -/
  reportedPageSize : Option Nat
  script : List Cue
  deriving Repr

namespace ScriptedStore

variable {σ α : Type}

def onBase (act : Action σ α) : Action (ScriptedStore σ) α :=
  act.focus ScriptedStore.base fun base store => { store with base }

/-- Answer a call from the script or pass it on. Of the answers that are no failures, `found` tells what they
mean for the call. -/
def answer (call : StoreCall) (found : ScriptedAnswer → Option α) (act : Action σ α) :
    Action (ScriptedStore σ) α := do
  let (answer, script) := Cue.take call (← get).script
  modify fun store => { store with script }
  match answer with
  | none => onBase act
  | some (.failure e) => throw e
  | some answer =>
    match found answer with
    | some a => return a
    | none => onBase act

def orFail (call : StoreCall) (act : Action σ α) : Action (ScriptedStore σ) α :=
  answer call (fun _ => none) act

def orAbsent (call : StoreCall) (act : Action σ (Option α)) :
    Action (ScriptedStore σ) (Option α) :=
  answer call (fun _ => some none) act

def scriptedName : ScriptedAnswer → Option String
  | .name name => some name
  | _ => none

instance [ObjectStore σ] : ObjectStore (ScriptedStore σ) where
  root store := ObjectStore.root store.base
  format store := ObjectStore.format store.base
  pageSize store := store.reportedPageSize.getD (ObjectStore.pageSize store.base)
  stat id := orFail { op := .stat, id } (ObjectStore.stat id)
  lookup dir name :=
    orAbsent { op := .lookup, id := dir, name } (ObjectStore.lookup dir name)
  mkdir dir name mode :=
    orFail { op := .mkdir, id := dir, name } (ObjectStore.mkdir dir name mode)
  create dir name mode :=
    orFail { op := .create, id := dir, name } (ObjectStore.create dir name mode)
  unlink dir name := orFail { op := .unlink, id := dir, name } (ObjectStore.unlink dir name)
  rmdir dir name := orFail { op := .rmdir, id := dir, name } (ObjectStore.rmdir dir name)
  setAttr id change := orFail { op := .setAttr, id } (ObjectStore.setAttr id change)
  readPage id index length :=
    orFail { op := .readPage, id, index } (ObjectStore.readPage id index length)
  writePage id index offset data :=
    orFail { op := .writePage, id, index } (ObjectStore.writePage id index offset data)
  markPrivate id := orFail { op := .markPrivate, id } (ObjectStore.markPrivate id)
  locateEntry dir position :=
    orAbsent { op := .locateEntry, id := dir } (ObjectStore.locateEntry dir position)
  entryName dir slot :=
    answer { op := .entryName, id := dir } (fun answer => some (scriptedName answer))
      (ObjectStore.entryName dir slot)
  plannedAnswers store := ObjectStore.plannedAnswers store.base + Cue.calls store.script

end ScriptedStore

end AttrTree
