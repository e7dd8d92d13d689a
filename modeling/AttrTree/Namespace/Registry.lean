import AttrTree.Namespace.Handler

/-!
This module contains the registry of handlers. The first registered handler whose start fits a name
serves it, even if a later one has a longer start.
-/

namespace AttrTree

/-- A `Handler` with an identity: two links may do the same and yet be different. -/
structure HandlerLink where
  identity : Nat
  handler : Handler
  deriving DecidableEq, Repr

structure Registry where
  links : List HandlerLink
  deriving DecidableEq, Repr

namespace Registry

def emptyStart : Error := ⟨.invalidInput, "empty handler prefix"⟩
def alreadyLinked : Error := ⟨.alreadyRegistered, "handler already linked"⟩
def startTaken : Error := ⟨.alreadyRegistered, "handler prefix already registered"⟩
def notRegistered : Error := ⟨.notFound, "handler not registered"⟩

def empty : Registry where
  links := []

def standardHandlers : List Handler :=
  [.user, .trusted, .security, .acl .access, .acl .default]

def standard : Registry where
  links := standardHandlers.mapIdx fun identity handler => { identity, handler }

def starts (registry : Registry) : List String :=
  registry.links.map (·.handler.start)

def size (registry : Registry) : Nat :=
  registry.links.length

def register (registry : Registry) (link : HandlerLink) : Except Error Registry :=
  if link.handler.start.isEmpty then
    .error emptyStart
  else if registry.links.any (·.identity == link.identity) then
    .error alreadyLinked
  else if registry.starts.contains link.handler.start then
    .error startTaken
  else
    .ok { links := registry.links ++ [link] }

def unregister (registry : Registry) (identity : Nat) : Except Error Registry :=
  if registry.links.any (·.identity == identity) then
    .ok { links := registry.links.filter (·.identity != identity) }
  else
    .error notRegistered

def resolve? (registry : Registry) (name : String) : Option HandlerLink :=
  registry.links.find? fun link => EntryName.startsWith name link.handler.start

end Registry

end AttrTree
