import AttrTree.Error

/-!
This module contains the actions that stores and volumes are worked on with. An action may fail,
and what it had done before it failed stays done.
-/

namespace AttrTree

abbrev Action (σ : Type) : Type → Type :=
  EStateM Error σ

namespace Action

variable {σ τ β α : Type}

def ofExcept (result : Except Error α) : Action σ α := fun s =>
  match result with
  | .ok a => .ok a s
  | .error e => .error e s

def ofOption (e : Error) (value : Option α) : Action σ α := fun s =>
  match value with
  | some a => .ok a s
  | none => .error e s

def query (ask : σ → Except Error α) : Action σ α := fun s =>
  match ask s with
  | .ok a => .ok a s
  | .error e => .error e s

def update (change : σ → Except Error σ) : Action σ Unit := fun s =>
  match change s with
  | .ok s' => .ok () s'
  | .error e => .error e s

def transact (change : σ → Except Error (α × σ)) : Action σ α := fun s =>
  match change s with
  | .ok (a, s') => .ok a s'
  | .error e => .error e s

def focus (get : τ → σ) (put : σ → τ → τ) (act : Action σ α) : Action τ α := fun t =>
  match act (get t) with
  | .ok a s => .ok a (put s t)
  | .error e s => .error e (put s t)

def onFirst (act : Action σ α) : Action (σ × β) α := fun (s, b) =>
  match act s with
  | .ok a s => .ok a (s, b)
  | .error e s => .error e (s, b)

def withSecond (b : β) (act : Action (σ × β) α) : Action σ α := fun s =>
  match act (s, b) with
  | .ok a (s, _) => .ok a s
  | .error e (s, _) => .error e s

def thenAlways (act : Action σ α) (close : σ → σ) : Action σ α := fun s =>
  match act s with
  | .ok a s => .ok a (close s)
  | .error e s => .error e (close s)

def attempt (act : Action σ α) : Action σ (Except Error α) := fun s =>
  match act s with
  | .ok a s => .ok (.ok a) s
  | .error e s => .ok (.error e) s

end Action

end AttrTree
