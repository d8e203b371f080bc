import Hoist.Scope.Basic

/-!
Looking outwards from a scope. Walks follow the parents and end at a scope without one; an id that
names no scope is a fault, but only once a walk gets there.
-/
namespace Hoist

/-- Where work that waits for a name is kept: in the scope that binds it, or, for a name that
nobody binds yet, in the outermost scope, where a function of that name may still come. -/
inductive Anchor
  | bound (id : ScopeId)
  | root (id : ScopeId)
  deriving DecidableEq, Repr

namespace Scopes

variable {δ : Type}

/-- The first scope with a property, at most `fuel` steps outwards. -/
def climb (scopes : Scopes δ) (found : Scope δ → Bool) :
    Nat → ScopeId → Except Fault (Option ScopeId)
  | 0, _ => .ok none
  | fuel + 1, id => do
    let scope ← scopes.get id
    if found scope then return some id
    match scope.parent with
    | none => return none
    | some parent => scopes.climb found fuel parent

/-- The nearest scope with a property, `id` first. A walk that meets no scope twice takes at most
one step more than there are scopes. -/
def nearest (scopes : Scopes δ) (found : Scope δ → Bool) (id : ScopeId) :
    Except Fault (Option ScopeId) :=
  scopes.climb found (scopes.size + 1) id

def chainFrom (scopes : Scopes δ) : Nat → ScopeId → Except Fault (List ScopeId)
  | 0, _ => .ok []
  | fuel + 1, id => do
    let scope ← scopes.get id
    match scope.parent with
    | none => return [id]
    | some parent => return id :: (← scopes.chainFrom fuel parent)

/-- The scopes from `id` outwards, `id` first. -/
def chain (scopes : Scopes δ) (id : ScopeId) : Except Fault (List ScopeId) :=
  scopes.chainFrom (scopes.size + 1) id

/-- The outermost scope around `id`. -/
def top (scopes : Scopes δ) (id : ScopeId) : Except Fault ScopeId := do
  return (← scopes.chain id).getLast?.getD id

def parent (scopes : Scopes δ) (id : ScopeId) : Except Fault (Option ScopeId) := do
  return (← scopes.get id).parent

def isTopLevel (scopes : Scopes δ) (id : ScopeId) : Except Fault Bool := do
  return (← scopes.parent id).isNone

def isInsideLoop (scopes : Scopes δ) (id : ScopeId) : Except Fault Bool := do
  return (← scopes.nearest Scope.isLoop id).isSome

/-- The nearest scope that binds a name. -/
def owner (scopes : Scopes δ) (id : ScopeId) (name : String) : Except Fault (Option ScopeId) :=
  scopes.nearest (·.binds name) id

def lookupLocal (scopes : Scopes δ) (id : ScopeId) (name : String) :
    Except Fault (Option Binding) := do
  return (← scopes.get id).bindings.find? name

/-- The binding of a name in the nearest scope that has one. -/
def lookup (scopes : Scopes δ) (id : ScopeId) (name : String) :
    Except Fault (Option Binding) := do
  match ← scopes.owner id name with
  | none => return none
  | some owner => scopes.lookupLocal owner name

def waitingOn (scopes : Scopes δ) (id : ScopeId) (name : String) :
    Except Fault (List (Waiter δ)) := do
  return (← scopes.get id).waitingOn name

/-- The body of the function around `id`. -/
def functionBody (scopes : Scopes δ) (id : ScopeId) : Except Fault (Option ScopeId) :=
  scopes.nearest Scope.isFunction id

/-- The result type of the function around `id`, as far as it is known. -/
def resultType (scopes : Scopes δ) (id : ScopeId) : Except Fault (Option Ty) := do
  match ← scopes.functionBody id with
  | none => return none
  | some body =>
    match (← scopes.get body).role with
    | .function result _ => return some result
    | _ => return none

/-- The anchor for work in scope `id` that waits for `name`. A statement that declares the very
name it waits for means an outer binding. -/
def anchor (scopes : Scopes δ) (id : ScopeId) (name : String) (declared : Option String) :
    Except Fault Anchor := do
  let start ← if declared = some name then scopes.parent id else pure (some id)
  let owner ← match start with
    | none => pure none
    | some start => scopes.owner start name
  match owner with
  | some owner => return .bound owner
  | none => return .root (← scopes.top id)

end Scopes

end Hoist
