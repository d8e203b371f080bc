import Hoist.Scope.Lookup

/-!
Changing scopes. Binding a name and setting a result type hand back the work that waited; an
operation that fails changes nothing.
-/
namespace Hoist.Scopes

variable {δ : Type}

/-- Binds a name that the scope does not bind yet. -/
def define (scopes : Scopes δ) (id : ScopeId) (binding : Binding) :
    Except Fault (List δ × Scopes δ) := do
  let scope ← scopes.get id
  if scope.binds binding.name then throw (.refused (.duplicateSymbol binding.name))
  let (work, scope) := scope.bind binding
  return (work, scopes.set id scope)

/-- Binds a name again that the scope binds already. -/
def update (scopes : Scopes δ) (id : ScopeId) (binding : Binding) :
    Except Fault (List δ × Scopes δ) := do
  let scope ← scopes.get id
  if !scope.binds binding.name then throw (.refused (.unknownSymbol binding.name))
  let (work, scope) := scope.bind binding
  return (work, scopes.set id scope)

/-- Binds variables in a scope, first to last. -/
def defineVariables (scopes : Scopes δ) (id : ScopeId) :
    List (String × Ty) → Except Fault (Scopes δ)
  | [] => .ok scopes
  | (name, type) :: rest => do
    let (_, scopes) ← scopes.define id ⟨name, type, false, false⟩
    scopes.defineVariables id rest

/-- Adds a scope with variables in it. -/
def extend (scopes : Scopes δ) (parent : Option ScopeId) (kind : ScopeKind)
    (names : List (String × Ty)) : Except Fault (Scopes δ) :=
  (scopes.create parent kind).defineVariables scopes.size names

def await (scopes : Scopes δ) (id : ScopeId) (name : String) (waiter : Waiter δ) :
    Except Fault (Scopes δ) := do
  let scope ← scopes.get id
  return scopes.set id (scope.await name waiter)

/-- Changes the result type of the function around `id`, and the work that waits for it. -/
def changeFunction {α : Type} (scopes : Scopes δ) (id : ScopeId)
    (change : Ty → List δ → α × Role δ) : Except Fault (α × Scopes δ) := do
  match ← scopes.functionBody id with
  | none => throw (.refused .returnOutsideFunction)
  | some body =>
    let scope ← scopes.get body
    match scope.role with
    | .function result waiting =>
      let (answer, role) := change result waiting
      return (answer, scopes.set body { scope with role })
    | _ => throw (.refused .returnOutsideFunction)

def setResult (scopes : Scopes δ) (id : ScopeId) (result : Ty) :
    Except Fault (List δ × Scopes δ) :=
  scopes.changeFunction id fun _ waiting => (waiting, .function result [])

def awaitResult (scopes : Scopes δ) (id : ScopeId) (work : δ) : Except Fault (Scopes δ) := do
  let (_, scopes) ← scopes.changeFunction id fun result waiting =>
    ((), .function result (waiting ++ [work]))
  return scopes

end Hoist.Scopes
