import Hoist.Diagnostic.Basic
import Hoist.Table
import Hoist.Ty.Basic

/-!
Scopes. They are numbered in the order of their creation and are never removed, so work that was
put off in a block can go on after the block has been left.

A scope binds names, and keeps work of a type `δ` of the client's choice that waits for a name to
be bound or changed. The scope of a function body also knows the function's result type, and keeps
the work that waits for it.

Main statement: a scope that is added leaves the others as they were (`get_create_of_lt`).
-/
namespace Hoist

abbrev ScopeId := Nat

structure Binding where
  name : String
  type : Ty
  constant : Bool
  exported : Bool

/-- Work that waits for a name, and the place in the program that it is for. -/
structure Waiter (δ : Type) where
  work : δ
  position : Position

/-- What kind of block a scope belongs to. That it is the body of a loop, and that it is the body of a
function with some result type, are independent of each other; but no scope is ever made that is both,
so one choice of three stands for the mark of a loop and the optional result type. -/
inductive ScopeKind
  | block
  | loop
  | function (result : Ty)

/-- The kind of a scope's block, with the work that waits for the result type of a function. Nothing
turns one kind into another. -/
inductive Role (δ : Type)
  | block
  | loop
  | function (result : Ty) (waiting : List δ)

def ScopeKind.role {δ : Type} : ScopeKind → Role δ
  | block => .block
  | loop => .loop
  | function result => .function result []

structure Scope (δ : Type) where
  parent : Option ScopeId
  role : Role δ
  bindings : Table Binding
  /-- The names somebody waits for, in the order in which they came to be waited for. -/
  waiting : Table (List (Waiter δ))

namespace Scope

variable {δ : Type}

def isLoop (scope : Scope δ) : Bool :=
  match scope.role with
  | .loop => true
  | _ => false

def isFunction (scope : Scope δ) : Bool :=
  match scope.role with
  | .function _ _ => true
  | _ => false

def binds (scope : Scope δ) (name : String) : Bool :=
  scope.bindings.contains name

def waitingOn (scope : Scope δ) (name : String) : List (Waiter δ) :=
  (scope.waiting.find? name).getD []

/-- Binds a name, anew or again, and hands back the work that waited for it. -/
def bind (scope : Scope δ) (binding : Binding) : List δ × Scope δ :=
  ((scope.waitingOn binding.name).map (·.work),
    { scope with
      bindings := scope.bindings.insert binding.name binding
      waiting := scope.waiting.erase binding.name })

def await (scope : Scope δ) (name : String) (waiter : Waiter δ) : Scope δ :=
  { scope with waiting := scope.waiting.insert name (scope.waitingOn name ++ [waiter]) }

/-- The name that has been waited for the longest, and the place of its first waiter. -/
def firstWaiting? (scope : Scope δ) : Option (String × Position) :=
  scope.waiting.entries.findSome? fun (name, waiters) =>
    waiters.head?.map fun waiter => (name, waiter.position)

end Scope

structure Scopes (δ : Type) where
  all : List (Scope δ)

namespace Scopes

variable {δ : Type}

def empty : Scopes δ := ⟨[]⟩

def size (scopes : Scopes δ) : Nat :=
  scopes.all.length

def get (scopes : Scopes δ) (id : ScopeId) : Except Fault (Scope δ) :=
  match scopes.all[id]? with
  | some scope => .ok scope
  | none => .error .dangling

def set (scopes : Scopes δ) (id : ScopeId) (scope : Scope δ) : Scopes δ :=
  ⟨scopes.all.set id scope⟩

/-- Adds a scope, whose id is the number of scopes so far. -/
def create (scopes : Scopes δ) (parent : Option ScopeId) (kind : ScopeKind) : Scopes δ :=
  ⟨scopes.all ++ [⟨parent, kind.role, .empty, .empty⟩]⟩

/-- The first scope with waiting work gives the first name that is waited for. -/
def firstWaiting? (scopes : Scopes δ) : Option (String × Position) :=
  scopes.all.findSome? Scope.firstWaiting?

@[simp] theorem size_set (scopes : Scopes δ) (id : ScopeId) (scope : Scope δ) :
    (scopes.set id scope).size = scopes.size := by
  simp [set, size]

@[simp] theorem size_create (scopes : Scopes δ) (parent : Option ScopeId) (kind : ScopeKind) :
    (scopes.create parent kind).size = scopes.size + 1 := by
  simp [create, size]

theorem get_create_of_lt (scopes : Scopes δ) (parent : Option ScopeId) (kind : ScopeKind)
    (id : ScopeId) (bound : id < scopes.size) :
    (scopes.create parent kind).get id = scopes.get id := by
  simp [get, create, List.getElem?_append_left bound]

end Scopes

end Hoist
