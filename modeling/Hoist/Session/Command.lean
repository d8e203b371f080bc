import Hoist.Module.Registry

/-!
The commands of a session, which drives a checker step by step, and the replies to them. Work that
a command leaves with a name is a script: a tag, and commands to be run when its turn comes.
-/
namespace Hoist

inductive Command
  | create (parent : Option ScopeId) (kind : ScopeKind)
  | define (scope : ScopeId) (binding : Binding) (position : Position)
  | update (scope : ScopeId) (binding : Binding) (position : Position)
  | setResult (scope : ScopeId) (result : Ty) (position : Position)
  /-- As `define`, but the work that is handed back is held and not performed. -/
  | holdDefine (scope : ScopeId) (binding : Binding) (position : Position)
  | holdUpdate (scope : ScopeId) (binding : Binding) (position : Position)
  | holdResult (scope : ScopeId) (result : Ty) (position : Position)
  | runHeld
  | await (scope : ScopeId) (name : String) (position : Position) (tag : String)
    (commands : List Command)
  | awaitResult (scope : ScopeId) (position : Position) (tag : String) (commands : List Command)
  /-- As `await`, at the anchor of the name. -/
  | install (scope : ScopeId) (name : String) (declared : Option String) (position : Position)
    (tag : String) (commands : List Command)
  | anchor (scope : ScopeId) (name : String) (declared : Option String)
  | fail (cause : Cause) (position : Position)
  | lookup (scope : ScopeId) (name : String)
  | lookupLocal (scope : ScopeId) (name : String)
  | owner (scope : ScopeId) (name : String)
  | parent (scope : ScopeId)
  | top (scope : ScopeId)
  | chain (scope : ScopeId)
  | isTopLevel (scope : ScopeId)
  | isInsideLoop (scope : ScopeId)
  | isInsideFunction (scope : ScopeId)
  | resultType (scope : ScopeId)
  | waitingOn (scope : ScopeId) (name : String)
  | firstWaiting
  | reportUnresolved
  | size
  | isEmpty
  | resolve (scope : ScopeId) (expr : Expr) (position : Position)
  | resolveTarget (scope : ScopeId) (target : Target) (position : Position)
  | check (scope : ScopeId) (program : List Stmt)
  /-- Completes everything that was checked since the last time. -/
  | finish

structure Script where
  tag : String
  commands : List Command

inductive Reply
  | done
  | scope (id : Option ScopeId)
  | scopes (ids : List ScopeId)
  | count (number : Nat)
  | flag (value : Bool)
  | type (type : Option Ty)
  | binding (binding : Option Binding)
  | anchor (anchor : Anchor)
  | waiting (first : Option (String × Position))
  | resolved (result : Except Diagnostic Ty) (expr : Expr)
  | resolvedTarget (result : Except Diagnostic Ty) (target : Target)
  | typed (program : List Typed.Stmt)

/-- What scripts do while a command is carried out. -/
inductive Event
  | started (tag : String)
  | succeeded (reply : Reply)
  | failed (cause : Cause)

end Hoist
