import Hoist.Scope.Basic
import Hoist.Ty.Text

/-!
Notes: what a run tells about itself while it goes on.
-/
namespace Hoist

/-- How much a reader has to care to want to see a note. -/
inductive Level
  | debug
  | trace

inductive Note
  | scopeCreated (id : ScopeId) (parent : Option ScopeId)
  | defined (name : String) (type : Ty) (scope : ScopeId)
  | updated (name : String) (type : Ty) (scope : ScopeId)
  | resultSet (scope : ScopeId) (type : Ty)
  | awaited (name : String) (scope : ScopeId)
  | resultAwaited (scope : ScopeId)
  | queued (count : Nat)
  | chainFolded (elseIfs : Nat) (otherwise : Bool)
  | started (statements : Nat)
  | finished (scopes : Nat)
  | registered (source : String) (exports : Nat)
  | loading (source : String)

namespace Note

def level : Note → Level
  | awaited _ _ | resultAwaited _ | queued _ => .trace
  | _ => .debug

def parentText : Option ScopeId → String
  | none => "None"
  | some id => s!"Some({id})"

def text : Note → String
  | scopeCreated id parent => s!"created closure {id} with parent {parentText parent}"
  | defined name type scope => s!"defined `{name}`: {type.text} in closure {scope}"
  | updated name type scope => s!"updated `{name}`: {type.text} in closure {scope}"
  | resultSet scope type => s!"return type of closure {scope} set to {type.text}"
  | awaited name scope => s!"hook on `{name}` in closure {scope}"
  | resultAwaited scope => s!"return type hook in closure {scope}"
  | queued count => s!"queueing {count} hooks"
  | chainFolded elseIfs otherwise =>
    s!"folded if chain with {elseIfs} else if blocks, else block: {otherwise}"
  | started statements => s!"type checking {statements} top level statements"
  | finished scopes => s!"analysis finished with {scopes} closures"
  | registered source exports => s!"registered module `{source}` with {exports} exports"
  | loading source => s!"analyzing module `{source}`"

end Note

end Hoist
