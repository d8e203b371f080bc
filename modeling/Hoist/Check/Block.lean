import Hoist.Check.Env
import Hoist.Check.Outline
import Hoist.Check.Work

/-!
Checking the statements of a block, in order. An `if` stays open until a statement comes that does
not carry it on.
-/
namespace Hoist

namespace Check

variable {κ σ : Type} (env : Env κ σ)

/-! Conditions. -/

def requireBoolean (type : Ty) (position : Position) : Check κ σ Unit :=
  if type = .boolean then pure ()
  else reject (.typeMismatch Ty.boolean.text type.text) position

def checkCondition (scope : ScopeId) (condition : Expr) (position : Position) :
    Check κ σ Expr := do
  let (result, condition) := condition.resolve (← view scope)
  requireBoolean (← ofFault position result) position
  return condition

def isTrue : Expr → Bool
  | .boolean true => true
  | _ => false

def checkLoopCondition (scope : ScopeId) (condition : Expr) (position : Position) :
    Check κ σ Expr := do
  let (result, condition) := condition.resolve (← view scope)
  let type ← ofFault position result
  match env.options.loopCondition with
  | .literalTrue => if !isTrue condition then reject .invalidLoopCondition position
  | .boolean => requireBoolean type position
  return condition

/-! Statements without a body. -/

def checkInLoop (scope : ScopeId) (keyword : String) (span : Span) : Check κ σ Unit := do
  if !(← ofFault span.start ((← scopes).isInsideLoop scope)) then
    reject (.controlOutsideLoop keyword) span.start

def importType (name source : String) (position : Position) : Check κ σ Ty := do
  let state ← get
  let (result, store, notes) := env.importer.typeOf name source position state.store
  set { state with store, journal := notes ++ state.journal }
  match result with
  | .ok type => return type
  | .error halt => throw halt

def importNames (scope : ScopeId) (source : String) (position : Position) :
    List String → Check κ σ (List (String × ConcreteTy))
  | [] => return []
  | name :: rest => do
    let type ← importType env name source position
    let imported ← ofCause position (ConcreteTy.ofTy type)
    env.settle (← define scope ⟨name, type, true, false⟩ position)
    let rest ← importNames scope source position rest
    return (name, imported) :: rest

def checkLeaf (scope : ScopeId) : Leaf → Check κ σ OutlineLeaf
  | .declare declaration => do
    let id ← checkDeclaration env.settle scope declaration
    return .draft id
  | .assign assignment => do
    let id ← addDraft scope (.assignment assignment [])
    checkAssignment id scope assignment []
    return .draft id
  | .returns statement => do
    let id ← addDraft scope (.returns statement)
    checkReturn env.settle id scope statement
    return .draft id
  | .evaluate statement => do
    let id ← addDraft scope (.evaluation statement)
    checkEvaluation id scope statement
    return .draft id
  | .breakLoop span => do
    checkInLoop scope "break" span
    return .plain (.breakLoop span)
  | .continueLoop span => do
    checkInLoop scope "continue" span
    return .plain (.continueLoop span)
  | .imports names source span => do
    if !(← ofFault span.start ((← scopes).isTopLevel scope)) then
      reject .importNotTopLevel span.start
    let names ← importNames env scope source span.start names
    return .plain (.imports names source span)
  | .endOfFile => return .plain .endOfFile

/-! Statements with a body, which is checked by `checkBody` in the scope that is made for it. -/

def checkArm (scope : ScopeId) (condition : Expr) (span : Span)
    (checkBody : ScopeId → Check κ σ (List Outline)) : Check κ σ Arm := do
  let condition ← checkCondition scope condition span.start
  let inner ← createScope (some scope) .block
  let body ← checkBody inner
  let condition ← ofCause span.start (Typed.Expr.ofExpr condition)
  return ⟨condition, body, span⟩

def checkLoop (scope : ScopeId) (condition : Expr) (span : Span)
    (checkBody : ScopeId → Check κ σ (List Outline)) : Check κ σ Outline := do
  let condition ← checkLoopCondition env scope condition span.start
  let inner ← createScope (some scope) .loop
  let body ← checkBody inner
  let condition ← ofCause span.start (Typed.Expr.ofExpr condition)
  return .loop condition body span

def checkFunction (scope : ScopeId) (signature : Signature)
    (checkBody : ScopeId → Check κ σ (List Outline)) : Check κ σ Outline := do
  let inner ← openFunction env.settle scope signature
  let body ← checkBody inner
  let id ← closeFunction env.settle scope inner signature
  return .function id body

/-! Chains and blocks. -/

def foldChain (chain : OpenChain) (last : OutlineChain) : Check κ σ Outline := do
  let otherwise := match last with
    | .done => false
    | _ => true
  note (.chainFolded chain.elseIfs.length otherwise)
  return chain.close last

/-- Ends the chain that is open, if there is one. -/
def endChain : Option OpenChain → Check κ σ (List Outline)
  | none => return []
  | some chain => return [← foldChain chain .done]

/-- Ends the chain that is open unless a statement carries it on. -/
def endChainBefore (stmt : Stmt) (chain : Option OpenChain) :
    Check κ σ (List Outline × Option OpenChain) := do
  if stmt.continuesChain then return ([], chain)
  else return (← endChain chain, none)

mutual

/-- Checks one statement, which may carry on a chain. Returns what is finished with it, and the
chain that is open after it. -/
def checkStmt (scope : ScopeId) (chain : Option OpenChain) :
    Stmt → Check κ σ (List Outline × Option OpenChain)
  | .leaf content => do
    let leaf ← checkLeaf env scope content
    return ([.leaf leaf], none)
  | .branch condition body span => do
    let arm ← checkArm scope condition span fun inner => checkBlock inner none body
    return ([], some ⟨arm, []⟩)
  | .elseIf condition body span =>
    match chain with
    | none => reject .unexpectedElse span.start
    | some chain => do
      let arm ← checkArm scope condition span fun inner => checkBlock inner none body
      return ([], some (chain.extend arm))
  | .otherwise body span =>
    match chain with
    | none => reject .unexpectedElse span.start
    | some chain => do
      let inner ← createScope (some scope) .block
      let body ← checkBlock inner none body
      let outline ← foldChain chain (.otherwise body span)
      return ([outline], none)
  | .loop condition body span => do
    let outline ← checkLoop env scope condition span fun inner => checkBlock inner none body
    return ([outline], none)
  | .function signature body => do
    let outline ← checkFunction env scope signature fun inner => checkBlock inner none body
    return ([outline], none)

/-- Checks the statements of a block in a scope, after a chain that may still be open. -/
def checkBlock (scope : ScopeId) (chain : Option OpenChain) :
    List Stmt → Check κ σ (List Outline)
  | [] => endChain chain
  | stmt :: rest => do
    let (before, chain) ← endChainBefore stmt chain
    tick
    let (done, chain) ← checkStmt scope chain stmt
    let after ← checkBlock scope chain rest
    return before ++ (done ++ after)

end

end Check

end Hoist
