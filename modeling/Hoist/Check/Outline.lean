import Hoist.Check.State
import Hoist.Typed.Stmt

/-!
Outlines: the block structure of a file whose simple statements may still be drafts.
-/
namespace Hoist

inductive OutlineLeaf
  | draft (id : DraftId)
  | plain (leaf : Typed.Leaf)

abbrev Outline := Typed.Tree OutlineLeaf SignatureId

abbrev OutlineChain := Typed.Chain OutlineLeaf SignatureId

/-- One part of an `if` chain with a condition. -/
structure Arm where
  condition : Typed.Expr
  body : List Outline
  span : Span

/-- An `if` whose chain may still go on. -/
structure OpenChain where
  first : Arm
  elseIfs : List Arm

def OpenChain.extend (chain : OpenChain) (arm : Arm) : OpenChain :=
  { chain with elseIfs := chain.elseIfs ++ [arm] }

def Arm.link (last : OutlineChain) : List Arm → OutlineChain
  | [] => last
  | arm :: rest => .elseIf arm.condition arm.body arm.span (link last rest)

def OpenChain.close (chain : OpenChain) (last : OutlineChain) : Outline :=
  .branch chain.first.condition chain.first.body chain.first.span (Arm.link last chain.elseIfs)

/-! Finishing an outline with what the drafts have become. -/

def Work.position : Work → Position
  | .declaration statement => statement.span.start
  | .assignment statement _ => statement.span.start
  | .returns statement => statement.span.start
  | .evaluation statement => statement.span.start

def Work.complete : Work → Except Cause Typed.Leaf
  | .declaration statement => statement.complete
  | .assignment statement _ => statement.complete
  | .returns statement => statement.complete
  | .evaluation statement => statement.complete

def atPosition {α : Type} (position : Position) : Except Cause α → Except Halt α
  | .ok value => .ok value
  | .error cause => .error (.rejected ⟨cause, position⟩)

namespace Checker

variable {κ σ : Type}

def completeLeaf (state : Checker κ σ) : OutlineLeaf → Except Halt Typed.Leaf
  | .plain leaf => .ok leaf
  | .draft id =>
    match state.drafts[id]? with
    | none => .error .dangling
    | some draft => atPosition draft.work.position draft.work.complete

def completeHead (state : Checker κ σ) (id : SignatureId) : Except Halt Typed.Signature :=
  match state.signatures[id]? with
  | none => .error .dangling
  | some draft => atPosition draft.signature.span.start draft.signature.complete

/-- The finished statements of an outline. -/
def complete (state : Checker κ σ) (outlines : List Outline) : Except Halt (List Typed.Stmt) :=
  Typed.Tree.completeAll state.completeLeaf state.completeHead outlines

end Checker

end Hoist
