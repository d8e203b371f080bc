import Hoist.Source.Position
import Hoist.Syntax.Expr

/-!
Statements as they are written. The parts of an `if` chain stand one after the other in the list
of their block.
-/
namespace Hoist

structure Declaration where
  name : String
  constant : Bool
  value : Expr
  /-- The type as written, `unannotated` where it was left out. -/
  written : Ty
  /-- The type that was found. -/
  type : Ty
  exported : Bool
  span : Span

structure Assignment where
  target : Target
  op : AssignOp
  value : Expr
  span : Span

structure Return where
  value : Option Expr
  span : Span

/-- An expression that stands as a statement. -/
structure Evaluation where
  value : Expr
  span : Span

/-- All of a function but its body. -/
structure Signature where
  name : String
  parameters : List (String × Ty)
  /-- The type as written, `unannotated` where it was left out, or else as it was found. -/
  result : Ty
  exported : Bool
  span : Span

def Signature.type (signature : Signature) : Ty :=
  .function signature.parameters signature.result

/-- A statement without a body. -/
inductive Leaf
  | declare (declaration : Declaration)
  | assign (assignment : Assignment)
  | breakLoop (span : Span)
  | continueLoop (span : Span)
  | returns (statement : Return)
  | imports (names : List String) (source : String) (span : Span)
  | evaluate (statement : Evaluation)
  | endOfFile

inductive Stmt
  | leaf (content : Leaf)
  | branch (condition : Expr) (body : List Stmt) (span : Span)
  | elseIf (condition : Expr) (body : List Stmt) (span : Span)
  | otherwise (body : List Stmt) (span : Span)
  | loop (condition : Expr) (body : List Stmt) (span : Span)
  | function (signature : Signature) (body : List Stmt)

/-- Goes on with the `if` before it. -/
def Stmt.continuesChain : Stmt → Bool
  | elseIf _ _ _ | otherwise _ _ => true
  | _ => false

end Hoist
