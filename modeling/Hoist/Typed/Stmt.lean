import Hoist.Syntax.Stmt
import Hoist.Typed.Tree

/-!
The statements of a checked file, and the way back: `forget` drops the types that can be found
again and keeps what stands in slots, so that its result can be checked once more.
-/
namespace Hoist

namespace Typed

structure Declaration where
  name : String
  constant : Bool
  value : Expr
  type : ConcreteTy
  exported : Bool
  span : Span

structure Assignment where
  target : Target
  op : AssignOp
  value : Expr
  span : Span

/-- A statement without a body. -/
inductive Leaf
  | declare (declaration : Declaration)
  | assign (assignment : Assignment)
  | breakLoop (span : Span)
  | continueLoop (span : Span)
  | returns (value : Option Expr) (span : Span)
  | imports (names : List (String × ConcreteTy)) (source : String) (span : Span)
  | evaluate (value : Expr) (span : Span)
  | endOfFile

structure Signature where
  name : String
  parameters : List (String × ConcreteTy)
  result : ConcreteTy
  exported : Bool
  span : Span

def Signature.type (signature : Signature) : ConcreteTy :=
  .function signature.parameters signature.result

abbrev Stmt := Tree Leaf Signature

end Typed

/-! Reading the types off checked statements. -/

def Declaration.complete (declaration : Declaration) : Except Cause Typed.Leaf := do
  let type ← ConcreteTy.ofTy declaration.type
  let value ← Typed.Expr.ofExpr declaration.value
  return .declare
    { name := declaration.name, constant := declaration.constant, value, type,
      exported := declaration.exported, span := declaration.span }

def Assignment.complete (assignment : Assignment) : Except Cause Typed.Leaf := do
  let target ← Typed.Target.ofTarget assignment.target
  let value ← Typed.Expr.ofExpr assignment.value
  return .assign { target, op := assignment.op, value, span := assignment.span }

def Return.complete (statement : Return) : Except Cause Typed.Leaf :=
  match statement.value with
  | none => return .returns none statement.span
  | some value => do
    let value ← Typed.Expr.ofExpr value
    return .returns (some value) statement.span

def Evaluation.complete (statement : Evaluation) : Except Cause Typed.Leaf := do
  let value ← Typed.Expr.ofExpr statement.value
  return .evaluate value statement.span

def Signature.complete (signature : Signature) : Except Cause Typed.Signature := do
  let parameters ← ConcreteTy.ofFields signature.parameters
  let result ← ConcreteTy.ofTy signature.result
  return { name := signature.name, parameters, result, exported := signature.exported,
           span := signature.span }

namespace Typed

/-! Back to plain statements. -/

/-- The type that was found becomes the annotation. -/
def Declaration.forget (declaration : Declaration) : Hoist.Declaration :=
  { name := declaration.name, constant := declaration.constant,
    value := declaration.value.toExpr, written := declaration.type.toTy,
    type := declaration.type.toTy, exported := declaration.exported, span := declaration.span }

def Assignment.forget (assignment : Assignment) : Hoist.Assignment :=
  { target := assignment.target.toTarget, op := assignment.op,
    value := assignment.value.toExpr, span := assignment.span }

def Signature.forget (signature : Signature) : Hoist.Signature :=
  { name := signature.name, parameters := ConcreteTy.toFields signature.parameters,
    result := signature.result.toTy, exported := signature.exported, span := signature.span }

def Leaf.forget : Leaf → Hoist.Leaf
  | declare declaration => .declare declaration.forget
  | assign assignment => .assign assignment.forget
  | breakLoop span => .breakLoop span
  | continueLoop span => .continueLoop span
  | returns value span => .returns ⟨value.map Expr.toExpr, span⟩
  | imports names source span => .imports (names.map (·.1)) source span
  | evaluate value span => .evaluate ⟨value.toExpr, span⟩
  | endOfFile => .endOfFile

mutual

/-- An `if` chain unfolds into the statements it was made of. -/
def Stmt.forget : Stmt → List Hoist.Stmt
  | .leaf content => [.leaf content.forget]
  | .branch condition body span rest =>
    .branch condition.toExpr (Stmt.forgetAll body) span :: Stmt.forgetChain rest
  | .loop condition body span => [.loop condition.toExpr (Stmt.forgetAll body) span]
  | .function signature body => [.function signature.forget (Stmt.forgetAll body)]

def Stmt.forgetChain : Chain Leaf Signature → List Hoist.Stmt
  | .done => []
  | .otherwise body span => [.otherwise (Stmt.forgetAll body) span]
  | .elseIf condition body span rest =>
    .elseIf condition.toExpr (Stmt.forgetAll body) span :: Stmt.forgetChain rest

def Stmt.forgetAll : List Stmt → List Hoist.Stmt
  | [] => []
  | stmt :: rest => Stmt.forget stmt ++ Stmt.forgetAll rest

end

end Typed

end Hoist
