import Hoist.Syntax.Stmt
import Hoist.Typing.Resolve

/-!
What is left of a program when all that a checker finds out about it is erased: the types in the
slots of expressions and targets, those of declarations and the result types of functions. A look
finds things out, and changes nothing else.

Main statements: `Expr.erase_resolve` and `Target.erase_resolve`.
-/
namespace Hoist

mutual

def Expr.erase : Expr → Expr
  | .number value => .number value
  | .boolean value => .boolean value
  | .string value => .string value
  | .symbol name _ => .symbol name .unresolved
  | .record fields _ => .record (Expr.eraseFields fields) .unresolved
  | .array elements _ => .array (Expr.eraseAll elements) .unresolved
  | .unary op operand => .unary op operand.erase
  | .binary op left right => .binary op left.erase right.erase
  | .index left position => .index left.erase position.erase
  | .member left field => .member left.erase field
  | .call callee arguments => .call callee.erase (Expr.eraseAll arguments)

def Expr.eraseFields : List (String × Expr) → List (String × Expr)
  | [] => []
  | (name, value) :: rest => (name, value.erase) :: Expr.eraseFields rest

def Expr.eraseAll : List Expr → List Expr
  | [] => []
  | value :: rest => value.erase :: Expr.eraseAll rest

end

def Target.erase : Target → Target
  | .symbol name => .symbol name
  | .member left field _ => .member left.erase field .unresolved
  | .index left position _ => .index left.erase position.erase .unresolved

def Declaration.erase (declaration : Declaration) : Declaration :=
  { declaration with
    value := declaration.value.erase
    written := .unannotated
    type := .unresolved }

def Assignment.erase (assignment : Assignment) : Assignment :=
  { assignment with target := assignment.target.erase, value := assignment.value.erase }

def Return.erase (statement : Return) : Return :=
  { statement with value := statement.value.map Expr.erase }

def Evaluation.erase (statement : Evaluation) : Evaluation :=
  { statement with value := statement.value.erase }

def Signature.erase (signature : Signature) : Signature :=
  { signature with result := .unannotated }

def Leaf.erase : Leaf → Leaf
  | .declare declaration => .declare declaration.erase
  | .assign assignment => .assign assignment.erase
  | .returns statement => .returns statement.erase
  | .evaluate statement => .evaluate statement.erase
  | other => other

mutual

def Stmt.erase : Stmt → Stmt
  | .leaf content => .leaf content.erase
  | .branch condition body span => .branch condition.erase (Stmt.eraseAll body) span
  | .elseIf condition body span => .elseIf condition.erase (Stmt.eraseAll body) span
  | .otherwise body span => .otherwise (Stmt.eraseAll body) span
  | .loop condition body span => .loop condition.erase (Stmt.eraseAll body) span
  | .function signature body => .function signature.erase (Stmt.eraseAll body)

def Stmt.eraseAll : List Stmt → List Stmt
  | [] => []
  | stmt :: rest => stmt.erase :: Stmt.eraseAll rest

end

/-! What is written about types: the annotations of declarations and functions, in their order. -/

def Leaf.annotations : Leaf → List Ty
  | .declare declaration => [declaration.written]
  | _ => []

mutual

def Stmt.annotations : Stmt → List Ty
  | .leaf content => content.annotations
  | .branch _ body _ | .elseIf _ body _ | .otherwise body _ | .loop _ body _ =>
    Stmt.allAnnotations body
  | .function signature body => signature.result :: Stmt.allAnnotations body

def Stmt.allAnnotations : List Stmt → List Ty
  | [] => []
  | stmt :: rest => stmt.annotations ++ Stmt.allAnnotations rest

end

theorem Stmt.eraseAll_append (before after : List Stmt) :
    Stmt.eraseAll (before ++ after) = Stmt.eraseAll before ++ Stmt.eraseAll after := by
  induction before with
  | nil => rfl
  | cons stmt rest ih => simp [Stmt.eraseAll, ih]

theorem Stmt.allAnnotations_append (before after : List Stmt) :
    Stmt.allAnnotations (before ++ after) =
      Stmt.allAnnotations before ++ Stmt.allAnnotations after := by
  induction before with
  | nil => rfl
  | cons stmt rest ih => simp [Stmt.allAnnotations, ih]

section Look

variable (view : View)

mutual

theorem Expr.erase_resolve : ∀ value : Expr, (value.resolve view).2.erase = value.erase
  | .number _ | .boolean _ | .string _ => by simp only [Expr.resolve]
  | .symbol name slot => by
    rw [Expr.resolve]
    split
    · rfl
    · split <;> rfl
  | .record fields slot => by
    have inside := Expr.eraseFields_resolveFields [] fields
    rw [Expr.resolve]
    split
    · rfl
    · split <;> simp_all [Expr.erase]
  | .array elements slot => by
    have inside := Expr.eraseAll_resolveElements none elements
    rw [Expr.resolve]
    split
    · rfl
    · split
      · simp_all [Expr.erase]
      · split <;> simp_all [Expr.erase]
  | .unary op operand => by
    have inside := operand.erase_resolve
    rw [Expr.resolve]
    split <;> simp_all [Expr.erase]
  | .binary op left right => by
    have onLeft := left.erase_resolve
    have onRight := right.erase_resolve
    rw [Expr.resolve]
    split
    · simp_all [Expr.erase]
    · split <;> simp_all [Expr.erase]
  | .index left position => by
    have onLeft := left.erase_resolve
    have onRight := position.erase_resolve
    rw [Expr.resolve]
    split
    · simp_all [Expr.erase]
    · split
      · simp_all [Expr.erase]
      · split
        · simp_all [Expr.erase]
        · split <;> simp_all [Expr.erase]
  | .member left field => by
    have inside := left.erase_resolve
    rw [Expr.resolve]
    split <;> simp_all [Expr.erase]
  | .call callee arguments => by
    have onCallee := callee.erase_resolve
    rw [Expr.resolve]
    split
    · simp_all [Expr.erase]
    · split
      · simp_all [Expr.erase]
      · split
        · simp_all [Expr.erase]
        · rename_i parameters _ _
          have inside := Expr.eraseAll_resolveArguments parameters arguments
          split <;> simp_all [Expr.erase]

theorem Expr.eraseFields_resolveFields (seen : List String) : ∀ fields : List (String × Expr),
    Expr.eraseFields (Expr.resolveFields view seen fields).2 = Expr.eraseFields fields
  | [] => by simp only [Expr.resolveFields]
  | (name, value) :: rest => by
    have first := value.erase_resolve
    have others := Expr.eraseFields_resolveFields (name :: seen) rest
    rw [Expr.resolveFields]
    split
    · rfl
    · split <;> simp_all [Expr.eraseFields]

theorem Expr.eraseAll_resolveElements (base : Option Ty) : ∀ elements : List Expr,
    Expr.eraseAll (Expr.resolveElements view base elements).2 = Expr.eraseAll elements
  | [] => by simp only [Expr.resolveElements]
  | element :: rest => by
    have first := element.erase_resolve
    rw [Expr.resolveElements]
    split
    · simp_all [Expr.eraseAll]
    · split
      · simp_all [Expr.eraseAll]
      · rename_i base _
        have others := Expr.eraseAll_resolveElements base rest
        simp_all [Expr.eraseAll]

theorem Expr.eraseAll_resolveArguments (parameters : List (String × Ty)) :
    ∀ arguments : List Expr,
    Expr.eraseAll (Expr.resolveArguments view parameters arguments).2 = Expr.eraseAll arguments
  | [] => by simp only [Expr.resolveArguments]
  | argument :: rest => by
    cases parameters with
    | nil => simp only [Expr.resolveArguments]
    | cons parameter parameters =>
      have first := argument.erase_resolve
      have others := Expr.eraseAll_resolveArguments parameters rest
      rw [Expr.resolveArguments]
      split
      · simp_all [Expr.eraseAll]
      · split <;> simp_all [Expr.eraseAll]

end

theorem Target.erase_resolve (target : Target) : (target.resolve view).2.erase = target.erase := by
  induction target with
  | symbol name => rfl
  | member left field slot ih =>
    rw [Target.resolve]
    split <;> simp_all [Target.erase]
  | index left position slot ih =>
    have inside := position.erase_resolve view
    rw [Target.resolve]
    split
    · simp_all [Target.erase]
    · split
      · simp_all [Target.erase]
      · split
        · simp_all [Target.erase]
        · split <;> simp_all [Target.erase]

end Look

end Hoist
