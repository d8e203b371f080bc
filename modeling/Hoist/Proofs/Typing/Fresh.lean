import Hoist.Proofs.Typing.Targets

/-!
Statements as they come from the parser, with nothing in their slots.
-/
namespace Hoist

mutual

theorem Expr.empty_of_isFresh : ∀ {value : Expr}, value.isFresh = true →
    ∀ symbol ∈ value.symbols, symbol.2.isConcrete = false
  | .number _, _ | .boolean _, _ | .string _, _ => by simp [Expr.symbols]
  | .symbol name slot, fresh => by
    simp only [Expr.isFresh, beq_iff_eq] at fresh
    simp [Expr.symbols, fresh, Ty.isConcrete]
  | .record fields slot, fresh => by
    simp only [Expr.isFresh, Bool.and_eq_true] at fresh
    exact Expr.fieldsEmpty_of_areFresh fresh.1
  | .array elements slot, fresh => by
    simp only [Expr.isFresh, Bool.and_eq_true] at fresh
    exact Expr.allEmpty_of_areFresh fresh.1
  | .unary _ operand, fresh => @Expr.empty_of_isFresh operand fresh
  | .member left _, fresh => @Expr.empty_of_isFresh left fresh
  | .binary _ left right, fresh | .index left right, fresh => by
    simp only [Expr.isFresh, Bool.and_eq_true] at fresh
    intro symbol mem
    rcases List.mem_append.1 mem with first | second
    · exact Expr.empty_of_isFresh fresh.1 symbol first
    · exact Expr.empty_of_isFresh fresh.2 symbol second
  | .call callee arguments, fresh => by
    simp only [Expr.isFresh, Bool.and_eq_true] at fresh
    intro symbol mem
    rcases List.mem_append.1 mem with first | second
    · exact Expr.empty_of_isFresh fresh.1 symbol first
    · exact Expr.allEmpty_of_areFresh fresh.2 symbol second

theorem Expr.fieldsEmpty_of_areFresh : ∀ {fields : List (String × Expr)},
    Expr.areFieldsFresh fields = true →
    ∀ symbol ∈ Expr.fieldSymbols fields, symbol.2.isConcrete = false
  | [], _ => by simp [Expr.fieldSymbols]
  | (_, value) :: rest, fresh => by
    simp only [Expr.areFieldsFresh, Bool.and_eq_true] at fresh
    intro symbol mem
    rcases List.mem_append.1 mem with first | second
    · exact Expr.empty_of_isFresh fresh.1 symbol first
    · exact Expr.fieldsEmpty_of_areFresh fresh.2 symbol second

theorem Expr.allEmpty_of_areFresh : ∀ {values : List Expr}, Expr.areFresh values = true →
    ∀ symbol ∈ Expr.allSymbols values, symbol.2.isConcrete = false
  | [], _ => by simp [Expr.allSymbols]
  | value :: rest, fresh => by
    simp only [Expr.areFresh, Bool.and_eq_true] at fresh
    intro symbol mem
    rcases List.mem_append.1 mem with first | second
    · exact Expr.empty_of_isFresh fresh.1 symbol first
    · exact Expr.allEmpty_of_areFresh fresh.2 symbol second

end

theorem Target.empty_of_isFresh {target : Target} (fresh : target.isFresh = true) :
    ∀ symbol ∈ target.symbols, symbol.2.isConcrete = false := by
  induction target with
  | symbol => simp [Target.symbols]
  | member left field slot ih => exact ih fresh
  | index left position slot ih =>
    simp only [Target.isFresh, Bool.and_eq_true] at fresh
    intro symbol mem
    rcases List.mem_append.1 mem with first | second
    · exact ih fresh.1 symbol first
    · exact Expr.empty_of_isFresh fresh.2 symbol second

/-- The steps of a target are looked at anew each time, so what stands on them does not matter. -/
def Leaf.isFresh : Leaf → Bool
  | .declare declaration => declaration.value.isFresh
  | .assign assignment => assignment.target.isFresh && assignment.value.isFresh
  | .returns statement => statement.value.all Expr.isFresh
  | .evaluate statement => statement.value.isFresh
  | .breakLoop _ | .continueLoop _ | .imports _ _ _ | .endOfFile => true

mutual

def Stmt.isFresh : Stmt → Bool
  | .leaf content => content.isFresh
  | .branch condition body _ => condition.isFresh && Stmt.areFresh body
  | .elseIf condition body _ => condition.isFresh && Stmt.areFresh body
  | .otherwise body _ => Stmt.areFresh body
  | .loop condition body _ => condition.isFresh && Stmt.areFresh body
  | .function _ body => Stmt.areFresh body

def Stmt.areFresh : List Stmt → Bool
  | [] => true
  | stmt :: rest => stmt.isFresh && Stmt.areFresh rest

end

end Hoist
