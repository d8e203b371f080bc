import Hoist.Typed.Stmt

/-!
What it means for the parts of a checked file to be well typed. Nothing is looked up here: a
symbol has the type that stands on it, and every other node must follow from its parts.

`symbols` lists the symbols of an expression in the order in which they are looked at.
-/
namespace Hoist

namespace Typed

inductive UnaryRule : UnaryOp → ConcreteTy → ConcreteTy → Prop
  | plus : UnaryRule .plus .number .number
  | minus : UnaryRule .minus .number .number
  | not : UnaryRule .not .boolean .boolean

inductive BinaryRule : BinaryOp → ConcreteTy → ConcreteTy → ConcreteTy → Prop
  | arithmetic {op : BinaryOp} : op.isArithmetic = true → BinaryRule op .number .number .number
  | concatenation {m n : Length} : BinaryRule .add (.string m) (.string n) (.string (m + n))
  | equality {op : BinaryOp} {operand : ConcreteTy} :
      op.isEquality = true → operand = .number ∨ operand = .boolean →
      BinaryRule op operand operand .boolean
  | ordering {op : BinaryOp} :
      op.isArithmetic = false → op.isEquality = false → BinaryRule op .number .number .boolean

namespace Expr

/-- The names of a record literal's fields with the types of their values. -/
def fieldTypes (fields : List (String × Expr)) : List (String × ConcreteTy) :=
  fields.map fun field => (field.1, field.2.type)

inductive WellTyped : Expr → Prop
  | number {value} : WellTyped (.number value)
  | boolean {value} : WellTyped (.boolean value)
  | string {value} : WellTyped (.string value)
  | symbol {name type} : WellTyped (.symbol name type)
  | record {fields} :
      (∀ field ∈ fields, WellTyped field.2) → (fields.map (·.1)).Nodup →
      WellTyped (.record fields (.record (fieldTypes fields)))
  | array {elements base} :
      elements ≠ [] → (∀ element ∈ elements, WellTyped element) →
      (∀ element ∈ elements, element.type = base) →
      WellTyped (.array elements (.array base elements.length))
  | unary {op operand type} :
      WellTyped operand → UnaryRule op operand.type type → WellTyped (.unary op operand type)
  | binary {op left right type} :
      WellTyped left → WellTyped right → BinaryRule op left.type right.type type →
      WellTyped (.binary op left right type)
  | index {left position type length} :
      WellTyped left → WellTyped position → left.type = .array type length →
      position.type = .number → WellTyped (.index left position type)
  | member {left field type fields} :
      WellTyped left → left.type = .record fields → Table.first? field fields = some type →
      WellTyped (.member left field type)
  | call {callee arguments parameters type} :
      WellTyped callee → (∀ argument ∈ arguments, WellTyped argument) →
      callee.type = .function parameters type →
      arguments.map Expr.type = parameters.map (·.2) → WellTyped (.call callee arguments type)

mutual

def symbols : Expr → List (String × ConcreteTy)
  | number _ | boolean _ | string _ => []
  | symbol name type => [(name, type)]
  | record fields _ => fieldSymbols fields
  | array elements _ => allSymbols elements
  | unary _ operand _ => symbols operand
  | binary _ left right _ => symbols left ++ symbols right
  | index left position _ => symbols left ++ symbols position
  | member left _ _ => symbols left
  | call callee arguments _ => symbols callee ++ allSymbols arguments

def fieldSymbols : List (String × Expr) → List (String × ConcreteTy)
  | [] => []
  | (_, value) :: rest => symbols value ++ fieldSymbols rest

def allSymbols : List Expr → List (String × ConcreteTy)
  | [] => []
  | value :: rest => symbols value ++ allSymbols rest

end

end Expr

namespace Target

/-- The name that the target starts from. -/
def root : Target → String
  | symbol name => name
  | member left _ _ => left.root
  | index left _ _ => left.root

def isSymbol : Target → Bool
  | symbol _ => true
  | _ => false

/-- Where a target leads to from a root of a given type, if all its slots are right. -/
inductive Leads (root : ConcreteTy) : Target → ConcreteTy → Prop
  | symbol {name} : Leads root (.symbol name) root
  | member {left field fields type} :
      Leads root left (.record fields) → Table.first? field fields = some type →
      Leads root (.member left field (.record fields)) type
  | index {left position type length} :
      Leads root left (.array type length) → position.WellTyped → position.type = .number →
      Leads root (.index left position type) type

def symbols : Target → List (String × ConcreteTy)
  | symbol _ => []
  | member left _ _ => left.symbols
  | index left position _ => left.symbols ++ position.symbols

end Target

end Typed

mutual

def Expr.symbols : Expr → List (String × Ty)
  | .number _ | .boolean _ | .string _ => []
  | .symbol name slot => [(name, slot)]
  | .record fields _ => Expr.fieldSymbols fields
  | .array elements _ => Expr.allSymbols elements
  | .unary _ operand => operand.symbols
  | .binary _ left right => left.symbols ++ right.symbols
  | .index left position => left.symbols ++ position.symbols
  | .member left _ => left.symbols
  | .call callee arguments => callee.symbols ++ Expr.allSymbols arguments

def Expr.fieldSymbols : List (String × Expr) → List (String × Ty)
  | [] => []
  | (_, value) :: rest => value.symbols ++ Expr.fieldSymbols rest

def Expr.allSymbols : List Expr → List (String × Ty)
  | [] => []
  | value :: rest => value.symbols ++ Expr.allSymbols rest

end

def Target.symbols : Target → List (String × Ty)
  | .symbol _ => []
  | .member left _ _ => left.symbols
  | .index left position _ => left.symbols ++ position.symbols

end Hoist
