import Hoist.Syntax.Expr
import Hoist.Ty.Concrete

/-!
Expressions and targets in which every part has its type. They are read off plain ones whose slots
have been filled, and can be turned back.
-/
namespace Hoist.Typed

inductive Expr
  | number (value : Number)
  | boolean (value : Bool)
  | string (value : String)
  | symbol (name : String) (type : ConcreteTy)
  | record (fields : List (String × Expr)) (type : ConcreteTy)
  | array (elements : List Expr) (type : ConcreteTy)
  | unary (op : UnaryOp) (operand : Expr) (type : ConcreteTy)
  | binary (op : BinaryOp) (left right : Expr) (type : ConcreteTy)
  | index (left position : Expr) (type : ConcreteTy)
  | member (left : Expr) (field : String) (type : ConcreteTy)
  | call (callee : Expr) (arguments : List Expr) (type : ConcreteTy)

namespace Expr

def type : Expr → ConcreteTy
  | number _ => .number
  | boolean _ => .boolean
  | string value => .string (.ofNat value.length)
  | symbol _ type => type
  | record _ type => type
  | array _ type => type
  | unary _ _ type => type
  | binary _ _ _ type => type
  | index _ _ type => type
  | member _ _ type => type
  | call _ _ type => type

def unaryType : UnaryOp → ConcreteTy
  | .not => .boolean
  | .plus | .minus => .number

/-- Two strings make a string; otherwise the operator decides. -/
def binaryType (op : BinaryOp) : ConcreteTy → ConcreteTy → ConcreteTy
  | .string m, .string n => .string (m + n)
  | _, _ => if op.isArithmetic then .number else .boolean

def indexType : ConcreteTy → Except Cause ConcreteTy
  | .array base _ => .ok base
  | _ => .error (.unresolvedType "index target")

def memberType (field : String) : ConcreteTy → Except Cause ConcreteTy
  | .record fields =>
    match Table.first? field fields with
    | some type => .ok type
    | none => .error (.unresolvedType field)
  | _ => .error (.unresolvedType "member target")

def callType : ConcreteTy → Except Cause ConcreteTy
  | .function _ result => .ok result
  | _ => .error (.unresolvedType "callee")

mutual

/-- Reads the types off the slots; fails where one is missing. -/
def ofExpr : Hoist.Expr → Except Cause Expr
  | .number value => .ok (number value)
  | .boolean value => .ok (boolean value)
  | .string value => .ok (string value)
  | .symbol name slot => do
    let type ← ConcreteTy.ofTy slot
    return symbol name type
  | .record fields slot => do
    let fields ← ofFields fields
    let type ← ConcreteTy.ofTy slot
    return record fields type
  | .array elements slot => do
    let elements ← ofExprs elements
    let type ← ConcreteTy.ofTy slot
    return array elements type
  | .unary op operand => do
    let operand ← ofExpr operand
    return unary op operand (unaryType op)
  | .binary op left right => do
    let left ← ofExpr left
    let right ← ofExpr right
    return binary op left right (binaryType op left.type right.type)
  | .index left position => do
    let left ← ofExpr left
    let type ← indexType left.type
    let position ← ofExpr position
    return index left position type
  | .member left field => do
    let left ← ofExpr left
    let type ← memberType field left.type
    return member left field type
  | .call callee arguments => do
    let callee ← ofExpr callee
    let type ← callType callee.type
    let arguments ← ofExprs arguments
    return call callee arguments type

def ofFields : List (String × Hoist.Expr) → Except Cause (List (String × Expr))
  | [] => .ok []
  | (name, value) :: rest => do
    let value ← ofExpr value
    let rest ← ofFields rest
    return (name, value) :: rest

def ofExprs : List Hoist.Expr → Except Cause (List Expr)
  | [] => .ok []
  | value :: rest => do
    let value ← ofExpr value
    let rest ← ofExprs rest
    return value :: rest

end

mutual

/-- Keeps the types of symbols, records and arrays in their slots. -/
def toExpr : Expr → Hoist.Expr
  | number value => .number value
  | boolean value => .boolean value
  | string value => .string value
  | symbol name type => .symbol name type.toTy
  | record fields type => .record (toFields fields) type.toTy
  | array elements type => .array (toExprs elements) type.toTy
  | unary op operand _ => .unary op (toExpr operand)
  | binary op left right _ => .binary op (toExpr left) (toExpr right)
  | index left position _ => .index (toExpr left) (toExpr position)
  | member left field _ => .member (toExpr left) field
  | call callee arguments _ => .call (toExpr callee) (toExprs arguments)

def toFields : List (String × Expr) → List (String × Hoist.Expr)
  | [] => []
  | (name, value) :: rest => (name, toExpr value) :: toFields rest

def toExprs : List Expr → List Hoist.Expr
  | [] => []
  | value :: rest => toExpr value :: toExprs rest

end

end Expr

inductive Target
  | symbol (name : String)
  | member (left : Target) (field : String) (leftType : ConcreteTy)
  | index (left : Target) (position : Expr) (elementType : ConcreteTy)

namespace Target

def ofTarget : Hoist.Target → Except Cause Target
  | .symbol name => .ok (symbol name)
  | .member left field slot => do
    let left ← ofTarget left
    let type ← ConcreteTy.ofTy slot
    return member left field type
  | .index left position slot => do
    let left ← ofTarget left
    let type ← ConcreteTy.ofTy slot
    let position ← Expr.ofExpr position
    return index left position type

def toTarget : Target → Hoist.Target
  | symbol name => .symbol name
  | member left field type => .member left.toTarget field type.toTy
  | index left position type => .index left.toTarget position.toExpr type.toTy

end Target

end Hoist.Typed
