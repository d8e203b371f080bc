import Hoist.Diagnostic.Basic
import Hoist.Syntax.Operator
import Hoist.Ty.Equality
import Hoist.Ty.Text

/-!
The typing rules of single steps, on types that may still be pending. A rule that lacks a type it
needs answers with the pending type itself.
-/
namespace Hoist

namespace Ty

def mismatch {α : Type} (expected received : String) : Except Fault α :=
  .error (.refused (.typeMismatch expected received))

/-- The element type of an array. -/
def element : Ty → Except Fault Ty
  | array base _ => .ok base
  | other => mismatch "array" other.text

/-- The type at a position of an array with the given element type. -/
def atPosition (base position : Ty) : Except Fault Ty :=
  if position.isPending then .ok position
  else if position = number then .ok base
  else mismatch "number" position.text

/-- The type of a record's field. -/
def atField (left : Ty) (field : String) : Except Fault Ty :=
  if left.isPending then .ok left
  else match left with
    | record fields =>
      match Table.first? field fields with
      | some type => .ok type
      | none => .error (.refused (.unknownField field left.text))
    | _ => mismatch "object" left.text

/-- The parameters and the result of a function that is called with so many arguments. -/
def callable (callee : Ty) (arguments : Nat) : Except Fault (List (String × Ty) × Ty) :=
  match callee with
  | function parameters result =>
    if parameters.length < arguments then
      .error (.refused (.unexpectedArguments parameters.length arguments))
    else if arguments < parameters.length then
      .error (.refused (.missingArguments parameters.length arguments))
    else .ok (parameters, result)
  | other => mismatch "function" other.text

/-- An argument that has a type has that of its parameter. -/
def passTo (argument parameter : Ty) : Except Fault Unit :=
  if argument.isPending || argument = parameter then .ok ()
  else mismatch parameter.text argument.text

/-- The element type of an array literal after one more element. -/
def join (base : Option Ty) (element : Ty) : Except Fault (Option Ty) :=
  if element.isPending then .ok base
  else match base with
    | none => .ok (some element)
    | some expected =>
      if expected = element then .ok base
      else .error (.refused (.heterogeneousArray expected.text element.text))

/-- The type of an array literal with these elements. -/
def ofElements (elements : List Ty) : Except Fault Ty :=
  match elements.find? isPending with
  | some blocked => .ok blocked
  | none =>
    match elements with
    | [] => .error (.refused .emptyArray)
    | base :: _ => .ok (array base elements.length)

/-- The type of a record literal with these fields. -/
def ofFields (fields : List (String × Ty)) : Ty :=
  ((fields.map (·.2)).find? isPending).getD (record fields)

/-- The type of a call whose arguments have these types. -/
def ofCall (arguments : List Ty) (result : Ty) : Ty :=
  (arguments.find? isPending).getD result

end Ty

def UnaryOp.operand : UnaryOp → Ty
  | plus | minus => .number
  | not => .boolean

def UnaryOp.apply (op : UnaryOp) (operand : Ty) : Except Fault Ty :=
  if operand.isPending then .ok operand
  else if operand = op.operand then .ok op.operand
  else Ty.mismatch op.operand.text operand.text

def BinaryOp.result? (op : BinaryOp) : Ty → Ty → Option Ty
  | .number, .number => some (if op.isArithmetic then .number else .boolean)
  | .string m, .string n => if op = .add then some (.string (m + n)) else none
  | .boolean, .boolean => if op.isEquality then some .boolean else none
  | _, _ => none

/-- What an operator takes, in words. -/
def BinaryOp.operands (op : BinaryOp) : String :=
  if op = .add then "number or string"
  else if op.isEquality then "number or boolean"
  else "number"

def BinaryOp.apply (op : BinaryOp) (left right : Ty) : Except Fault Ty :=
  match op.result? left right with
  | some type => .ok type
  | none =>
    if left.isPending then .ok left
    else if right.isPending then .ok right
    else Ty.mismatch op.operands (left.text ++ " and " ++ right.text)

end Hoist
