import Hoist.Ty.Basic
import Hoist.Syntax.Number
import Hoist.Syntax.Operator

/-!
Expressions, and the targets of assignments. Symbols, records and arrays have a slot for the type
that was found for them; the steps of a target have one for the type on their left.
-/
namespace Hoist

inductive Expr
  | number (value : Number)
  | boolean (value : Bool)
  | string (value : String)
  | symbol (name : String) (slot : Ty)
  | record (fields : List (String × Expr)) (slot : Ty)
  | array (elements : List Expr) (slot : Ty)
  | unary (op : UnaryOp) (operand : Expr)
  | binary (op : BinaryOp) (left right : Expr)
  | index (left position : Expr)
  | member (left : Expr) (field : String)
  | call (callee : Expr) (arguments : List Expr)

/-- What an assignment writes to: a name, then fields and indices. A member's slot holds the type
on its left, an index's slot the element type of the array on its left. -/
inductive Target
  | symbol (name : String)
  | member (left : Target) (field : String) (slot : Ty)
  | index (left : Target) (position : Expr) (slot : Ty)

namespace Target

/-- The name that the target starts from. -/
def root : Target → String
  | symbol name => name
  | member left _ _ => left.root
  | index left _ _ => left.root

def isSymbol : Target → Bool
  | symbol _ => true
  | _ => false

end Target

end Hoist
