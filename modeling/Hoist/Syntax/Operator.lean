/-!
The operators of the language.
-/
namespace Hoist

inductive UnaryOp
  | plus | minus | not
  deriving DecidableEq, Inhabited, Repr

inductive BinaryOp
  | add | subtract | multiply | divide
  | or | xor | and
  | equal | notEqual
  | less | lessEqual | greater | greaterEqual
  deriving DecidableEq, Inhabited, Repr

/-- Makes a number of two numbers. -/
def BinaryOp.isArithmetic : BinaryOp → Bool
  | add | subtract | multiply | divide | or | xor | and => true
  | equal | notEqual | less | lessEqual | greater | greaterEqual => false

/-- Compares two numbers or two booleans. -/
def BinaryOp.isEquality : BinaryOp → Bool
  | equal | notEqual => true
  | _ => false

/-- `set` replaces the value; the others combine it with a number. -/
inductive AssignOp
  | set | add | subtract | multiply | divide
  deriving DecidableEq, Inhabited, Repr

end Hoist
