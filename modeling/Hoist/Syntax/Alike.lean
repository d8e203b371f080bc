import Hoist.Ty.Equality
import Hoist.Syntax.Stmt

/-!
When two pieces of syntax say the same: equal in every part, slots and places included, where
number literals are compared as numbers.
-/
namespace Hoist

mutual

def Expr.alike : Expr → Expr → Bool
  | .number a, .number b => a.alike b
  | .boolean a, .boolean b => a == b
  | .string a, .string b => a == b
  | .symbol m s, .symbol n t => m == n && s == t
  | .record fs s, .record gs t => Expr.fieldsAlike fs gs && s == t
  | .array as s, .array bs t => Expr.allAlike as bs && s == t
  | .unary o a, .unary p b => o == p && a.alike b
  | .binary o a b, .binary p c d => o == p && a.alike c && b.alike d
  | .index a b, .index c d => a.alike c && b.alike d
  | .member a m, .member b n => a.alike b && m == n
  | .call a as, .call b bs => a.alike b && Expr.allAlike as bs
  | _, _ => false

def Expr.fieldsAlike : List (String × Expr) → List (String × Expr) → Bool
  | [], [] => true
  | (m, a) :: fs, (n, b) :: gs => m == n && a.alike b && Expr.fieldsAlike fs gs
  | _, _ => false

def Expr.allAlike : List Expr → List Expr → Bool
  | [], [] => true
  | a :: as, b :: bs => a.alike b && Expr.allAlike as bs
  | _, _ => false

end

def Target.alike : Target → Target → Bool
  | .symbol m, .symbol n => m == n
  | .member a m s, .member b n t => a.alike b && m == n && s == t
  | .index a e s, .index b f t => a.alike b && e.alike f && s == t
  | _, _ => false

def Declaration.alike (a b : Declaration) : Bool :=
  a.name == b.name && a.constant == b.constant && a.value.alike b.value
    && a.written == b.written && a.type == b.type && a.exported == b.exported
    && a.span == b.span

def Assignment.alike (a b : Assignment) : Bool :=
  a.target.alike b.target && a.op == b.op && a.value.alike b.value && a.span == b.span

def Return.alike (a b : Return) : Bool :=
  (match a.value, b.value with
    | some x, some y => x.alike y
    | none, none => true
    | _, _ => false) && a.span == b.span

def Evaluation.alike (a b : Evaluation) : Bool :=
  a.value.alike b.value && a.span == b.span

def Signature.alike (a b : Signature) : Bool :=
  a.name == b.name && a.parameters == b.parameters && a.result == b.result
    && a.exported == b.exported && a.span == b.span

def Leaf.alike : Leaf → Leaf → Bool
  | .declare a, .declare b => a.alike b
  | .assign a, .assign b => a.alike b
  | .breakLoop s, .breakLoop t => s == t
  | .continueLoop s, .continueLoop t => s == t
  | .returns a, .returns b => a.alike b
  | .imports ms m s, .imports ns n t => ms == ns && m == n && s == t
  | .evaluate a, .evaluate b => a.alike b
  | .endOfFile, .endOfFile => true
  | _, _ => false

mutual

def Stmt.alike : Stmt → Stmt → Bool
  | .leaf a, .leaf b => a.alike b
  | .branch c as s, .branch d bs t => c.alike d && Stmt.allAlike as bs && s == t
  | .elseIf c as s, .elseIf d bs t => c.alike d && Stmt.allAlike as bs && s == t
  | .otherwise as s, .otherwise bs t => Stmt.allAlike as bs && s == t
  | .loop c as s, .loop d bs t => c.alike d && Stmt.allAlike as bs && s == t
  | .function a as, .function b bs => a.alike b && Stmt.allAlike as bs
  | _, _ => false

def Stmt.allAlike : List Stmt → List Stmt → Bool
  | [], [] => true
  | a :: as, b :: bs => a.alike b && Stmt.allAlike as bs
  | _, _ => false

end

end Hoist
