import Hoist.Diagnostic.Cause
import Hoist.Ty.Equality
import Hoist.Ty.Text

/-!
Types that are known through and through. They are a type of their own, without placeholders, so
that whoever reads a finished tree never meets one.

Main statement: reading the plain form of a concrete type gives the type back (`ofTy_toTy`).
-/
namespace Hoist

inductive ConcreteTy
  | number
  | boolean
  | string (length : Length)
  | array (base : ConcreteTy) (length : Nat)
  | record (fields : List (String × ConcreteTy))
  | function (parameters : List (String × ConcreteTy)) (result : ConcreteTy)
  | void
  | named (name : String)

namespace ConcreteTy

mutual

def toTy : ConcreteTy → Ty
  | number => .number
  | boolean => .boolean
  | string length => .string length
  | array base length => .array (toTy base) length
  | record fields => .record (toFields fields)
  | function parameters result => .function (toFields parameters) (toTy result)
  | void => .void
  | named name => .named name

def toFields : List (String × ConcreteTy) → List (String × Ty)
  | [] => []
  | (name, type) :: rest => (name, toTy type) :: toFields rest

end

mutual

/-- Refuses a type with a placeholder, and names the first one in it. -/
def ofTy : Ty → Except Cause ConcreteTy
  | .number => .ok number
  | .boolean => .ok boolean
  | .string length => .ok (string length)
  | .array base length => do
    let base ← ofTy base
    return array base length
  | .record fields => do
    let fields ← ofFields fields
    return record fields
  | .function parameters result => do
    let parameters ← ofFields parameters
    let result ← ofTy result
    return function parameters result
  | .void => .ok void
  | .named name => .ok (named name)
  | .unresolved => .error (.unresolvedType Ty.unresolved.text)
  | .unannotated => .error (.unresolvedType Ty.unannotated.text)
  | .pending name => .error (.unresolvedType (Ty.pending name).text)

def ofFields : List (String × Ty) → Except Cause (List (String × ConcreteTy))
  | [] => .ok []
  | (name, type) :: rest => do
    let type ← ofTy type
    let rest ← ofFields rest
    return (name, type) :: rest

end

mutual

theorem ofTy_toTy : ∀ type : ConcreteTy, ofTy type.toTy = .ok type
  | .number | .boolean | .string _ | .void | .named _ => by simp [toTy, ofTy]
  | .array base _ => by simp [toTy, ofTy, ofTy_toTy base, bind, Except.bind, pure, Except.pure]
  | .record fields => by
    simp [toTy, ofTy, ofFields_toFields fields, bind, Except.bind, pure, Except.pure]
  | .function parameters result => by
    simp [toTy, ofTy, ofFields_toFields parameters, ofTy_toTy result, bind, Except.bind, pure,
      Except.pure]

theorem ofFields_toFields : ∀ fields : List (String × ConcreteTy),
    ofFields (toFields fields) = .ok fields
  | [] => by simp [toFields, ofFields]
  | (_, type) :: rest => by
    simp [toFields, ofFields, ofTy_toTy type, ofFields_toFields rest, bind, Except.bind, pure,
      Except.pure]

end

theorem toTy_injective {a b : ConcreteTy} (same : a.toTy = b.toTy) : a = b := by
  have both := ofTy_toTy a
  rw [same, ofTy_toTy b] at both
  exact (Except.ok.inj both).symm

instance : DecidableEq ConcreteTy := fun a b =>
  decidable_of_iff (a.toTy = b.toTy) ⟨toTy_injective, fun same => same ▸ rfl⟩

def text (type : ConcreteTy) : String :=
  type.toTy.text

end ConcreteTy

end Hoist
