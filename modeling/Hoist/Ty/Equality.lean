import Hoist.Ty.Basic

/-!
Equality of types can be decided.
-/
namespace Hoist.Ty

mutual

def same : Ty → Ty → Bool
  | number, number => true
  | boolean, boolean => true
  | string m, string n => m == n
  | array a m, array b n => same a b && m == n
  | record fs, record gs => sameFields fs gs
  | function ps r, function qs s => sameFields ps qs && same r s
  | void, void => true
  | named m, named n => m == n
  | unresolved, unresolved => true
  | unannotated, unannotated => true
  | pending m, pending n => m == n
  | _, _ => false

def sameFields : List (String × Ty) → List (String × Ty) → Bool
  | [], [] => true
  | (m, a) :: fs, (n, b) :: gs => m == n && same a b && sameFields fs gs
  | _, _ => false

end

mutual

theorem same_iff : ∀ a b : Ty, same a b = true ↔ a = b
  | .array a m, b => by cases b <;> simp [same, same_iff a]
  | .record fs, b => by cases b <;> simp [same, sameFields_iff fs]
  | .function ps r, b => by cases b <;> simp [same, sameFields_iff ps, same_iff r]
  | .number, b | .boolean, b | .void, b | .unresolved, b | .unannotated, b => by
    cases b <;> simp [same]
  | .string _, b | .named _, b | .pending _, b => by cases b <;> simp [same]

theorem sameFields_iff : ∀ fs gs : List (String × Ty), sameFields fs gs = true ↔ fs = gs
  | [], gs => by cases gs <;> simp [sameFields]
  | (m, a) :: fs, gs => by
    cases gs with
    | nil => simp [sameFields]
    | cons g gs => simp [sameFields, same_iff a, sameFields_iff fs, Prod.ext_iff]

end

instance : DecidableEq Ty := fun a b => decidable_of_iff _ (same_iff a b)

end Hoist.Ty
