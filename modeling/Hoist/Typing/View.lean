import Hoist.Scope.Lookup

/-!
What names mean where an expression stands.
-/
namespace Hoist

inductive Reading
  | bound (type : Ty)
  | unbound
  /-- The way outwards leads to a scope that is not there. -/
  | dangling

abbrev View := String → Reading

/-- The type of a name, once it has one; until then it is pending. -/
def View.type (view : View) (name : String) : Except Fault Ty :=
  match view name with
  | .bound type => .ok (if type.isConcrete then type else .pending name)
  | .unbound => .ok (.pending name)
  | .dangling => .error .dangling

/-- The names as they are seen from a scope. -/
def Scopes.view {δ : Type} (scopes : Scopes δ) (id : ScopeId) : View := fun name =>
  match scopes.lookup id name with
  | .ok (some binding) => .bound binding.type
  | .ok none => .unbound
  | .error _ => .dangling

end Hoist
