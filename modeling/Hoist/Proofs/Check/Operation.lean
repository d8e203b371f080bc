import Hoist.Proofs.Check.Yields
import Hoist.Proofs.Scope.Observe

/-!
Operations on the scopes, as requests that are carried out one after the other.

Main statement: all that an operation can do to the scopes (`Operation.effect_of_carryOut`).
-/
namespace Hoist

/-- A change of the scopes that anybody may ask for. -/
inductive Operation (κ : Type)
  | create (parent : Option ScopeId) (kind : ScopeKind)
  | define (scope : ScopeId) (binding : Binding) (position : Position)
  | update (scope : ScopeId) (binding : Binding) (position : Position)
  | setResult (scope : ScopeId) (result : Ty) (position : Position)
  | await (scope : ScopeId) (name : String) (work : Deferral κ) (position : Position)
  | awaitResult (scope : ScopeId) (work : Deferral κ) (position : Position)

/-- Operations and what came of each: the work that it handed back, or why it failed. -/
abbrev History (κ : Type) := List (Operation κ × Except Halt (List (Deferral κ)))

namespace Operation

variable {κ σ : Type}

/-- The scope and the name that the operation binds, anew or again. -/
def binds : Operation κ → Option (ScopeId × String)
  | .define scope binding _ | .update scope binding _ => some (scope, binding.name)
  | _ => none

def carryOut : Operation κ → Check κ σ (List (Deferral κ))
  | .create parent kind => do
    let _ ← Check.createScope parent kind
    return []
  | .define scope binding position => Check.define scope binding position
  | .update scope binding position => Check.update scope binding position
  | .setResult scope result position => Check.setResult scope result position
  | .await scope name work position => do
    Check.await scope name work position
    return []
  | .awaitResult scope work position => do
    Check.awaitResult scope work position
    return []

/-- Carries out one operation after the other, whether they fail or not. -/
def carryOutAll : List (Operation κ) → Checker κ σ → History κ × Checker κ σ
  | [], state => ([], state)
  | operation :: rest, state =>
    let (outcome, after) := operation.carryOut.run state
    let (later, last) := carryOutAll rest after
    ((operation, outcome) :: later, last)

theorem carryOutAll_append (first second : List (Operation κ)) (s : Checker κ σ) :
    carryOutAll (first ++ second) s =
      ((carryOutAll first s).1 ++ (carryOutAll second (carryOutAll first s).2).1,
        (carryOutAll second (carryOutAll first s).2).2) := by
  induction first generalizing s with
  | nil => simp [carryOutAll]
  | cons operation rest ih =>
    simp only [List.cons_append, carryOutAll, ih]
    rfl

/-- All that an operation can do to the scopes. -/
inductive Effect (scopes : Scopes (Deferral κ)) :
    Operation κ → Except Halt (List (Deferral κ)) → Scopes (Deferral κ) → Prop
  | failed (operation : Operation κ) (halt : Halt) : Effect scopes operation (.error halt) scopes
  | created (parent : Option ScopeId) (kind : ScopeKind) :
      Effect scopes (.create parent kind) (.ok []) (scopes.create parent kind)
  | bound {operation : Operation κ} {id : ScopeId} {scope : Scope (Deferral κ)}
      {binding : Binding} : operation.binds = some (id, binding.name) →
      scopes.all[id]? = some scope →
      Effect scopes operation (.ok (scope.bind binding).1) (scopes.set id (scope.bind binding).2)
  | awaited {id : ScopeId} {scope : Scope (Deferral κ)} (name : String) (work : Deferral κ)
      (position : Position) : scopes.all[id]? = some scope →
      Effect scopes (.await id name work position) (.ok [])
        (scopes.set id (scope.await name ⟨work, position⟩))
  | changed {operation : Operation κ} {id : ScopeId} {scope : Scope (Deferral κ)}
      {handed : List (Deferral κ)} (role : Role (Deferral κ)) : operation.binds = none →
      (∀ id name work position, operation ≠ .await id name work position) →
      (∀ work ∈ handed, work ∈ scope.role.waiting) →
      (∀ work ∈ role.waiting, work ∈ scope.role.waiting ∨
        ∃ id position, operation = .awaitResult id work position) →
      scopes.all[id]? = some scope →
      Effect scopes operation (.ok handed) (scopes.set id { scope with role })

end Operation

/-! Changes of scopes, taken apart. -/

namespace Scopes

variable {δ : Type} {before after : Scopes δ} {id : ScopeId} {work : List δ} {binding : Binding}

theorem exists_of_changeFunction {α : Type} {answer : α} {change : Ty → List δ → α × Role δ}
    (done : before.changeFunction id change = .ok (answer, after)) :
    ∃ body scope result, before.all[body]? = some scope ∧
      (answer, after) = ((change result scope.role.waiting).1,
        before.set body { scope with role := (change result scope.role.waiting).2 }) := by
  simp only [changeFunction, bind_eq_ok] at done
  obtain ⟨found, -, done⟩ := done
  cases found with
  | none => simp at done
  | some body =>
    simp only [bind_eq_ok, get_eq_ok] at done
    obtain ⟨scope, here, done⟩ := done
    cases role : scope.role with
    | block | loop => simp [role] at done
    | function result waiting =>
      rw [role, pure_eq_ok] at done
      exact ⟨body, scope, result, here, by rw [← done, role]; rfl⟩

end Scopes

namespace Operation

variable {κ σ : Type}

/-- Only the scopes and the notes may be others. -/
def Touches (s t : Checker κ σ) : Prop :=
  ∃ scopes journal, t = { s with scopes, journal }

open Check in
theorem yields_carryOut (operation : Operation κ) (s : Checker κ σ) :
    Yields operation.carryOut s
      (fun handed t => Effect s.scopes operation (.ok handed) t.scopes ∧ Touches s t)
      fun _ t => t.scopes = s.scopes ∧ Touches s t := by
  cases operation with
  | create parent kind =>
    simp only [carryOut, yields_bind, yields_createScope, yields_pure]
    exact ⟨.created parent kind, _, _, rfl⟩
  | define scope binding position =>
    rw [carryOut, yields_define]
    refine ⟨fun work changed done => ?_, fun _ _ => ⟨rfl, _, _, rfl⟩⟩
    obtain ⟨found, here, -, rfl, rfl⟩ := Scopes.exists_of_define done
    exact ⟨.bound rfl here, _, _, rfl⟩
  | update scope binding position =>
    simp only [carryOut, Check.update, setScopes, yields_bind, yields_scopes, yields_ofFault,
      yields_modify, yields_note, yields_pure]
    refine ⟨?_, fun _ _ => ⟨trivial, _, _, rfl⟩⟩
    rintro ⟨work, changed⟩ done
    obtain ⟨found, here, -, rfl, rfl⟩ := Scopes.exists_of_update done
    exact ⟨.bound rfl here, _, _, rfl⟩
  | setResult scope result position =>
    simp only [carryOut, Check.setResult, setScopes, yields_bind, yields_scopes, yields_ofFault,
      yields_modify, yields_note, yields_pure]
    refine ⟨?_, fun _ _ => ⟨trivial, _, _, rfl⟩⟩
    rintro ⟨work, changed⟩ done
    obtain ⟨body, found, old, here, same⟩ := Scopes.exists_of_changeFunction done
    obtain ⟨rfl, rfl⟩ := Prod.mk.inj same
    exact ⟨.changed _ rfl (by simp) (fun _ => id) (by simp [Role.waiting]) here, _, _, rfl⟩
  | await scope name work position =>
    simp only [carryOut, Check.await, setScopes, yields_bind, yields_scopes, yields_ofFault,
      yields_modify, yields_note, yields_pure]
    refine ⟨fun changed done => ?_, fun _ _ => ⟨trivial, _, _, rfl⟩⟩
    simp only [Scopes.await, bind_eq_ok, pure_eq_ok, Scopes.get_eq_ok] at done
    obtain ⟨found, here, rfl⟩ := done
    exact ⟨.awaited name work position here, _, _, rfl⟩
  | awaitResult scope work position =>
    simp only [carryOut, Check.awaitResult, setScopes, yields_bind, yields_scopes, yields_ofFault,
      yields_modify, yields_note, yields_pure]
    refine ⟨fun changed done => ?_, fun _ _ => ⟨trivial, _, _, rfl⟩⟩
    simp only [Scopes.awaitResult, bind_eq_ok, pure_eq_ok] at done
    obtain ⟨⟨_, after⟩, done, rfl⟩ := done
    obtain ⟨body, found, old, here, same⟩ := Scopes.exists_of_changeFunction done
    obtain ⟨-, rfl⟩ := Prod.mk.inj same
    exact ⟨.changed _ rfl (by simp) (by simp) (by simp +contextual [Role.waiting, or_imp]) here,
      _, _, rfl⟩

theorem effect_of_carryOut {operation : Operation κ} {s t : Checker κ σ}
    {outcome : Except Halt (List (Deferral κ))} (ran : operation.carryOut.run s = (outcome, t)) :
    Effect s.scopes operation outcome t.scopes := by
  have yields := operation.yields_carryOut s
  rw [Check.Yields, ran] at yields
  cases outcome with
  | ok handed => exact yields.1
  | error halt =>
    simp only at yields
    rw [yields.1]
    exact .failed operation halt

theorem touches_carryOut (operation : Operation κ) (s : Checker κ σ) :
    Touches s (operation.carryOut.run s).2 := by
  have yields := operation.yields_carryOut s
  rcases ran : operation.carryOut.run s with ⟨halt | handed, t⟩
  all_goals
    rw [Check.Yields, ran] at yields
    exact yields.2

end Operation

end Hoist
