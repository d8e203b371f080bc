import Hoist.Proofs.Check.Yields
import Hoist.Proofs.Scope.Nearest

/-!
What binding a name in one scope changes for all the others. The scopes may be in any position to
each other, with other bindings of the name in between, and nothing is asked of their parents.

Main statement: `define_update_frame`. A name that is looked up from some scope gives the new
binding if the way outwards comes to it before any other of that name, and what it gave before
otherwise. What else the scopes keep stays as it is, and a binding that is refused changes nothing.
-/
namespace Hoist

namespace Scopes

variable {δ : Type} {before after : Scopes δ} {name : String} {id owner : ScopeId}

/-- The way outwards from `id` comes to `owner`, and no scope on it before `owner` binds the
name. -/
inductive Uncovered (scopes : Scopes δ) (name : String) : ScopeId → ScopeId → Prop
  | here {owner : ScopeId} : Uncovered scopes name owner owner
  | outer {id parent owner : ScopeId} :
    scopes.binding? id name = none → scopes.parent? id = some (some parent) →
    Uncovered scopes name parent owner → Uncovered scopes name id owner

/-- All that can be seen of the scopes after a name was bound in one of them. -/
structure Reframed (before after : Scopes δ) (id : ScopeId) (binding : Binding) : Prop where
  size : after.size = before.size
  shown : ∀ start, before.Uncovered binding.name start id →
    after.lookup start binding.name = .ok (some binding) ∧
      after.owner start binding.name = .ok (some id)
  hidden : ∀ start name, ¬ (name = binding.name ∧ before.Uncovered binding.name start id) →
    after.lookup start name = before.lookup start name ∧
      after.owner start name = before.owner start name
  parent : ∀ other, after.parent? other = before.parent? other
  kind : ∀ other, after.kind? other = before.kind? other
  result : ∀ other, after.result? other = before.result? other
  resultWaiters : ∀ other, after.resultWaiters other = before.resultWaiters other
  waiters : ∀ other name, ¬ (other = id ∧ name = binding.name) →
    after.waiters other name = before.waiters other name

theorem Nearest.uncovered {binding : Binding} (nearest : before.Nearest name id owner binding) :
    before.Uncovered name id owner := by
  induction nearest with
  | here bound => exact .here
  | outer unbound above _ ih => exact .outer unbound above ih

theorem Bound.nearest {binding : Binding} {work : List δ} {start : ScopeId}
    (changed : Bound before after id binding work)
    (bare : before.Uncovered binding.name start id) :
    after.Nearest binding.name start id binding := by
  have bound : after.binding? id binding.name = some binding := by simp [changed.bindings]
  induction bare with
  | here => exact .here bound
  | @outer near parent owner unbound above _ ih =>
    -- Where parents lead in circles the way may pass the scope itself.
    by_cases same : near = owner
    · subst same
      exact .here bound
    · refine .outer ?_ ((changed.parent near).trans above) (ih changed bound)
      simpa [changed.bindings, same] using unbound

/-- A walk that does not come to the new binding first goes as before. -/
theorem Bound.climb {binding : Binding} {work : List δ}
    (changed : Bound before after id binding work) (fuel : Nat) {start : ScopeId}
    (covered : ¬ (name = binding.name ∧ before.Uncovered binding.name start id)) :
    after.climb (·.binds name) fuel start = before.climb (·.binds name) fuel start := by
  induction fuel generalizing start with
  | zero => rfl
  | succ fuel ih =>
    have above := changed.parent start
    have same : after.binding? start name = before.binding? start name := by
      rw [changed.bindings, if_neg]
      rintro ⟨rfl, rfl⟩
      exact covered ⟨rfl, .here⟩
    cases here : before.all[start]? with
    | none =>
      have there : after.all[start]? = none := by simpa [parent?, here] using above
      simp only [Scopes.climb, Scopes.get, here, there]
      rfl
    | some scope =>
      obtain ⟨scope', there, up⟩ : ∃ scope', after.all[start]? = some scope' ∧
          scope'.parent = scope.parent := by simpa [parent?, here] using above
      rw [climb_succ here, climb_succ there, same, up]
      cases bound : before.binding? start name with
      | some _ => rfl
      | none =>
        cases outwards : scope.parent with
        | none => rfl
        | some parent =>
          refine ih ?_
          rintro ⟨named, bare⟩
          refine covered ⟨named, .outer (named ▸ bound) ?_ bare⟩
          simp [parent?, here, outwards]

theorem lookup_congr {start : ScopeId} (owners : after.owner start name = before.owner start name)
    (bindings : ∀ found binding, before.Nearest name start found binding →
      after.binding? found name = some binding) :
    after.lookup start name = before.lookup start name := by
  cases climbs : before.owner start name with
  | error fault =>
    rw [lookup, lookup, owners, climbs]
    rfl
  | ok found =>
    cases found with
    | none =>
      rw [lookup, lookup, owners, climbs]
      rfl
    | some found =>
      obtain ⟨binding, nearest⟩ := owner_eq_some_iff.1 climbs
      obtain ⟨binding', nearest'⟩ := owner_eq_some_iff.1 (owners.trans climbs)
      obtain rfl : binding' = binding :=
        Option.some.inj (nearest'.bound.symm.trans (bindings _ _ nearest))
      rw [lookup_of_nearest nearest, lookup_of_nearest nearest']

theorem Bound.reframed {binding : Binding} {work : List δ}
    (changed : Bound before after id binding work) : Reframed before after id binding := by
  constructor
  case size => exact changed.size
  case shown =>
    intro start bare
    have nearest := changed.nearest bare
    exact ⟨lookup_of_nearest nearest, owner_eq_some_iff.2 ⟨_, nearest⟩⟩
  case hidden =>
    intro start name covered
    have owners : after.owner start name = before.owner start name := by
      rw [owner, owner, Scopes.nearest, Scopes.nearest, changed.size, changed.climb _ covered]
    refine ⟨lookup_congr owners fun found kept nearest => ?_, owners⟩
    rw [changed.bindings, if_neg, nearest.bound]
    rintro ⟨rfl, rfl⟩
    exact covered ⟨rfl, nearest.uncovered⟩
  case parent => exact changed.parent
  case kind => exact changed.kind
  case result => exact changed.result
  case resultWaiters => exact changed.resultWaiters
  case waiters =>
    intro other name apart
    rw [changed.waiters, if_neg apart]

theorem exists_update {binding : Binding} (bound : (before.binding? id binding.name).isSome) :
    ∃ work after, before.update id binding = .ok (work, after) := by
  obtain ⟨old, found⟩ := Option.isSome_iff_exists.1 bound
  obtain ⟨scope, here⟩ := exists_of_lt (lt_size_of_binding? found)
  have known := binds_eq binding.name here
  refine ⟨(scope.bind binding).1, before.set id (scope.bind binding).2, ?_⟩
  simp [update, get_eq_ok.2 here, known, found]

end Scopes

namespace Check

variable {κ σ : Type}

/-- Binding a name that is free in its scope, or one that is bound there again, changes what that
name gives where the new binding is the nearest one, and nothing else. Where either is refused the
state stays as it was. -/
theorem define_update_frame (s : Checker κ σ) (id : ScopeId) (binding : Binding)
    (position : Position) :
    Yields (define id binding position) s
        (fun _ t => s.scopes.binding? id binding.name = none ∧
          s.scopes.Reframed t.scopes id binding)
        (fun _ t => (s.scopes.size ≤ id ∨ (s.scopes.binding? id binding.name).isSome) ∧ t = s) ∧
      Yields (update id binding position) s
        (fun _ t => (s.scopes.binding? id binding.name).isSome ∧
          s.scopes.Reframed t.scopes id binding)
        (fun _ t => s.scopes.binding? id binding.name = none ∧ t = s) := by
  constructor
  · refine yields_define.2 ⟨fun work changed done => ?_, fun fault refused => ⟨?_, rfl⟩⟩
    · obtain ⟨free, bound⟩ := Scopes.define_eq_ok done
      exact ⟨free, bound.reframed⟩
    · by_contra possible
      simp only [not_or, not_le, Option.not_isSome_iff_eq_none] at possible
      obtain ⟨work, changed, done⟩ := Scopes.exists_define possible.1 possible.2
      simp [done] at refused
  · simp only [update, yields_bind, yields_scopes, yields_ofFault, setScopes, yields_modify,
      yields_note, yields_pure]
    refine ⟨?_, fun fault refused => ⟨?_, trivial⟩⟩
    · rintro ⟨work, changed⟩ done
      obtain ⟨known, bound⟩ := Scopes.update_eq_ok done
      exact ⟨known, bound.reframed⟩
    · by_contra possible
      obtain ⟨work, changed, done⟩ := Scopes.exists_update (Option.isSome_iff_ne_none.2 possible)
      simp [done] at refused

end Check

end Hoist
