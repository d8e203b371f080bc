import Mathlib.Data.List.Perm.Subperm
import Hoist.Proofs.Scope.Path

/-!
The nearest binding of a name, for any scopes: parents may be younger than their children, lead in
circles or name no scope at all. A walk counts its steps so that it ends in every case. The count
never hides a binding: on the way to the nearest one no scope comes twice, so there are at most as
many steps as scopes.

Main statements: the owner of a name is the scope with its nearest binding (`owner_eq_some_iff`),
so that binding decides what the name means (`view_eq_bound_iff`) and where work waits for it
(`anchor_cases`, `anchor_of_unknown`).
-/
namespace Hoist

/-- The scope in which work waits. -/
def Anchor.scope : Anchor → ScopeId
  | .bound id => id
  | .root id => id

namespace Scopes

variable {δ : Type} {scopes : Scopes δ} {name : String}

/-- The binding of the name in `owner` is the first one on the way outwards from `id`. -/
inductive Nearest (scopes : Scopes δ) (name : String) : ScopeId → ScopeId → Binding → Prop
  | here {id : ScopeId} {binding : Binding} :
    scopes.binding? id name = some binding → Nearest scopes name id id binding
  | outer {id parent owner : ScopeId} {binding : Binding} :
    scopes.binding? id name = none → scopes.parent? id = some (some parent) →
    Nearest scopes name parent owner binding → Nearest scopes name id owner binding

/-- The name has a nearest binding, and with it a type that is known. -/
def Known (scopes : Scopes δ) (id : ScopeId) (name : String) : Prop :=
  ∃ owner binding, scopes.Nearest name id owner binding ∧ binding.type.isConcrete = true

theorem Nearest.bound {id owner : ScopeId} {binding : Binding}
    (nearest : scopes.Nearest name id owner binding) :
    scopes.binding? owner name = some binding := by
  induction nearest with
  | here bound => exact bound
  | outer _ _ _ ih => exact ih

/-! ## Walks that look for a name -/

/-- One step of a walk. -/
theorem climb_succ {id : ScopeId} {scope : Scope δ} (here : scopes.all[id]? = some scope)
    (fuel : Nat) :
    scopes.climb (·.binds name) (fuel + 1) id =
      if (scopes.binding? id name).isSome then .ok (some id)
      else match scope.parent with
        | none => .ok none
        | some parent => scopes.climb (·.binds name) fuel parent := by
  rw [climb, get_eq_ok.2 here, ← binds_eq name here]
  rfl

theorem climb_of_bound {id : ScopeId} {binding : Binding}
    (bound : scopes.binding? id name = some binding) (fuel : Nat) :
    scopes.climb (·.binds name) (fuel + 1) id = .ok (some id) := by
  obtain ⟨scope, here⟩ := exists_of_lt (lt_size_of_binding? bound)
  simp [climb_succ here, bound]

theorem climb_of_unbound {id parent : ScopeId} (unbound : scopes.binding? id name = none)
    (above : scopes.parent? id = some (some parent)) (fuel : Nat) :
    scopes.climb (·.binds name) (fuel + 1) id = scopes.climb (·.binds name) fuel parent := by
  obtain ⟨scope, here, up⟩ := Option.map_eq_some_iff.1 above
  simp [climb_succ here, unbound, up]

/-- What was found is found with more steps, too. -/
theorem climb_mono {fuel more : Nat} {id owner : ScopeId} (le : fuel ≤ more)
    (climbs : scopes.climb (·.binds name) fuel id = .ok (some owner)) :
    scopes.climb (·.binds name) more id = .ok (some owner) := by
  induction fuel generalizing id more with
  | zero => simp [climb] at climbs
  | succ fuel ih =>
    obtain ⟨more, rfl⟩ := Nat.exists_eq_add_of_le' (Nat.le_trans (Nat.le_add_left 1 fuel) le)
    obtain ⟨scope, here⟩ := exists_of_lt (lt_size_of_climb climbs)
    rw [climb_succ here] at climbs ⊢
    cases bound : scopes.binding? id name with
    | some binding => simpa [bound] using climbs
    | none =>
      cases up : scope.parent with
      | none => simp [bound, up] at climbs
      | some parent => simpa [bound] using ih (by omega) (by simpa [bound, up] using climbs)

theorem nearest_of_climb {fuel : Nat} {id owner : ScopeId}
    (climbs : scopes.climb (·.binds name) fuel id = .ok (some owner)) :
    ∃ binding, scopes.Nearest name id owner binding := by
  induction fuel generalizing id with
  | zero => simp [climb] at climbs
  | succ fuel ih =>
    obtain ⟨scope, here⟩ := exists_of_lt (lt_size_of_climb climbs)
    rw [climb_succ here] at climbs
    cases bound : scopes.binding? id name with
    | some binding =>
      obtain rfl : id = owner := by simpa [bound] using climbs
      exact ⟨binding, .here bound⟩
    | none =>
      cases up : scope.parent with
      | none => simp [bound, up] at climbs
      | some parent =>
        obtain ⟨binding, nearest⟩ := ih (by simpa [bound, up] using climbs)
        exact ⟨binding, .outer bound (by simp [parent?, here, up]) nearest⟩

/-- The scopes before the nearest binding. Each of them needs one step more than the one after it,
so none comes twice. -/
theorem Nearest.exists_before {id owner : ScopeId} {binding : Binding}
    (nearest : scopes.Nearest name id owner binding) :
    ∃ before : List ScopeId, before.Nodup ∧ (∀ near ∈ before, near < scopes.size) ∧
      (∀ near ∈ id :: before,
        scopes.climb (·.binds name) (before.length + 1) near = .ok (some owner)) ∧
      scopes.climb (·.binds name) before.length id = .ok none := by
  induction nearest with
  | here bound => exact ⟨[], by simp, by simp, by simpa using climb_of_bound bound 0, rfl⟩
  | @outer id parent owner binding unbound above nearest ih =>
    obtain ⟨before, nodup, inside, reach, short⟩ := ih
    have step := climb_of_unbound unbound above
    have late : scopes.climb (·.binds name) (before.length + 1) id = .ok none := by
      rw [step, short]
    have first : scopes.climb (·.binds name) (before.length + 2) id = .ok (some owner) := by
      rw [step, reach parent (by simp)]
    -- If `id` came again, the steps that are too few for it would be enough.
    refine ⟨id :: before, List.nodup_cons.2 ⟨fun again => ?_, nodup⟩, ?_, ?_, late⟩
    · simpa [late] using reach id (List.mem_cons_of_mem _ again)
    · exact List.forall_mem_cons.2 ⟨lt_size_of_parent? above, inside⟩
    · rw [List.length_cons]
      refine List.forall_mem_cons.2 ⟨first, List.forall_mem_cons.2 ⟨first, fun near mem => ?_⟩⟩
      exact climb_mono (by omega) (reach near (List.mem_cons_of_mem _ mem))

theorem owner_eq_some_iff {id owner : ScopeId} :
    scopes.owner id name = .ok (some owner) ↔
      ∃ binding, scopes.Nearest name id owner binding := by
  refine ⟨nearest_of_climb, fun ⟨binding, nearest⟩ => ?_⟩
  obtain ⟨before, nodup, inside, reach, -⟩ := nearest.exists_before
  have few : before.length ≤ scopes.size := by
    have within : before ⊆ List.range scopes.size :=
      fun near mem => List.mem_range.2 (inside near mem)
    simpa using (nodup.subperm within).length_le
  exact climb_mono (by omega) (reach id (by simp))

/-- A name has only one nearest binding. -/
theorem Nearest.unique {id owner other : ScopeId} {binding another : Binding}
    (nearest : scopes.Nearest name id owner binding)
    (nearest' : scopes.Nearest name id other another) : owner = other ∧ binding = another := by
  have same := (owner_eq_some_iff.2 ⟨_, nearest⟩).symm.trans (owner_eq_some_iff.2 ⟨_, nearest'⟩)
  obtain rfl : owner = other := by simpa using same
  exact ⟨rfl, Option.some.inj (nearest.bound.symm.trans nearest'.bound)⟩

/-! ## What a name means -/

theorem lookup_of_nearest {id owner : ScopeId} {binding : Binding}
    (nearest : scopes.Nearest name id owner binding) :
    scopes.lookup id name = .ok (some binding) := by
  obtain ⟨scope, here, found⟩ := Option.bind_eq_some_iff.1 nearest.bound
  simp [lookup, owner_eq_some_iff.2 ⟨_, nearest⟩, lookupLocal, get_eq_ok.2 here, found]

theorem lookup_eq_some_iff {id : ScopeId} {binding : Binding} :
    scopes.lookup id name = .ok (some binding) ↔ ∃ owner, scopes.Nearest name id owner binding := by
  refine ⟨fun found => ?_, fun ⟨owner, nearest⟩ => lookup_of_nearest nearest⟩
  obtain ⟨found', climbs, _⟩ := bind_eq_ok.1 found
  cases found' with
  | none => simp [lookup, climbs] at found
  | some owner =>
    obtain ⟨binding', nearest⟩ := owner_eq_some_iff.1 climbs
    obtain rfl : binding' = binding := by simpa [found] using (lookup_of_nearest nearest).symm
    exact ⟨owner, nearest⟩

/-- A view shows exactly the types of nearest bindings. -/
theorem view_eq_bound_iff {id : ScopeId} {type : Ty} :
    scopes.view id name = .bound type ↔
      ∃ owner binding, scopes.Nearest name id owner binding ∧ binding.type = type := by
  constructor
  · intro shown
    unfold view at shown
    split at shown
    · rename_i binding found
      obtain ⟨owner, nearest⟩ := lookup_eq_some_iff.1 found
      exact ⟨owner, binding, nearest, Reading.bound.inj shown⟩
    · simp at shown
    · simp at shown
  · rintro ⟨owner, binding, nearest, rfl⟩
    simp [view, lookup_of_nearest nearest]

theorem exists_owner_of_view {id : ScopeId} (inside : scopes.view id name ≠ .dangling) :
    ∃ owner, scopes.owner id name = .ok owner := by
  cases climbs : scopes.owner id name with
  | ok owner => exact ⟨owner, rfl⟩
  | error fault =>
    refine absurd ?_ inside
    rw [view, lookup, climbs]
    rfl

/-! ## Where work waits -/

/-- A walk that finds no binding of a name passes only scopes without one. -/
theorem chainFrom_of_climb {fuel : Nat} {id : ScopeId}
    (climbs : scopes.climb (·.binds name) fuel id = .ok none) :
    ∃ passed, scopes.chainFrom fuel id = .ok passed ∧ (passed = [] → fuel = 0) ∧
      ∀ around ∈ passed, scopes.binding? around name = none := by
  induction fuel generalizing id with
  | zero => exact ⟨[], rfl, by simp, by simp⟩
  | succ fuel ih =>
    obtain ⟨scope, here⟩ := exists_of_lt (lt_size_of_climb climbs)
    rw [climb_succ here] at climbs
    cases bound : scopes.binding? id name with
    | some binding => simp [bound] at climbs
    | none =>
      cases up : scope.parent with
      | none =>
        exact ⟨[id], by simp [chainFrom, get_eq_ok.2 here, up], by simp, by simpa using bound⟩
      | some parent =>
        obtain ⟨passed, found, -, unbound⟩ := ih (by simpa [bound, up] using climbs)
        exact ⟨id :: passed, by simp [chainFrom, get_eq_ok.2 here, up, found], by simp,
          List.forall_mem_cons.2 ⟨bound, unbound⟩⟩

theorem exists_top {id : ScopeId} (unowned : scopes.owner id name = .ok none) :
    ∃ top, scopes.top id = .ok top ∧ scopes.binding? top name = none := by
  obtain ⟨passed, found, some_passed, unbound⟩ := chainFrom_of_climb unowned
  have nonempty : passed ≠ [] := fun empty => by simpa using some_passed empty
  refine ⟨passed.getLast nonempty, ?_, unbound _ (List.getLast_mem nonempty)⟩
  simp [top, chain, found, List.getLast?_eq_some_getLast nonempty]

/-- Work waits in the scope with the nearest binding of its name, or else, if there is none, in the
outermost scope. -/
theorem anchor_cases {id : ScopeId} (inside : scopes.view id name ≠ .dangling) :
    (∃ owner binding, scopes.Nearest name id owner binding ∧
      scopes.anchor id name none = .ok (.bound owner)) ∨
    ∃ top, (∀ owner binding, ¬ scopes.Nearest name id owner binding) ∧
      scopes.top id = .ok top ∧ scopes.binding? top name = none ∧
      scopes.anchor id name none = .ok (.root top) := by
  obtain ⟨found, climbs⟩ := exists_owner_of_view inside
  cases found with
  | some owner =>
    obtain ⟨binding, nearest⟩ := owner_eq_some_iff.1 climbs
    exact .inl ⟨owner, binding, nearest, by simp [anchor, climbs]⟩
  | none =>
    obtain ⟨top, outermost, unbound⟩ := exists_top climbs
    refine .inr ⟨top, fun owner binding nearest => ?_, outermost, unbound, ?_⟩
    · simpa [climbs] using owner_eq_some_iff.2 ⟨binding, nearest⟩
    · simp [anchor, climbs, outermost]

/-- Work that waits for a name without a type is put with its open binding if there is one, in the
outermost scope if there is none, and never with a binding that has its type. -/
theorem anchor_of_unknown {id : ScopeId} (inside : scopes.view id name ≠ .dangling)
    (unknown : ¬ scopes.Known id name) :
    (∀ owner, scopes.anchor id name none = .ok (.bound owner) ↔
      ∃ binding, scopes.Nearest name id owner binding ∧ binding.type.isConcrete = false) ∧
    (∀ top, scopes.anchor id name none = .ok (.root top) ↔
      scopes.top id = .ok top ∧ ∀ owner binding, ¬ scopes.Nearest name id owner binding) ∧
    ∃ anchor, scopes.anchor id name none = .ok anchor ∧
      ∀ binding, scopes.binding? anchor.scope name = some binding →
        binding.type.isConcrete = false := by
  obtain ⟨owner, binding, nearest, anchored⟩ | ⟨top, unbound, outermost, bare, anchored⟩ :=
    anchor_cases inside
  · have untyped : binding.type.isConcrete = false := by
      by_contra concrete
      exact unknown ⟨owner, binding, nearest, by simpa using concrete⟩
    refine ⟨fun other => ⟨fun same => ?_, fun ⟨_, nearest', _⟩ => ?_⟩,
      fun top => ⟨fun same => ?_, fun ⟨_, unbound⟩ => absurd nearest (unbound owner binding)⟩,
      .bound owner, anchored, fun other bound => ?_⟩
    · obtain rfl : owner = other := by simpa [anchored] using same
      exact ⟨binding, nearest, untyped⟩
    · rw [anchored, (nearest.unique nearest').1]
    · simp [anchored] at same
    · rwa [← Option.some.inj (nearest.bound.symm.trans bound)]
  · refine ⟨fun other => ⟨fun same => ?_, fun ⟨_, nearest, _⟩ => absurd nearest (unbound _ _)⟩,
      fun top' => ⟨fun same => ?_, fun ⟨outermost', _⟩ => ?_⟩,
      .root top, anchored, fun binding bound => ?_⟩
    · simp [anchored] at same
    · obtain rfl : top = top' := by simpa [anchored] using same
      exact ⟨outermost, unbound⟩
    · obtain rfl : top = top' := by simpa [outermost] using outermost'
      exact anchored
    · simp [Anchor.scope, bare] at bound

end Scopes

end Hoist
