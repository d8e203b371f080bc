import Mathlib
import Hoist.Module.Registry
import Hoist.Proofs.Check.Later

/-!
What has been found out stays. The states between two steps of a run are those in which runs with a
smaller budget stop; from each of them to each later one, known types of names and known result
types stay, and in each of them a known type on a symbol is that of a binding around it.
-/
namespace Hoist

namespace Check

variable {σ : Type} {scope : ScopeId}

/-- What a first look writes on symbols are types of bindings from its scope outwards. -/
theorem offers_of_resolve {scopes : Scopes (Deferral Empty)} (rooted : scopes.Rooted)
    {value : Expr} (fresh : value.isFresh = true) :
    scopes.OffersAll scope (value.resolve (scopes.view scope)).2.symbols := by
  have before : scopes.OffersAll scope value.symbols := fun symbol mem concrete => by
    simp [Expr.empty_of_isFresh fresh symbol mem] at concrete
  exact before.fills rooted (Expr.resolve_keeps _ value)

end Check

/-- A state of the run over a file between two of its steps: the one in which the run is left when
its budget pays for so many statements and deferrals and no more. -/
def PassesThrough {σ : Type} (importer : Importer σ) (options : Options) (store : σ)
    (program : List Stmt) (steps : Nat) (t : Checker Empty σ) : Prop :=
  Check.Leaves (Check.analyze (Env.plain options importer) program) (Checker.initial store steps) t

/-- From one state of a run to any later one, known types of names and known result types stay. A
known type on a symbol of a statement is at all times that of a binding of the name from the scope
of the statement outwards; so it is for conditions, from the state on in which they are checked. -/
theorem known_types_stay {σ : Type} (importer : Importer σ) (options : Options) (store : σ)
    (program : List Stmt) (fresh : Stmt.areFresh program = true) (steps more : Nat)
    (t u : Checker Empty σ) (before : PassesThrough importer options store program steps t)
    (after : PassesThrough importer options store program (steps + more) u) :
    (∀ scope name binding, t.scopes.binding? scope name = some binding →
      binding.type.isConcrete = true →
      ∃ later, u.scopes.binding? scope name = some later ∧ later.type = binding.type) ∧
    (∀ body type, t.scopes.result? body = some type → type.isConcrete = true →
      u.scopes.result? body = some type) ∧
    (∀ d ∈ u.drafts, u.Vouches d) ∧
    ∀ scope (condition : Expr), condition.isFresh = true →
      ∀ symbol ∈ (condition.resolve (t.scopes.view scope)).2.symbols,
        symbol.2.isConcrete = true → u.scopes.Offers scope symbol.1 symbol.2 := by
  have continues : Check.Continues False (Check.CheckSteps (Check.firm σ))
      (Check.analyze (Env.plain options importer) program) (Checker.initial store 0)
      (Checker.initial store 0) :=
    Check.continues_analyze (Check.suits_firm fresh) ⟨⟨none, rfl⟩, Check.firm_initial store 0⟩
  have reached : Check.CheckSteps (Check.firm σ) (Checker.initial store 0) t :=
    continues.leaves steps before
  have checkSteps : Check.CheckSteps (Check.firm σ) t u := by
    rcases before with stops | ⟨outlines, ends⟩
    · exact continues.further steps more stops after
    · -- A run that has ended ends in the same way with a larger budget.
      have paid : Check.Ends _ _ _ _ := continues.paid steps more (by simp) ends
      rcases after with stops | ⟨_, ends'⟩
      · exact absurd stops paid.not_stops
      · obtain ⟨-, rfl⟩ := paid.unique ends'
        exact Check.CheckSteps.idle .refl _ _ _ _
  obtain ⟨-, firm⟩ := reached.later (Check.firm_initial store 0)
  obtain ⟨later, last⟩ := checkSteps.later firm
  refine ⟨later.bindings, later.results, fun d mem => ?_,
    fun scope condition fresh symbol mem concrete => ?_⟩
  · obtain ⟨id, here⟩ := List.mem_iff_getElem?.1 mem
    exact last.vouched id d here
  · exact later.offers (Check.offers_of_resolve firm.rooted fresh) symbol mem concrete

/-- A variable that calls a function before it is declared. -/
def callAhead : List Stmt :=
  [.leaf (.declare ⟨"x", false, .call (.symbol "f" .unresolved) [], .unannotated, .unresolved,
      false, .nowhere⟩),
    .function ⟨"f", [], .unannotated, false, .nowhere⟩
      [.leaf (.returns ⟨some (.boolean true), .nowhere⟩)]]

/-- The three statements have been checked, and then the variable is looked at again: the function
keeps its type, and so does what is written on its call. -/
theorem known_types_stay_callAhead : ∃ t u,
    PassesThrough (Registry.importer 0) .standard .builtin callAhead 3 t ∧
    PassesThrough (Registry.importer 0) .standard .builtin callAhead 4 u ∧
    t.scopes.binding? 0 "f" = some ⟨"f", .function [] .boolean, true, false⟩ ∧
    (∃ later, u.scopes.binding? 0 "f" = some later ∧ later.type = .function [] .boolean) ∧
    u.drafts.length = 2 ∧ ∀ d ∈ u.drafts, u.Vouches d := by
  let state (steps : Nat) :=
    (analyzeProgram (Registry.importer 0) .standard steps .builtin callAhead).2
  have before : PassesThrough (Registry.importer 0) .standard .builtin callAhead 3 (state 3) :=
    .inl (Prod.ext (by cbv) rfl)
  have after : PassesThrough (Registry.importer 0) .standard .builtin callAhead 4 (state 4) :=
    .inr ⟨[.leaf (.draft 0), .function 0 [.leaf (.draft 1)]], Prod.ext (by cbv) rfl⟩
  have known : (state 3).scopes.binding? 0 "f" = some ⟨"f", .function [] .boolean, true, false⟩ := by
    cbv
  obtain ⟨bindings, -, vouched, -⟩ :=
    known_types_stay _ _ _ callAhead (by decide) 3 1 _ _ before after
  exact ⟨_, _, before, after, known, bindings _ _ _ known rfl, by cbv, vouched⟩

end Hoist
