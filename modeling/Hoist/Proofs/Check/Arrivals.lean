import Hoist.Proofs.Check.Walk

/-!
The simple statements that a run through a block comes to, each with the scope it stands in and the
state in which it is about to be checked. A run that stops early has still come to those before.

Main statement: when a block has been checked, the checker was ready for each statement it came to,
and has kept what it found out about it (`passed_block`).
-/
namespace Hoist.Check

structure Arrival (κ σ : Type) where
  scope : ScopeId
  leaf : Leaf
  state : Checker κ σ

/-- What names mean where the statement stands. -/
def Arrival.view {κ σ : Type} (a : Arrival κ σ) : View :=
  a.state.scopes.view a.scope

section Arrivals

variable {κ σ α β : Type}

/-- What comes after a step that ends well. -/
def follow (step : Check κ σ α) (s : Checker κ σ) (next : α → Checker κ σ → List β) : List β :=
  match step.run s with
  | (.ok value, t) => next value t
  | (.error _, _) => []

theorem follow_eq {step : Check κ σ α} {s t : Checker κ σ} {value : α}
    {next : α → Checker κ σ → List β} (ends : Ends step s value t) :
    follow step s next = next value t := by
  rw [follow, show _ = (Except.ok value, t) from ends]

/-- Makes the scope of a body that depends on a condition. -/
def enterArm (scope : ScopeId) (condition : Expr) (span : Span) : Check κ σ ScopeId := do
  let _ ← checkCondition scope condition span.start
  createScope (some scope) .block

variable (env : Env κ σ)

def enterLoop (scope : ScopeId) (condition : Expr) (span : Span) : Check κ σ ScopeId := do
  let _ ← checkLoopCondition env scope condition span.start
  createScope (some scope) .loop

mutual

def stmtArrivals (scope : ScopeId) (chain : Option OpenChain) :
    Stmt → Checker κ σ → List (Arrival κ σ)
  | .leaf content, s => [⟨scope, content, s⟩]
  | .branch condition body span, s =>
    follow (enterArm scope condition span) s fun inner m => arrivals inner none body m
  | .elseIf condition body span, s =>
    match chain with
    | none => []
    | some _ =>
      follow (enterArm scope condition span) s fun inner m => arrivals inner none body m
  | .otherwise body _, s =>
    match chain with
    | none => []
    | some _ => follow (createScope (some scope) .block) s fun inner m => arrivals inner none body m
  | .loop condition body span, s =>
    follow (enterLoop env scope condition span) s fun inner m => arrivals inner none body m
  | .function signature body, s =>
    follow (openFunction env.settle scope signature) s fun inner m => arrivals inner none body m

def arrivals (scope : ScopeId) (chain : Option OpenChain) :
    List Stmt → Checker κ σ → List (Arrival κ σ)
  | [], _ => []
  | stmt :: rest, s =>
    follow (do
      let (_, chain) ← endChainBefore stmt chain
      tick
      return chain) s fun chain m =>
      stmtArrivals scope chain stmt m ++
        follow (checkStmt env scope chain stmt) m fun found n => arrivals scope found.2 rest n

end

end Arrivals

open Desk

variable {σ : Type} {kept : σ → Prop} {s m t : Checker Empty σ} {frames : List Frame}
  {terms : Terms} {scope : ScopeId} {importer : Importer σ} {options : Options}
  {env : Env Empty σ} {a : Arrival Empty σ}

/-- The checker was ready for the statement and has checked it, and what it knew then it still
knows. -/
def Passed (kept : σ → Prop) (env : Env Empty σ) (a : Arrival Empty σ) (t : Checker Empty σ) :
    Prop :=
  ∃ frames leaf m, Ready kept a.state frames ∧ (frames.map Frame.id).head? = some a.scope ∧
    a.leaf.isFresh = true ∧ LeafRun env a.scope a.leaf a.state leaf m ∧
    Evolves (m.desk []) (t.desk [])

theorem Passed.later (passed : Passed kept env a m) (evolves : Evolves (m.desk []) (t.desk [])) :
    Passed kept env a t := by
  obtain ⟨frames, leaf, n, ready, here, fresh, run, before⟩ := passed
  exact ⟨frames, leaf, n, ready, here, fresh, run, before.trans evolves⟩

/-- The body of a function is entered when its parameters are bound. -/
theorem ends_openFunction {settle : List (Deferral Empty) → Check Empty σ Unit}
    {signature : Signature} {inner : ScopeId} {n : Checker Empty σ}
    (onTop : s.scopes.isTopLevel scope = .ok true)
    (checked : checkParameters [] signature.parameters = .ok ())
    (creates : Ends (createScope (some scope) (.function signature.result)) s inner m)
    (parameters : Ends (defineParameters settle inner signature.span.start signature.parameters)
      m () n) : Ends (openFunction settle scope signature) s inner n := by
  rw [openFunction_eq]
  refine ends_bind.2 ⟨(), s, ends_demand_iff.2 ⟨onTop, rfl⟩, ?_⟩
  refine ends_bind.2 ⟨(), s, ends_ofCause.2 ⟨checked, rfl⟩, ?_⟩
  exact ends_bind.2 ⟨inner, m, creates, ends_bind.2 ⟨(), n, parameters, ends_pure.2 ⟨rfl, rfl⟩⟩⟩

mutual

theorem passed_stmt (gives : Gives importer kept terms.imported)
    (literal : terms.literalTrue = decide (options.loopCondition = .literalTrue)) :
    ∀ {scope chain stmt s done last t}, StmtRun (Env.plain options importer) scope chain stmt s done
      last t → ∀ {frames : List Frame}, stmt.isFresh = true → Ready kept s frames →
    (frames.map Frame.id).head? = some scope →
    ∀ a ∈ stmtArrivals (Env.plain options importer) scope chain stmt s,
      Passed kept (Env.plain options importer) a t
  | _, _, _, _, _, _, t, .leaf ends, frames, fresh, ready, here, a, mem => by
    obtain rfl := List.mem_singleton.1 mem
    exact ⟨frames, _, t, ready, here, fresh, .of_ends ends, .refl _⟩
  | _, _, _, s, _, _, _, .branch look creates walks _, _, fresh, ready, here, a, mem => by
    simp only [Stmt.isFresh, Bool.and_eq_true] at fresh
    rw [stmtArrivals, enterArm, follow_eq (ends_bind.2 ⟨_, s, ends_checkCondition.2 ⟨look, rfl⟩,
      creates⟩)] at mem
    exact passed_block gives literal walks fresh.2 (reaches_create ready here creates 0).ready rfl
      (openAt_none _ _ _) a mem
  | _, _, _, s, _, _, _, .elseIf look creates walks _, _, fresh, ready, here, a, mem => by
    simp only [Stmt.isFresh, Bool.and_eq_true] at fresh
    rw [stmtArrivals, enterArm, follow_eq (ends_bind.2 ⟨_, s, ends_checkCondition.2 ⟨look, rfl⟩,
      creates⟩)] at mem
    exact passed_block gives literal walks fresh.2 (reaches_create ready here creates 0).ready rfl
      (openAt_none _ _ _) a mem
  | _, _, _, _, _, _, _, .otherwise creates walks, _, fresh, ready, here, a, mem => by
    rw [stmtArrivals, follow_eq creates] at mem
    exact (passed_block gives literal walks fresh (reaches_create ready here creates 0).ready rfl
      (openAt_none _ _ _) a mem).later (.refl _)
  | _, _, _, s, _, _, _, .loop looks creates walks _, _, fresh, ready, here, a, mem => by
    simp only [Stmt.isFresh, Bool.and_eq_true] at fresh
    rw [stmtArrivals, enterLoop, follow_eq (ends_bind.2 ⟨_, s, looks, creates⟩)] at mem
    exact passed_block gives literal walks fresh.2 (reaches_create ready here creates 0).ready rfl
      (openAt_none _ _ _) a mem
  | _, _, _, _, _, _, _, .function onTop checked creates parameters _ walks closes, _, fresh, ready, here,
      a, mem => by
    obtain ⟨opened, kind⟩ := ready_parameters ready here checked creates parameters
    have walked := walk_block gives literal walks fresh opened rfl (openAt_none _ _ _)
    have still := walked.reaches.grows.evolves.kind _ _ kind
    obtain ⟨result, known, -, resultType⟩ := result_of_body walked.reaches.ready.sound.rooted still
    obtain ⟨closed, -⟩ := reaches_close walked.reaches.ready here still known rfl
      (finishFunction_of_ends resultType closes)
    rw [stmtArrivals, follow_eq (ends_openFunction onTop checked creates parameters)] at mem
    exact (passed_block gives literal walks fresh opened rfl (openAt_none _ _ _) a mem).later
      closed.grows.evolves

theorem passed_block (gives : Gives importer kept terms.imported)
    (literal : terms.literalTrue = decide (options.loopCondition = .literalTrue)) :
    ∀ {scope chain stmts s outlines t}, BlockRun (Env.plain options importer) scope chain stmts s
      outlines t → ∀ {frames : List Frame}, Stmt.areFresh stmts = true → Ready kept s frames →
    (frames.map Frame.id).head? = some scope → (s.desk []).OpenAt terms frames chain →
    ∀ a ∈ arrivals (Env.plain options importer) scope chain stmts s,
      Passed kept (Env.plain options importer) a t
  | _, _, _, _, _, _, .nil _, _, _, _, _, _, _, mem => by simp [arrivals] at mem
  | scope, chain, _, s, _, _, @BlockRun.cons _ _ _ _ _ still _ stmt _ _ _ _ left _ m _ _ closes budget
      ends run _ walks, frames, fresh, ready, here, open_, a, mem => by
    simp only [Stmt.areFresh, Bool.and_eq_true] at fresh
    obtain ⟨first, closed⟩ := walked_endChainBefore scope ready open_ closes
    have inside (names : List String) :
        ((Frame.declare names frames).map Frame.id).head? = some scope := by simpa using here
    have ready := first.reaches.ready.paying left
    have second := walk_stmt gives literal run fresh.1 ready (inside _) first.waits closed
    have third := walk_block gives literal walks fresh.2 second.reaches.ready (by simpa using here)
      second.waits
    have started : Ends (do
        let (_, chain) ← endChainBefore stmt chain
        tick
        return chain) s still { m with budget := left } := by
      simp only [ends_bind, ends_pure]
      exact ⟨_, _, closes, (), _, ends_tick.2 ⟨left, budget, rfl⟩, rfl, rfl⟩
    rw [arrivals, follow_eq started, follow_eq ends] at mem
    rcases List.mem_append.1 mem with now | afterwards
    · exact (passed_stmt gives literal run fresh.1 ready (inside _) a now).later
        third.reaches.grows.evolves
    · exact passed_block gives literal walks fresh.2 second.reaches.ready (by simpa using here)
        second.waits a afterwards

end

end Hoist.Check
