import Hoist.Check.Program

/-!
Checking a file that was made of a checked one. `replay` takes the same steps as checking the plain
statements does, but follows the structure of the checked file.

Main statement: checking what is left of a checked file is to replay it
(`checkBlock_forgetAll`).
-/
namespace Hoist.Check

variable {κ σ : Type} (env : Env κ σ)

mutual

/-- Checks again what one statement of a checked file was made of. -/
def replay (scope : ScopeId) : Typed.Stmt → Check κ σ Outline
  | .leaf content => do
    tick
    let leaf ← checkLeaf env scope content.forget
    return .leaf leaf
  | .branch condition body span rest => do
    tick
    let arm ← checkArm scope condition.toExpr span fun inner => replayAll inner body
    replayChain scope ⟨arm, []⟩ rest
  | .loop condition body span => do
    tick
    checkLoop env scope condition.toExpr span fun inner => replayAll inner body
  | .function signature body => do
    tick
    checkFunction env scope signature.forget fun inner => replayAll inner body

def replayChain (scope : ScopeId) (chain : OpenChain) :
    Typed.Chain Typed.Leaf Typed.Signature → Check κ σ Outline
  | .done => foldChain chain .done
  | .otherwise body span => do
    tick
    let inner ← createScope (some scope) .block
    let body ← replayAll inner body
    foldChain chain (.otherwise body span)
  | .elseIf condition body span rest => do
    tick
    let arm ← checkArm scope condition.toExpr span fun inner => replayAll inner body
    replayChain scope (chain.extend arm) rest

def replayAll (scope : ScopeId) : List Typed.Stmt → Check κ σ (List Outline)
  | [] => return []
  | stmt :: rest => do
    let first ← replay scope stmt
    let others ← replayAll scope rest
    return first :: others

end

/-- No chain goes on in these statements. -/
def Starts (stmts : List Stmt) : Prop :=
  ∀ first ∈ stmts.head?, first.continuesChain = false

theorem starts_forgetAll (typed : List Typed.Stmt) : Starts (Typed.Stmt.forgetAll typed) := by
  intro first isFirst
  cases typed with
  | nil => simp [Typed.Stmt.forgetAll] at isFirst
  | cons stmt rest =>
    cases stmt <;> simp only [Typed.Stmt.forgetAll, Typed.Stmt.forget, List.cons_append,
      List.head?_cons, Option.mem_def, Option.some.injEq] at isFirst <;> rw [← isFirst] <;> rfl

/-- A chain ends where nothing carries it on. -/
theorem checkBlock_closed (scope : ScopeId) (chain : OpenChain) {more : List Stmt}
    (starts : Starts more) : checkBlock env scope (some chain) more = do
      let outline ← foldChain chain .done
      let after ← checkBlock env scope none more
      return outline :: after := by
  cases more with
  | nil => simp [checkBlock, endChain]
  | cons stmt rest =>
    have closed := starts stmt rfl
    simp [checkBlock, endChainBefore, endChain, closed]

mutual

theorem checkBlock_forget : ∀ (stmt : Typed.Stmt) (scope : ScopeId) {more : List Stmt},
    Starts more → checkBlock env scope none (Typed.Stmt.forget stmt ++ more) = do
      let outline ← replay env scope stmt
      let after ← checkBlock env scope none more
      return outline :: after
  | .leaf content, scope, more, _ => by
    simp [Typed.Stmt.forget, checkBlock, endChainBefore, endChain, Stmt.continuesChain, checkStmt,
      replay]
  | .branch condition body span rest, scope, more, starts => by
    have bodies := fun inner => checkBlock_forgetAll body inner
    have chains := fun chain => checkBlock_forgetChain rest scope chain starts
    simp [Typed.Stmt.forget, checkBlock, endChainBefore, endChain, Stmt.continuesChain, checkStmt,
      replay, bodies, chains]
  | .loop condition body span, scope, more, _ => by
    have bodies := fun inner => checkBlock_forgetAll body inner
    simp [Typed.Stmt.forget, checkBlock, endChainBefore, endChain, Stmt.continuesChain, checkStmt,
      replay, bodies]
  | .function signature body, scope, more, _ => by
    have bodies := fun inner => checkBlock_forgetAll body inner
    simp [Typed.Stmt.forget, checkBlock, endChainBefore, endChain, Stmt.continuesChain, checkStmt,
      replay, bodies]

theorem checkBlock_forgetChain : ∀ (rest : Typed.Chain Typed.Leaf Typed.Signature)
    (scope : ScopeId) (chain : OpenChain) {more : List Stmt}, Starts more →
    checkBlock env scope (some chain) (Typed.Stmt.forgetChain rest ++ more) = do
      let outline ← replayChain env scope chain rest
      let after ← checkBlock env scope none more
      return outline :: after
  | .done, scope, chain, more, starts => by
    simpa [Typed.Stmt.forgetChain, replayChain] using checkBlock_closed env scope chain starts
  | .otherwise body span, scope, chain, more, _ => by
    have bodies := fun inner => checkBlock_forgetAll body inner
    simp [Typed.Stmt.forgetChain, checkBlock, endChainBefore, Stmt.continuesChain, checkStmt,
      replayChain, bodies]
  | .elseIf condition body span rest, scope, chain, more, starts => by
    have bodies := fun inner => checkBlock_forgetAll body inner
    have chains := fun chain => checkBlock_forgetChain rest scope chain starts
    simp [Typed.Stmt.forgetChain, checkBlock, endChainBefore, Stmt.continuesChain, checkStmt,
      replayChain, bodies, chains]

theorem checkBlock_forgetAll : ∀ (typed : List Typed.Stmt) (scope : ScopeId),
    checkBlock env scope none (Typed.Stmt.forgetAll typed) = replayAll env scope typed
  | [], scope => by simp [Typed.Stmt.forgetAll, checkBlock, endChain, replayAll]
  | stmt :: rest, scope => by
    rw [Typed.Stmt.forgetAll, checkBlock_forget stmt scope (starts_forgetAll rest),
      checkBlock_forgetAll rest scope, replayAll]

end

end Hoist.Check
