import Mathlib
import Hoist.Module.Registry
import Hoist.Proofs.Recheck.Replay

/-!
Checking a block in pieces. A block may be cut before any statement that does not carry on a chain:
the pieces, checked one after the other in the same scope, do what the whole block does. Work that
the first piece leaves behind is performed while the second one is checked, as it is in the whole.

Main statement: `Check.checkBlock_append`.
-/
namespace Hoist

namespace Check

variable {κ σ : Type} (env : Env κ σ)

/-- The first piece may carry on a chain, and leaves none open for the second one. -/
theorem checkBlock_append_open (scope : ScopeId) (first : List Stmt) {second : List Stmt}
    (starts : Starts second) (chain : Option OpenChain) :
    checkBlock env scope chain (first ++ second) = do
      let before ← checkBlock env scope chain first
      let after ← checkBlock env scope none second
      return before ++ after := by
  induction first generalizing chain with
  | nil =>
    cases chain with
    | none => simp [checkBlock, endChain]
    | some chain => simpa [checkBlock, endChain] using checkBlock_closed env scope chain starts
  | cons stmt rest ih =>
    simp only [List.cons_append, checkBlock, ih, bind_assoc, pure_bind, List.append_assoc]

/-- The two sides are equal as steps of a checker: from every state, with every source of imports
and whatever becomes of work that is handed back, they succeed or fail alike, and leave the same
scopes, waiters, drafts, queue and store behind. -/
theorem checkBlock_append (scope : ScopeId) (first second : List Stmt) (starts : Starts second) :
    checkBlock env scope none (first ++ second) = do
      let before ← checkBlock env scope none first
      let after ← checkBlock env scope none second
      return before ++ after :=
  checkBlock_append_open env scope first starts none

/-- The declaration and both arms wait for `f`. -/
def armsAhead : List Stmt :=
  [.leaf (.declare ⟨"x", false, .call (.symbol "f" .unresolved) [], .unannotated, .unannotated,
      false, .nowhere⟩),
    .branch (.boolean true) [.leaf (.evaluate ⟨.symbol "x" .unresolved, .nowhere⟩)] .nowhere,
    .otherwise [.leaf (.evaluate ⟨.symbol "x" .unresolved, .nowhere⟩)] .nowhere]

def functionBehind : List Stmt :=
  [.function ⟨"f", [], .unannotated, false, .nowhere⟩
    [.leaf (.returns ⟨some (.number ⟨1⟩), .nowhere⟩)]]

set_option maxRecDepth 2000 in
theorem armsAhead_append :
    Starts functionBehind ∧
      ((checkBlock (Env.plain .standard (Registry.importer 20)) Checker.root none
        (armsAhead ++ functionBehind)).run (Checker.initial .builtin 20)).1.isOk = true ∧
      checkBlock (Env.plain .standard (Registry.importer 20)) Checker.root none
        (armsAhead ++ functionBehind) = do
          let before ← checkBlock (Env.plain .standard (Registry.importer 20)) Checker.root none
            armsAhead
          let after ← checkBlock (Env.plain .standard (Registry.importer 20)) Checker.root none
            functionBehind
          return before ++ after := by
  have starts : Starts functionBehind := by
    intro stmt first
    obtain rfl := Option.some.inj first
    rfl
  exact ⟨starts, by cbv, checkBlock_append _ Checker.root armsAhead functionBehind starts⟩

end Check

end Hoist
