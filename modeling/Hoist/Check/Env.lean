import Hoist.Check.State

/-!
What checking depends on: the options, the source of imported types, and what becomes of work that
is handed back.
-/
namespace Hoist

/-- What the condition of a loop may be. -/
inductive LoopCondition
  | literalTrue
  | boolean
  deriving DecidableEq, Repr

structure Options where
  loopCondition : LoopCondition
  /-- Refuse a file if at its end somebody still waits for a name. -/
  reportUnresolved : Bool
  deriving DecidableEq, Repr

def Options.standard : Options := ⟨.literalTrue, true⟩

/-- Where the types of imported names come from. It may change the client's store, and its notes
come latest first. -/
structure Importer (σ : Type) where
  typeOf (name source : String) (position : Position) (store : σ) :
    Except Halt Ty × σ × List Note

/-- What checking a block depends on. -/
structure Env (κ σ : Type) where
  options : Options
  importer : Importer σ
  /-- What becomes of the work that a change of the scopes hands back. -/
  settle : List (Deferral κ) → Check κ σ Unit

end Hoist
