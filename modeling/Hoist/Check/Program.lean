import Hoist.Check.Block
import Hoist.Check.Wave
import Hoist.Table
import Hoist.Typed.Alike

/-!
Checking a whole file: its statements in the outermost scope, then the names that somebody still
waits for, then the finished tree and the table of exports.
-/
namespace Hoist

structure Output where
  typed : List Typed.Stmt
  exports : Table ConcreteTy

namespace Output

def exportOf : Typed.Stmt → Option (String × ConcreteTy)
  | .leaf (.declare declaration) =>
    if declaration.exported then some (declaration.name, declaration.type) else none
  | .function signature _ =>
    if signature.exported then some (signature.name, signature.type) else none
  | _ => none

/-- The exported declarations of a file, in their order. -/
def ofStmts (typed : List Typed.Stmt) : Output :=
  ⟨typed, Table.ofList (typed.filterMap exportOf)⟩

/-- Two outputs say the same. -/
def alike (a b : Output) : Bool :=
  Typed.Stmt.allAlike a.typed b.typed && a.exports == b.exports

end Output

/-- An environment without work of a client's own. -/
def Env.plain {σ : Type} (options : Options) (importer : Importer σ) : Env Empty σ :=
  ⟨options, importer, Check.runWave fun task => nomatch task⟩

namespace Check

variable {κ σ : Type}

/-- Refuses the first name that somebody still waits for. -/
def reportUnresolved : Check κ σ Unit := do
  match (← scopes).firstWaiting? with
  | none => pure ()
  | some (name, position) => reject (.unresolvedReference name) position

/-- Checks the statements of a file, up to the drafts. -/
def analyze (env : Env κ σ) (program : List Stmt) : Check κ σ (List Outline) := do
  let outlines ← checkBlock env Checker.root none program
  if env.options.reportUnresolved then reportUnresolved
  note (.finished (← scopes).size)
  return outlines

end Check

/-- What comes of checking a file. The notes come latest first. -/
structure Run (σ : Type) where
  result : Except Halt Output
  store : σ
  journal : List Note

/-- The state in which the statements of a file leave a new checker. -/
def analyzeProgram {σ : Type} (importer : Importer σ) (options : Options) (budget : Nat)
    (store : σ) (program : List Stmt) : Except Halt (List Outline) × Checker Empty σ :=
  (Check.analyze (Env.plain options importer) program).run (Checker.initial store budget)

def checkProgram {σ : Type} (importer : Importer σ) (options : Options) (budget : Nat)
    (store : σ) (program : List Stmt) : Run σ :=
  let (outlines, state) := analyzeProgram importer options budget store program
  let result := do
    let typed ← state.complete (← outlines)
    return Output.ofStmts typed
  ⟨result, state.store, state.journal ++ [.started program.length]⟩

end Hoist
