import Hoist.Diagnostic.Cause
import Hoist.Source.Position
import Hoist.Source.Excerpt

/-!
Diagnostics: a cause at a place. `Fault` and `Halt` are the ways in which work on a program stops;
both also know ids that lead nowhere, and a `Halt` may be a run that has used up its budget.
-/
namespace Hoist

structure Diagnostic where
  cause : Cause
  position : Position
  deriving DecidableEq, Inhabited, Repr

/-- The cause and its hint, the file, and the line if the place lies inside the source. -/
def Diagnostic.render (diagnostic : Diagnostic) (source : String) : String :=
  let headline := match diagnostic.cause.hint with
    | none => "Error: " ++ diagnostic.cause.name
    | some hint => "Error: " ++ diagnostic.cause.name ++ " (" ++ hint ++ ")"
  let excerpt := match Line.find? source diagnostic.position.offset with
    | none => ""
    | some line => "\n" ++ line.excerpt
  headline ++ "\n-> " ++ diagnostic.position.file ++ excerpt

/-- Why a single operation failed, before a place is known. -/
inductive Fault
  | refused (cause : Cause)
  /-- An id was looked at that names nothing. -/
  | dangling
  deriving DecidableEq, Inhabited, Repr

/-- Why a run stopped. -/
inductive Halt
  | rejected (diagnostic : Diagnostic)
  | dangling
  /-- The budget of steps was used up. -/
  | exhausted
  deriving DecidableEq, Inhabited, Repr

def Fault.haltAt (fault : Fault) (position : Position) : Halt :=
  match fault with
  | refused cause => .rejected ⟨cause, position⟩
  | dangling => .dangling

end Hoist
