/-!
Places in a source file.
-/
namespace Hoist

/-- A byte offset into a file. -/
structure Position where
  offset : Nat
  file : String
  deriving DecidableEq, Inhabited, Repr

/-- The place of what was not read from a file. -/
def Position.nowhere : Position := ⟨0, "<null>"⟩

structure Span where
  start : Position
  stop : Position
  deriving DecidableEq, Inhabited, Repr

def Span.nowhere : Span := ⟨.nowhere, .nowhere⟩

end Hoist
