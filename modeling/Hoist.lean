import Hoist.Check.Block
import Hoist.Check.Env
import Hoist.Check.Equations
import Hoist.Check.Note
import Hoist.Check.Outline
import Hoist.Check.Program
import Hoist.Check.State
import Hoist.Check.Wave
import Hoist.Check.Work
import Hoist.Diagnostic.Basic
import Hoist.Diagnostic.Cause
import Hoist.Module.Registry
import Hoist.Proofs.Apart.Blocks
import Hoist.Proofs.Apart.Changes
import Hoist.Proofs.Apart.Matching
import Hoist.Proofs.Apart.Outlines
import Hoist.Proofs.Assignable
import Hoist.Proofs.Check.Arrivals
import Hoist.Proofs.Check.Answered
import Hoist.Proofs.Check.Bodies
import Hoist.Proofs.Check.BindsNames
import Hoist.Proofs.Check.Burden
import Hoist.Proofs.Check.Clear
import Hoist.Proofs.Check.Continues
import Hoist.Proofs.Check.Defer
import Hoist.Proofs.Check.Desk
import Hoist.Proofs.Check.Drafted
import Hoist.Proofs.Check.Ends
import Hoist.Proofs.Check.Evolves
import Hoist.Proofs.Check.Extend
import Hoist.Proofs.Check.Finished
import Hoist.Proofs.Check.Functions
import Hoist.Proofs.Check.Held
import Hoist.Proofs.Check.Imports
import Hoist.Proofs.Check.DraftsKept
import Hoist.Proofs.Check.Later
import Hoist.Proofs.Check.Leaves
import Hoist.Proofs.Check.Located
import Hoist.Proofs.Check.Manned
import Hoist.Proofs.Check.Move
import Hoist.Proofs.Check.Operation
import Hoist.Proofs.Check.Owned
import Hoist.Proofs.Check.Parts
import Hoist.Proofs.Check.Plan
import Hoist.Proofs.Check.Redo
import Hoist.Proofs.Check.Sites
import Hoist.Proofs.Check.Small
import Hoist.Proofs.Check.Sound
import Hoist.Proofs.Check.Walk
import Hoist.Proofs.Check.Wave
import Hoist.Proofs.Check.Yields
import Hoist.Proofs.Exports
import Hoist.Proofs.Interference
import Hoist.Proofs.Ledger
import Hoist.Proofs.Module.Discipline
import Hoist.Proofs.Module.Order
import Hoist.Proofs.Outcome
import Hoist.Proofs.Pieces
import Hoist.Proofs.Placement
import Hoist.Proofs.Preservation
import Hoist.Proofs.Recheck.Filled
import Hoist.Proofs.Recheck.Fixpoint
import Hoist.Proofs.Recheck.Quiet
import Hoist.Proofs.Recheck.Replay
import Hoist.Proofs.Reported
import Hoist.Proofs.Rounds
import Hoist.Proofs.Scope.Nearest
import Hoist.Proofs.Scope.Observe
import Hoist.Proofs.Scope.Path
import Hoist.Proofs.Scoping
import Hoist.Proofs.Shadowing
import Hoist.Proofs.Soundness
import Hoist.Proofs.Source.Caret
import Hoist.Proofs.Source.Lines
import Hoist.Proofs.Stability
import Hoist.Proofs.Termination
import Hoist.Proofs.Ty.Placeholders
import Hoist.Proofs.Typed.Forget
import Hoist.Proofs.Typed.Place
import Hoist.Proofs.Typed.Readable
import Hoist.Proofs.Typed.Reading
import Hoist.Proofs.Typed.Unfold
import Hoist.Proofs.Typing.Again
import Hoist.Proofs.Typing.Blocked
import Hoist.Proofs.Typing.Conversion
import Hoist.Proofs.Typing.Erase
import Hoist.Proofs.Typing.Faithful
import Hoist.Proofs.Typing.Filled
import Hoist.Proofs.Typing.Fresh
import Hoist.Proofs.Typing.Judgement
import Hoist.Proofs.Typing.Looking
import Hoist.Proofs.Typing.Mirror
import Hoist.Proofs.Typing.Refusals
import Hoist.Proofs.Typing.Targets
import Hoist.Proofs.Typing.Visit
import Hoist.Proofs.Typing.Waiting
import Hoist.Proofs.Typing.WellTyped
import Hoist.Proofs.Wakeup
import Hoist.Scope.Basic
import Hoist.Scope.Change
import Hoist.Scope.Lookup
import Hoist.Session.Basic
import Hoist.Session.Command
import Hoist.Source.Excerpt
import Hoist.Source.Line
import Hoist.Source.Position
import Hoist.Syntax.Alike
import Hoist.Syntax.Expr
import Hoist.Syntax.Number
import Hoist.Syntax.Operator
import Hoist.Syntax.Stmt
import Hoist.Table
import Hoist.Text.Blank
import Hoist.Text.Extending
import Hoist.Text.Hidden
import Hoist.Text.Quoted
import Hoist.Text.Ranges
import Hoist.Text.Unassigned
import Hoist.Ty.Basic
import Hoist.Ty.Concrete
import Hoist.Ty.Equality
import Hoist.Ty.Text
import Hoist.Typed.Alike
import Hoist.Typed.Expr
import Hoist.Typed.Stmt
import Hoist.Typed.Tree
import Hoist.Typing.Resolve
import Hoist.Typing.Rules
import Hoist.Typing.View
import Hoist.Proofs.Deferrals
import Hoist.Proofs.Nesting
import Hoist.Proofs.Scope.Frame
import Hoist.Proofs.Source.Bytes
