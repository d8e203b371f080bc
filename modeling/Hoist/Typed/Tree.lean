import Hoist.Source.Position
import Hoist.Typed.Expr

/-!
The block structure of a checked file, over simple statements `α` and function heads `φ`. An `if`
with what follows it is one node, linked through its `Chain`.
-/
namespace Hoist.Typed

mutual

inductive Tree (α φ : Type)
  | leaf (content : α)
  | branch (condition : Expr) (body : List (Tree α φ)) (span : Span) (rest : Chain α φ)
  | loop (condition : Expr) (body : List (Tree α φ)) (span : Span)
  | function (head : φ) (body : List (Tree α φ))

inductive Chain (α φ : Type)
  | done
  | otherwise (body : List (Tree α φ)) (span : Span)
  | elseIf (condition : Expr) (body : List (Tree α φ)) (span : Span) (rest : Chain α φ)

end

variable {α β φ ψ ε : Type} (onLeaf : α → Except ε β) (onHead : φ → Except ε ψ)

mutual

/-- Replaces every simple statement and every function head, first to last. -/
def Tree.complete : Tree α φ → Except ε (Tree β ψ)
  | .leaf content => do
    let content ← onLeaf content
    return .leaf content
  | .branch condition body span rest => do
    let body ← Tree.completeAll body
    let rest ← Chain.complete rest
    return .branch condition body span rest
  | .loop condition body span => do
    let body ← Tree.completeAll body
    return .loop condition body span
  | .function head body => do
    let head ← onHead head
    let body ← Tree.completeAll body
    return .function head body

def Chain.complete : Chain α φ → Except ε (Chain β ψ)
  | .done => .ok .done
  | .otherwise body span => do
    let body ← Tree.completeAll body
    return .otherwise body span
  | .elseIf condition body span rest => do
    let body ← Tree.completeAll body
    let rest ← Chain.complete rest
    return .elseIf condition body span rest

def Tree.completeAll : List (Tree α φ) → Except ε (List (Tree β ψ))
  | [] => .ok []
  | tree :: rest => do
    let tree ← Tree.complete tree
    let rest ← Tree.completeAll rest
    return tree :: rest

end

end Hoist.Typed
