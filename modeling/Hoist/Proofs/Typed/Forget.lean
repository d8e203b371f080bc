import Hoist.Check.Outline
import Hoist.Proofs.Typing.Targets

/-!
From a draft to a checked statement and back. What is left of a checked statement when its types
are forgotten is the draft it was read off, with the type that was found as the annotation of a
declaration.

Main statements: `Work.forget_complete` and `Signature.forget_complete`.
-/
namespace Hoist

theorem atPosition_eq_ok {α : Type} {position : Position} {result : Except Cause α} {value : α} :
    atPosition position result = .ok value ↔ result = .ok value := by
  cases result <;> simp [atPosition]

/-- The statement that is written down in a draft. The type that was found for a declaration stands
as its annotation. -/
def Work.leaf : Work → Leaf
  | .declaration d => .declare { d with written := d.type }
  | .assignment a _ => .assign a
  | .returns r => .returns r
  | .evaluation e => .evaluate e

theorem Work.forget_complete {work : Work} {typed : Typed.Leaf}
    (completes : work.complete = .ok typed) : typed.forget = work.leaf := by
  cases work with
  | declaration d =>
    simp only [Work.complete, Declaration.complete, bind_eq_ok, pure_eq_ok] at completes
    obtain ⟨type, readType, value, read, rfl⟩ := completes
    simp only [Typed.Leaf.forget, Typed.Declaration.forget, Work.leaf,
      ConcreteTy.toTy_ofTy readType, Typed.Expr.toExpr_ofExpr read]
  | assignment a awaited =>
    simp only [Work.complete, Assignment.complete, bind_eq_ok, pure_eq_ok] at completes
    obtain ⟨target, readTarget, value, read, rfl⟩ := completes
    simp only [Typed.Leaf.forget, Typed.Assignment.forget, Work.leaf,
      Typed.Target.toTarget_ofTarget readTarget, Typed.Expr.toExpr_ofExpr read]
  | returns r =>
    obtain ⟨value, span⟩ := r
    cases value with
    | none =>
      obtain rfl := pure_eq_ok.1 completes
      rfl
    | some value =>
      simp only [Work.complete, Return.complete, bind_eq_ok, pure_eq_ok] at completes
      obtain ⟨typed, read, rfl⟩ := completes
      simp only [Typed.Leaf.forget, Option.map_some, Work.leaf, Typed.Expr.toExpr_ofExpr read]
  | evaluation e =>
    simp only [Work.complete, Evaluation.complete, bind_eq_ok, pure_eq_ok] at completes
    obtain ⟨value, read, rfl⟩ := completes
    simp only [Typed.Leaf.forget, Work.leaf, Typed.Expr.toExpr_ofExpr read]

theorem Signature.forget_complete {signature : Signature} {typed : Typed.Signature}
    (completes : signature.complete = .ok typed) : typed.forget = signature := by
  simp only [Signature.complete, bind_eq_ok, pure_eq_ok] at completes
  obtain ⟨parameters, readParameters, result, readResult, rfl⟩ := completes
  simp only [Typed.Signature.forget, ConcreteTy.toFields_ofFields readParameters,
    ConcreteTy.toTy_ofTy readResult]

end Hoist
